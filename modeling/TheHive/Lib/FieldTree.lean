import Mathlib.Data.List.Induction
import Mathlib.Data.List.Lex
import Mathlib.Data.List.Sort

/-!
# Trees of named fields

Values that are scalars or maps of named values, the maps kept as association lists in ascending
order of their keys; paths into them, and writes at a path.

* `Ascending` — association lists in ascending order; `Ascending.ext` — they are determined by what
  they hold at each key.
* `insertKey`, `eraseKey` — the two changes of one entry.
* `Tree`, `Tree.get` — the value at a path; `probe` — a scalar, a map, or nothing.
  `Sorted.ext` — a tree with ascending maps is determined by its probes.
* `put` — write or delete at a path, making maps of everything above it.  `probe_put_below`,
  `probe_put_above`, `probe_put_of_unrelated` — **what a write changes**, for every other path.
* `puts` — writes in a row; `probe_puts_of_unrelated`, `probe_puts_last`, `probe_puts_congr` — the
  last write on the way to a path decides.
-/

set_option autoImplicit false

namespace FieldTree

universe u v

/-! ## Association lists -/

section Assoc

variable {κ : Type u} {β : Type v} [LinearOrder κ]

/-- The keys ascend. -/
def Ascending (l : List (κ × β)) : Prop := l.Pairwise fun a b => a.1 < b.1

theorem Ascending.nil : Ascending ([] : List (κ × β)) := List.Pairwise.nil

theorem Ascending.singleton (k : κ) (b : β) : Ascending [(k, b)] := List.pairwise_singleton _ _

variable {l l' : List (κ × β)} {k k' : κ} {b b' : β}

theorem Ascending.filter (h : Ascending l) (q : κ × β → Bool) : Ascending (l.filter q) :=
  List.Pairwise.filter q h

theorem Ascending.nodup (h : Ascending l) : l.Nodup := by
  have : Std.Irrefl fun a b : κ × β => a.1 < b.1 := ⟨fun a => lt_irrefl a.1⟩
  exact List.Pairwise.nodup h

theorem Ascending.nodup_keys (h : Ascending l) : (l.map Prod.fst).Nodup :=
  (List.pairwise_map.2 (h.imp fun hlt => hlt.ne))

theorem lookup_cons_eq (k : κ) (e : κ × β) (l : List (κ × β)) :
    (e :: l).lookup k = if k = e.1 then some e.2 else l.lookup k := by
  rw [List.lookup_cons]
  split
  · rename_i h
    rw [if_pos (beq_iff_eq.1 h)]
  · rename_i h
    rw [if_neg (beq_eq_false_iff_ne.1 h)]

/-- In an ascending list every entry is the one found under its key. -/
theorem Ascending.lookup_eq_some_iff (h : Ascending l) : l.lookup k = some b ↔ (k, b) ∈ l := by
  induction l with
  | nil => simp
  | cons e l ih =>
    obtain ⟨hhead, htail⟩ := List.pairwise_cons.1 h
    rw [lookup_cons_eq, List.mem_cons]
    split
    · rename_i hk
      subst hk
      have hnot : (e.1, b) ∉ l := fun hmem => lt_irrefl e.1 (hhead (e.1, b) hmem)
      rw [or_iff_left hnot, Option.some_inj, Prod.ext_iff]
      simp [eq_comm]
    · rename_i hk
      have hne : (k, b) ≠ e := fun he => hk (by rw [← he])
      rw [ih htail, or_iff_right hne]

theorem lookup_eq_none_iff : l.lookup k = none ↔ ∀ e ∈ l, k ≠ e.1 := by
  simp

/-- **Ascending lists that hold the same at each key are equal.** -/
theorem Ascending.ext (h : Ascending l) (h' : Ascending l')
    (hl : ∀ k, l.lookup k = l'.lookup k) : l = l' := by
  have hirrefl : Std.Irrefl fun a b : κ × β => a.1 < b.1 := ⟨fun a => lt_irrefl a.1⟩
  have hasymm : Std.Asymm fun a b : κ × β => a.1 < b.1 := ⟨fun _ _ => lt_asymm⟩
  refine List.Pairwise.eq_of_mem_iff h h' fun e => ?_
  rw [← h.lookup_eq_some_iff (k := e.1) (b := e.2), ← h'.lookup_eq_some_iff (k := e.1) (b := e.2), hl]

/-- Put an entry in its place, over the one of the same key. -/
def insertKey (k : κ) (b : β) : List (κ × β) → List (κ × β)
  | [] => [(k, b)]
  | e :: l =>
    if k < e.1 then (k, b) :: e :: l
    else if k = e.1 then (k, b) :: l
    else e :: insertKey k b l

def eraseKey (k : κ) (l : List (κ × β)) : List (κ × β) := l.filter fun e => e.1 ≠ k

theorem lookup_insertKey (k' k : κ) (b : β) (l : List (κ × β)) :
    (insertKey k b l).lookup k' = if k' = k then some b else l.lookup k' := by
  induction l with
  | nil => exact lookup_cons_eq k' (k, b) []
  | cons e l ih =>
    unfold insertKey
    split
    · exact lookup_cons_eq k' (k, b) (e :: l)
    · split
      · rename_i hk
        rw [lookup_cons_eq, lookup_cons_eq, ← hk]
        split <;> rfl
      · rename_i hk
        rw [lookup_cons_eq, lookup_cons_eq, ih]
        by_cases h : k' = e.1
        · have hne : k' ≠ k := fun heq => hk (by rw [← heq, h])
          simp [h, Ne.symm hk]
        · simp [h]

theorem lookup_eraseKey (k' k : κ) (l : List (κ × β)) :
    (eraseKey k l).lookup k' = if k' = k then none else l.lookup k' := by
  induction l with
  | nil => simp [eraseKey]
  | cons e l ih =>
    by_cases he : e.1 = k
    · rw [eraseKey, List.filter_cons_of_neg (by simp [he]), ← eraseKey, ih, lookup_cons_eq, he]
      split <;> rfl
    · rw [eraseKey, List.filter_cons_of_pos (by simp [he]), ← eraseKey, lookup_cons_eq, ih,
        lookup_cons_eq]
      by_cases h : k' = e.1
      · simp [h, he]
      · simp [h]

theorem mem_insertKey {e : κ × β} (h : e ∈ insertKey k b l) : e = (k, b) ∨ e ∈ l := by
  induction l with
  | nil => exact .inl (List.mem_singleton.1 h)
  | cons a l ih =>
    unfold insertKey at h
    split at h
    · exact (List.mem_cons.1 h).imp id id
    · split at h
      · exact (List.mem_cons.1 h).imp id (List.mem_cons_of_mem a)
      · rcases List.mem_cons.1 h with rfl | h
        · exact .inr List.mem_cons_self
        · exact (ih h).imp id (List.mem_cons_of_mem a)

theorem Ascending.insertKey (h : Ascending l) (k : κ) (b : β) : Ascending (insertKey k b l) := by
  induction l with
  | nil => exact Ascending.singleton k b
  | cons e l ih =>
    obtain ⟨hhead, htail⟩ := List.pairwise_cons.1 h
    unfold FieldTree.insertKey
    split
    · rename_i hlt
      refine List.Pairwise.cons ?_ h
      intro a ha
      rcases List.mem_cons.1 ha with rfl | ha
      · exact hlt
      · exact hlt.trans (hhead a ha)
    · split
      · rename_i hk
        refine List.Pairwise.cons ?_ htail
        intro a ha
        rw [hk]
        exact hhead a ha
      · rename_i hnlt hne
        refine List.Pairwise.cons ?_ (ih htail)
        intro a ha
        rcases mem_insertKey ha with rfl | ha
        · exact lt_of_le_of_ne (not_lt.1 hnlt) (Ne.symm hne)
        · exact hhead a ha

theorem Ascending.eraseKey (h : Ascending l) (k : κ) : Ascending (eraseKey k l) := h.filter _

theorem mem_keys_insertKey {j : κ} :
    j ∈ (insertKey k b l).map Prod.fst ↔ j = k ∨ j ∈ l.map Prod.fst := by
  induction l with
  | nil => simp [insertKey]
  | cons e l ih =>
    unfold insertKey
    split
    · simp
    · split
      · rename_i hk
        simp [hk]
      · rw [List.map_cons, List.mem_cons, ih, List.map_cons, List.mem_cons]
        exact or_left_comm

/-- Entries put in one after the other. -/
def assignAll (l : List (κ × β)) : List (κ × β) := l.foldl (fun acc e => insertKey e.1 e.2 acc) []

theorem assignAll_concat (l : List (κ × β)) (e : κ × β) :
    assignAll (l ++ [e]) = insertKey e.1 e.2 (assignAll l) := List.foldl_append

theorem ascending_assignAll (l : List (κ × β)) : Ascending (assignAll l) := by
  induction l using List.reverseRecOn with
  | nil => exact Ascending.nil
  | append_singleton l e ih =>
    rw [assignAll_concat]
    exact ih.insertKey e.1 e.2

theorem mem_of_mem_assignAll {e : κ × β} (h : e ∈ assignAll l) : e ∈ l := by
  induction l using List.reverseRecOn with
  | nil => exact h
  | append_singleton l a ih =>
    rw [assignAll_concat] at h
    rcases mem_insertKey h with rfl | h
    · simp
    · exact List.mem_append_left _ (ih h)

theorem mem_keys_assignAll : k ∈ (assignAll l).map Prod.fst ↔ k ∈ l.map Prod.fst := by
  induction l using List.reverseRecOn with
  | nil => exact Iff.rfl
  | append_singleton l a ih =>
    rw [assignAll_concat, mem_keys_insertKey, ih, List.map_append, List.mem_append]
    simp [or_comm]

/-- With one entry for each key it does not matter which comes first. -/
theorem lookup_assignAll_eq_some_iff (h : ∀ e ∈ l, ∀ e' ∈ l, e.1 = e'.1 → e = e') :
    (assignAll l).lookup k = some b ↔ (k, b) ∈ l := by
  rw [(ascending_assignAll l).lookup_eq_some_iff]
  refine ⟨mem_of_mem_assignAll, fun hmem => ?_⟩
  obtain ⟨e, he, hk⟩ := List.mem_map.1 (mem_keys_assignAll.2 (List.mem_map_of_mem (f := Prod.fst) hmem))
  rwa [← h e (mem_of_mem_assignAll he) _ hmem hk]

/-- The second of two insertions counts. -/
theorem insertKey_insertKey (k : κ) (b b' : β) (l : List (κ × β)) :
    insertKey k b (insertKey k b' l) = insertKey k b l := by
  induction l with
  | nil => simp [insertKey]
  | cons e l ih =>
    rw [insertKey]
    split
    · rename_i hlt
      simp [insertKey, hlt]
    · split
      · rename_i hnlt hk
        simp [insertKey, hk]
      · rename_i hnlt hne
        simp only [insertKey, if_neg hnlt, if_neg hne, ih]

end Assoc

/-! ## Trees -/

/-- A scalar, or a map of named values. -/
inductive Tree (κ : Type u) (α : Type v) where
  | scalar (a : α)
  | map (fields : List (κ × Tree κ α))

variable {κ : Type u} {α : Type v} [LinearOrder κ]

namespace Tree

/-- The entries; only a map has any. -/
def fields : Tree κ α → List (κ × Tree κ α)
  | scalar _ => []
  | map fs => fs

/-- The scalar, or `none` for a map. -/
def kind : Tree κ α → Option α
  | scalar a => some a
  | map _ => none

/-- What stands under a key; an empty map when there is nothing. -/
def child (k : κ) (t : Tree κ α) : Tree κ α := (t.fields.lookup k).getD (map [])

/-- The value at a path. -/
def get : List κ → Tree κ α → Option (Tree κ α)
  | [], t => some t
  | k :: x, t => (t.fields.lookup k).bind (get x)

/-- The entries of the map at a path. -/
def fieldsAt : List κ → Tree κ α → List (κ × Tree κ α)
  | [], t => t.fields
  | k :: x, t => fieldsAt x (t.child k)

/-- The maps ascend at every level. -/
inductive Sorted : Tree κ α → Prop
  | scalar (a : α) : Sorted (.scalar a)
  | map {fs : List (κ × Tree κ α)} (h : Ascending fs) (hs : ∀ e ∈ fs, Sorted e.2) : Sorted (.map fs)

end Tree

open FieldTree.Tree (kind fieldsAt)

variable {t t' D : Tree κ α} {k : κ} {x y : List κ} {fs : List (κ × Tree κ α)}

/-- What is at a path: nothing, a map (`some none`), or a scalar. -/
def probe (x : List κ) (t : Tree κ α) : Option (Option α) := (t.get x).map kind

theorem get_append (x y : List κ) (t : Tree κ α) :
    t.get (x ++ y) = (t.get x).bind (Tree.get y) := by
  induction x generalizing t with
  | nil => rfl
  | cons k x ih =>
    rw [List.cons_append, Tree.get, Tree.get, Option.bind_assoc]
    exact Option.bind_congr fun s _ => ih s

theorem get_append_singleton (x : List κ) (k : κ) (t : Tree κ α) :
    t.get (x ++ [k]) = (t.fieldsAt x).lookup k := by
  induction x generalizing t with
  | nil =>
    exact Option.bind_fun_some _
  | cons j x ih =>
    rw [List.cons_append, Tree.get, fieldsAt, Tree.child]
    cases h : t.fields.lookup j with
    | none =>
      rw [Option.getD_none, ← ih]
      cases x <;> rfl
    | some s => exact ih s

theorem probe_append {s : Tree κ α} (h : t.get x = some s) (y : List κ) :
    probe (x ++ y) t = probe y s := by
  rw [probe, get_append, h]
  rfl

/-- Below nothing there is nothing. -/
theorem probe_append_none (h : probe x t = none) (y : List κ) : probe (x ++ y) t = none := by
  rw [probe, Option.map_eq_none_iff] at h ⊢
  rw [get_append, h]
  rfl

theorem probe_eq_none_iff : probe x t = none ↔ t.get x = none := Option.map_eq_none_iff

/-- Whatever is above something is a map. -/
theorem probe_of_below (hy : y ≠ []) (h : probe (x ++ y) t ≠ none) : probe x t = some none := by
  rw [probe, ne_eq, Option.map_eq_none_iff, get_append] at h
  cases hx : t.get x with
  | none =>
    rw [hx] at h
    exact absurd rfl h
  | some s =>
    rw [hx, Option.bind_some] at h
    obtain ⟨k, y, rfl⟩ := List.exists_cons_of_ne_nil hy
    cases s with
    | scalar a => exact absurd rfl h
    | map fs =>
      rw [probe, hx]
      rfl

theorem probe_fields (h : t.fields.lookup k = t'.fields.lookup k) (x : List κ) :
    probe (k :: x) t = probe (k :: x) t' := by
  rw [probe, probe, Tree.get, Tree.get, h]

/-! ## Sorted trees -/

/-- The entries ascend, and so does all below them. -/
structure SortedFields (fs : List (κ × Tree κ α)) : Prop where
  ascending : Ascending fs
  below : ∀ e ∈ fs, e.2.Sorted

theorem SortedFields.sorted (h : SortedFields fs) : (Tree.map fs).Sorted := .map h.ascending h.below

theorem SortedFields.nil : SortedFields ([] : List (κ × Tree κ α)) :=
  ⟨Ascending.nil, fun _ h => by cases h⟩

theorem Tree.Sorted.fields (h : t.Sorted) : SortedFields t.fields := by
  cases h with
  | scalar a => exact SortedFields.nil
  | map h hs => exact ⟨h, hs⟩

theorem SortedFields.lookup {s : Tree κ α} (h : SortedFields fs) (hk : fs.lookup k = some s) :
    s.Sorted :=
  h.below (k, s) (h.ascending.lookup_eq_some_iff.1 hk)

theorem Tree.Sorted.child (h : t.Sorted) (k : κ) : (t.child k).Sorted := by
  unfold Tree.child
  cases hk : t.fields.lookup k with
  | none => exact SortedFields.nil.sorted
  | some s => exact h.fields.lookup hk

theorem Tree.Sorted.get {s : Tree κ α} (h : t.Sorted) (hx : t.get x = some s) : s.Sorted := by
  induction x generalizing t with
  | nil =>
    cases hx
    exact h
  | cons k x ih =>
    obtain ⟨s', hk, hx⟩ := Option.bind_eq_some_iff.1 hx
    exact ih (h.fields.lookup hk) hx

/-- **A sorted tree is determined by what it has at each path.** -/
theorem Tree.Sorted.ext (h : t.Sorted) (h' : t'.Sorted) (hp : ∀ x, probe x t = probe x t') :
    t = t' := by
  induction h generalizing t' with
  | scalar a =>
    have hroot := hp []
    cases h' with
    | scalar b =>
      have hab : a = b := by simpa [probe, Tree.get, kind] using hroot
      rw [hab]
    | map => simp [probe, Tree.get, kind] at hroot
  | @map fs hasc hs ih =>
    have hroot := hp []
    cases h' with
    | scalar b => simp [probe, Tree.get, kind] at hroot
    | @map fs' hasc' hs' =>
      congr 1
      refine hasc.ext hasc' fun k => ?_
      have hk := hp [k]
      simp only [probe, Tree.get, Tree.fields, Option.bind_fun_some] at hk
      cases hl : fs.lookup k with
      | none =>
        rw [hl] at hk
        exact (Option.map_eq_none_iff.1 hk.symm).symm
      | some s =>
        cases hl' : fs'.lookup k with
        | none =>
          rw [hl, hl'] at hk
          cases hk
        | some s' =>
          congr 1
          refine ih (k, s) (hasc.lookup_eq_some_iff.1 hl)
            (hs' (k, s') (hasc'.lookup_eq_some_iff.1 hl')) fun x => ?_
          have hx := hp (k :: x)
          simpa only [probe, Tree.get, Tree.fields, hl, hl', Option.bind_some] using hx

/-! ## Writes at a path -/

/-- A path that is not empty. -/
structure Path (κ : Type u) where
  parent : List κ
  last : κ
  deriving DecidableEq

namespace Path

variable {p q : Path κ}

def segments (p : Path κ) : List κ := p.parent ++ [p.last]

omit [LinearOrder κ] in
theorem segments_injective : Function.Injective (segments : Path κ → List κ) := by
  rintro ⟨x, j⟩ ⟨y, k⟩ h
  obtain ⟨hxy, hjk⟩ := List.append_inj' h rfl
  cases hxy
  cases hjk
  rfl

instance instLinearOrder : LinearOrder (Path κ) := LinearOrder.lift' segments segments_injective

theorem lt_iff : p < q ↔ p.segments < q.segments := Iff.rfl

/-- A path comes before what is below it. -/
theorem lt_of_prefix (h : p.segments <+: q.segments) (hne : p ≠ q) : p < q := by
  obtain ⟨z, hz⟩ := h
  cases z with
  | nil =>
    rw [List.append_nil] at hz
    exact absurd (segments_injective hz) hne
  | cons k z =>
    rw [lt_iff, ← hz]
    have hlt : p.segments ++ [] < p.segments ++ k :: z :=
      List.Lex.append_left (· < ·) List.Lex.nil p.segments
    rwa [List.append_nil] at hlt

/-- The path above, unless it is empty. -/
def up (p : Path κ) : Option (Path κ) := p.parent.getLast?.map fun k => ⟨p.parent.dropLast, k⟩

omit [LinearOrder κ] in
theorem up_eq_some (h : p.up = some q) : p.parent = q.segments := by
  obtain ⟨k, hk, rfl⟩ := Option.map_eq_some_iff.1 h
  exact (List.dropLast_append_getLast? k hk).symm

omit [LinearOrder κ] in
theorem up_eq_none (h : p.up = none) : p.parent = [] :=
  List.getLast?_eq_none_iff.1 (Option.map_eq_none_iff.1 h)

/-- Something at or below `p`, or strictly above it. -/
def Related (p : Path κ) (x : List κ) : Prop := p.segments <+: x ∨ x <+: p.parent

omit [LinearOrder κ] in
theorem parent_prefix_segments (p : Path κ) : p.parent <+: p.segments := List.prefix_append _ _

omit [LinearOrder κ] in
/-- Above or below: related. -/
theorem related_iff {x : List κ} : p.Related x ↔ p.segments <+: x ∨ x <+: p.segments := by
  constructor
  · exact Or.imp_right fun h => h.trans p.parent_prefix_segments
  · rintro (h | h)
    · exact .inl h
    · rcases List.prefix_concat_iff.1 h with h | h
      · exact .inl (by rw [h]; exact List.prefix_refl _)
      · exact .inr h

end Path

/-- Change the entries of the map at a path; what is on the way becomes a map. -/
def modify (f : List (κ × Tree κ α) → List (κ × Tree κ α)) : List κ → Tree κ α → Tree κ α
  | [], t => .map (f t.fields)
  | k :: x, t => .map (insertKey k (modify f x (t.child k)) t.fields)

/-- Write an entry, or delete it. -/
def write (k : κ) : Option (Tree κ α) → List (κ × Tree κ α) → List (κ × Tree κ α)
  | some s => insertKey k s
  | none => eraseKey k

/-- Write at a path, or delete there. -/
def put (p : Path κ) (v : Option (Tree κ α)) (t : Tree κ α) : Tree κ α :=
  modify (write p.last v) p.parent t

theorem lookup_write (j k : κ) (v : Option (Tree κ α)) (fs : List (κ × Tree κ α)) :
    (write k v fs).lookup j = if j = k then v else fs.lookup j := by
  cases v with
  | none => exact lookup_eraseKey j k fs
  | some s => exact lookup_insertKey j k s fs

theorem SortedFields.insertKey {s : Tree κ α} (h : SortedFields fs) (k : κ) (hs : s.Sorted) :
    SortedFields (insertKey k s fs) := by
  refine ⟨h.ascending.insertKey k s, fun e he => ?_⟩
  rcases mem_insertKey he with rfl | he
  · exact hs
  · exact h.below e he

section Modify

variable {f g : List (κ × Tree κ α) → List (κ × Tree κ α)}

theorem Tree.Sorted.modify (h : t.Sorted) (hf : ∀ fs, SortedFields fs → SortedFields (f fs))
    (x : List κ) : (modify f x t).Sorted := by
  induction x generalizing t with
  | nil => exact (hf _ h.fields).sorted
  | cons k x ih => exact (h.fields.insertKey k (ih (h.child k))).sorted

theorem child_insertKey (k : κ) (s : Tree κ α) (fs : List (κ × Tree κ α)) :
    (Tree.map (insertKey k s fs)).child k = s := by
  rw [Tree.child, Tree.fields, lookup_insertKey, if_pos rfl, Option.getD_some]

theorem map_fields_modify (x : List κ) (t : Tree κ α) :
    .map (modify f x t).fields = modify f x t := by
  cases x <;> rfl

/-- Two changes at one place are one. -/
theorem modify_modify (x : List κ) (t : Tree κ α) :
    modify f x (modify g x t) = modify (fun fs => f (g fs)) x t := by
  induction x generalizing t with
  | nil => rfl
  | cons k x ih =>
    rw [modify, modify, modify, child_insertKey, ih]
    exact congrArg Tree.map (insertKey_insertKey k _ _ _)

/-- Only what stands there matters. -/
theorem modify_congr {x : List κ} (h : f (t.fieldsAt x) = g (t.fieldsAt x)) :
    modify f x t = modify g x t := by
  induction x generalizing t with
  | nil => exact congrArg Tree.map h
  | cons k x ih => rw [modify, modify, ih h]

theorem fieldsAt_modify (x : List κ) (t : Tree κ α) :
    (modify f x t).fieldsAt x = f (t.fieldsAt x) := by
  induction x generalizing t with
  | nil => rfl
  | cons k x ih => rw [modify, fieldsAt, child_insertKey, ih, fieldsAt]

theorem probe_modify_above {x y : List κ} (h : y <+: x) (t : Tree κ α) :
    probe y (modify f x t) = some none := by
  induction y generalizing x t with
  | nil => cases x <;> rfl
  | cons k y ih =>
    obtain ⟨x, rfl⟩ : ∃ x', x = k :: x' := by
      obtain ⟨z, rfl⟩ := h
      exact ⟨y ++ z, rfl⟩
    have hrec := ih ((List.prefix_cons_inj k).1 h) (t.child k)
    rw [probe, modify, Tree.get, Tree.fields, lookup_insertKey, if_pos rfl, Option.bind_some]
    exact hrec

end Modify

theorem get_put (p : Path κ) (v : Option (Tree κ α)) (t : Tree κ α) :
    (put p v t).get p.segments = v := by
  rw [Path.segments, get_append_singleton, put, fieldsAt_modify, lookup_write, if_pos rfl]

/-- At and below the path there is what was written. -/
theorem probe_put_below (p : Path κ) (v : Option (Tree κ α)) (t : Tree κ α) (x : List κ) :
    probe (p.segments ++ x) (put p v t) = v.bind (probe x) := by
  rw [probe, get_append, get_put]
  cases v <;> rfl

/-- Strictly above it there are maps. -/
theorem probe_put_above {p : Path κ} (h : x <+: p.parent) (v : Option (Tree κ α)) (t : Tree κ α) :
    probe x (put p v t) = some none := probe_modify_above h t

/-- Everything else is unchanged. -/
theorem probe_put_of_unrelated {p : Path κ} (h : ¬ p.Related x) (v : Option (Tree κ α))
    (t : Tree κ α) : probe x (put p v t) = probe x t := by
  obtain ⟨parent, last⟩ := p
  induction parent generalizing x t with
  | nil =>
    cases x with
    | nil => exact absurd (.inr (List.nil_prefix)) h
    | cons k x =>
      have hk : k ≠ last := by
        rintro rfl
        exact h (.inl ((List.prefix_cons_inj k).2 List.nil_prefix))
      rw [probe, probe, put, modify, Tree.get, Tree.get, Tree.fields, lookup_write, if_neg hk]
  | cons j parent ih =>
    cases x with
    | nil => exact absurd (.inr (List.nil_prefix)) h
    | cons k x =>
      rw [put, modify]
      by_cases hk : k = j
      · subst hk
        have hx : ¬ Path.Related ⟨parent, last⟩ x := by
          rintro (hx | hx)
          · exact h (.inl ((List.prefix_cons_inj k).2 hx))
          · exact h (.inr ((List.prefix_cons_inj k).2 hx))
        have hrec := ih (t.child k) hx
        rw [probe, Tree.get, Tree.fields, lookup_insertKey, if_pos rfl, Option.bind_some]
        refine hrec.trans ?_
        -- nothing under the key, and the path goes on
        rw [probe, probe, Tree.get, Tree.child]
        cases hl : t.fields.lookup k with
        | some s => rfl
        | none =>
          cases x with
          | nil => exact absurd (.inr List.nil_prefix) hx
          | cons i x => rfl
      · refine probe_fields ?_ x
        rw [Tree.fields, lookup_insertKey, if_neg hk]

theorem probe_put_congr {p : Path κ} (h : p.Related x) (v : Option (Tree κ α)) (t t' : Tree κ α) :
    probe x (put p v t) = probe x (put p v t') := by
  rcases h with ⟨y, rfl⟩ | h
  · rw [probe_put_below, probe_put_below]
  · rw [probe_put_above h, probe_put_above h]

/-! ## Writes in a row -/

/-- One write after the other. -/
def puts (ws : List (Path κ × Option (Tree κ α))) (t : Tree κ α) : Tree κ α :=
  ws.foldl (fun t w => put w.1 w.2 t) t

section Puts

variable {ws : List (Path κ × Option (Tree κ α))} {w : Path κ × Option (Tree κ α)}

theorem puts_cons (w : Path κ × Option (Tree κ α)) (ws : List (Path κ × Option (Tree κ α)))
    (t : Tree κ α) : puts (w :: ws) t = puts ws (put w.1 w.2 t) := rfl

theorem puts_append (ws ws' : List (Path κ × Option (Tree κ α))) (t : Tree κ α) :
    puts (ws ++ ws') t = puts ws' (puts ws t) := List.foldl_append

theorem probe_puts_of_unrelated (h : ∀ w ∈ ws, ¬ w.1.Related x) (t : Tree κ α) :
    probe x (puts ws t) = probe x t := by
  induction ws generalizing t with
  | nil => rfl
  | cons w ws ih =>
    rw [puts_cons, ih fun w' hw' => h w' (List.mem_cons_of_mem w hw')]
    exact probe_put_of_unrelated (h w List.mem_cons_self) w.2 t

/-- **The last related write decides.** -/
theorem probe_puts_last (hw : w.1.Related x) {pre post : List (Path κ × Option (Tree κ α))}
    (hpost : ∀ w ∈ post, ¬ w.1.Related x) (t t' : Tree κ α) :
    probe x (puts (pre ++ w :: post) t) = probe x (put w.1 w.2 t') := by
  rw [puts_append, puts_cons, probe_puts_of_unrelated hpost]
  exact probe_put_congr hw w.2 _ _

omit [LinearOrder κ] in
/-- The last write that is related to a path. -/
theorem exists_last_related (h : ∃ w ∈ ws, w.1.Related x) :
    ∃ pre w post, ws = pre ++ w :: post ∧ w.1.Related x ∧ ∀ w ∈ post, ¬ w.1.Related x := by
  induction ws with
  | nil =>
    obtain ⟨w, hw, -⟩ := h
    cases hw
  | cons a ws ih =>
    by_cases hlater : ∃ w ∈ ws, w.1.Related x
    · obtain ⟨pre, w, post, hws, hw, hpost⟩ := ih hlater
      exact ⟨a :: pre, w, post, by rw [hws]; rfl, hw, hpost⟩
    · obtain ⟨w, hw, hrel⟩ := h
      rcases List.mem_cons.1 hw with rfl | hw
      · exact ⟨[], w, ws, rfl, hrel, fun w' hw' hrel' => hlater ⟨w', hw', hrel'⟩⟩
      · exact absurd ⟨w, hw, hrel⟩ hlater

/-- A path that some write is related to does not depend on where the writes began. -/
theorem probe_puts_congr (h : ∃ w ∈ ws, w.1.Related x) (t t' : Tree κ α) :
    probe x (puts ws t) = probe x (puts ws t') := by
  obtain ⟨pre, w, post, rfl, hw, hpost⟩ := exists_last_related h
  rw [probe_puts_last hw hpost t t, probe_puts_last hw hpost t' t]

/-- A map stays one while nothing is written at or above it. -/
theorem probe_puts_stays_map (hmap : probe x t = some none)
    (hnot : ∀ w ∈ ws, ¬ w.1.segments <+: x) : probe x (puts ws t) = some none := by
  induction ws generalizing t with
  | nil => exact hmap
  | cons w ws ih =>
    refine ih ?_ fun w' hw' => hnot w' (List.mem_cons_of_mem w hw')
    by_cases habove : x <+: w.1.parent
    · exact probe_put_above habove w.2 t
    · rw [probe_put_of_unrelated (fun h => h.elim (hnot w List.mem_cons_self) habove), hmap]

/-- Where nothing was deleted, something written that is missing was overwritten from above. -/
theorem exists_above_of_missing (hset : ∀ w ∈ ws, w.2.isSome) {q : List κ}
    (hrel : ∃ w ∈ ws, w.1.Related q) (hmissing : probe q (puts ws t) = none) :
    ∃ w ∈ ws, w.1.segments <+: q ∧ w.1.segments ≠ q := by
  obtain ⟨pre, w, post, rfl, hw, hpost⟩ := exists_last_related hrel
  rw [probe_puts_last hw hpost t t] at hmissing
  refine ⟨w, by simp, ?_⟩
  rcases hw with hbelow | habove
  · refine ⟨hbelow, fun heq => ?_⟩
    rw [← heq, probe_eq_none_iff, get_put] at hmissing
    have hsome := hset w (by simp)
    rw [hmissing] at hsome
    cases hsome
  · rw [probe_put_above habove] at hmissing
    cases hmissing

/-- **Writing into `t` what `D` has there**: every path is now as in `D`, or a map on the way to
something written, or, away from all writes, as it was. -/
theorem probe_puts_exact (hD : ∀ w ∈ ws, w.2 = D.get w.1.segments) (t : Tree κ α) (x : List κ) :
    (∃ w ∈ ws, w.1.Related x) ∧ probe x (puts ws t) = probe x D ∨
      (∃ w ∈ ws, x <+: w.1.parent) ∧ probe x (puts ws t) = some none ∨
      (∀ w ∈ ws, ¬ w.1.Related x) ∧ probe x (puts ws t) = probe x t := by
  by_cases hrel : ∃ w ∈ ws, w.1.Related x
  · obtain ⟨pre, w, post, rfl, hw, hpost⟩ := exists_last_related hrel
    rw [probe_puts_last hw hpost t t]
    rcases id hw with ⟨y, rfl⟩ | habove
    · refine .inl ⟨hrel, ?_⟩
      rw [probe_put_below, hD w (by simp), probe, get_append]
      cases D.get w.1.segments <;> rfl
    · exact .inr (.inl ⟨⟨w, by simp, habove⟩, probe_put_above habove w.2 t⟩)
  · have hnot : ∀ w ∈ ws, ¬ w.1.Related x := fun w hw h => hrel ⟨w, hw, h⟩
    exact .inr (.inr ⟨hnot, probe_puts_of_unrelated hnot t⟩)

end Puts

end FieldTree
