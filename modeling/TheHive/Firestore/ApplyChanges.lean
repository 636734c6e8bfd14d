import Mathlib.Data.String.Basic
import TheHive.Lib.FieldTree

/-!
# Changing a map of the Firestore client

`ApplyChanges` of the vendored client merges a map with upserts and deletes, in one pass over the
three, all in ascending order.

* `applyChanges` — the pass; it stops when it has written as many entries as should be left.
* `merged`, `applyLoop_eq_take` — the pass without its count; the count cuts it off.
* `lookup_merged` — the deletes carried out are those before the first that names no entry.
* `applyChanges_exact_iff` — **the merge is right exactly when no entry that has to stay comes after
  an entry whose delete is passed over**.
* `lookup_applyChanges` — it is right when every delete of an entry is carried out.
-/

set_option autoImplicit false

namespace Firestore

open FieldTree

universe u

variable {β : Type u}

/-- `CalculateSizeOfUnion`. -/
def calculateSizeOfUnion (source upserts : List (String × β)) (deletes : List String) : Nat :=
  upserts.length + source.countP fun e => e.1 ∉ deletes ∧ (upserts.lookup e.1).isNone

/-- The loop of `ApplyChanges`, with the number of entries still to be written.  The head of
`deletes` is what `delete_it` points to: it moves on only when the map has that entry. -/
def applyLoop : Nat → List (String × β) → List (String × β) → List String → List (String × β)
  | 0, _, _, _ => []
  | n + 1, e :: source, upserts, deletes =>
    if deletes.head? = some e.1 then applyLoop (n + 1) source upserts deletes.tail
    else match upserts with
      | [] => e :: applyLoop n source [] deletes
      | u :: upserts =>
        if u.1 = e.1 then (e.1, u.2) :: applyLoop n source upserts deletes
        else if e.1 < u.1 then e :: applyLoop n source (u :: upserts) deletes
        else u :: applyLoop n (e :: source) upserts deletes
  | n + 1, [], u :: upserts, deletes => u :: applyLoop n [] upserts deletes
  | _ + 1, [], [], _ => []
  termination_by _ source upserts _ => source.length + upserts.length

/-- `ApplyChanges`. -/
def applyChanges (source upserts : List (String × β)) (deletes : List String) : List (String × β) :=
  applyLoop (calculateSizeOfUnion source upserts deletes) source upserts deletes

example : applyChanges [("a", 1), ("c", 3)] [("b", 2)] ["c"] = [("a", 1), ("b", 2)] := by
  decide +kernel

/-- The pass to the end of the map and of the upserts. -/
def merged : List (String × β) → List (String × β) → List String → List (String × β)
  | e :: source, upserts, deletes =>
    if deletes.head? = some e.1 then merged source upserts deletes.tail
    else match upserts with
      | [] => e :: merged source [] deletes
      | u :: upserts =>
        if u.1 = e.1 then (e.1, u.2) :: merged source upserts deletes
        else if e.1 < u.1 then e :: merged source (u :: upserts) deletes
        else u :: merged (e :: source) upserts deletes
  | [], upserts, _ => upserts
  termination_by source upserts _ => source.length + upserts.length

/-- **The count cuts the pass off.** -/
theorem applyLoop_eq_take (n : Nat) (source upserts : List (String × β)) (deletes : List String) :
    applyLoop n source upserts deletes = (merged source upserts deletes).take n := by
  fun_induction applyLoop n source upserts deletes with
  | case1 => simp
  | case2 n e source upserts deletes h ih =>
    have hskip : merged (e :: source) upserts deletes = merged source upserts deletes.tail := by
      rw [merged.eq_def]
      exact if_pos h
    rw [ih, hskip]
  | case3 n e source deletes h ih => rw [ih, merged, if_neg h, List.take_succ_cons]
  | case4 n e source deletes h u upserts hu ih =>
    rw [ih, merged, if_neg h]
    simp only [if_pos hu, List.take_succ_cons]
  | case5 n e source deletes h u upserts hu hlt ih =>
    rw [ih, merged, if_neg h]
    simp only [if_neg hu, if_pos hlt, List.take_succ_cons]
  | case6 n e source deletes h u upserts hu hlt ih =>
    rw [ih, merged, if_neg h]
    simp only [if_neg hu, if_neg hlt, List.take_succ_cons]
  | case7 n u upserts deletes ih =>
    rw [ih]
    simp [merged]
  | case8 => simp [merged]

/-! ## What the pass makes -/

/-- The deletes that are carried out: those before the first entry the map does not have. -/
def reached (source : List (String × β)) (deletes : List String) : List String :=
  deletes.takeWhile fun x => (source.lookup x).isSome

variable {source upserts : List (String × β)} {deletes : List String} {e u : String × β}
  {x k : String}

/-- With its head missing from the map, no delete is carried out. -/
theorem reached_eq_nil (h : source.lookup x = none) : reached source (x :: deletes) = [] := by
  rw [reached, List.takeWhile_cons_of_neg (by simp [h])]

/-- An entry before all deletes makes no difference. -/
theorem reached_cons_of_lt (h : ∀ x ∈ deletes, e.1 < x) :
    reached (e :: source) deletes = reached source deletes := by
  unfold reached
  induction deletes with
  | nil => rfl
  | cons x deletes ih =>
    have hx : x ≠ e.1 := (h x List.mem_cons_self).ne'
    have hrec := ih fun y hy => h y (List.mem_cons_of_mem x hy)
    rw [List.takeWhile_cons, List.takeWhile_cons, lookup_cons_eq, if_neg hx, hrec]

/-- The head of the deletes is the entry. -/
theorem reached_cons_self (hx : (x :: deletes).Pairwise (· < ·)) (he : e.1 = x) :
    reached (e :: source) (x :: deletes) = x :: reached source deletes := by
  have hhead : ((e :: source).lookup x).isSome := by
    rw [lookup_cons_eq, if_pos he.symm]
    rfl
  have hlt : ∀ y ∈ deletes, e.1 < y := by
    rw [he]
    exact (List.pairwise_cons.1 hx).1
  have hrest : reached (e :: source) deletes = reached source deletes := reached_cons_of_lt hlt
  rw [reached, List.takeWhile_cons, if_pos hhead, ← hrest, reached]

/-- An entry that is not the head of the deletes. -/
theorem reached_cons_of_ne (hasc : Ascending (e :: source)) (hx : deletes.Pairwise (· < ·))
    (hne : deletes.head? ≠ some e.1) : reached (e :: source) deletes = reached source deletes := by
  cases deletes with
  | nil => rfl
  | cons x deletes =>
    have hxe : x ≠ e.1 := fun h => hne (by rw [h]; rfl)
    rcases lt_or_gt_of_ne hxe with hlt | hgt
    · -- the map is past the delete
      have hafter : ∀ a ∈ e :: source, x ≠ a.1 := by
        intro a ha
        rcases List.mem_cons.1 ha with rfl | ha
        · exact hxe
        · exact (hlt.trans ((List.pairwise_cons.1 hasc).1 a ha)).ne
      rw [reached_eq_nil (lookup_eq_none_iff.2 hafter),
        reached_eq_nil (lookup_eq_none_iff.2 fun a ha => hafter a (List.mem_cons_of_mem e ha))]
    · refine reached_cons_of_lt fun y hy => ?_
      rcases List.mem_cons.1 hy with rfl | hy
      · exact hgt
      · exact hgt.trans ((List.pairwise_cons.1 hx).1 y hy)

theorem mem_reached_iff (hx : deletes.Pairwise (· < ·)) :
    x ∈ reached source deletes ↔
      x ∈ deletes ∧ ∀ y ∈ deletes, y ≤ x → (source.lookup y).isSome := by
  unfold reached
  induction deletes with
  | nil => simp
  | cons z deletes ih =>
    obtain ⟨hhead, htail⟩ := List.pairwise_cons.1 hx
    cases hz : (source.lookup z).isSome with
    | false =>
      rw [List.takeWhile_cons_of_neg (by simp [hz])]
      refine iff_of_false List.not_mem_nil ?_
      rintro ⟨hmem, hall⟩
      have hzx : z ≤ x := by
        rcases List.mem_cons.1 hmem with rfl | hmem
        · exact le_refl x
        · exact (hhead x hmem).le
      rw [hall z List.mem_cons_self hzx] at hz
      cases hz
    | true =>
      rw [List.takeWhile_cons_of_pos (by simp [hz]), List.mem_cons, List.mem_cons, ih htail]
      constructor
      · rintro (rfl | ⟨hmem, hall⟩)
        · refine ⟨.inl rfl, fun y hy hyx => ?_⟩
          rcases List.mem_cons.1 hy with rfl | hy
          · exact hz
          · exact absurd hyx (not_le.2 (hhead y hy))
        · refine ⟨.inr hmem, fun y hy hyx => ?_⟩
          rcases List.mem_cons.1 hy with rfl | hy
          · exact hz
          · exact hall y hy hyx
      · rintro ⟨rfl | hmem, hall⟩
        · exact .inl rfl
        · exact .inr ⟨hmem, fun y hy hyx => hall y (List.mem_cons_of_mem z hy) hyx⟩

/-- The pass writes entries of the map and upserts, nothing else. -/
theorem mem_merged {a : String × β} (h : a ∈ merged source upserts deletes) :
    a ∈ source ∨ a ∈ upserts := by
  fun_induction merged source upserts deletes with
  | case1 e source upserts deletes hd ih => exact (ih h).imp_left (List.mem_cons_of_mem e)
  | case2 e source deletes hd ih =>
    rcases List.mem_cons.1 h with rfl | h
    · exact .inl List.mem_cons_self
    · exact (ih h).imp_left (List.mem_cons_of_mem e)
  | case3 e source deletes hd u upserts hu ih =>
    rcases List.mem_cons.1 h with rfl | h
    · rw [← hu]
      exact .inr List.mem_cons_self
    · exact (ih h).imp (List.mem_cons_of_mem e) (List.mem_cons_of_mem u)
  | case4 e source deletes hd u upserts hu hlt ih =>
    rcases List.mem_cons.1 h with rfl | h
    · exact .inl List.mem_cons_self
    · exact (ih h).imp_left (List.mem_cons_of_mem e)
  | case5 e source deletes hd u upserts hu hlt ih =>
    rcases List.mem_cons.1 h with rfl | h
    · exact .inr List.mem_cons_self
    · exact (ih h).imp_right (List.mem_cons_of_mem u)
  | case6 upserts deletes => exact .inr h

/-- **The pass keeps the order.** -/
theorem ascending_merged (hs : Ascending source) (hu : Ascending upserts) (deletes : List String) :
    Ascending (merged source upserts deletes) := by
  fun_induction merged source upserts deletes with
  | case1 e source upserts deletes hd ih => exact ih (List.pairwise_cons.1 hs).2 hu
  | case2 e source deletes hd ih =>
    obtain ⟨hhead, htail⟩ := List.pairwise_cons.1 hs
    refine List.Pairwise.cons (fun a ha => ?_) (ih htail Ascending.nil)
    rcases mem_merged ha with ha | ha
    · exact hhead a ha
    · cases ha
  | case3 e source deletes hd u upserts heq ih =>
    obtain ⟨hhead, htail⟩ := List.pairwise_cons.1 hs
    obtain ⟨huhead, hutail⟩ := List.pairwise_cons.1 hu
    refine List.Pairwise.cons (fun a ha => ?_) (ih htail hutail)
    rcases mem_merged ha with ha | ha
    · exact hhead a ha
    · exact heq ▸ huhead a ha
  | case4 e source deletes hd u upserts heq hlt ih =>
    obtain ⟨hhead, htail⟩ := List.pairwise_cons.1 hs
    refine List.Pairwise.cons (fun a ha => ?_) (ih htail hu)
    rcases mem_merged ha with ha | ha
    · exact hhead a ha
    · rcases List.mem_cons.1 ha with rfl | ha
      · exact hlt
      · exact hlt.trans ((List.pairwise_cons.1 hu).1 a ha)
  | case5 e source deletes hd u upserts heq hlt ih =>
    obtain ⟨huhead, hutail⟩ := List.pairwise_cons.1 hu
    have hue : u.1 < e.1 := lt_of_le_of_ne (not_lt.1 hlt) heq
    refine List.Pairwise.cons (fun a ha => ?_) (ih hs hutail)
    rcases mem_merged ha with ha | ha
    · rcases List.mem_cons.1 ha with rfl | ha
      · exact hue
      · exact hue.trans ((List.pairwise_cons.1 hs).1 a ha)
    · exact huhead a ha
  | case6 upserts deletes => exact hu

/-- A delete of the entry before the map is not carried out in the map. -/
theorem not_mem_reached (hhead : ∀ a ∈ source, k < a.1) (hx : deletes.Pairwise (· < ·)) :
    k ∉ reached source deletes := fun hmem => by
  obtain ⟨hk, hall⟩ := (mem_reached_iff hx).1 hmem
  have hhas := hall k hk (le_refl k)
  rw [lookup_eq_none_iff.2 fun a ha => (hhead a ha).ne] at hhas
  cases hhas

/-- **What the pass has at each key.** -/
theorem lookup_merged (hs : Ascending source) (hu : Ascending upserts)
    (hx : deletes.Pairwise (· < ·)) (k : String) :
    (merged source upserts deletes).lookup k =
      (upserts.lookup k).or (if k ∈ reached source deletes then none else source.lookup k) := by
  fun_induction merged source upserts deletes with
  | case1 e source upserts deletes hd ih =>
    obtain ⟨hhead, htail⟩ := List.pairwise_cons.1 hs
    obtain ⟨deletes, rfl⟩ : ∃ deletes', deletes = e.1 :: deletes' := by
      cases deletes with
      | nil => cases hd
      | cons x deletes =>
        obtain rfl : x = e.1 := by simpa using hd
        exact ⟨deletes, rfl⟩
    have hrec := ih htail hu (List.pairwise_cons.1 hx).2
    rw [List.tail_cons] at hrec ⊢
    rw [hrec, reached_cons_self hx rfl, lookup_cons_eq]
    by_cases hk : k = e.1
    · -- the entry is gone, and it was the only one
      have hgone : source.lookup k = none :=
        lookup_eq_none_iff.2 fun a ha => hk ▸ (hhead a ha).ne
      simp [hk, hk ▸ hgone]
    · simp [hk]
  | case2 e source deletes hd ih =>
    obtain ⟨hhead, htail⟩ := List.pairwise_cons.1 hs
    rw [lookup_cons_eq, ih htail Ascending.nil hx, reached_cons_of_ne hs hx hd, lookup_cons_eq]
    by_cases hk : k = e.1
    · simp [hk, not_mem_reached hhead hx]
    · simp [hk]
  | case3 e source deletes hd u upserts heq ih =>
    obtain ⟨hhead, htail⟩ := List.pairwise_cons.1 hs
    obtain ⟨huhead, hutail⟩ := List.pairwise_cons.1 hu
    rw [lookup_cons_eq, ih htail hutail hx, reached_cons_of_ne hs hx hd]
    simp only [lookup_cons_eq, heq]
    by_cases hk : k = e.1
    · simp [hk]
    · simp [hk]
  | case4 e source deletes hd u upserts heq hlt ih =>
    obtain ⟨hhead, htail⟩ := List.pairwise_cons.1 hs
    rw [lookup_cons_eq, ih htail hu hx, reached_cons_of_ne hs hx hd, lookup_cons_eq (l := source)]
    by_cases hk : k = e.1
    · have hnone : (u :: upserts).lookup e.1 = none := by
        refine lookup_eq_none_iff.2 fun a ha => ?_
        rcases List.mem_cons.1 ha with rfl | ha
        · exact hlt.ne
        · exact (hlt.trans ((List.pairwise_cons.1 hu).1 a ha)).ne
      rw [hk, hnone, if_pos rfl, if_pos rfl, if_neg (not_mem_reached hhead hx), Option.none_or]
    · rw [if_neg hk, if_neg hk]
  | case5 e source deletes hd u upserts heq hlt ih =>
    obtain ⟨huhead, hutail⟩ := List.pairwise_cons.1 hu
    rw [lookup_cons_eq, ih hs hutail hx, lookup_cons_eq k u upserts]
    by_cases hk : k = u.1
    · rw [if_pos hk, if_pos hk, Option.some_or]
    · rw [if_neg hk, if_neg hk]
  | case6 upserts deletes => simp
/-! ## Where the count cuts -/

/-- A prefix of the right length holds what passes a test exactly when that is all in front. -/
theorem take_length_filter_iff {γ : Type u} {r : γ → γ → Prop} (hasymm : ∀ a b, r a b → ¬ r b a)
    {l : List γ} (hl : l.Pairwise r) (p : γ → Bool) :
    l.take (l.filter p).length = l.filter p ↔
      ∀ a ∈ l, p a = false → ∀ b ∈ l, p b → r b a := by
  constructor
  · intro htake a ha hpa b hb hpb
    have hsplit := List.take_append_drop (l.filter p).length l
    rw [htake] at hsplit
    rw [← hsplit, List.pairwise_append] at hl
    have hb' : b ∈ l.filter p := List.mem_filter.2 ⟨hb, hpb⟩
    rw [← hsplit] at ha
    rcases List.mem_append.1 ha with ha | ha
    · rw [(List.mem_filter.1 ha).2] at hpa
      cases hpa
    · exact hl.2.2 b hb' a ha
  · intro hfront
    induction l with
    | nil => rfl
    | cons a l ih =>
      obtain ⟨hhead, htail⟩ := List.pairwise_cons.1 hl
      have hrec := ih htail fun c hc hpc b hb hpb =>
        hfront c (List.mem_cons_of_mem a hc) hpc b (List.mem_cons_of_mem a hb) hpb
      cases hpa : p a with
      | true => rw [List.filter_cons_of_pos hpa, List.length_cons, List.take_succ_cons, hrec]
      | false =>
        -- nothing that passes can come before `a`
        have hnone : l.filter p = [] := by
          rw [List.filter_eq_nil_iff]
          intro b hb hpb
          exact hasymm a b (hhead b hb)
            (hfront a List.mem_cons_self hpa b (List.mem_cons_of_mem a hb) hpb)
        rw [List.filter_cons_of_neg (by simp [hpa]), hnone]
        rfl

/-- What the merge should have at a key. -/
def intended (source upserts : List (String × β)) (deletes : List String) (k : String) : Option β :=
  if k ∈ deletes then none else (upserts.lookup k).or (source.lookup k)

/-- No field is both written and deleted. -/
def Apart (upserts : List (String × β)) (deletes : List String) : Prop :=
  ∀ x ∈ deletes, upserts.lookup x = none

/-- What is left of the pass without the deletes is what was intended. -/
theorem lookup_filter_merged (hs : Ascending source) (hu : Ascending upserts)
    (hx : deletes.Pairwise (· < ·)) (k : String) :
    ((merged source upserts deletes).filter fun e => e.1 ∉ deletes).lookup k =
      intended source upserts deletes k := by
  have hasc := ascending_merged hs hu deletes
  have hmem : ∀ b, ((merged source upserts deletes).filter fun e => e.1 ∉ deletes).lookup k = some b ↔
      intended source upserts deletes k = some b := by
    intro b
    rw [(hasc.filter _).lookup_eq_some_iff, List.mem_filter, ← hasc.lookup_eq_some_iff,
      lookup_merged hs hu hx, intended]
    by_cases hk : k ∈ deletes
    · simp [hk]
    · have hnot : k ∉ reached source deletes := fun hmem => hk ((mem_reached_iff hx).1 hmem).1
      simp [hk, hnot]
  exact Option.ext hmem

/-- **The count is that of the entries that should be left.** -/
theorem calculateSizeOfUnion_eq (hs : Ascending source) (hu : Ascending upserts)
    (hx : deletes.Pairwise (· < ·)) (hapart : Apart upserts deletes) :
    calculateSizeOfUnion source upserts deletes =
      ((merged source upserts deletes).filter fun e => e.1 ∉ deletes).length := by
  have hasc := (ascending_merged hs hu deletes).filter fun e => e.1 ∉ deletes
  let stays : String × β → Bool := fun e => e.1 ∉ deletes ∧ (upserts.lookup e.1).isNone
  have hdisjoint : upserts.Disjoint (source.filter stays) := by
    intro a hau has
    have hnone : (upserts.lookup a.1).isNone := by
      have hstays := (List.mem_filter.1 has).2
      simp only [stays, decide_eq_true_eq] at hstays
      exact hstays.2
    rw [hu.lookup_eq_some_iff.2 (show (a.1, a.2) ∈ upserts from hau)] at hnone
    cases hnone
  have hperm : ((merged source upserts deletes).filter fun e => e.1 ∉ deletes).Perm
      (upserts ++ source.filter stays) := by
    refine (List.perm_ext_iff_of_nodup hasc.nodup
      (List.nodup_append'.2 ⟨hu.nodup, hs.nodup.filter _, hdisjoint⟩)).2 fun a => ?_
    rw [← hasc.lookup_eq_some_iff (k := a.1) (b := a.2), lookup_filter_merged hs hu hx,
      intended, List.mem_append, ← hu.lookup_eq_some_iff (k := a.1) (b := a.2), List.mem_filter,
      ← hs.lookup_eq_some_iff (k := a.1) (b := a.2)]
    by_cases hk : a.1 ∈ deletes
    · simp [stays, hk, hapart a.1 hk]
    · cases hl : upserts.lookup a.1 with
      | none => simp [stays, hk, hl]
      | some b => simp [stays, hk, hl]
  rw [hperm.length_eq, List.length_append, calculateSizeOfUnion, List.countP_eq_length_filter]

theorem applyChanges_eq_take (hs : Ascending source) (hu : Ascending upserts)
    (hx : deletes.Pairwise (· < ·)) (hapart : Apart upserts deletes) :
    applyChanges source upserts deletes = (merged source upserts deletes).take
      ((merged source upserts deletes).filter fun e => e.1 ∉ deletes).length := by
  rw [applyChanges, applyLoop_eq_take, calculateSizeOfUnion_eq hs hu hx hapart]

/-- **The merge is right exactly when no entry that has to stay comes after an entry whose delete
is passed over**, because an earlier delete names an entry the map does not have. -/
theorem applyChanges_exact_iff (hs : Ascending source) (hu : Ascending upserts)
    (hx : deletes.Pairwise (· < ·)) (hapart : Apart upserts deletes) :
    (∀ k, (applyChanges source upserts deletes).lookup k = intended source upserts deletes k) ↔
      ∀ x ∈ deletes, (source.lookup x).isSome →
        (∃ y ∈ deletes, y < x ∧ source.lookup y = none) →
          ∀ k, (intended source upserts deletes k).isSome → k < x := by
  have hasc := ascending_merged hs hu deletes
  have hlookup := lookup_filter_merged hs hu hx
  have hright : (∀ k, (applyChanges source upserts deletes).lookup k =
      intended source upserts deletes k) ↔ (merged source upserts deletes).take
        ((merged source upserts deletes).filter fun e => e.1 ∉ deletes).length =
          (merged source upserts deletes).filter fun e => e.1 ∉ deletes := by
    rw [applyChanges_eq_take hs hu hx hapart]
    constructor
    · intro hall
      refine Ascending.ext (hasc.sublist (List.take_sublist _ _)) (hasc.filter _) fun k => ?_
      rw [hall, hlookup]
    · intro heq k
      rw [heq, hlookup]
  rw [hright, take_length_filter_iff (fun a b => lt_asymm) hasc]
  constructor
  · intro hfront x hx' hhas hmissed k hk
    obtain ⟨y, hy, hyx, hymiss⟩ := hmissed
    have hnot : x ∉ reached source deletes := fun hmem => by
      have hyhas := ((mem_reached_iff hx).1 hmem).2 y hy hyx.le
      rw [hymiss] at hyhas
      cases hyhas
    obtain ⟨b, hb⟩ := Option.isSome_iff_exists.1 hhas
    have hxmem : (x, b) ∈ merged source upserts deletes := by
      rw [← hasc.lookup_eq_some_iff, lookup_merged hs hu hx, hapart x hx', if_neg hnot, hb]
      rfl
    obtain ⟨c, hc⟩ := Option.isSome_iff_exists.1 hk
    rw [← hlookup, (hasc.filter _).lookup_eq_some_iff, List.mem_filter] at hc
    exact hfront (x, b) hxmem (by simpa using hx') (k, c) hc.1 hc.2
  · intro hcond a ha hpa b hb hpb
    have hdel : a.1 ∈ deletes := by simpa using hpa
    have hkept : b.1 ∉ deletes := by simpa using hpb
    have hla := hasc.lookup_eq_some_iff.2 (show (a.1, a.2) ∈ _ from ha)
    rw [lookup_merged hs hu hx, hapart a.1 hdel, Option.none_or] at hla
    by_cases hreached : a.1 ∈ reached source deletes
    · rw [if_pos hreached] at hla
      cases hla
    · rw [if_neg hreached] at hla
      -- some delete before it is missing from the map
      have hmissed : ∃ y ∈ deletes, y < a.1 ∧ source.lookup y = none := by
        by_contra hnone
        refine hreached ((mem_reached_iff hx).2 ⟨hdel, fun y hy hya => ?_⟩)
        rcases hya.lt_or_eq with hya | rfl
        · by_contra hymiss
          exact hnone ⟨y, hy, hya, Option.not_isSome_iff_eq_none.1 hymiss⟩
        · rw [hla]
          rfl
      refine hcond a.1 hdel (by rw [hla]; rfl) hmissed b.1 ?_
      rw [← hlookup, (hasc.filter _).lookup_eq_some_iff.2
        (show (b.1, b.2) ∈ _ from List.mem_filter.2 ⟨hb, hpb⟩)]
      rfl

/-- A delete of `b` is passed over because of the one of `a`, and `c` is lost in its stead. -/
example : applyChanges [("b", 1), ("c", 2)] [] ["a", "b"] = [("b", 1)] := by decide +kernel

theorem applyChanges_exact_iff_missed :
    (∀ k, (applyChanges [("b", 1), ("c", 2)] [] ["a", "b"]).lookup k =
        intended [("b", 1), ("c", 2)] [] ["a", "b"] k) ↔
      ∀ x ∈ ["a", "b"], (List.lookup x [("b", 1), ("c", 2)]).isSome →
        (∃ y ∈ ["a", "b"], y < x ∧ List.lookup y [("b", 1), ("c", 2)] = none) →
          ∀ k, (intended [("b", 1), ("c", 2)] [] ["a", "b"] k).isSome → k < x :=
  applyChanges_exact_iff (by unfold Ascending; decide) Ascending.nil (by decide) fun _ _ => rfl

/-- **Entries ascend after every merge.** -/
theorem ascending_applyChanges (hs : Ascending source) (hu : Ascending upserts)
    (deletes : List String) : Ascending (applyChanges source upserts deletes) := by
  rw [applyChanges, applyLoop_eq_take]
  exact (ascending_merged hs hu deletes).sublist (List.take_sublist _ _)

theorem mem_applyChanges {a : String × β} (h : a ∈ applyChanges source upserts deletes) :
    a ∈ source ∨ a ∈ upserts := by
  rw [applyChanges, applyLoop_eq_take] at h
  exact mem_merged (List.mem_of_mem_take h)

/-- The merge is right when every delete of an entry is carried out. -/
theorem lookup_applyChanges (hs : Ascending source) (hu : Ascending upserts)
    (hx : deletes.Pairwise (· < ·)) (hapart : Apart upserts deletes)
    (hreached : ∀ x ∈ deletes, (source.lookup x).isSome → x ∈ reached source deletes) (k : String) :
    (applyChanges source upserts deletes).lookup k = intended source upserts deletes k := by
  have hasc := ascending_merged hs hu deletes
  have hall : ((merged source upserts deletes).filter fun e => e.1 ∉ deletes) =
      merged source upserts deletes := by
    refine List.filter_eq_self.2 fun a ha => ?_
    rw [decide_eq_true_eq]
    intro hdel
    have hla := hasc.lookup_eq_some_iff.2 (show (a.1, a.2) ∈ _ from ha)
    rw [lookup_merged hs hu hx, hapart a.1 hdel, Option.none_or] at hla
    split at hla
    · cases hla
    · rename_i hnot
      exact hnot (hreached a.1 hdel (by rw [hla]; rfl))
  rw [applyChanges_eq_take hs hu hx hapart, ← lookup_filter_merged hs hu hx, hall, List.take_length]

/-- Deletes of missing entries do nothing. -/
theorem lookup_applyChanges_of_missing (hs : Ascending source) (hu : Ascending upserts)
    (hx : deletes.Pairwise (· < ·)) (hapart : Apart upserts deletes)
    (hmissing : ∀ x ∈ deletes, source.lookup x = none) (k : String) :
    (applyChanges source upserts deletes).lookup k = (upserts.lookup k).or (source.lookup k) := by
  rw [lookup_applyChanges hs hu hx hapart, intended]
  · split
    · rename_i hk
      rw [hapart k hk, hmissing k hk]
      rfl
    · rfl
  · intro x hx' hhas
    rw [hmissing x hx'] at hhas
    cases hhas

/-- A single upsert. -/
theorem applyChanges_upsert {b : β} (hs : Ascending source) :
    applyChanges source [(k, b)] [] = insertKey k b source := by
  refine Ascending.ext (ascending_applyChanges hs (Ascending.singleton k b) [])
    (hs.insertKey k b) fun j => ?_
  rw [lookup_applyChanges_of_missing hs (Ascending.singleton k b) List.Pairwise.nil
    (fun _ h => by cases h) (fun _ h => by cases h), lookup_insertKey, lookup_cons_eq]
  split <;> simp

/-- A single delete. -/
theorem applyChanges_delete (hs : Ascending source) :
    applyChanges source [] [k] = eraseKey k source := by
  refine Ascending.ext (ascending_applyChanges hs Ascending.nil [k]) (hs.eraseKey k) fun j => ?_
  rw [lookup_applyChanges hs Ascending.nil (List.pairwise_singleton _ _) (fun _ _ => rfl),
    lookup_eraseKey, intended]
  · simp
  · intro x hx hhas
    obtain rfl := List.mem_singleton.1 hx
    simp [reached, hhas]

end Firestore
