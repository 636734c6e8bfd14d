import Mathlib.Data.List.AList
import Mathlib.Data.List.Sort
import Mathlib.Data.String.Basic
import Mathlib.Order.Lex

/-!
# Hierarchical document stores

A store maps document paths to documents; a path alternates collection names and document ids,
and a document maps field names to values.

* `doc` — the path of a document below a collection, from a text that may itself contain the
  separator `/`; `doc_of_isDocId` covers the texts that are plain ids.
* `Write` — the four writes (`set`, `set` with merge, `update`, `delete`); a rejected write is
  `none`.  `apply_frame` — a write changes no document but the one it addresses.
* `commit` — a list of writes, each swallowing its own rejection; `settle_lookup_congr` — a document
  is made from what it was, whatever else is stored.
* `collection`, `collectionGroup` — the two queries, in path order; `mem_collection` and
  `mem_collectionGroup` say that they list exactly the stored documents, and
  `head?_filter_collectionGroup` characterises the first hit.
-/

set_option autoImplicit false

namespace DocStore

/-! ## Paths -/

/-- Collection names and document ids, from the root. -/
abbrev Path := List String

/-- The `/`-separated parts of a text. -/
def segments (s : String) : List String := (s.toList.splitOn '/').map String.ofList

/-- `collection.doc(s)`: the segments of `s` below the collection.  Refused when a segment is
empty or the result does not have an even number of segments.  That is what the app is taken to rely
on; a client may also skip the empty segments of a leading or a trailing `/`. -/
def doc (c : Path) (s : String) : Option Path :=
  if "" ∉ segments s ∧ (c ++ segments s).length % 2 = 0 then some (c ++ segments s) else none

/-- A text that is one path segment. -/
def IsDocId (s : String) : Prop := s ≠ "" ∧ '/' ∉ s.toList

instance : DecidablePred IsDocId := fun s => inferInstanceAs (Decidable (s ≠ "" ∧ '/' ∉ s.toList))

/-- The id of a document. -/
structure DocId where
  val : String
  ok : IsDocId val
  deriving DecidableEq

theorem DocId.val_injective {i j : DocId} (h : i.val = j.val) : i = j := by
  cases i; cases j; cases h; rfl

theorem segments_of_isDocId {s : String} (h : IsDocId s) : segments s = [s] := by
  have hs : ∀ l ∈ [s.toList], '/' ∉ l := by simpa using h.2
  have := List.splitOn_intercalate '/' hs (by simp)
  simp only [List.intercalate, List.intersperse, List.flatten_cons, List.flatten_nil,
    List.append_nil] at this
  simp [segments, this, String.ofList_toList]

theorem intercalate_segments (s : String) :
    List.intercalate ['/'] ((segments s).map String.toList) = s.toList := by
  have hmap : (segments s).map String.toList = s.toList.splitOn '/' := by
    simp [segments, List.map_map, Function.comp_def]
  rw [hmap, List.intercalate_splitOn]

/-- **The segments of a text determine it.** -/
theorem segments_injective {s t : String} (h : segments s = segments t) : s = t := by
  apply String.toList_injective
  rw [← intercalate_segments s, h, intercalate_segments t]

/-- A text with one segment has no separator. -/
theorem segments_eq_singleton_iff {s i : String} : segments s = [i] ↔ s = i ∧ '/' ∉ s.toList := by
  constructor
  · intro h
    have hs : s.toList = i.toList := by
      rw [← intercalate_segments s, h]
      simp [List.intercalate]
    refine ⟨String.toList_injective hs, fun hmem => ?_⟩
    have hlen : (segments s).length = 1 := by rw [h]; rfl
    obtain ⟨l, r, hlr⟩ := List.append_of_mem hmem
    simp only [segments, List.length_map, hlr, List.splitOn_append_cons_self,
      List.length_append] at hlen
    have hl := List.length_pos_iff.2 (List.splitOn_ne_nil '/' l)
    have hr := List.length_pos_iff.2 (List.splitOn_ne_nil '/' r)
    omega
  · rintro ⟨rfl, hs⟩
    simp [segments, List.splitOn_eq_singleton hs]

/-- The segments of a segment followed by a separator and a text. -/
theorem segments_append {i s : String} (hi : '/' ∉ i.toList) :
    segments (i ++ "/" ++ s) = i :: segments s := by
  simp [segments, List.splitOn_append_cons_self_of_not_mem hi]

/-- A plain id names the document of that id in the collection. -/
theorem doc_of_isDocId {c : Path} {s : String} (h : IsDocId s) (hc : c.length % 2 = 1) :
    doc c s = some (c ++ [s]) := by
  have hlen : (c ++ [s]).length % 2 = 0 := by simp; omega
  have hs : "" ∉ [s] := by simpa using h.1.symm
  rw [doc, segments_of_isDocId h, if_pos ⟨hs, hlen⟩]

theorem doc_docId (c : Path) (hc : c.length % 2 = 1) (i : DocId) : doc c i.val = some (c ++ [i.val]) :=
  doc_of_isDocId i.ok hc

theorem prefix_of_doc {c p : Path} {s : String} (h : doc c s = some p) : p = c ++ segments s := by
  unfold doc at h
  split at h
  · cases h; rfl
  · cases h

/-- Two texts that name the same document are equal. -/
theorem doc_injective {c p : Path} {s t : String} (hs : doc c s = some p) (ht : doc c t = some p) :
    s = t := by
  apply segments_injective
  rw [prefix_of_doc hs] at ht
  exact List.append_cancel_left (prefix_of_doc ht)

theorem not_mem_segments_of_doc {c p : Path} {s : String} (h : doc c s = some p) :
    "" ∉ segments s := by
  unfold doc at h
  split at h
  · rename_i hs
    exact hs.1
  · cases h

/-- Between two separators there is none. -/
theorem not_mem_of_mem_splitOn {α : Type*} [BEq α] [LawfulBEq α] {a : α} {l m : List α}
    (h : m ∈ l.splitOn a) : a ∉ m := by
  induction l generalizing m with
  | nil =>
    rw [List.splitOn_nil, List.mem_singleton] at h
    rw [h]
    exact List.not_mem_nil
  | cons x l ih =>
    rw [List.splitOn_cons_eq_if_modifyHead] at h
    split at h
    · rcases List.mem_cons.1 h with rfl | h
      · exact List.not_mem_nil
      · exact ih h
    · rename_i hx
      cases hsplit : l.splitOn a with
      | nil => exact absurd hsplit (List.splitOn_ne_nil a l)
      | cons y ys =>
        rw [hsplit, List.modifyHead_cons] at h
        rcases List.mem_cons.1 h with rfl | h
        · rw [List.mem_cons, not_or]
          refine ⟨fun hax => hx ?_, ih (by rw [hsplit]; exact List.mem_cons_self)⟩
          rw [hax]
          exact BEq.rfl
        · exact ih (by rw [hsplit]; exact List.mem_cons_of_mem y h)

/-- Every segment is a document id. -/
def IsPath (p : Path) : Prop := ∀ i ∈ p, IsDocId i

/-- **An accepted text gives a path.** -/
theorem isPath_doc {c p : Path} {s : String} (hc : IsPath c) (h : doc c s = some p) : IsPath p := by
  rw [prefix_of_doc h]
  intro i hi
  rcases List.mem_append.1 hi with hi | hi
  · exact hc i hi
  · refine ⟨fun hempty => not_mem_segments_of_doc h (by rw [← hempty]; exact hi), ?_⟩
    obtain ⟨l, hl, rfl⟩ := List.mem_map.1 hi
    rw [String.toList_ofList]
    exact not_mem_of_mem_splitOn hl

/-- The id of a document of the collection `c`, when `p` is the path of one. -/
def idIn (c p : Path) : Option String :=
  p.getLast?.bind fun i => if p = c ++ [i] then some i else none

theorem idIn_eq_some {c p : Path} {i : String} : idIn c p = some i ↔ p = c ++ [i] := by
  constructor
  · intro h
    obtain ⟨j, hj, hi⟩ := Option.bind_eq_some_iff.1 h
    split at hi
    · cases hi; assumption
    · cases hi
  · rintro rfl
    simp [idIn]

/-- `p` is a document of some collection named `g`. -/
def InGroup (g : String) (p : Path) : Prop := p.dropLast.getLast? = some g

instance (g : String) : DecidablePred (InGroup g) := fun p =>
  inferInstanceAs (Decidable (p.dropLast.getLast? = some g))

/-! ## Documents -/

variable {φ ν : Type*}

/-- A document, `none` at the fields it does not have. -/
abbrev Doc (φ ν : Type*) := φ → Option ν

namespace Doc

/-- A document from a literal list of fields. -/
def ofList [DecidableEq φ] (fields : List (φ × ν)) : Doc φ ν := fun f => fields.lookup f

theorem ofList_cons_ne [DecidableEq φ] {f g : φ} (h : f ≠ g) {v : ν} {fields : List (φ × ν)} :
    ofList ((g, v) :: fields) f = ofList fields f := by
  unfold ofList
  rw [List.lookup_cons, beq_false_of_ne h]

/-- `d` with the fields of `new` written over its own. -/
def overwrite (d new : Doc φ ν) : Doc φ ν := fun f => (new f).or (d f)

end Doc

/-! ## Stores and writes -/

/-- A store: finitely many documents, at pairwise distinct paths. -/
abbrev Db (φ ν : Type*) := AList (fun _ : Path => Doc φ ν)

inductive Write (φ ν : Type*) where
  | set (p : Path) (d : Doc φ ν)
  | setMerge (p : Path) (d : Doc φ ν)
  | update (p : Path) (d : Doc φ ν)
  | delete (p : Path)

namespace Write

/-- The document a write addresses. -/
def path : Write φ ν → Path
  | set p _ | setMerge p _ | update p _ | delete p => p

/-- The effect of a write on the store; an update of a missing document is rejected. -/
def apply : Write φ ν → Db φ ν → Option (Db φ ν)
  | set p d, db => some (db.insert p d)
  | setMerge p d, db => some (db.insert p (((db.lookup p).getD (fun _ => none)).overwrite d))
  | update p d, db => (db.lookup p).map fun old => db.insert p (old.overwrite d)
  | delete p, db => some (db.erase p)

theorem apply_update {p : Path} {d old : Doc φ ν} {db : Db φ ν} (h : db.lookup p = some old) :
    (update p d).apply db = some (db.insert p (old.overwrite d)) := by
  simp [apply, h]

/-- **A write changes no document but the one it addresses.** -/
theorem apply_frame {w : Write φ ν} {db db' : Db φ ν} (h : w.apply db = some db') {q : Path}
    (hq : q ≠ w.path) : db'.lookup q = db.lookup q := by
  cases w with
  | set p d => cases h; exact AList.lookup_insert_ne hq
  | setMerge p d => cases h; exact AList.lookup_insert_ne hq
  | update p d =>
    obtain ⟨old, _, rfl⟩ := Option.map_eq_some_iff.1 h
    exact AList.lookup_insert_ne hq
  | delete p => cases h; exact AList.lookup_erase_ne hq

/-- The store after a write that swallows its own rejection. -/
def settle (w : Write φ ν) (db : Db φ ν) : Db φ ν := (w.apply db).getD db

theorem settle_frame {w : Write φ ν} {db : Db φ ν} {q : Path} (hq : q ≠ w.path) :
    (w.settle db).lookup q = db.lookup q := by
  unfold settle
  cases h : w.apply db with
  | none => rfl
  | some db' => exact apply_frame h hq

/-- The document at the path of a write, once it has settled. -/
theorem isSome_lookup_settle {w : Write φ ν} (hw : ∀ p, w ≠ .delete p) {db : Db φ ν} {q : Path}
    (h : (db.lookup q).isSome) : ((w.settle db).lookup q).isSome := by
  by_cases hq : q = w.path
  · subst hq
    cases w with
    | set p d => simp [settle, apply, path]
    | setMerge p d => simp [settle, apply, path]
    | update p d =>
      obtain ⟨old, hold⟩ := Option.isSome_iff_exists.1 h
      rw [settle, apply_update (show db.lookup p = some old from hold)]
      simp [path]
    | delete p => exact absurd rfl (hw p)
  · rw [settle_frame hq]
    exact h

end Write

/-- All documents are stored at paths. -/
def PlainPaths (db : Db φ ν) : Prop := ∀ p, (db.lookup p).isSome → IsPath p

theorem plainPaths_settle {w : Write φ ν} {db : Db φ ν} (hdb : PlainPaths db)
    (hw : IsPath w.path ∨ ∃ p, w = .delete p) : PlainPaths (w.settle db) := by
  intro q hq
  by_cases hqw : q = w.path
  · rcases hw with hw | ⟨p, rfl⟩
    · rw [hqw]
      exact hw
    · rw [hqw, show (Write.delete p : Write φ ν).settle db = db.erase p from rfl, Write.path,
        AList.lookup_erase] at hq
      cases hq
  · rw [Write.settle_frame hqw] at hq
    exact hdb q hq

/-- The store after a list of writes, each swallowing its own rejection. -/
def commit (ws : List (Write φ ν)) (db : Db φ ν) : Db φ ν := ws.foldl (fun db w => w.settle db) db

@[simp] theorem commit_cons (w : Write φ ν) (ws : List (Write φ ν)) (db : Db φ ν) :
    commit (w :: ws) db = commit ws (w.settle db) := rfl

theorem commit_frame {q : Path} :
    ∀ {ws : List (Write φ ν)} {db : Db φ ν}, (∀ w ∈ ws, q ≠ w.path) →
      (commit ws db).lookup q = db.lookup q
  | [], _, _ => rfl
  | w :: ws, db, h => by
    rw [commit_cons, commit_frame fun v hv => h v (List.mem_cons_of_mem _ hv),
      Write.settle_frame (h w List.mem_cons_self)]

/-- **Without a delete every document stays.** -/
theorem isSome_lookup_commit {q : Path} :
    ∀ {ws : List (Write φ ν)} {db : Db φ ν}, (∀ w ∈ ws, ∀ p, w ≠ .delete p) →
      (db.lookup q).isSome → ((commit ws db).lookup q).isSome
  | [], _, _, h => h
  | w :: ws, db, hws, h => by
    rw [commit_cons]
    exact isSome_lookup_commit (fun v hv => hws v (List.mem_cons_of_mem _ hv))
      (Write.isSome_lookup_settle (hws w List.mem_cons_self) h)

/-! ## The order of the writes -/

/-- What a write leaves at a path depends on what was there. -/
theorem settle_lookup_congr {w : Write φ ν} {db db' : Db φ ν} {q : Path}
    (h : db.lookup q = db'.lookup q) : (w.settle db).lookup q = (w.settle db').lookup q := by
  by_cases hq : q = w.path
  · subst hq
    cases w with
    | set p d => simp [Write.settle, Write.apply, Write.path]
    | setMerge p d =>
      have h : db.lookup p = db'.lookup p := h
      simp [Write.settle, Write.apply, Write.path, h]
    | update p d =>
      have h : db.lookup p = db'.lookup p := h
      cases hold : db'.lookup p with
      | none =>
        rw [hold] at h
        simp [Write.settle, Write.apply, Write.path, h, hold]
      | some old =>
        rw [hold] at h
        simp [Write.settle, Write.apply, Write.path, h, hold]
    | delete p => simp [Write.settle, Write.apply, Write.path]
  · rw [Write.settle_frame hq, Write.settle_frame hq, h]

/-! ## Queries -/

/-- The documents of a collection with their ids, in the order of the ids. -/
def collection (db : Db φ ν) (c : Path) : List (String × Doc φ ν) :=
  (db.entries.filterMap fun e => (idIn c e.1).map (·, e.2)).insertionSort fun a b => a.1 ≤ b.1

theorem mem_collection {db : Db φ ν} {c : Path} {i : String} {d : Doc φ ν} :
    (i, d) ∈ collection db c ↔ db.lookup (c ++ [i]) = some d := by
  rw [← Option.mem_def, AList.mem_lookup_iff]
  simp only [collection, List.mem_insertionSort, List.mem_filterMap, Option.map_eq_some_iff,
    idIn_eq_some]
  constructor
  · rintro ⟨⟨p, d'⟩, hmem, j, hp, heq⟩
    cases heq
    simp only at hp
    subst hp
    exact hmem
  · intro hmem
    exact ⟨_, hmem, i, rfl, rfl⟩

theorem nodup_collection (db : Db φ ν) (c : Path) : ((collection db c).map Prod.fst).Nodup := by
  have hids : ((db.entries.filterMap fun e => (idIn c e.1).map (·, e.2)).map Prod.fst).Nodup := by
    have hkeys : (db.entries.map Sigma.fst).Nodup := db.nodupKeys
    have hmap : (db.entries.filterMap fun e => (idIn c e.1).map (·, e.2)).map Prod.fst =
        (db.entries.map Sigma.fst).filterMap (idIn c) := by
      rw [List.map_filterMap, List.filterMap_map]
      refine List.filterMap_congr fun e _ => ?_
      cases h : idIn c e.1 <;> simp [h]
    rw [hmap]
    refine hkeys.filterMap fun p q i hp hq => ?_
    rw [idIn_eq_some.1 hp, idIn_eq_some.1 hq]
  exact ((List.perm_insertionSort _ _).map Prod.fst).nodup_iff.2 hids

theorem pairwise_collection (db : Db φ ν) (c : Path) :
    (collection db c).Pairwise fun a b => a.1 ≤ b.1 := by
  have : Std.Total fun a b : String × Doc φ ν => a.1 ≤ b.1 := ⟨fun a b => le_total a.1 b.1⟩
  have : IsTrans (String × Doc φ ν) fun a b => a.1 ≤ b.1 := ⟨fun a b c => le_trans⟩
  exact List.pairwise_insertionSort _ _

/-- The ids of a listing ascend. -/
theorem pairwise_lt_collection (db : Db φ ν) (c : Path) :
    (collection db c).Pairwise fun a b => a.1 < b.1 := by
  have hne : (collection db c).Pairwise fun a b => a.1 ≠ b.1 :=
    List.pairwise_map.1 (nodup_collection db c)
  refine ((pairwise_collection db c).and hne).imp ?_
  rintro a b ⟨hle, hab⟩
  exact lt_of_le_of_ne hle hab

/-- The documents of every collection named `g`, in path order. -/
def collectionGroup (db : Db φ ν) (g : String) : List (Path × Doc φ ν) :=
  (db.entries.filterMap fun e => if InGroup g e.1 then some (e.1, e.2) else none).insertionSort
    fun a b => a.1 ≤ b.1

theorem mem_collectionGroup {db : Db φ ν} {g : String} {p : Path} {d : Doc φ ν} :
    (p, d) ∈ collectionGroup db g ↔ InGroup g p ∧ db.lookup p = some d := by
  rw [← Option.mem_def, AList.mem_lookup_iff]
  simp only [collectionGroup, List.mem_insertionSort, List.mem_filterMap]
  constructor
  · rintro ⟨⟨q, d'⟩, hmem, hif⟩
    split at hif
    · cases hif; exact ⟨‹_›, hmem⟩
    · cases hif
  · rintro ⟨hg, hmem⟩
    exact ⟨_, hmem, by simp [hg]⟩

theorem pairwise_collectionGroup (db : Db φ ν) (g : String) :
    (collectionGroup db g).Pairwise fun a b => a.1 ≤ b.1 := by
  have : Std.Total fun a b : Path × Doc φ ν => a.1 ≤ b.1 := ⟨fun a b => le_total a.1 b.1⟩
  have : IsTrans (Path × Doc φ ν) fun a b => a.1 ≤ b.1 := ⟨fun a b c => le_trans⟩
  exact List.pairwise_insertionSort _ _

/-- **The first hit of a collection-group query** is the stored document that passes the
filter and whose path is least among those that do. -/
theorem head?_filter_collectionGroup {db : Db φ ν} {g : String} {f : Path → Bool} {p : Path}
    {d : Doc φ ν} :
    ((collectionGroup db g).filter fun e => f e.1).head? = some (p, d) ↔
      (InGroup g p ∧ f p = true ∧ db.lookup p = some d) ∧
        ∀ q, InGroup g q → f q = true → (db.lookup q).isSome → p ≤ q := by
  have hmem : ∀ q e, (q, e) ∈ (collectionGroup db g).filter (fun e => f e.1) ↔
      InGroup g q ∧ f q = true ∧ db.lookup q = some e := by
    intro q e
    rw [List.mem_filter, mem_collectionGroup]
    tauto
  have hsorted : ((collectionGroup db g).filter fun e => f e.1).Pairwise fun a b => a.1 ≤ b.1 :=
    (pairwise_collectionGroup db g).filter _
  generalize (collectionGroup db g).filter (fun e => f e.1) = l at hmem hsorted
  cases l with
  | nil =>
    refine ⟨fun h => (by cases h), fun h => ?_⟩
    exact absurd ((hmem p d).2 h.1) (by simp)
  | cons e l =>
    have hleast : ∀ q x, (q, x) ∈ e :: l → e.1 ≤ q := by
      intro q x hx
      rcases List.mem_cons.1 hx with rfl | hx
      · exact le_refl _
      · exact (List.pairwise_cons.1 hsorted).1 _ hx
    simp only [List.head?_cons, Option.some.injEq]
    constructor
    · rintro rfl
      refine ⟨(hmem p d).1 List.mem_cons_self, fun q hg hf hq => ?_⟩
      obtain ⟨x, hx⟩ := Option.isSome_iff_exists.1 hq
      exact hleast q x ((hmem q x).2 ⟨hg, hf, hx⟩)
    · rintro ⟨hp, hle⟩
      obtain ⟨hg, hf, he⟩ := (hmem e.1 e.2).1 List.mem_cons_self
      have heq : e.1 = p :=
        le_antisymm (hleast p d ((hmem p d).2 hp)) (hle e.1 hg hf (by simp [he]))
      have hd : e.2 = d := by
        rw [heq, hp.2.2] at he
        exact (Option.some.inj he).symm
      exact Prod.ext heq hd

end DocStore
