import Mathlib.Data.Finset.Sort
import TheHive.Firestore.ApplyChanges

/-!
# The data of a document

`ObjectValue` of the vendored Firestore client: a map of named values, changed at paths.

* `setAll` — changes of several maps at once, collected parent by parent.
* `setAll_eq_puts` — **it writes one path after the other**, when it deletes only what is missing.
* `ObjectValue` — a map whose entries ascend at every level, and its operations; `sorted_setAll` —
  they keep it so, whatever the deletes do.
-/

set_option autoImplicit false

namespace Firestore

open FieldTree

universe u

/-! ## SetAll -/

variable {α : Type u}

/-- A field value: a scalar (null, a number, a text, an array, ...) of type `α`, or a map. -/
abbrev Value (α : Type u) := Tree String α

/-- Where a value goes, and the value; `none` is a delete. -/
abbrev Change (α : Type u) := Path String × Option (Value α)

/-- Insert the accumulated changes at the parent location. -/
def flush (parent : List String) (upserts : List (String × Value α)) (deletes : Finset String)
    (t : Value α) : Value α :=
  modify (fun fields => applyChanges fields upserts deletes.sort) parent t

/-- The loop of `SetAll`. -/
def setAllLoop (parent : List String) (upserts : List (String × Value α)) (deletes : Finset String)
    (t : Value α) : List (Change α) → Value α
  | [] => flush parent upserts deletes t
  | (path, value) :: data =>
    if path.parent = parent then
      match value with
      | some v => setAllLoop parent (insertKey path.last v upserts) deletes t data
      | none => setAllLoop parent upserts (insert path.last deletes) t data
    else
      let t := flush parent upserts deletes t
      match value with
      | some v => setAllLoop path.parent [(path.last, v)] ∅ t data
      | none => setAllLoop path.parent [] {path.last} t data

/-- `SetAll`. -/
def setAll (data : List (Change α)) (t : Value α) : Value α := setAllLoop [] [] ∅ t data

/-- What is written is sorted. -/
def SortedChanges (data : List (Change α)) : Prop := ∀ w ∈ data, ∀ v, w.2 = some v → v.Sorted

/-- Every delete names something that is missing when its turn comes. -/
def DeletesMissing : List (Change α) → Value α → Prop
  | [], _ => True
  | w :: data, t =>
    (w.2 = none → t.get w.1.segments = none) ∧ DeletesMissing data (put w.1 w.2 t)

/-- No path twice, and none that is already collected. -/
structure Pending (parent : List String) (upserts : List (String × Value α))
    (deletes : Finset String) (t : Value α) (data : List (Change α)) : Prop where
  ascending : Ascending upserts
  apart : Apart upserts deletes.sort
  missing : ∀ x ∈ deletes, (t.fieldsAt parent).lookup x = none
  nodup : (data.map Prod.fst).Nodup
  fresh : ∀ w ∈ data, w.1.parent = parent → upserts.lookup w.1.last = none ∧ w.1.last ∉ deletes

section SetAll

variable {parent : List String} {upserts : List (String × Value α)} {deletes : Finset String}
  {t : Value α} {data : List (Change α)} {path : Path String}

theorem sorted_fieldsAt (h : t.Sorted) (x : List String) : SortedFields (t.fieldsAt x) := by
  induction x generalizing t with
  | nil => exact h.fields
  | cons k x ih => exact ih (h.child k)

theorem sorted_applyChanges {fields : List (String × Value α)} (h : SortedFields fields)
    (hu : SortedFields upserts) (deletes : List String) :
    SortedFields (applyChanges fields upserts deletes) := by
  refine ⟨ascending_applyChanges h.ascending hu.ascending deletes, fun e he => ?_⟩
  rcases mem_applyChanges he with he | he
  · exact h.below e he
  · exact hu.below e he

theorem sorted_flush (h : t.Sorted) (hu : SortedFields upserts) : (flush parent upserts deletes t).Sorted :=
  h.modify (fun _ hfs => sorted_applyChanges hfs hu _) parent

/-- **The invariant of `SetAll`**: its maps ascend, whatever the deletes do. -/
theorem sorted_setAllLoop (h : t.Sorted) (hu : SortedFields upserts) (hdata : SortedChanges data) :
    (setAllLoop parent upserts deletes t data).Sorted := by
  induction data generalizing parent upserts deletes t with
  | nil => exact sorted_flush h hu
  | cons w data ih =>
    obtain ⟨path, value⟩ := w
    have htail : SortedChanges data := fun w hw => hdata w (List.mem_cons_of_mem _ hw)
    cases value with
    | some v =>
      have hv := hdata _ List.mem_cons_self v rfl
      rw [setAllLoop]
      split
      · exact ih h (hu.insertKey path.last hv) htail
      · exact ih (sorted_flush h hu) (SortedFields.nil.insertKey path.last hv) htail
    | none =>
      rw [setAllLoop]
      split
      · exact ih h hu htail
      · exact ih (sorted_flush h hu) SortedFields.nil htail

theorem sorted_setAll (h : t.Sorted) (hdata : SortedChanges data) : (setAll data t).Sorted :=
  sorted_setAllLoop h SortedFields.nil hdata

theorem lookup_flush (ht : t.Sorted) (hp : Pending parent upserts deletes t data) (k : String) :
    (applyChanges (t.fieldsAt parent) upserts deletes.sort).lookup k =
      (upserts.lookup k).or ((t.fieldsAt parent).lookup k) :=
  lookup_applyChanges_of_missing (sorted_fieldsAt ht parent).ascending hp.ascending
    (Finset.sortedLT_sort deletes).pairwise hp.apart
    (fun x hx => hp.missing x ((Finset.mem_sort _).1 hx)) k

/-- One more upsert below the same parent. -/
theorem flush_insertKey (ht : t.Sorted) (hp : Pending parent upserts deletes t data) (k : String)
    (v : Value α) (hk : k ∉ deletes) :
    flush parent (insertKey k v upserts) deletes t =
      put ⟨parent, k⟩ (some v) (flush parent upserts deletes t) := by
  have hasc := (sorted_fieldsAt ht parent).ascending
  have hins : Ascending (insertKey k v upserts) := hp.ascending.insertKey k v
  have hapart : Apart (insertKey k v upserts) deletes.sort := by
    intro x hx
    have hne : x ≠ k := fun h => hk (h ▸ (Finset.mem_sort _).1 hx)
    rw [lookup_insertKey, if_neg hne, hp.apart x hx]
  rw [put, flush, flush, modify_modify]
  refine modify_congr (Ascending.ext (ascending_applyChanges hasc hins _)
    ((ascending_applyChanges hasc hp.ascending _).insertKey k v) fun j => ?_)
  rw [lookup_applyChanges_of_missing hasc hins (Finset.sortedLT_sort deletes).pairwise hapart
    (fun x hx => hp.missing x ((Finset.mem_sort _).1 hx)), lookup_insertKey, lookup_write,
    lookup_flush ht hp]
  split <;> rfl

/-- One more delete of something missing below the same parent. -/
theorem flush_insert (ht : t.Sorted) (hp : Pending parent upserts deletes t data) (k : String)
    (hk : upserts.lookup k = none) (hmissing : (t.fieldsAt parent).lookup k = none) :
    flush parent upserts (insert k deletes) t =
      put ⟨parent, k⟩ none (flush parent upserts deletes t) := by
  have hasc := (sorted_fieldsAt ht parent).ascending
  have hmem : ∀ x ∈ (insert k deletes).sort, x = k ∨ x ∈ deletes := fun x hx =>
    Finset.mem_insert.1 ((Finset.mem_sort _).1 hx)
  have hapart : Apart upserts (insert k deletes).sort := by
    intro x hx
    rcases hmem x hx with rfl | hx
    · exact hk
    · exact hp.apart x ((Finset.mem_sort _).2 hx)
  have hgone : ∀ x ∈ (insert k deletes).sort, (t.fieldsAt parent).lookup x = none := by
    intro x hx
    rcases hmem x hx with rfl | hx
    · exact hmissing
    · exact hp.missing x hx
  rw [put, flush, flush, modify_modify]
  refine modify_congr (Ascending.ext (ascending_applyChanges hasc hp.ascending _)
    ((ascending_applyChanges hasc hp.ascending _).eraseKey k) fun j => ?_)
  rw [lookup_applyChanges_of_missing hasc hp.ascending (Finset.sortedLT_sort _).pairwise hapart hgone,
    lookup_write, lookup_flush ht hp]
  split
  · rename_i hj
    rw [hj, hk, hmissing]
    rfl
  · rfl

/-- A first upsert below a parent. -/
theorem flush_singleton (ht : t.Sorted) (path : Path String) (v : Value α) :
    flush path.parent [(path.last, v)] ∅ t = put path (some v) t := by
  refine modify_congr ?_
  rw [Finset.sort_empty, applyChanges_upsert (sorted_fieldsAt ht path.parent).ascending]
  rfl

/-- A first delete below a parent. -/
theorem flush_delete (ht : t.Sorted) (path : Path String) :
    flush path.parent ([] : List (String × Value α)) {path.last} t = put path none t := by
  refine modify_congr ?_
  rw [Finset.sort_singleton, applyChanges_delete (sorted_fieldsAt ht path.parent).ascending]
  rfl

/-- **`SetAll` writes one path after the other**, when it deletes only what is missing. -/
theorem setAllLoop_eq_puts (ht : t.Sorted) (hu : SortedFields upserts)
    (hp : Pending parent upserts deletes t data) (hdata : SortedChanges data)
    (hmissing : DeletesMissing data (flush parent upserts deletes t)) :
    setAllLoop parent upserts deletes t data = puts data (flush parent upserts deletes t) := by
  induction data generalizing parent upserts deletes t with
  | nil => rfl
  | cons w data ih =>
    obtain ⟨path, value⟩ := w
    obtain ⟨hgone, hlater⟩ := hmissing
    have htail : SortedChanges data := fun w hw => hdata w (List.mem_cons_of_mem _ hw)
    obtain ⟨hnotin, hnodup⟩ := List.nodup_cons.1 hp.nodup
    have hother : ∀ w ∈ data, w.1.parent = path.parent → w.1.last ≠ path.last := by
      intro w hw hparent hlast
      refine hnotin (List.mem_map.2 ⟨w, hw, ?_⟩)
      obtain ⟨⟨_, _⟩, _⟩ := w
      exact congrArg₂ FieldTree.Path.mk hparent hlast
    have hsorted : (flush parent upserts deletes t).Sorted := sorted_flush ht hu
    rw [puts_cons]
    by_cases hsame : path.parent = parent
    · -- collected below the same parent
      obtain ⟨hk, hkd⟩ := hp.fresh _ List.mem_cons_self hsame
      obtain ⟨parent', last⟩ := path
      obtain rfl : parent' = parent := hsame
      cases value with
      | some v =>
        have hflush := flush_insertKey ht hp last v hkd
        rw [← hflush] at hlater ⊢
        rw [setAllLoop, if_pos rfl]
        refine ih ht (hu.insertKey last (hdata _ List.mem_cons_self v rfl)) ?_ htail hlater
        refine ⟨hp.ascending.insertKey last v, ?_, hp.missing, hnodup, ?_⟩
        · intro x hx
          have hne : x ≠ last := fun h => hkd (h ▸ (Finset.mem_sort _).1 hx)
          rw [lookup_insertKey, if_neg hne, hp.apart x hx]
        · intro w hw hparent
          rw [lookup_insertKey, if_neg (hother w hw hparent)]
          exact hp.fresh w (List.mem_cons_of_mem _ hw) hparent
      | none =>
        have hk' : (t.fieldsAt parent').lookup last = none := by
          have hnow := hgone rfl
          rw [Path.segments, get_append_singleton, flush, fieldsAt_modify, lookup_flush ht hp, hk,
            Option.none_or] at hnow
          exact hnow
        have hflush := flush_insert ht hp last hk hk'
        rw [← hflush] at hlater ⊢
        rw [setAllLoop, if_pos rfl]
        refine ih ht hu ?_ htail hlater
        refine ⟨hp.ascending, ?_, ?_, hnodup, ?_⟩
        · intro x hx
          rcases Finset.mem_insert.1 ((Finset.mem_sort _).1 hx) with rfl | hx
          · exact hk
          · exact hp.apart x ((Finset.mem_sort _).2 hx)
        · intro x hx
          rcases Finset.mem_insert.1 hx with rfl | hx
          · exact hk'
          · exact hp.missing x hx
        · intro w hw hparent
          obtain ⟨hku, hkd'⟩ := hp.fresh w (List.mem_cons_of_mem _ hw) hparent
          refine ⟨hku, fun hmem => ?_⟩
          rcases Finset.mem_insert.1 hmem with h | h
          · exact hother w hw hparent h
          · exact hkd' h
    · -- a new parent
      cases value with
      | some v =>
        have hflush := flush_singleton hsorted path v
        rw [← hflush] at hlater ⊢
        rw [setAllLoop, if_neg hsame]
        refine ih hsorted (SortedFields.nil.insertKey path.last (hdata _ List.mem_cons_self v rfl))
          ?_ htail hlater
        refine ⟨Ascending.singleton path.last v, ?_, ?_, hnodup, ?_⟩
        · intro x hx
          simp at hx
        · intro x hx
          simp at hx
        · intro w hw hparent
          refine ⟨?_, by simp⟩
          rw [lookup_cons_eq, if_neg (hother w hw hparent)]
          rfl
      | none =>
        have hflush := flush_delete hsorted path
        rw [← hflush] at hlater ⊢
        rw [setAllLoop, if_neg hsame]
        refine ih hsorted SortedFields.nil ?_ htail hlater
        refine ⟨Ascending.nil, fun _ _ => rfl, ?_, hnodup, ?_⟩
        · intro x hx
          obtain rfl := Finset.mem_singleton.1 hx
          have hnow := hgone rfl
          rwa [Path.segments, get_append_singleton] at hnow
        · intro w hw hparent
          exact ⟨rfl, fun hmem => hother w hw hparent (Finset.mem_singleton.1 hmem)⟩

/-- **`SetAll` writes one path after the other**, when it deletes only what is missing. -/
theorem setAll_eq_puts (ht : t.Sorted) (hmap : .map t.fields = t)
    (hnodup : (data.map Prod.fst).Nodup) (hdata : SortedChanges data) (hmissing : DeletesMissing data t) :
    setAll data t = puts data t := by
  have hnothing : flush [] ([] : List (String × Value α)) ∅ t = t := by
    refine Eq.trans ?_ hmap
    refine congrArg FieldTree.Tree.map (Ascending.ext (ascending_applyChanges ht.fields.ascending
      Ascending.nil _) ht.fields.ascending fun k => ?_)
    rw [Finset.sort_empty, lookup_applyChanges_of_missing ht.fields.ascending Ascending.nil
      List.Pairwise.nil (fun _ h => by cases h) (fun _ h => by cases h)]
    rfl
  have hpending : Pending [] ([] : List (String × Value α)) ∅ t data :=
    ⟨Ascending.nil, fun _ _ => rfl, by simp, hnodup, fun _ _ _ => ⟨rfl, by simp⟩⟩
  have hloop := setAllLoop_eq_puts ht SortedFields.nil hpending hdata (by rwa [hnothing])
  rw [setAll, hloop, hnothing]

theorem deletesMissing_of_forall
    (h : ∀ pre w post, data = pre ++ w :: post → w.2 = none → (puts pre t).get w.1.segments = none) :
    DeletesMissing data t := by
  induction data generalizing t with
  | nil => trivial
  | cons w data ih =>
    refine ⟨h [] w data rfl, ih fun pre w' post hdata => ?_⟩
    exact h (w :: pre) w' post (by rw [hdata]; rfl)

/-- Without deletes nothing has to be missing. -/
theorem deletesMissing_of_isSome (hset : ∀ w ∈ data, w.2.isSome) (t : Value α) :
    DeletesMissing data t := by
  induction data generalizing t with
  | nil => trivial
  | cons w data ih =>
    refine ⟨fun hnone => ?_, ih (fun w hw => hset w (List.mem_cons_of_mem _ hw)) _⟩
    have hsome := hset w List.mem_cons_self
    rw [hnone] at hsome
    cases hsome

theorem map_fields_setAllLoop : .map (setAllLoop parent upserts deletes t data).fields =
    setAllLoop parent upserts deletes t data := by
  induction data generalizing parent upserts deletes t with
  | nil => exact map_fields_modify parent t
  | cons w data ih =>
    obtain ⟨path, value⟩ := w
    cases value <;> rw [setAllLoop] <;> split <;> exact ih

end SetAll

/-! ## ObjectValue -/

/-- A value whose maps ascend at every level. -/
abbrev FieldValue (α : Type u) := {v : Value α // v.Sorted}

/-- `ObjectValue`. -/
structure ObjectValue (α : Type u) where
  fields : List (String × Value α)
  sorted : SortedFields fields

/-- Paths and what to write there, in ascending order. -/
abbrev TransformMap (α : Type u) := List (Path String × Option (FieldValue α))

def TransformMap.changes (data : TransformMap α) : List (Change α) :=
  data.map fun w => (w.1, w.2.map Subtype.val)

theorem TransformMap.sorted (data : TransformMap α) : SortedChanges data.changes := by
  intro w hw v hv
  obtain ⟨w, -, rfl⟩ := List.mem_map.1 hw
  obtain ⟨s, -, rfl⟩ := Option.map_eq_some_iff.1 hv
  exact s.2

namespace ObjectValue

variable {o o' : ObjectValue α}

def value (o : ObjectValue α) : Value α := .map o.fields

theorem sorted_value (o : ObjectValue α) : o.value.Sorted := o.sorted.sorted

theorem ext_value (h : o.value = o'.value) : o = o' := by
  obtain ⟨fields, hs⟩ := o
  obtain ⟨fields', hs'⟩ := o'
  obtain rfl : fields = fields' := FieldTree.Tree.map.inj h
  rfl

/-- Equal at every path, equal. -/
theorem ext_probe (h : ∀ x, probe x o.value = probe x o'.value) : o = o' :=
  ext_value (o.sorted_value.ext o'.sorted_value h)

def empty : ObjectValue α := ⟨[], SortedFields.nil⟩

def ofValue (t : Value α) (h : t.Sorted) : ObjectValue α := ⟨t.fields, h.fields⟩

/-- `Get`. -/
def get (x : List String) (o : ObjectValue α) : Option (FieldValue α) :=
  match h : o.value.get x with
  | none => none
  | some v => some ⟨v, o.sorted_value.get h⟩

theorem map_get (x : List String) (o : ObjectValue α) :
    (o.get x).map Subtype.val = o.value.get x := by
  unfold get
  split
  · rename_i h
    rw [h]
    rfl
  · rename_i v h
    exact h.symm

theorem get_eq_none_iff {x : List String} : o.get x = none ↔ probe x o.value = none := by
  rw [probe_eq_none_iff, ← map_get, Option.map_eq_none_iff]

/-- Equal at and below a path, equal there. -/
theorem get_eq_of_probe {x : List String}
    (h : ∀ y, probe (x ++ y) o.value = probe (x ++ y) o'.value) : o.get x = o'.get x := by
  apply Option.map_injective Subtype.val_injective
  rw [map_get, map_get]
  have hroot := h []
  rw [List.append_nil, probe, probe] at hroot
  cases hx : o.value.get x with
  | none =>
    rw [hx] at hroot
    exact (Option.map_eq_none_iff.1 hroot.symm).symm
  | some v =>
    rw [hx] at hroot
    cases hx' : o'.value.get x with
    | none =>
      rw [hx'] at hroot
      cases hroot
    | some v' =>
      congr 1
      refine (o.sorted_value.get hx).ext (o'.sorted_value.get hx') fun y => ?_
      rw [← probe_append hx, ← probe_append hx', h]

/-- `Set`. -/
def set (p : Path String) (v : FieldValue α) (o : ObjectValue α) : ObjectValue α :=
  ofValue (flush p.parent [(p.last, v.1)] ∅ o.value)
    (sorted_flush o.sorted_value (SortedFields.nil.insertKey p.last v.2))

/-- `Delete`: without a map at the parent there is nothing to delete. -/
def delete (p : Path String) (o : ObjectValue α) : ObjectValue α :=
  match o.value.get p.parent with
  | some (.map _) =>
    ofValue (flush p.parent [] {p.last} o.value) (sorted_flush o.sorted_value SortedFields.nil)
  | _ => o

/-- `SetAll`. -/
def setAll (data : TransformMap α) (o : ObjectValue α) : ObjectValue α :=
  ofValue (Firestore.setAll data.changes o.value) (sorted_setAll o.sorted_value data.sorted)

theorem value_set (p : Path String) (v : FieldValue α) (o : ObjectValue α) :
    (o.set p v).value = put p (some v.1) o.value := by
  rw [← flush_singleton o.sorted_value]
  exact map_fields_modify p.parent o.value

theorem value_setAll (data : TransformMap α) (o : ObjectValue α) :
    (o.setAll data).value = Firestore.setAll data.changes o.value := map_fields_setAllLoop

/-- What a delete takes away, and nothing else. -/
theorem probe_delete (p : Path String) (o : ObjectValue α) (x : List String) :
    probe x (o.delete p).value = if p.segments <+: x then none else probe x o.value := by
  unfold delete
  split
  · rename_i fields hparent
    have hvalue : (ofValue (flush p.parent [] {p.last} o.value)
        (sorted_flush o.sorted_value SortedFields.nil)).value = put p none o.value := by
      rw [← flush_delete o.sorted_value]
      exact map_fields_modify p.parent o.value
    rw [hvalue]
    split
    · rename_i hbelow
      obtain ⟨y, rfl⟩ := hbelow
      exact probe_put_below p none o.value y
    · rename_i hnot
      by_cases habove : x <+: p.parent
      · -- the maps above were there already
        rw [probe_put_above habove]
        obtain ⟨y, hy⟩ := habove
        rcases List.eq_nil_or_concat' y with rfl | ⟨z, k, rfl⟩
        · rw [List.append_nil] at hy
          rw [hy, probe, hparent]
          rfl
        · refine (probe_of_below (y := z ++ [k]) (by simp) ?_).symm
          rw [hy, probe, hparent]
          simp
      · exact probe_put_of_unrelated (fun h => h.elim hnot habove) none o.value
  · rename_i hnomap
    split
    · rename_i hbelow
      obtain ⟨y, rfl⟩ := hbelow
      refine probe_append_none ?_ y
      rw [Path.segments, probe, get_append]
      cases hparent : o.value.get p.parent with
      | none => rfl
      | some s =>
        cases s with
        | scalar a => rfl
        | map fields => exact absurd hparent (hnomap fields)
    · rfl

end ObjectValue

end Firestore
