import TheHive.Firestore.Overlay

/-!
# Writes of an app

What `DocumentReference` of the vendored client hands on: a document is set, merged, updated or
deleted.  A plain mutation deletes no single field, transforms none, sets fields at most two levels
deep, and asks at most whether the document exists.

* `UserWrite` — the four writes, with the mutation each becomes.
* `overlaid_eq_of_plain` — the overlay of plain mutations, calculated from one document, does what
  they do to every document that exists when the first one does.
* `plain_of_calculateOverlayMutation` — an overlay of plain mutations is plain itself.
* `applyAllToLocalView_of_whole` — once the document is set or deleted whole, it does not matter
  what it was.
* `hasLocalMutations_iff` — whether a queue does anything at all.
-/

set_option autoImplicit false

namespace Firestore

open FieldTree MutableDocument

universe u

variable {α : Type u}

/-! ## What an app writes -/

/-- The writes of `DocumentReference`, with their parsed data.  The field transforms are those
without a base value, server timestamps and changes of arrays; an increment is not among them. -/
inductive UserWrite (α : Type u) where
  | set (data : ObjectValue α) (fieldTransforms : List (FieldTransform α))
  | merge (data : ObjectValue α) (fieldMask : FieldMask) (fieldTransforms : List (FieldTransform α))
  | update (data : ObjectValue α) (fieldMask : FieldMask) (fieldTransforms : List (FieldTransform α))
  | delete

/-- `SetData`, with `ParsedSetData::ToMutation`, `UpdateData` and `DeleteDocument`. -/
def UserWrite.toMutation : UserWrite α → Mutation α
  | set data fieldTransforms => .set data .none fieldTransforms
  | merge data fieldMask fieldTransforms => .patch data fieldMask .none fieldTransforms
  | update data fieldMask fieldTransforms => .patch data fieldMask (.exists true) fieldTransforms
  | delete => .delete .none

/-- A mutation that deletes no single field, transforms none and sets fields at most two levels
deep. -/
structure Mutation.Plain (m : Mutation α) : Prop where
  setsFields : m.SetsFields
  transforms : m.fieldTransforms = []
  precondition : m.precondition = .none ∨ m.isPatch ∧ ∃ b, m.precondition = .exists b
  shallow : ∀ mask, m.fieldMask = some mask → ∀ p ∈ mask, p.parent.length ≤ 1

theorem plain_set (data : ObjectValue α) : (UserWrite.set data []).toMutation.Plain :=
  ⟨trivial, rfl, .inl rfl, fun _ h => by cases h⟩

theorem plain_delete : (UserWrite.delete : UserWrite α).toMutation.Plain :=
  ⟨trivial, rfl, .inl rfl, fun _ h => by cases h⟩

section Patch

variable {data : ObjectValue α} {fieldMask : FieldMask}
  (present : ∀ p ∈ fieldMask, (data.get p.segments).isSome)
  (shallow : ∀ p ∈ fieldMask, p.parent.length ≤ 1)

include present shallow

theorem plain_merge : (UserWrite.merge data fieldMask []).toMutation.Plain := by
  refine ⟨present, rfl, .inl rfl, fun _ h => ?_⟩
  cases h
  exact shallow

theorem plain_update : (UserWrite.update data fieldMask []).toMutation.Plain := by
  refine ⟨present, rfl, .inr ⟨rfl, true, rfl⟩, fun _ h => ?_⟩
  cases h
  exact shallow

end Patch

/-! ## Documents that exist alike -/

section Alike

variable {m : Mutation α} {doc doc' base base' : MutableDocument α} {queue : MutationQueue α}

theorem Mutation.Plain.isValidFor_eq (h : m.Plain) (hfound : doc'.isFoundDocument = doc.isFoundDocument) :
    m.precondition.isValidFor doc' = m.precondition.isValidFor doc := by
  rcases h.precondition with hnone | ⟨-, b, hexists⟩
  · rw [hnone]
    rfl
  · rw [hexists]
    simp only [Precondition.isValidFor, hfound]

theorem Mutation.Plain.takesAlike (h : m.Plain) (hfound : doc'.isFoundDocument = doc.isFoundDocument)
    (localWriteTime : Timestamp) : m.TakesAlike localWriteTime doc doc' :=
  ⟨h.isValidFor_eq hfound, by rw [h.transforms]; rfl⟩

/-- A plain mutation leaves two documents that exist alike so. -/
theorem Mutation.Plain.isFoundDocument_eq (h : m.Plain)
    (hfound : doc'.isFoundDocument = doc.isFoundDocument) (mask mask' : Option FieldMask)
    (localWriteTime : Timestamp) :
    (m.applyToLocalView doc' mask' localWriteTime).1.isFoundDocument =
      (m.applyToLocalView doc mask localWriteTime).1.isFoundDocument := by
  have hvalid := h.isValidFor_eq hfound
  cases m <;> simp only [Mutation.precondition] at hvalid <;>
    simp only [Mutation.applyToLocalView, hvalid] <;> split <;>
      first | rfl | exact hfound

theorem isFoundDocument_applyAllToLocalView (hplain : ∀ m ∈ queue, m.1.Plain)
    (hfound : base'.isFoundDocument = base.isFoundDocument) (mask mask' : Option FieldMask) :
    (applyAllToLocalView queue base' mask').1.isFoundDocument =
      (applyAllToLocalView queue base mask).1.isFoundDocument := by
  induction queue using List.reverseRecOn with
  | nil => exact hfound
  | append_singleton queue m ih =>
    have hrec := ih fun m' hm' => hplain m' (List.mem_append_left _ hm')
    rw [applyAllToLocalView_concat, applyAllToLocalView_concat]
    exact (hplain m (by simp)).isFoundDocument_eq hrec _ _ _

theorem takeAlike_of_plain (hplain : ∀ m ∈ queue, m.1.Plain)
    (hfound : base'.isFoundDocument = base.isFoundDocument) : TakeAlike queue base base' := by
  rintro pre m post rfl
  refine (hplain m (by simp)).takesAlike (isFoundDocument_applyAllToLocalView ?_ hfound _ _) m.2
  exact fun m' hm' => hplain m' (List.mem_append_left _ hm')

/-- The mask of plain mutations is shallow. -/
theorem shallow_applyAllToLocalView (hplain : ∀ m ∈ queue, m.1.Plain) {mask : FieldMask}
    (h : (applyAllToLocalView queue base (some ∅)).2 = some mask) :
    ∀ p ∈ mask, p.parent.length ≤ 1 := by
  induction queue using List.reverseRecOn generalizing mask with
  | nil =>
    cases h
    simp
  | append_singleton queue m ih =>
    have hrec := @ih fun m' hm' => hplain m' (List.mem_append_left _ hm')
    have hm := hplain m (by simp)
    rw [applyAllToLocalView_concat] at h
    generalize applyAllToLocalView queue base (some ∅) = s at h hrec
    obtain ⟨m, t⟩ := m
    by_cases hvalid : m.precondition.isValidFor s.1
    · cases m with
      | set value pre fieldTransforms =>
        have hpre : pre.isValidFor s.1 := hvalid
        rw [Mutation.applyToLocalView, if_pos hpre] at h
        cases h
      | delete pre =>
        have hpre : pre.isValidFor s.1 := hvalid
        rw [Mutation.applyToLocalView, if_pos hpre] at h
        cases h
      | patch value patchMask pre fieldTransforms =>
        have hpre : pre.isValidFor s.1 := hvalid
        rw [Mutation.applyToLocalView, if_pos hpre, Option.map_eq_some_iff] at h
        obtain ⟨previous, hprevious, rfl⟩ := h
        have htransforms : fieldTransforms = [] := hm.transforms
        subst htransforms
        intro p hp
        simp only [List.map_nil, List.toFinset_nil, Finset.union_empty, Finset.mem_union] at hp
        exact hp.elim (hrec hprevious p) (hm.shallow patchMask rfl p)
    · rw [Mutation.applyToLocalView_of_not_isValidFor hvalid] at h
      exact hrec h

theorem isMapAt_of_shallow {D : ObjectValue α} {p : Path String} (h : p.parent.length ≤ 1) :
    IsMapAt (twoAbove p) D := by
  have hnil : twoAbove p = [] := by
    rw [twoAbove, ← List.length_eq_zero_iff, List.length_dropLast]
    omega
  rw [hnil]
  exact isMapAt_nil D

/-- **The overlay of plain mutations does what they do**, to every document that exists when the
one it was calculated from does. -/
theorem overlaid_eq_of_plain (hplain : ∀ m ∈ queue, m.1.Plain) (hbase : base.hasLocalMutations = false)
    (hfound : base'.isFoundDocument = base.isFoundDocument) :
    overlaid (Mutation.calculateOverlayMutation (applyAllToLocalView queue base (some ∅)).1
        (applyAllToLocalView queue base (some ∅)).2) base' =
      (applyAllToLocalView queue base' (some ∅)).1 := by
  have hhistory := history_applyAllToLocalView (fun m hm => (hplain m hm).setsFields)
    (takeAlike_of_plain hplain hfound)
  exact (hhistory.2.overlaid_iff hbase).2 fun mask hmask p hp =>
    isMapAt_of_shallow (shallow_applyAllToLocalView hplain hmask p hp)

/-- What the overlay of shallow changes writes is there. -/
theorem get_target_ne_none {D : ObjectValue α} {writes : List (Change α)} {t : Value α}
    {mask : FieldMask} (hset : ∀ w ∈ writes, w.2.isSome) (hvalue : D.value = puts writes t)
    (hmask : ∀ p, p ∈ mask ↔ p ∈ writes.map Prod.fst) {p : Path String} (hp : p ∈ mask)
    (hshallow : p.parent.length ≤ 1) : D.get (target D p).segments ≠ none := by
  intro hmissing
  have hlength : (target D p).segments.length ≤ 1 := by
    by_cases hget : D.get p.segments = none
    · rcases target_eq_or D p with hself | hup
      · cases hup : p.up with
        | none =>
          rw [hself, Path.segments, Path.up_eq_none hup]
          simp
        | some q =>
          have hq : target D p = q := by rw [target_of_missing hget, hup]; rfl
          rw [hq, ← Path.up_eq_some hup]
          exact hshallow
      · rw [← Path.up_eq_some hup]
        exact hshallow
    · rw [target_of_get hget] at hmissing
      exact absurd hmissing hget
  obtain ⟨r, -, hprefix, hne⟩ :=
    exists_target_above hset hvalue hmask (Finset.mem_image_of_mem (target D) hp) hmissing
  have hr : 1 ≤ r.segments.length := by rw [Path.segments, List.length_append]; simp
  have hsegments := hprefix.eq_of_length (le_antisymm hprefix.length_le (hlength.trans hr))
  exact hne (Path.segments_injective hsegments)

/-- **An overlay of plain mutations is plain**, and applies to every document. -/
theorem plain_of_calculateOverlayMutation (hplain : ∀ m ∈ queue, m.1.Plain)
    (hbase : base.hasLocalMutations = false) {o : Mutation α}
    (h : Mutation.calculateOverlayMutation (applyAllToLocalView queue base (some ∅)).1
      (applyAllToLocalView queue base (some ∅)).2 = some o) :
    o.Plain ∧ o.precondition = .none := by
  have hhistory := (history_applyAllToLocalView (fun m hm => (hplain m hm).setsFields)
    (takeAlike_self queue base)).2
  have hshallow := fun mask => @shallow_applyAllToLocalView _ base queue hplain mask
  generalize (applyAllToLocalView queue base (some ∅)).1 = doc at h hhistory
  generalize (applyAllToLocalView queue base (some ∅)).2 = mask at h hhistory hshallow
  cases hhistory with
  | untouched =>
    rw [Mutation.calculateOverlayMutation, hbase] at h
    cases h
  | replaced data =>
    cases h
    exact ⟨⟨trivial, rfl, .inl rfl, fun _ h => by cases h⟩, rfl⟩
  | deleted =>
    cases h
    exact ⟨⟨trivial, rfl, .inl rfl, fun _ h => by cases h⟩, rfl⟩
  | @patched data data' mask writes hset hvalue hvalue' hmask =>
    obtain ⟨P, hoverlay, hP⟩ := exists_overlay data mask
    rw [hoverlay] at h
    cases h
    refine ⟨⟨fun q hq => ?_, rfl, .inl rfl, fun _ h => ?_⟩, rfl⟩
    · obtain ⟨p, hp, rfl⟩ := Finset.mem_image.1 hq
      rw [hP _ hq, ← Option.ne_none_iff_isSome]
      exact get_target_ne_none hset hvalue hmask hp (hshallow mask rfl p hp)
    · cases h
      intro q hq
      obtain ⟨p, hp, rfl⟩ := Finset.mem_image.1 hq
      have hlength := (target_above data p).length_le
      have hp := hshallow mask rfl p hp
      simp only [Path.segments, List.length_append, List.length_singleton] at hlength
      omega

/-- An overlay of changed fields is a patch. -/
theorem whole_of_calculateOverlayMutation {mask : Option FieldMask} {o : Mutation α}
    (h : Mutation.calculateOverlayMutation doc mask = some o) (hpatch : o.isPatch = false) :
    mask = none := by
  cases mask with
  | none => rfl
  | some mask =>
    rw [Mutation.calculateOverlayMutation] at h
    split at h
    · cases h
    · cases h
      cases hpatch

/-- A plain mutation that is no patch makes the same of all documents. -/
theorem Mutation.Plain.applyToLocalView_eq (h : m.Plain) (hpatch : m.isPatch = false)
    (doc doc' : MutableDocument α) (mask mask' : Option FieldMask) (t t' : Timestamp) :
    m.applyToLocalView doc' mask' t' = m.applyToLocalView doc mask t := by
  have hnone : m.precondition = .none :=
    h.precondition.resolve_right fun hp => by rw [hpatch] at hp; cases hp.1
  have htransforms := h.transforms
  cases m with
  | patch => cases hpatch
  | set value pre fieldTransforms =>
    obtain rfl : pre = .none := hnone
    obtain rfl : fieldTransforms = [] := htransforms
    rfl
  | delete pre =>
    obtain rfl : pre = .none := hnone
    rfl

/-- Without a mask the document was set or deleted whole. -/
theorem exists_whole_of_mask_eq_none (h : (applyAllToLocalView queue base (some ∅)).2 = none) :
    ∃ m ∈ queue, m.1.isPatch = false := by
  induction queue using List.reverseRecOn with
  | nil => cases h
  | append_singleton queue m ih =>
    cases hpatch : m.1.isPatch with
    | false => exact ⟨m, by simp, hpatch⟩
    | true =>
      -- a patch keeps what mask there was
      have hmask : (applyAllToLocalView queue base (some ∅)).2 = none := by
        rw [applyAllToLocalView_concat] at h
        generalize applyAllToLocalView queue base (some ∅) = s at h
        obtain ⟨m, t⟩ := m
        cases m with
        | set => cases hpatch
        | delete => cases hpatch
        | patch value mask pre fieldTransforms =>
          rw [Mutation.applyToLocalView] at h
          split at h
          · exact Option.map_eq_none_iff.1 h
          · exact h
      obtain ⟨m', hm', hwhole⟩ := ih hmask
      exact ⟨m', List.mem_append_left _ hm', hwhole⟩

/-- **Once plain mutations set or delete a document whole, it does not matter what it was.** -/
theorem applyAllToLocalView_of_whole (hplain : ∀ m ∈ queue, m.1.Plain)
    (hwhole : ∃ m ∈ queue, m.1.isPatch = false) (base base' : MutableDocument α)
    (mask mask' : Option FieldMask) :
    applyAllToLocalView queue base' mask' = applyAllToLocalView queue base mask := by
  obtain ⟨m, hm, hpatch⟩ := hwhole
  obtain ⟨pre, post, rfl⟩ := List.append_of_mem hm
  have heq := (hplain m hm).applyToLocalView_eq hpatch (applyAllToLocalView pre base mask).1
    (applyAllToLocalView pre base' mask').1 (applyAllToLocalView pre base mask).2
    (applyAllToLocalView pre base' mask').2 m.2 m.2
  rw [List.append_cons, applyAllToLocalView_append (pre ++ [m]) post base' mask',
    applyAllToLocalView_append (pre ++ [m]) post base mask, applyAllToLocalView_concat,
    applyAllToLocalView_concat, heq]

end Alike

/-! ## Whether anything is written -/

section Local

variable {m : Mutation α} {doc : MutableDocument α} {queue : MutationQueue α}

theorem Mutation.hasLocalMutations_of_isValidFor (h : m.precondition.isValidFor doc)
    (mask : Option FieldMask) (t : Timestamp) :
    (m.applyToLocalView doc mask t).1.hasLocalMutations = true := by
  cases m with
  | set value pre fieldTransforms =>
    have hpre : pre.isValidFor doc := h
    rw [Mutation.applyToLocalView, if_pos hpre]
    rfl
  | patch value patchMask pre fieldTransforms =>
    have hpre : pre.isValidFor doc := h
    rw [Mutation.applyToLocalView, if_pos hpre]
    rfl
  | delete pre =>
    have hpre : pre.isValidFor doc := h
    rw [Mutation.applyToLocalView, if_pos hpre]
    rfl

theorem hasLocalMutations_applyAllToLocalView (h : doc.hasLocalMutations = true)
    (mask : Option FieldMask) : (applyAllToLocalView queue doc mask).1.hasLocalMutations = true := by
  induction queue using List.reverseRecOn with
  | nil => exact h
  | append_singleton queue m ih =>
    rw [applyAllToLocalView_concat]
    by_cases hvalid : m.1.precondition.isValidFor (applyAllToLocalView queue doc mask).1
    · exact Mutation.hasLocalMutations_of_isValidFor hvalid _ _
    · rw [Mutation.applyToLocalView_of_not_isValidFor hvalid]
      exact ih

theorem applyAllToLocalView_of_forall (h : ∀ m ∈ queue, ¬ m.1.precondition.isValidFor doc)
    (mask : Option FieldMask) : applyAllToLocalView queue doc mask = (doc, mask) := by
  induction queue with
  | nil => rfl
  | cons m queue ih =>
    rw [applyAllToLocalView, List.foldl_cons,
      Mutation.applyToLocalView_of_not_isValidFor (h m List.mem_cons_self)]
    exact ih fun m' hm' => h m' (List.mem_cons_of_mem m hm')

/-- **A queue does something exactly when one of its mutations applies to the document itself.** -/
theorem hasLocalMutations_iff (hdoc : doc.hasLocalMutations = false) (mask : Option FieldMask) :
    (applyAllToLocalView queue doc mask).1.hasLocalMutations = true ↔
      ∃ m ∈ queue, m.1.precondition.isValidFor doc := by
  constructor
  · intro h
    by_contra hnone
    simp only [not_exists, not_and] at hnone
    rw [applyAllToLocalView_of_forall hnone, hdoc] at h
    cases h
  · rintro ⟨m, hm, hvalid⟩
    induction queue generalizing mask with
    | nil => cases hm
    | cons m' queue ih =>
      rw [applyAllToLocalView, List.foldl_cons]
      by_cases hfirst : m'.1.precondition.isValidFor doc
      · exact hasLocalMutations_applyAllToLocalView
          (Mutation.hasLocalMutations_of_isValidFor hfirst mask m'.2) _
      · rw [Mutation.applyToLocalView_of_not_isValidFor hfirst]
        rcases List.mem_cons.1 hm with rfl | hm
        · exact absurd hvalid hfirst
        · exact ih _ hm

end Local

end Firestore
