import TheHive.Firestore.Mutation

/-!
# Overlays

The client keeps one mutation for each document with pending writes, its overlay, and shows the
document with the overlay applied.  It should show what all pending mutations make of the document,
also when a new base has come from the server since.

* `History` — what any queue of mutations can make of two documents that it takes alike: nothing,
  writes at the paths of the mask, or a whole new document.
* `history_applyAllToLocalView` — every queue keeps to it.
* `target`, `exists_overlay` — what the overlay of a patched document writes, and where.
* `overlay_exact_iff` — **the overlay of a queue does what the queue does exactly when every changed
  field is at most two levels below a map of the result**.
-/

set_option autoImplicit false

namespace Firestore

open FieldTree MutableDocument

universe u

variable {α : Type u}

/-! ## Writes of a mutation -/

/-- Every field of the mask has a value: nothing is deleted. -/
def Mutation.SetsFields : Mutation α → Prop
  | .patch value mask _ _ => ∀ p ∈ mask, (value.get p.segments).isSome
  | _ => True

theorem mem_localTransformResults {w : Path String × Option (FieldValue α)}
    {fieldTransforms : List (FieldTransform α)} {previousData : ObjectValue α}
    {localWriteTime : Timestamp}
    (hw : w ∈ localTransformResults fieldTransforms previousData localWriteTime) : w.2.isSome := by
  obtain ⟨t, -, rfl⟩ := List.mem_map.1 (mem_of_mem_assignAll hw)
  rfl

theorem keys_localTransformResults (fieldTransforms : List (FieldTransform α))
    (previousData : ObjectValue α) (localWriteTime : Timestamp) (p : Path String) :
    p ∈ (localTransformResults fieldTransforms previousData localWriteTime).map Prod.fst ↔
      p ∈ fieldTransforms.map FieldTransform.path := by
  rw [localTransformResults, mem_keys_assignAll, List.map_map]
  rfl

theorem keys_getPatch (value : ObjectValue α) (mask : FieldMask) :
    (getPatch value mask).map Prod.fst = mask.sort := by
  rw [getPatch, List.map_map]
  exact List.map_id _

theorem keys_changes (data : TransformMap α) : data.changes.map Prod.fst = data.map Prod.fst := by
  rw [TransformMap.changes, List.map_map]
  rfl

/-- **Changes without deletes are written one after the other.** -/
theorem value_setAll_of_isSome {data : TransformMap α} (hnodup : (data.map Prod.fst).Nodup)
    (hset : ∀ w ∈ data, w.2.isSome) (o : ObjectValue α) :
    (o.setAll data).value = puts data.changes o.value := by
  rw [ObjectValue.value_setAll]
  refine setAll_eq_puts o.sorted_value rfl (by rwa [keys_changes]) data.sorted
    (deletesMissing_of_isSome ?_ _)
  intro c hc
  obtain ⟨w, hw, rfl⟩ := List.mem_map.1 hc
  rw [Option.isSome_map]
  exact hset w hw

/-! ## Histories -/

/-- What a queue can have made of two documents, with the mask it leaves. -/
inductive History (base base' : MutableDocument α) :
    MutableDocument α → MutableDocument α → Option FieldMask → Prop
  | untouched : History base base' base base' (some ∅)
  | patched {data data' : ObjectValue α} {mask : FieldMask} (writes : List (Change α))
      (hset : ∀ w ∈ writes, w.2.isSome) (hvalue : data.value = puts writes base.data.value)
      (hvalue' : data'.value = puts writes base'.data.value)
      (hmask : ∀ p, p ∈ mask ↔ p ∈ writes.map Prod.fst) :
      History base base' ⟨.foundDocument, 0, data, .hasLocalMutations⟩
        ⟨.foundDocument, 0, data', .hasLocalMutations⟩ (some mask)
  | replaced (data : ObjectValue α) :
      History base base' ⟨.foundDocument, 0, data, .hasLocalMutations⟩
        ⟨.foundDocument, 0, data, .hasLocalMutations⟩ none
  | deleted :
      History base base' ⟨.noDocument, 0, .empty, .hasLocalMutations⟩
        ⟨.noDocument, 0, .empty, .hasLocalMutations⟩ none

/-- What a patch writes. -/
def patchWrites (value : ObjectValue α) (mask : FieldMask) (transformResults : TransformMap α) :
    List (Change α) := (getPatch value mask).changes ++ transformResults.changes

section Patch

variable {value : ObjectValue α} {mask : FieldMask} {pre : Precondition}
  {fieldTransforms : List (FieldTransform α)}

theorem isSome_changes {data : TransformMap α} (h : ∀ w ∈ data, w.2.isSome) :
    ∀ w ∈ data.changes, w.2.isSome := by
  intro c hc
  obtain ⟨w, hw, rfl⟩ := List.mem_map.1 hc
  rw [Option.isSome_map]
  exact h w hw

theorem isSome_getPatch (hset : (Mutation.patch value mask pre fieldTransforms).SetsFields) :
    ∀ w ∈ getPatch value mask, w.2.isSome := by
  intro w hw
  obtain ⟨p, hp, rfl⟩ := List.mem_map.1 hw
  exact hset p ((Finset.mem_sort _).1 hp)

theorem isSome_patchWrites (hset : (Mutation.patch value mask pre fieldTransforms).SetsFields)
    (data : ObjectValue α) (localWriteTime : Timestamp) :
    ∀ w ∈ patchWrites value mask (localTransformResults fieldTransforms data localWriteTime),
      w.2.isSome := by
  intro w hw
  rcases List.mem_append.1 hw with hw | hw
  · exact isSome_changes (isSome_getPatch hset) w hw
  · exact isSome_changes (fun _ h => mem_localTransformResults h) w hw

theorem keys_patchWrites (data : ObjectValue α) (localWriteTime : Timestamp) (p : Path String) :
    p ∈ (patchWrites value mask
        (localTransformResults fieldTransforms data localWriteTime)).map Prod.fst ↔
      p ∈ mask ∪ (fieldTransforms.map FieldTransform.path).toFinset := by
  rw [patchWrites, List.map_append, List.mem_append, keys_changes, keys_changes, keys_getPatch,
    keys_localTransformResults, Finset.mem_union, Finset.mem_sort, List.mem_toFinset]

/-- A patch writes one path after the other. -/
theorem value_patch (hset : (Mutation.patch value mask pre fieldTransforms).SetsFields)
    (data : ObjectValue α) (localWriteTime : Timestamp) :
    ((data.setAll (getPatch value mask)).setAll
        (localTransformResults fieldTransforms data localWriteTime)).value =
      puts (patchWrites value mask (localTransformResults fieldTransforms data localWriteTime))
        data.value := by
  have hkeys : ((getPatch value mask).map Prod.fst).Nodup := by
    rw [keys_getPatch]
    exact Finset.sort_nodup _ _
  have htransforms : ((localTransformResults fieldTransforms data localWriteTime).map Prod.fst).Nodup :=
    (ascending_assignAll _).nodup_keys
  rw [value_setAll_of_isSome htransforms fun _ h => mem_localTransformResults h,
    value_setAll_of_isSome hkeys (isSome_getPatch hset), patchWrites, puts_append]

end Patch

theorem Mutation.applyToLocalView_of_not_isValidFor {m : Mutation α} {doc : MutableDocument α}
    (h : ¬ m.precondition.isValidFor doc) (mask : Option FieldMask) (localWriteTime : Timestamp) :
    m.applyToLocalView doc mask localWriteTime = (doc, mask) := by
  cases m <;> exact if_neg h

/-- A mutation takes two documents alike: it applies to both or to neither, and its transforms come
to the same. -/
structure Mutation.TakesAlike (m : Mutation α) (localWriteTime : Timestamp)
    (doc doc' : MutableDocument α) : Prop where
  valid : m.precondition.isValidFor doc' = m.precondition.isValidFor doc
  transforms : localTransformResults m.fieldTransforms doc'.data localWriteTime =
    localTransformResults m.fieldTransforms doc.data localWriteTime

theorem Mutation.takesAlike_self (m : Mutation α) (localWriteTime : Timestamp)
    (doc : MutableDocument α) : m.TakesAlike localWriteTime doc doc := ⟨rfl, rfl⟩

/-- The mask depends on the document through the precondition alone. -/
theorem Mutation.TakesAlike.snd_eq {m : Mutation α} {localWriteTime : Timestamp}
    {doc doc' : MutableDocument α} (h : m.TakesAlike localWriteTime doc doc')
    (mask : Option FieldMask) :
    (m.applyToLocalView doc' mask localWriteTime).2 = (m.applyToLocalView doc mask localWriteTime).2 := by
  have hvalid := h.valid
  cases m <;> simp only [Mutation.precondition] at hvalid <;>
    simp only [Mutation.applyToLocalView, hvalid] <;> split <;> rfl

/-- **One mutation continues a history**, when it takes both documents alike. -/
theorem History.applyToLocalView {base base' doc doc' : MutableDocument α} {mask : Option FieldMask}
    (h : History base base' doc doc' mask) {m : Mutation α} (hset : m.SetsFields)
    {localWriteTime : Timestamp} (halike : m.TakesAlike localWriteTime doc doc') :
    History base base' (m.applyToLocalView doc mask localWriteTime).1
      (m.applyToLocalView doc' mask localWriteTime).1
      (m.applyToLocalView doc mask localWriteTime).2 := by
  by_cases hvalid : m.precondition.isValidFor doc
  · have hvalid' : m.precondition.isValidFor doc' := halike.valid.trans hvalid
    cases m with
    | set value pre fieldTransforms =>
      have hpre : pre.isValidFor doc := hvalid
      have hpre' : pre.isValidFor doc' := hvalid'
      have htransforms : localTransformResults fieldTransforms doc'.data localWriteTime =
        localTransformResults fieldTransforms doc.data localWriteTime := halike.transforms
      rw [Mutation.applyToLocalView, Mutation.applyToLocalView, if_pos hpre, if_pos hpre', htransforms]
      exact .replaced _
    | delete pre =>
      have hpre : pre.isValidFor doc := hvalid
      have hpre' : pre.isValidFor doc' := hvalid'
      rw [Mutation.applyToLocalView, Mutation.applyToLocalView, if_pos hpre, if_pos hpre']
      exact .deleted
    | patch value patchMask pre fieldTransforms =>
      have hpre : pre.isValidFor doc := hvalid
      have hpre' : pre.isValidFor doc' := hvalid'
      have htransforms : localTransformResults fieldTransforms doc'.data localWriteTime =
        localTransformResults fieldTransforms doc.data localWriteTime := halike.transforms
      rw [Mutation.applyToLocalView, Mutation.applyToLocalView, if_pos hpre, if_pos hpre']
      have hwrites := isSome_patchWrites hset doc.data localWriteTime
      have hpaths := @keys_patchWrites _ value patchMask fieldTransforms doc.data localWriteTime
      have hvalue := value_patch hset doc.data localWriteTime
      have hvalue' := value_patch hset doc'.data localWriteTime
      rw [htransforms] at hvalue'
      cases h with
      | untouched =>
        refine .patched _ hwrites hvalue (by rw [htransforms]; exact hvalue') fun p => ?_
        beta_reduce
        rw [hpaths, Finset.empty_union]
      | @patched data data' mask writes' hset' hbase hbase' hmask' =>
        refine .patched (writes' ++ patchWrites value patchMask
          (localTransformResults fieldTransforms data localWriteTime)) (fun w hw => ?_) ?_ ?_ fun p => ?_
        · exact (List.mem_append.1 hw).elim (hset' w) (hwrites w)
        · rw [puts_append, ← hbase]
          exact hvalue
        · rw [puts_append, ← hbase', htransforms]
          exact hvalue'
        · beta_reduce
          rw [List.map_append, List.mem_append, ← hmask', hpaths, Finset.union_assoc, Finset.mem_union]
      | replaced data =>
        rw [htransforms]
        exact .replaced _
      | deleted =>
        rw [htransforms]
        exact .replaced _
  · have hvalid' : ¬ m.precondition.isValidFor doc' := by rwa [halike.valid]
    rw [Mutation.applyToLocalView_of_not_isValidFor hvalid,
      Mutation.applyToLocalView_of_not_isValidFor hvalid']
    exact h

/-- Every mutation of a queue takes what it is applied to alike, from both documents. -/
def TakeAlike (queue : MutationQueue α) (base base' : MutableDocument α) : Prop :=
  ∀ pre m post, queue = pre ++ m :: post →
    m.1.TakesAlike m.2 (applyAllToLocalView pre base (some ∅)).1
      (applyAllToLocalView pre base' (some ∅)).1

theorem takeAlike_self (queue : MutationQueue α) (base : MutableDocument α) :
    TakeAlike queue base base := fun _ m _ _ => m.1.takesAlike_self m.2 _

/-- **Every queue without deletes of fields has a history.** -/
theorem history_applyAllToLocalView {queue : MutationQueue α} (hset : ∀ m ∈ queue, m.1.SetsFields)
    {base base' : MutableDocument α} (halike : TakeAlike queue base base') :
    (applyAllToLocalView queue base' (some ∅)).2 = (applyAllToLocalView queue base (some ∅)).2 ∧
      History base base' (applyAllToLocalView queue base (some ∅)).1
        (applyAllToLocalView queue base' (some ∅)).1
        (applyAllToLocalView queue base (some ∅)).2 := by
  induction queue using List.reverseRecOn with
  | nil => exact ⟨rfl, .untouched⟩
  | append_singleton queue m ih =>
    obtain ⟨hmask, hrec⟩ := ih (fun m' hm' => hset m' (List.mem_append_left _ hm'))
      fun pre m' post hsplit => halike pre m' (post ++ [m]) (by rw [hsplit]; simp)
    have hlast := halike queue m [] rfl
    rw [applyAllToLocalView_concat, applyAllToLocalView_concat, hmask]
    exact ⟨hlast.snd_eq _, hrec.applyToLocalView (hset m (by simp)) hlast⟩

/-! ## What an overlay writes -/

/-- Where the overlay of a document writes for a changed field: at the field, or, when it is
missing, at its parent. -/
def target (docValue : ObjectValue α) (path : Path String) : Path String :=
  if (docValue.get path.segments).isNone then path.up.getD path else path

variable {D : ObjectValue α} {p q : Path String}

theorem target_of_get (h : D.get p.segments ≠ none) : target D p = p := by
  rw [target, if_neg (by rwa [Option.isNone_iff_eq_none])]

theorem target_of_missing (h : D.get p.segments = none) : target D p = p.up.getD p := by
  rw [target, if_pos (by rw [h]; rfl)]

theorem target_eq_or (D : ObjectValue α) (p : Path String) :
    target D p = p ∨ p.up = some (target D p) := by
  unfold target
  split
  · cases h : p.up with
    | none => exact .inl rfl
    | some q => exact .inr rfl
  · exact .inl rfl

theorem target_above (D : ObjectValue α) (p : Path String) :
    (target D p).segments <+: p.segments := by
  rcases target_eq_or D p with h | h
  · rw [h]
  · rw [← Path.up_eq_some h]
    exact p.parent_prefix_segments

theorem target_le (D : ObjectValue α) (p : Path String) : target D p ≤ p := by
  by_cases h : target D p = p
  · exact h.le
  · exact (Path.lt_of_prefix (target_above D p) h).le

/-- A path on the way to, or under, a changed field is so for what the overlay writes. -/
theorem related_target {x : List String} (h : p.Related x) : (target D p).Related x := by
  rcases target_eq_or D p with heq | hup
  · rwa [heq]
  · rcases h with h | h
    · exact .inl ((target_above D p).trans h)
    · rw [Path.up_eq_some hup] at h
      exact Path.related_iff.2 (.inr h)

/-- What one turn of the loop writes. -/
def overlayWrite (docValue : ObjectValue α) (patchValue : ObjectValue α) (path : Path String) :
    ObjectValue α :=
  match docValue.get path.segments with
  | some value => patchValue.set path value
  | none => patchValue.delete path

/-- In ascending order no path is skipped. -/
theorem foldl_overlayStep (D : ObjectValue α) {l : List (Path String)} (hl : l.Pairwise (· < ·))
    (s : ObjectValue α × FieldMask) (hs : ∀ q ∈ s.2, q ∉ l) :
    l.foldl (Mutation.overlayStep D) s =
      ((l.map (target D)).foldl (overlayWrite D) s.1, s.2 ∪ (l.map (target D)).toFinset) := by
  induction l generalizing s with
  | nil => simp
  | cons p l ih =>
    obtain ⟨hhead, htail⟩ := List.pairwise_cons.1 hl
    have hp : p ∉ s.2 := fun hmem => hs p hmem List.mem_cons_self
    have hstep : Mutation.overlayStep D s p =
        (overlayWrite D s.1 (target D p), insert (target D p) s.2) := by
      rw [Mutation.overlayStep, if_neg hp]
      show (match D.get (target D p).segments with
        | some value => (s.1.set (target D p) value, insert (target D p) s.2)
        | none => (s.1.delete (target D p), insert (target D p) s.2)) = _
      unfold overlayWrite
      cases D.get (target D p).segments <;> rfl
    rw [List.foldl_cons, hstep, ih htail, List.map_cons, List.foldl_cons, List.toFinset_cons,
      Finset.insert_union, Finset.union_insert]
    intro q hq hmem
    rcases Finset.mem_insert.1 hq with rfl | hq
    · exact absurd (hhead _ hmem) (not_lt.2 (target_le D p))
    · exact hs q hq (List.mem_cons_of_mem p hmem)

/-- At and below what has been written, the value of the overlay is that of the document. -/
theorem probe_foldl_overlayWrite (D : ObjectValue α) (l : List (Path String)) (hq : q ∈ l)
    {x : List String} (hx : q.segments <+: x) (P : ObjectValue α) :
    probe x (l.foldl (overlayWrite D) P).value = probe x D.value := by
  induction l using List.reverseRecOn with
  | nil => cases hq
  | append_singleton l r ih =>
    rw [List.foldl_append]
    generalize hP : l.foldl (overlayWrite D) P = P' at ih
    show probe x (overlayWrite D P' r).value = _
    by_cases hbelow : r.segments <+: x
    · obtain ⟨y, rfl⟩ := hbelow
      unfold overlayWrite
      cases hget : D.get r.segments with
      | some v =>
        have hraw : D.value.get r.segments = some v.1 := by
          rw [← ObjectValue.map_get, hget]
          rfl
        show probe _ (P'.set r v).value = _
        rw [ObjectValue.value_set, probe_put_below, probe_append hraw]
        rfl
      | none =>
        show probe _ (P'.delete r).value = _
        rw [ObjectValue.probe_delete, if_pos (List.prefix_append _ _),
          probe_append_none (ObjectValue.get_eq_none_iff.1 hget)]
    · have hql : q ∈ l := by
        rcases List.mem_append.1 hq with hql | hqr
        · exact hql
        · obtain rfl := List.mem_singleton.1 hqr
          exact absurd hx hbelow
      have hrec := ih hql
      unfold overlayWrite
      cases hget : D.get r.segments with
      | some v =>
        show probe x (P'.set r v).value = _
        rw [ObjectValue.value_set]
        by_cases habove : x <+: r.parent
        · -- above something the document has
          rw [probe_put_above habove]
          obtain ⟨y, hy⟩ := habove
          refine (probe_of_below (y := y ++ [r.last]) (by simp) ?_).symm
          rw [← List.append_assoc, hy]
          intro hnone
          have hmissing : D.get r.segments = none := ObjectValue.get_eq_none_iff.2 hnone
          rw [hmissing] at hget
          cases hget
        · rw [probe_put_of_unrelated (fun h => h.elim hbelow habove), hrec]
      | none =>
        show probe x (P'.delete r).value = _
        rw [ObjectValue.probe_delete, if_neg hbelow, hrec]

/-- **The overlay of a patched document**: it writes what the document has at its targets. -/
theorem exists_overlay (D : ObjectValue α) (mask : FieldMask) :
    ∃ P : ObjectValue α, Mutation.calculateOverlayMutation
        ⟨.foundDocument, 0, D, .hasLocalMutations⟩ (some mask) =
          some (.patch P (mask.image (target D)) .none []) ∧
      ∀ q ∈ mask.image (target D), P.get q.segments = D.get q.segments := by
  refine ⟨(mask.sort.map (target D)).foldl (overlayWrite D) .empty, ?_, ?_⟩
  · have hfold := foldl_overlayStep D (Finset.sortedLT_sort mask).pairwise (.empty, ∅)
      (fun q hq => absurd hq (Finset.notMem_empty q))
    have himage : ∅ ∪ (mask.sort.map (target D)).toFinset = mask.image (target D) := by
      ext q
      simp
    rw [Mutation.calculateOverlayMutation]
    simp only [hfold, himage]
    rfl
  · intro q hq
    have hmem : q ∈ mask.sort.map (target D) := by
      obtain ⟨p, hp, rfl⟩ := Finset.mem_image.1 hq
      exact List.mem_map_of_mem ((Finset.mem_sort _).2 hp)
    exact ObjectValue.get_eq_of_probe fun y =>
      probe_foldl_overlayWrite D _ hmem (List.prefix_append _ _) .empty

/-! ## What an overlay does -/

section Patched

variable {writes : List (Change α)} {base : Value α} {mask : FieldMask}

/-- A target that the document does not have was overwritten, or deleted, from another one. -/
theorem exists_target_above (hset : ∀ w ∈ writes, w.2.isSome) (hvalue : D.value = puts writes base)
    (hmask : ∀ p, p ∈ mask ↔ p ∈ writes.map Prod.fst) (hq : q ∈ mask.image (target D))
    (hmissing : D.get q.segments = none) :
    ∃ r ∈ mask.image (target D), r.segments <+: q.segments ∧ r ≠ q := by
  obtain ⟨p, hp, rfl⟩ := Finset.mem_image.1 hq
  have hrel : ∃ w ∈ writes, w.1.Related (target D p).segments := by
    obtain ⟨w, hw, rfl⟩ := List.mem_map.1 ((hmask p).1 hp)
    exact ⟨w, hw, Path.related_iff.2 (.inr (target_above D w.1))⟩
  rw [ObjectValue.get_eq_none_iff, hvalue] at hmissing
  obtain ⟨w, hw, hbelow, hne⟩ := exists_above_of_missing hset hrel hmissing
  have hwm : w.1 ∈ mask := (hmask w.1).2 (List.mem_map_of_mem hw)
  refine ⟨target D w.1, Finset.mem_image_of_mem _ hwm, (target_above D w.1).trans hbelow, ?_⟩
  intro heq
  have hle := (target_above D w.1).length_le
  rw [heq] at hle
  exact hne (hbelow.eq_of_length (le_antisymm hbelow.length_le hle))

/-- What the overlay writes, path by path. -/
def overlayChanges (D : ObjectValue α) (mask : FieldMask) : List (Change α) :=
  (getPatch D (mask.image (target D))).changes

theorem overlayChanges_eq (D : ObjectValue α) (mask : FieldMask) :
    overlayChanges D mask =
      (mask.image (target D)).sort.map fun q => (q, D.value.get q.segments) := by
  rw [overlayChanges, TransformMap.changes, getPatch, List.map_map]
  refine List.map_congr_left fun q _ => ?_
  show (q, (D.get q.segments).map Subtype.val) = _
  rw [ObjectValue.map_get]

theorem mem_overlayChanges {w : Change α} :
    w ∈ overlayChanges D mask ↔ w.1 ∈ mask.image (target D) ∧ w.2 = D.value.get w.1.segments := by
  rw [overlayChanges_eq]
  constructor
  · intro hw
    obtain ⟨q, hq, rfl⟩ := List.mem_map.1 hw
    exact ⟨(Finset.mem_sort _).1 hq, rfl⟩
  · rintro ⟨hq, hv⟩
    exact List.mem_map.2 ⟨w.1, (Finset.mem_sort _).2 hq, by rw [← hv]⟩

theorem pairwise_overlayChanges (D : ObjectValue α) (mask : FieldMask) :
    (overlayChanges D mask).Pairwise fun a b => a.1 < b.1 := by
  rw [overlayChanges_eq]
  exact List.pairwise_map.2 (Finset.sortedLT_sort _).pairwise

theorem exact_overlayChanges : ∀ w ∈ overlayChanges D mask, w.2 = D.value.get w.1.segments :=
  fun _ hw => (mem_overlayChanges.1 hw).2

theorem map_changes_getPatch {P : ObjectValue α}
    (hP : ∀ q ∈ mask.image (target D), P.get q.segments = D.get q.segments) :
    (getPatch P (mask.image (target D))).changes = overlayChanges D mask := by
  rw [overlayChanges, TransformMap.changes, TransformMap.changes, getPatch, getPatch]
  congr 1
  refine List.map_congr_left fun q hq => ?_
  rw [hP q ((Finset.mem_sort _).1 hq)]

/-- Everything the overlay deletes is missing by then. -/
theorem deletesMissing_overlayChanges (hset : ∀ w ∈ writes, w.2.isSome)
    (hvalue : D.value = puts writes base) (hmask : ∀ p, p ∈ mask ↔ p ∈ writes.map Prod.fst)
    (t : Value α) : DeletesMissing (overlayChanges D mask) t := by
  refine deletesMissing_of_forall fun pre w post hsplit hnone => ?_
  have hpair := pairwise_overlayChanges D mask
  have hw : w ∈ overlayChanges D mask := by rw [hsplit]; simp
  obtain ⟨hq, hv⟩ := mem_overlayChanges.1 hw
  rw [hnone] at hv
  have hmissing : D.get w.1.segments = none := by
    rw [ObjectValue.get_eq_none_iff, probe_eq_none_iff, ← hv]
  have hpre : ∀ w' ∈ pre, w' ∈ overlayChanges D mask := fun w' hw' => by
    rw [hsplit]
    exact List.mem_append_left _ hw'
  rw [hsplit, List.pairwise_append] at hpair
  rcases probe_puts_exact (fun w' hw' => exact_overlayChanges w' (hpre w' hw')) t w.1.segments with
    ⟨-, hp⟩ | ⟨⟨w', hw', habove⟩, -⟩ | ⟨hunrelated, -⟩
  · rw [← probe_eq_none_iff, hp]
    exact ObjectValue.get_eq_none_iff.1 hmissing
  · -- what is below comes later
    have hlt := hpair.2.2 w' hw' w List.mem_cons_self
    have hbelow := habove.trans w'.1.parent_prefix_segments
    have hne : w.1 ≠ w'.1 := fun h => lt_irrefl w'.1 (by rw [h] at hlt; exact hlt)
    exact absurd hlt (lt_asymm (Path.lt_of_prefix hbelow hne))
  · -- what is above came before
    obtain ⟨r, hr, hbelow, hne⟩ := exists_target_above hset hvalue hmask hq hmissing
    have hrw : (r, D.value.get r.segments) ∈ overlayChanges D mask := mem_overlayChanges.2 ⟨hr, rfl⟩
    rw [hsplit] at hrw
    rcases List.mem_append.1 hrw with hrpre | hrpost
    · exact absurd (.inl hbelow) (hunrelated _ hrpre)
    · rcases List.mem_cons.1 hrpost with heq | hrpost
      · exact absurd (congrArg Prod.fst heq) hne
      · have hlt := (List.pairwise_cons.1 hpair.2.1).1 _ hrpost
        exact absurd hlt (lt_asymm (Path.lt_of_prefix hbelow hne))

/-- What is two levels above a changed field. -/
def twoAbove (p : Path String) : List String := p.parent.dropLast

/-- The document has a map there. -/
def IsMapAt (x : List String) (docValue : ObjectValue α) : Prop := probe x docValue.value = some none

theorem isMapAt_nil (docValue : ObjectValue α) : IsMapAt [] docValue := rfl

theorem isMapAt_above {x y : List String} (h : IsMapAt y D) (hx : x <+: y) : IsMapAt x D := by
  obtain ⟨z, rfl⟩ := hx
  cases z with
  | nil => rwa [List.append_nil] at h
  | cons k z =>
    refine probe_of_below (y := k :: z) (by simp) ?_
    rw [show probe (x ++ k :: z) D.value = some none from h]
    simp

theorem isMapAt_above_of_get {x : List String} (h : D.get q.segments ≠ none) (hx : x <+: q.parent) :
    IsMapAt x D := by
  refine isMapAt_above (probe_of_below (y := [q.last]) (by simp) ?_) hx
  rwa [ne_eq, ObjectValue.get_eq_none_iff] at h

/-- What is on the way to, or under, what the overlay writes is so for a changed field. -/
theorem exists_related_write (hset : ∀ w ∈ writes, w.2.isSome) (hvalue : D.value = puts writes base)
    (hmask : ∀ p, p ∈ mask ↔ p ∈ writes.map Prod.fst) {x : List String}
    (hrel : ∃ w ∈ overlayChanges D mask, w.1.Related x) : ∃ w ∈ writes, w.1.Related x := by
  obtain ⟨⟨q, v⟩, hmem, hrel⟩ := hrel
  obtain ⟨hq, -⟩ := mem_overlayChanges.1 hmem
  obtain ⟨p, hp, rfl⟩ := Finset.mem_image.1 hq
  obtain ⟨w, hw, rfl⟩ := List.mem_map.1 ((hmask p).1 hp)
  rcases hrel with hbelow | habove
  · by_cases hget : D.get w.1.segments = none
    · -- the field is missing: something above it was written
      rw [ObjectValue.get_eq_none_iff, hvalue] at hget
      obtain ⟨w', hw', hprefix, hne⟩ :=
        exists_above_of_missing hset ⟨w, hw, .inl (List.prefix_refl _)⟩ hget
      have hparent : w'.1.segments <+: w.1.parent := by
        rcases List.prefix_concat_iff.1 hprefix with heq | hparent
        · exact absurd heq hne
        · exact hparent
      rcases target_eq_or D w.1 with hself | hup
      · rw [hself] at hbelow
        exact ⟨w, hw, .inl hbelow⟩
      · rw [Path.up_eq_some hup] at hparent
        exact ⟨w', hw', .inl (hparent.trans hbelow)⟩
    · rw [target_of_get hget] at hbelow
      exact ⟨w, hw, .inl hbelow⟩
  · refine ⟨w, hw, Path.related_iff.2 (.inr ?_)⟩
    exact (habove.trans (Path.parent_prefix_segments _)).trans (target_above D w.1)

/-- **The writes of the overlay give a document with the same history exactly when what is two
levels above each changed field is a map.** -/
theorem puts_overlayChanges_eq_iff {base' : Value α} {D' R' : ObjectValue α}
    (hset : ∀ w ∈ writes, w.2.isSome) (hvalue : D.value = puts writes base)
    (hvalue' : D'.value = puts writes base') (hmask : ∀ p, p ∈ mask ↔ p ∈ writes.map Prod.fst)
    (hR' : R'.value = puts (overlayChanges D mask) base') :
    R' = D' ↔ ∀ p ∈ mask, IsMapAt (twoAbove p) D := by
  have hcongr : ∀ {x : List String}, (∃ w ∈ writes, w.1.Related x) →
      probe x D'.value = probe x D.value := fun hrel => by
    rw [hvalue, hvalue']
    exact probe_puts_congr hrel _ _
  constructor
  · intro heq p hp
    by_cases hget : D.get p.segments = none
    · cases hup : p.up with
      | none =>
        rw [twoAbove, Path.up_eq_none hup]
        exact isMapAt_nil D
      | some q =>
        have htarget : target D p = q := by rw [target_of_missing hget, hup]; rfl
        have hparent : twoAbove p = q.parent := by
          rw [twoAbove, Path.up_eq_some hup, Path.segments, List.dropLast_concat]
        rw [hparent]
        by_cases hq : D.get q.segments = none
        · -- deleting makes maps of all above
          have hw : (q, D.value.get q.segments) ∈ overlayChanges D mask :=
            mem_overlayChanges.2 ⟨htarget ▸ Finset.mem_image_of_mem _ hp, rfl⟩
          obtain ⟨pre, post, hsplit⟩ := List.append_of_mem hw
          have hpair := pairwise_overlayChanges D mask
          rw [hsplit, List.pairwise_append] at hpair
          have hmap : probe q.parent R'.value = some none := by
            rw [hR', hsplit, puts_append, puts_cons]
            refine probe_puts_stays_map (probe_put_above (List.prefix_refl _) _ _) fun w hwpost hbelow => ?_
            have hlt := (List.pairwise_cons.1 hpair.2.1).1 w hwpost
            have hprefix := hbelow.trans q.parent_prefix_segments
            have hne : w.1 ≠ q := fun h => lt_irrefl q (by rw [h] at hlt; exact hlt)
            exact lt_asymm hlt (Path.lt_of_prefix hprefix hne)
          have hrel := exists_related_write hset hvalue hmask ⟨_, hw, .inr (List.prefix_refl _)⟩
          rw [IsMapAt, ← hcongr hrel, ← heq]
          exact hmap
        · exact isMapAt_above_of_get hq (List.prefix_refl _)
    · exact isMapAt_above_of_get hget (List.dropLast_prefix _)
  · intro hmaps
    refine ObjectValue.ext_probe fun x => ?_
    rw [hR']
    rcases probe_puts_exact exact_overlayChanges base' x with
      ⟨hrel, hx⟩ | ⟨⟨w, hw, habove⟩, hx⟩ | ⟨hunrelated, hx⟩
    · rw [hx, hcongr (exists_related_write hset hvalue hmask hrel)]
    · rw [hx, hcongr (exists_related_write hset hvalue hmask ⟨w, hw, .inr habove⟩)]
      obtain ⟨hq, -⟩ := mem_overlayChanges.1 hw
      obtain ⟨p, hp, htarget⟩ := Finset.mem_image.1 hq
      rcases target_eq_or D p with hself | hup
      · by_cases hget : D.get w.1.segments = none
        · -- a missing field without a parent
          rw [← htarget, hself] at hget
          have hnoup : p.up = none := by
            cases hup : p.up with
            | none => rfl
            | some q =>
              rw [target_of_missing hget, hup] at hself
              have hlen := congrArg List.length (Path.up_eq_some hup)
              rw [show q = p from hself, Path.segments, List.length_append] at hlen
              simp at hlen
          rw [← htarget, hself, Path.up_eq_none hnoup, List.prefix_nil] at habove
          rw [habove]
          exact (isMapAt_nil D).symm
        · exact (isMapAt_above_of_get hget habove).symm
      · refine (isMapAt_above (hmaps p hp) ?_).symm
        rwa [twoAbove, Path.up_eq_some hup, htarget, Path.segments, List.dropLast_concat]
    · rw [hx, hvalue']
      refine (probe_puts_of_unrelated (fun w hw hrel => ?_) base').symm
      have hwm : w.1 ∈ mask := (hmask w.1).2 (List.mem_map_of_mem hw)
      exact hunrelated (target D w.1, D.value.get (target D w.1).segments)
        (mem_overlayChanges.2 ⟨Finset.mem_image_of_mem _ hwm, rfl⟩) (related_target hrel)

end Patched

/-! ## Overlays of queues -/

theorem setAll_nil (o : ObjectValue α) : o.setAll [] = o := by
  refine ObjectValue.ext_value ?_
  have hnodup : ((([] : TransformMap α)).map Prod.fst).Nodup := List.nodup_nil
  rw [value_setAll_of_isSome hnodup fun _ h => by cases h]
  rfl

section Overlaid

variable {base base' doc doc' : MutableDocument α} {mask : Option FieldMask}

/-- **The overlay of a history does to the other document what the history did to it, exactly when
what is two levels above each changed field is a map.** -/
theorem History.overlaid_iff (h : History base base' doc doc' mask)
    (hbase : base.hasLocalMutations = false) :
    overlaid (Mutation.calculateOverlayMutation doc mask) base' = doc' ↔
      ∀ m, mask = some m → ∀ p ∈ m, IsMapAt (twoAbove p) doc.data := by
  cases h with
  | untouched =>
    refine iff_of_true ?_ ?_
    · rw [Mutation.calculateOverlayMutation, hbase]
      rfl
    · rintro m hm p hp
      cases hm
      cases hp
  | replaced data =>
    refine iff_of_true ?_ fun m hm => by cases hm
    show ((base'.convertToFoundDocument base'.version (data.setAll [])).setHasLocalMutations) = _
    rw [setAll_nil]
    rfl
  | deleted => exact iff_of_true rfl fun m hm => by cases hm
  | @patched data data' mask writes hset hvalue hvalue' hmask =>
    obtain ⟨P, hoverlay, hP⟩ := exists_overlay data mask
    rw [hoverlay]
    have hR : (base'.data.setAll (getPatch P (mask.image (target data)))).value =
        puts (overlayChanges data mask) base'.data.value := by
      rw [ObjectValue.value_setAll, map_changes_getPatch hP]
      refine setAll_eq_puts base'.data.sorted_value rfl ?_ ?_
        (deletesMissing_overlayChanges hset hvalue hmask _)
      · rw [overlayChanges, keys_changes, keys_getPatch]
        exact Finset.sort_nodup _ _
      · exact TransformMap.sorted _
    have hiff := puts_overlayChanges_eq_iff hset hvalue hvalue' hmask hR
    have hshown : overlaid (some (.patch P (mask.image (target data)) .none [])) base' =
        ⟨.foundDocument, 0, base'.data.setAll (getPatch P (mask.image (target data))),
          .hasLocalMutations⟩ := by
      show (⟨_, _, (base'.data.setAll _).setAll [], _⟩ : MutableDocument α) = _
      rw [setAll_nil]
      rfl
    rw [hshown]
    constructor
    · intro heq m hm
      cases hm
      exact hiff.1 (congrArg MutableDocument.data heq)
    · intro hmaps
      rw [hiff.2 (hmaps mask rfl)]

end Overlaid

/-- **The overlay of a queue, calculated from one document, does to another what the queue does to
it, exactly when what is two levels above each changed field is a map**; for all queues that take
the two documents alike. -/
theorem overlay_exact_iff (queue : MutationQueue α) (hset : ∀ m ∈ queue, m.1.SetsFields)
    (base base' : MutableDocument α) (halike : TakeAlike queue base base')
    (hbase : base.hasLocalMutations = false) :
    overlaid (Mutation.calculateOverlayMutation (applyAllToLocalView queue base (some ∅)).1
        (applyAllToLocalView queue base (some ∅)).2) base' =
      (applyAllToLocalView queue base' (some ∅)).1 ↔
        ∀ mask, (applyAllToLocalView queue base (some ∅)).2 = some mask →
          ∀ p ∈ mask, IsMapAt (twoAbove p) (applyAllToLocalView queue base (some ∅)).1.data :=
  (history_applyAllToLocalView hset halike).2.overlaid_iff hbase

/-- `a.b.c` is changed, and then `a` overwritten. -/
def overwritten : MutationQueue ℕ :=
  [(.patch (ObjectValue.empty.set ⟨["a", "b"], "c"⟩ ⟨.scalar 1, .scalar 1⟩) {⟨["a", "b"], "c"⟩} .none [], 0),
    (.patch (ObjectValue.empty.set ⟨[], "a"⟩ ⟨.scalar 5, .scalar 5⟩) {⟨[], "a"⟩} .none [], 0)]

/-- There the overlay loses the new `a`. -/
theorem overlay_exact_iff_overwritten :
    overlaid (Mutation.calculateOverlayMutation
        (applyAllToLocalView overwritten MutableDocument.invalidDocument (some ∅)).1
        (applyAllToLocalView overwritten MutableDocument.invalidDocument (some ∅)).2)
        MutableDocument.invalidDocument ≠
      (applyAllToLocalView overwritten MutableDocument.invalidDocument (some ∅)).1 := by
  have hset : ∀ m ∈ overwritten, m.1.SetsFields := by
    intro m hm
    simp only [overwritten, List.mem_cons, List.not_mem_nil, or_false] at hm
    rcases hm with rfl | rfl <;> intro p hp <;> obtain rfl := Finset.mem_singleton.1 hp <;> decide +kernel
  intro heq
  have hmap := (overlay_exact_iff overwritten hset .invalidDocument .invalidDocument
    (takeAlike_self _ _) rfl).1 heq _ rfl ⟨["a", "b"], "c"⟩ (by decide)
  exact absurd hmap (by unfold IsMapAt; decide +kernel)

end Firestore
