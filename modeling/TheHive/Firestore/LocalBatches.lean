import TheHive.Firestore.LocalStore
import TheHive.Lib.Transition

/-!
# Batches and overlays of the local store

What the loops over batches do, document by document; and what holds of queue and overlays in every
run.

* `LocalStore.pending` — the mutations that wait for a document, in the order of the queue.
* `snd_applyToLocalDocumentSet` — a batch is applied once for each of its mutations of a document;
  its overlay is that of the first time.
* `Indexed` — batches are in the order of their ids, and an overlay belongs to the last batch of its
  document: so an overlay goes with its last batch.
* `getDocument_of_drained` — **in every run a document without pending batches is shown as the
  server's**.
-/

set_option autoImplicit false

namespace Firestore

open MutableDocument

universe u v

variable {κ : Type v} {α : Type u} [DecidableEq κ]

/-! ## Batches, document by document -/

theorem Mutation.fst_applyToLocalView (m : Mutation α) (doc : MutableDocument α)
    (mask mask' : Option FieldMask) (t : Timestamp) :
    (m.applyToLocalView doc mask' t).1 = (m.applyToLocalView doc mask t).1 := by
  cases m <;> simp only [Mutation.applyToLocalView] <;> split <;> rfl

/-- What a queue makes of a document does not depend on the mask. -/
theorem fst_applyAllToLocalView (queue : MutationQueue α) (doc : MutableDocument α)
    (mask mask' : Option FieldMask) :
    (applyAllToLocalView queue doc mask').1 = (applyAllToLocalView queue doc mask).1 := by
  induction queue using List.reverseRecOn with
  | nil => rfl
  | append_singleton queue m ih =>
    rw [applyAllToLocalView_concat, applyAllToLocalView_concat, ih]
    exact m.1.fst_applyToLocalView _ _ _ _

theorem fst_applyAllToLocalView_append (queue queue' : MutationQueue α) (doc : MutableDocument α)
    (mask mask' : Option FieldMask) :
    (applyAllToLocalView (queue ++ queue') doc mask).1 =
      (applyAllToLocalView queue' (applyAllToLocalView queue doc mask).1 mask').1 := by
  rw [applyAllToLocalView_append]
  exact fst_applyAllToLocalView _ _ _ _

namespace MutationBatch

variable {batch : MutationBatch κ α} {key : κ}

theorem mem_keys : key ∈ batch.keys ↔ ∃ m ∈ batch.mutations, m.1 = key := by
  rw [keys, List.mem_dedup, List.mem_map]

theorem pending_eq_nil (h : key ∉ batch.keys) : batch.pending key = [] := by
  rw [pending, List.filter_eq_nil_iff.2, List.map_nil]
  intro m hm hkey
  exact h (mem_keys.2 ⟨m, hm, of_decide_eq_true hkey⟩)

theorem mem_pending {m : Mutation α × Timestamp} :
    m ∈ batch.pending key ↔ ∃ m', (key, m') ∈ batch.mutations ∧ m = (m', batch.localWriteTime) := by
  rw [pending, List.mem_map]
  constructor
  · rintro ⟨⟨key', m'⟩, hm', rfl⟩
    obtain ⟨hmem, hkey⟩ := List.mem_filter.1 hm'
    obtain rfl : key' = key := of_decide_eq_true hkey
    exact ⟨m', hmem, rfl⟩
  · rintro ⟨m', hmem, rfl⟩
    exact ⟨(key, m'), List.mem_filter.2 ⟨hmem, decide_eq_true rfl⟩, rfl⟩

theorem applyToLocalView_eq (batch : MutationBatch κ α) (key : κ) (doc : MutableDocument α)
    (mask : Option FieldMask) :
    batch.applyToLocalView key doc mask = applyAllToLocalView (batch.pending key) doc mask := by
  rw [applyToLocalView, pending, applyAllToLocalView]
  generalize batch.mutations = mutations
  generalize batch.localWriteTime = t
  generalize (doc, mask) = s
  induction mutations generalizing s with
  | nil => rfl
  | cons m mutations ih =>
    rw [List.foldl_cons, ih]
    by_cases hkey : m.1 = key
    · rw [if_pos hkey, List.filter_cons_of_pos (by simpa using hkey), List.map_cons, List.foldl_cons]
    · rw [if_neg hkey, List.filter_cons_of_neg (by simpa using hkey)]

theorem calculateOverlayMutation_eq_none_iff {doc : MutableDocument α} {mask : Option FieldMask} :
    Mutation.calculateOverlayMutation doc mask = none ↔ doc.hasLocalMutations = false := by
  unfold Mutation.calculateOverlayMutation
  cases doc.hasLocalMutations with
  | false => simp
  | true =>
    cases mask with
    | none => cases doc.isNoDocument <;> simp
    | some mask => simp

/-- An overlay applies to every document. -/
theorem precondition_of_calculateOverlayMutation {doc : MutableDocument α} {mask : Option FieldMask}
    {o : Mutation α} (h : Mutation.calculateOverlayMutation doc mask = some o) :
    o.precondition = .none := by
  unfold Mutation.calculateOverlayMutation at h
  split at h
  · cases h
  · split at h
    · split at h <;> cases h <;> rfl
    · cases h
      rfl

/-- A precondition does not tell documents apart that do not exist. -/
theorem isValidFor_of_not_found {doc doc' : MutableDocument α} (h : doc.isFoundDocument = false)
    (h' : doc'.isFoundDocument = false) (precondition : Precondition) :
    precondition.isValidFor doc' = precondition.isValidFor doc := by
  cases precondition <;> simp [Precondition.isValidFor, h, h']

/-- There is an overlay, or nothing applies. -/
def Settled (batch : MutationBatch κ α) (key : κ) (s : MutableDocument α × Option (Mutation α)) :
    Prop :=
  s.2.isSome ∨ s.2 = none ∧ s.1.hasLocalMutations = false ∧
    ∀ m ∈ batch.pending key, ¬ m.1.precondition.isValidFor s.1

theorem snd_overlayStep (batch : MutationBatch κ α) (key : κ) (mask : Option FieldMask)
    (s : MutableDocument α × Option (Mutation α)) :
    (batch.overlayStep key mask s).2 = s.2.or
      (Mutation.calculateOverlayMutation (applyAllToLocalView (batch.pending key) s.1 mask).1
        (applyAllToLocalView (batch.pending key) s.1 mask).2) := by
  rw [overlayStep]
  simp only [applyToLocalView_eq]

/-- One turn settles it. -/
theorem settled_overlayStep (batch : MutationBatch κ α) (key : κ) (mask : Option FieldMask)
    (s : MutableDocument α × Option (Mutation α)) :
    batch.Settled key (batch.overlayStep key mask s) := by
  cases hsome : (batch.overlayStep key mask s).2 with
  | some overlay => exact .inl (by rw [hsome]; rfl)
  | none =>
    rw [snd_overlayStep, Option.or_eq_none_iff, calculateOverlayMutation_eq_none_iff] at hsome
    have hlocal : s.1.hasLocalMutations = false := by
      cases hlocal : s.1.hasLocalMutations with
      | false => rfl
      | true =>
        rw [hasLocalMutations_applyAllToLocalView hlocal] at hsome
        cases hsome.2
    have hnone : ∀ m ∈ batch.pending key, ¬ m.1.precondition.isValidFor s.1 := by
      intro m hm hvalid
      rw [(hasLocalMutations_iff hlocal mask).2 ⟨m, hm, hvalid⟩] at hsome
      cases hsome.2
    have hfst : (batch.overlayStep key mask s).1 =
        if s.1.isValidDocument then s.1 else s.1.convertToNoDocument 0 := by
      rw [overlayStep]
      simp only [applyToLocalView_eq, applyAllToLocalView_of_forall hnone]
    refine .inr ⟨?_, ?_, fun m hm => ?_⟩
    · rw [snd_overlayStep, Option.or_eq_none_iff, calculateOverlayMutation_eq_none_iff]
      exact hsome
    · rw [hfst]
      split
      · exact hlocal
      · rfl
    · rw [hfst]
      split
      · exact hnone m hm
      · rename_i hinvalid
        have hinvalid : s.1.documentType = .invalid := by
          simpa only [isValidDocument, decide_eq_true_eq, ne_eq, not_not] using hinvalid
        have hmissing : s.1.isFoundDocument = false := by
          rw [isFoundDocument, hinvalid]
          rfl
        have hsame : ∀ precondition : Precondition,
            precondition.isValidFor (s.1.convertToNoDocument 0) = precondition.isValidFor s.1 :=
          isValidFor_of_not_found hmissing rfl
        rw [hsame]
        exact hnone m hm

/-- Further turns keep the overlay. -/
theorem Settled.snd_overlayStep {s : MutableDocument α × Option (Mutation α)}
    (h : batch.Settled key s) (mask : Option FieldMask) : (batch.overlayStep key mask s).2 = s.2 := by
  rw [MutationBatch.snd_overlayStep]
  rcases h with hsome | ⟨hnone, hlocal, hnot⟩
  · obtain ⟨overlay, hoverlay⟩ := Option.isSome_iff_exists.1 hsome
    rw [hoverlay]
    rfl
  · rw [hnone, Option.none_or, calculateOverlayMutation_eq_none_iff, applyAllToLocalView_of_forall hnot]
    exact hlocal

theorem Settled.snd_foldl (mask : Option FieldMask) {mutations : List (κ × Mutation α)} {s : MutableDocument α × Option (Mutation α)}
    (h : batch.Settled key s) :
    (mutations.foldl (fun s mutation =>
      if mutation.1 = key then batch.overlayStep key mask s else s) s).2 = s.2 := by
  induction mutations generalizing s with
  | nil => rfl
  | cons m mutations ih =>
    rw [List.foldl_cons]
    split
    · rw [ih (settled_overlayStep batch key mask s), h.snd_overlayStep]
    · exact ih h

/-- **Applying a batch once for each of its mutations keeps the overlay of the first time.** -/
theorem snd_applyToLocalDocumentSet (hkey : key ∈ batch.keys) (doc : MutableDocument α) (mask : Option FieldMask) :
    (batch.applyToLocalDocumentSet key doc mask).2 =
      Mutation.calculateOverlayMutation (applyAllToLocalView (batch.pending key) doc mask).1
        (applyAllToLocalView (batch.pending key) doc mask).2 := by
  obtain ⟨m, hm, rfl⟩ := mem_keys.1 hkey
  obtain ⟨pre, m', post, hsplit, hm', hpre⟩ :
      ∃ pre m' post, batch.mutations = pre ++ m' :: post ∧ m'.1 = m.1 ∧ ∀ x ∈ pre, x.1 ≠ m.1 := by
    obtain ⟨m', pre, post, hpre, hm', hsplit, -⟩ :=
      List.exists_of_eraseP (p := fun x => decide (x.1 = m.1)) hm (by simp)
    exact ⟨pre, m', post, hsplit, of_decide_eq_true hm', fun x hx => by simpa using hpre x hx⟩
  have hskip : ∀ {l : List (κ × Mutation α)}, (∀ x ∈ l, x.1 ≠ m.1) →
      ∀ s : MutableDocument α × Option (Mutation α), l.foldl (fun s mutation =>
        if mutation.1 = m.1 then batch.overlayStep m.1 mask s else s) s = s := by
    intro l hl s
    induction l with
    | nil => rfl
    | cons x l ih =>
      rw [List.foldl_cons, if_neg (hl x List.mem_cons_self)]
      exact ih fun y hy => hl y (List.mem_cons_of_mem x hy)
  rw [applyToLocalDocumentSet, hsplit, List.foldl_append, hskip hpre, List.foldl_cons, if_pos hm',
    (settled_overlayStep batch m.1 mask _).snd_foldl mask, snd_overlayStep]
  rfl

end MutationBatch

/-! ## What waits for a document -/

namespace LocalStore

variable {s : LocalStore κ α} {key : κ}

/-- The mutations that wait for a document. -/
def pendingIn (batches : List (MutationBatch κ α)) (key : κ) : MutationQueue α :=
  batches.flatMap fun batch => batch.pending key

def pending (s : LocalStore κ α) (key : κ) : MutationQueue α := pendingIn s.mutationQueue key

theorem pendingIn_append (batches batches' : List (MutationBatch κ α)) (key : κ) :
    pendingIn (batches ++ batches') key = pendingIn batches key ++ pendingIn batches' key :=
  List.flatMap_append

/-- Batches of other documents do not matter. -/
theorem pendingIn_filter (batches : List (MutationBatch κ α)) (key : κ) :
    pendingIn (batches.filter fun batch => key ∈ batch.keys) key = pendingIn batches key := by
  induction batches with
  | nil => rfl
  | cons batch batches ih =>
    by_cases hkey : key ∈ batch.keys
    · rw [List.filter_cons_of_pos (by simpa using hkey), pendingIn, pendingIn, List.flatMap_cons,
        List.flatMap_cons]
      exact congrArg _ ih
    · rw [List.filter_cons_of_neg (by simpa using hkey), ih, pendingIn, pendingIn, List.flatMap_cons,
        MutationBatch.pending_eq_nil hkey, List.nil_append]

theorem pendingIn_batchesAffecting (s : LocalStore κ α) (key : κ) :
    pendingIn (s.batchesAffecting key) key = s.pending key := pendingIn_filter s.mutationQueue key

theorem foldl_applyToLocalView (batches : List (MutationBatch κ α)) (key : κ)
    (d : MutableDocument α × Option FieldMask) :
    batches.foldl (fun d batch => batch.applyToLocalView key d.1 d.2) d =
      applyAllToLocalView (pendingIn batches key) d.1 d.2 := by
  induction batches generalizing d with
  | nil => rfl
  | cons batch batches ih =>
    rw [List.foldl_cons, ih, MutationBatch.applyToLocalView_eq, pendingIn, pendingIn, List.flatMap_cons,
      applyAllToLocalView_append]

/-- The other `GetDocument` replays what is pending. -/
theorem getDocumentFromBatches_eq (s : LocalStore κ α) (key : κ) :
    s.getDocumentFromBatches key s.mutationQueue =
      (applyAllToLocalView (s.pending key) (s.remoteDocument key) (some ∅)).1 := by
  rw [getDocumentFromBatches, pending]
  generalize s.remoteDocument key = doc
  generalize s.mutationQueue = batches
  induction batches generalizing doc with
  | nil => rfl
  | cons batch batches ih =>
    rw [List.foldl_cons, ih, MutationBatch.applyToLocalView_eq, pendingIn, pendingIn, List.flatMap_cons]
    exact (fst_applyAllToLocalView_append _ _ _ _ _).symm

/-! ## Batches and overlays in every run -/

/-- The id of the last batch of a document. -/
def lastBatchId (s : LocalStore κ α) (key : κ) : Option BatchId :=
  (s.batchesAffecting key).getLast?.map MutationBatch.batchId

/-- Batches are in the order of their ids; an overlay belongs to the last batch of its document, and
applies whatever the document is. -/
structure Indexed (s : LocalStore κ α) : Prop where
  ascending : s.mutationQueue.Pairwise fun batch batch' => batch.batchId < batch'.batchId
  below : ∀ batch ∈ s.mutationQueue, batch.batchId < s.nextBatchId
  largest : ∀ key o, s.overlays key = some o → s.lastBatchId key = some o.largestBatchId
  applies : ∀ key o, s.overlays key = some o → o.mutation.precondition = .none

theorem indexed_empty : Indexed (empty : LocalStore κ α) :=
  ⟨List.Pairwise.nil, fun _ h => (by cases h), fun _ _ h => (by cases h), fun _ _ h => (by cases h)⟩

/-- Without pending batches there is no overlay. -/
theorem Indexed.overlays_eq_none (h : s.Indexed) (hdrained : s.batchesAffecting key = []) :
    s.overlays key = none := by
  cases hoverlay : s.overlays key with
  | none => rfl
  | some o =>
    have hlast := h.largest key o hoverlay
    rw [lastBatchId, hdrained] at hlast
    cases hlast

/-- The overlay after a recalculation. -/
theorem overlays_recalculateAndSaveOverlays (s : LocalStore κ α) (keys : κ → Bool)
    (docs : κ → MutableDocument α) (key : κ) :
    (s.recalculateAndSaveOverlays keys docs).overlays key =
      if keys key then
        ((s.lastBatchId key).bind fun batchId =>
          (Mutation.calculateOverlayMutation
            (applyAllToLocalView (s.pending key) (docs key) (some ∅)).1
            (applyAllToLocalView (s.pending key) (docs key) (some ∅)).2).map (Overlay.mk batchId)).or
          (s.overlays key)
      else s.overlays key := by
  show ite _ _ _ = _
  split
  · simp only [foldl_applyToLocalView, pendingIn_batchesAffecting, lastBatchId]
    cases (s.batchesAffecting key).getLast? with
    | none => rfl
    | some batch =>
      cases Mutation.calculateOverlayMutation
        (applyAllToLocalView (s.pending key) (docs key) (some ∅)).1
        (applyAllToLocalView (s.pending key) (docs key) (some ∅)).2 <;> rfl
  · rfl

/-- Every overlay after a recalculation is new, of the last batch, or an old one. -/
theorem overlays_recalculateAndSaveOverlays_cases {keys : κ → Bool} {docs : κ → MutableDocument α}
    {o : Overlay α} (h : (s.recalculateAndSaveOverlays keys docs).overlays key = some o) :
    (s.lastBatchId key = some o.largestBatchId ∧ Mutation.calculateOverlayMutation
        (applyAllToLocalView (s.pending key) (docs key) (some ∅)).1
        (applyAllToLocalView (s.pending key) (docs key) (some ∅)).2 = some o.mutation) ∨
      s.overlays key = some o := by
  rw [overlays_recalculateAndSaveOverlays] at h
  split at h
  · rcases Option.or_eq_some_iff.1 h with hnew | ⟨-, hold⟩
    · obtain ⟨batchId, hlast, hmap⟩ := Option.bind_eq_some_iff.1 hnew
      obtain ⟨mutation, hmutation, rfl⟩ := Option.map_eq_some_iff.1 hmap
      exact .inl ⟨hlast, hmutation⟩
    · exact .inr hold
  · exact .inr h

theorem Indexed.recalculateAndSaveOverlays (h : s.Indexed) (keys : κ → Bool)
    (docs : κ → MutableDocument α) : (s.recalculateAndSaveOverlays keys docs).Indexed := by
  refine ⟨h.ascending, h.below, fun key o ho => ?_, fun key o ho => ?_⟩
  · rcases overlays_recalculateAndSaveOverlays_cases ho with ⟨hlast, -⟩ | hold
    · exact hlast
    · exact h.largest key o hold
  · rcases overlays_recalculateAndSaveOverlays_cases ho with ⟨-, hnew⟩ | hold
    · exact MutationBatch.precondition_of_calculateOverlayMutation hnew
    · exact h.applies key o hold

/-- Removing the first batch takes its overlays along, and no others. -/
theorem Indexed.removeBatch (h : s.Indexed) {batch : MutationBatch κ α}
    {queue : List (MutationBatch κ α)} (hqueue : s.mutationQueue = batch :: queue)
    (cache : κ → Option (MutableDocument α)) : (s.removeBatch batch.batchId queue cache).Indexed := by
  have hasc := h.ascending
  rw [hqueue] at hasc
  refine ⟨(List.pairwise_cons.1 hasc).2, fun b hb => ?_, fun key o ho => ?_, fun key o ho => ?_⟩
  · exact h.below b (by rw [hqueue]; exact List.mem_cons_of_mem batch hb)
  · obtain ⟨hold, hne⟩ := Option.filter_eq_some_iff.1 ho
    have hne : o.largestBatchId ≠ batch.batchId := of_decide_eq_true hne
    have hlast := h.largest key o hold
    rw [lastBatchId, batchesAffecting, hqueue] at hlast
    show (queue.filter _).getLast?.map MutationBatch.batchId = _
    by_cases hkey : key ∈ batch.keys
    · rw [List.filter_cons_of_pos (by simpa using hkey)] at hlast
      cases hrest : queue.filter fun batch => decide (key ∈ batch.keys) with
      | nil =>
        rw [hrest] at hlast
        exact absurd (Option.some.inj hlast).symm hne
      | cons b rest =>
        rw [hrest, List.getLast?_cons_cons] at hlast
        exact hlast
    · rwa [List.filter_cons_of_neg (by simpa using hkey)] at hlast
  · exact h.applies key o (Option.filter_eq_some_iff.1 ho).1

/-- A batch leaves the overlays of other documents. -/
theorem overlays_addBatch_of_notMem {batch : MutationBatch κ α} (hkey : key ∉ batch.keys) :
    (s.addBatch batch).overlays key = s.overlays key := by
  have hfold : ∀ (d : MutableDocument α) (mask : Option FieldMask),
      batch.applyToLocalDocumentSet key d mask = (d, none) := by
    intro d mask
    rw [MutationBatch.applyToLocalDocumentSet]
    have hnot : ∀ m ∈ batch.mutations, m.1 ≠ key := fun m hm hmk =>
      hkey (MutationBatch.mem_keys.2 ⟨m, hm, hmk⟩)
    generalize batch.mutations = mutations at hnot
    induction mutations with
    | nil => rfl
    | cons m mutations ih =>
      rw [List.foldl_cons, if_neg (hnot m List.mem_cons_self)]
      exact ih fun m' hm' => hnot m' (List.mem_cons_of_mem m hm')
  simp only [addBatch, hfold]

theorem overlays_addBatch {batch : MutationBatch κ α} (hkey : key ∈ batch.keys) :
    (s.addBatch batch).overlays key =
      ((Mutation.calculateOverlayMutation
        (applyAllToLocalView (batch.pending key) (s.getOverlayedDocument key).1
          (s.getOverlayedDocument key).2).1
        (applyAllToLocalView (batch.pending key) (s.getOverlayedDocument key).1
          (s.getOverlayedDocument key).2).2).map (Overlay.mk batch.batchId)).or (s.overlays key) := by
  simp only [addBatch, MutationBatch.snd_applyToLocalDocumentSet hkey]
  cases Mutation.calculateOverlayMutation
    (applyAllToLocalView (batch.pending key) (s.getOverlayedDocument key).1
      (s.getOverlayedDocument key).2).1
    (applyAllToLocalView (batch.pending key) (s.getOverlayedDocument key).1
      (s.getOverlayedDocument key).2).2 <;> rfl

theorem batchesAffecting_addBatch (s : LocalStore κ α) (batch : MutationBatch κ α) (key : κ) :
    (s.addBatch batch).batchesAffecting key =
      s.batchesAffecting key ++ if key ∈ batch.keys then [batch] else [] := by
  show (s.mutationQueue ++ [batch]).filter _ = _
  rw [List.filter_append]
  congr 1
  split
  · rename_i hkey
    exact List.filter_cons_of_pos (by simpa using hkey)
  · rename_i hkey
    exact List.filter_cons_of_neg (by simpa using hkey)

theorem hasLocalMutations_getOverlayedDocument (h : s.Indexed) {o : Overlay α}
    (ho : s.overlays key = some o) : (s.getOverlayedDocument key).1.hasLocalMutations = true := by
  rw [getOverlayedDocument, ho]
  refine Mutation.hasLocalMutations_of_isValidFor ?_ _ _
  rw [h.applies key o ho]
  rfl

/-- Every overlay of a document a batch writes to is a new one. -/
theorem Indexed.overlays_addBatch_cases (h : s.Indexed) {batch : MutationBatch κ α}
    (hkey : key ∈ batch.keys) {o : Overlay α} (ho : (s.addBatch batch).overlays key = some o) :
    o.largestBatchId = batch.batchId ∧ Mutation.calculateOverlayMutation
      (applyAllToLocalView (batch.pending key) (s.getOverlayedDocument key).1
        (s.getOverlayedDocument key).2).1
      (applyAllToLocalView (batch.pending key) (s.getOverlayedDocument key).1
        (s.getOverlayedDocument key).2).2 = some o.mutation := by
  rw [overlays_addBatch hkey] at ho
  rcases Option.or_eq_some_iff.1 ho with hnew | ⟨hnone, hold⟩
  · obtain ⟨mutation, hmutation, rfl⟩ := Option.map_eq_some_iff.1 hnew
    exact ⟨rfl, hmutation⟩
  · rw [Option.map_eq_none_iff, MutationBatch.calculateOverlayMutation_eq_none_iff,
      hasLocalMutations_applyAllToLocalView (hasLocalMutations_getOverlayedDocument h hold)] at hnone
    cases hnone

theorem Indexed.addBatch (h : s.Indexed) {batch : MutationBatch κ α} (hid : batch.batchId = s.nextBatchId) :
    (s.addBatch batch).Indexed := by
  refine ⟨List.pairwise_append.2 ⟨h.ascending, List.pairwise_singleton _ _, ?_⟩, ?_, ?_, ?_⟩
  · intro b hb b' hb'
    obtain rfl := List.mem_singleton.1 hb'
    rw [hid]
    exact h.below b hb
  · intro b hb
    show b.batchId < s.nextBatchId + 1
    rcases List.mem_append.1 hb with hb | hb
    · exact (h.below b hb).trans (Nat.lt_succ_self _)
    · rw [List.mem_singleton.1 hb, hid]
      exact Nat.lt_succ_self _
  · intro key o ho
    rw [lastBatchId, batchesAffecting_addBatch]
    by_cases hkey : key ∈ batch.keys
    · rw [if_pos hkey, List.getLast?_concat, (h.overlays_addBatch_cases hkey ho).1]
      rfl
    · rw [if_neg hkey, List.append_nil]
      rw [overlays_addBatch_of_notMem hkey] at ho
      exact h.largest key o ho
  · intro key o ho
    by_cases hkey : key ∈ batch.keys
    · exact MutationBatch.precondition_of_calculateOverlayMutation
        (h.overlays_addBatch_cases hkey ho).2
    · rw [overlays_addBatch_of_notMem hkey] at ho
      exact h.applies key o ho

/-- The state that is recalculated has lost its first batch, to an answer, or has new documents from
the server. -/
theorem recalculation_cases {action : Action κ α} {r : Recalculation κ α}
    (h : s.recalculation action = some r) :
    (∃ batch queue cache, s.mutationQueue = batch :: queue ∧
        ((action = .rejectBatch batch.batchId ∧ cache = s.remoteDocumentCache) ∨
          ∃ results, action = .acknowledgeBatch batch.batchId results ∧
            results.length = batch.mutations.length ∧ cache = s.applyBatchResult batch results) ∧
        r = ⟨s.removeBatch batch.batchId queue cache, fun key => key ∈ batch.keys,
          (s.removeBatch batch.batchId queue cache).remoteDocument⟩) ∨
      ∃ documentUpdates, action = .applyRemoteEvent documentUpdates ∧
        r = s.applyRemoteEvent documentUpdates := by
  cases action with
  | writeMutations localWriteTime writes => cases h
  | acknowledgeBatch batchId mutationResults =>
    rw [recalculation, acknowledgeBatch] at h
    split at h
    · cases h
    · rename_i batch queue hqueue
      split at h
      · rename_i hid
        cases h
        rw [← hid.1]
        exact .inl ⟨batch, queue, _, hqueue, .inr ⟨mutationResults, rfl, hid.2, rfl⟩, rfl⟩
      · cases h
  | rejectBatch batchId =>
    rw [recalculation, rejectBatch] at h
    split at h
    · cases h
    · rename_i batch queue hqueue
      split at h
      · rename_i hid
        cases h
        rw [← hid]
        exact .inl ⟨batch, queue, _, hqueue, .inl ⟨rfl, rfl⟩, rfl⟩
      · cases h
  | applyRemoteEvent documentUpdates =>
    cases h
    exact .inr ⟨documentUpdates, rfl, rfl⟩

/-- A recalculation is of batches that were there. -/
theorem mem_of_mem_recalculation {action : Action κ α} {r : Recalculation κ α}
    (hr : s.recalculation action = some r) {batch : MutationBatch κ α}
    (hbatch : batch ∈ r.store.mutationQueue) : batch ∈ s.mutationQueue := by
  rcases recalculation_cases hr with ⟨first, queue, cache, hqueue, -, rfl⟩ | ⟨_, -, rfl⟩
  · rw [hqueue]
    exact List.mem_cons_of_mem first hbatch
  · exact hbatch

theorem Indexed.recalculation (h : s.Indexed) {action : Action κ α} {r : Recalculation κ α}
    (hr : s.recalculation action = some r) : r.store.Indexed := by
  rcases recalculation_cases hr with ⟨batch, queue, cache, hqueue, -, rfl⟩ | ⟨_, -, rfl⟩
  · exact h.removeBatch hqueue cache
  · exact ⟨h.ascending, h.below, h.largest, h.applies⟩

/-- The batch of some writes. -/
def batchOf (batchId : BatchId) (localWriteTime : Timestamp) (writes : List (κ × UserWrite α)) :
    MutationBatch κ α :=
  ⟨batchId, localWriteTime, writes.map fun w => (w.1, w.2.toMutation)⟩

/-- A step recalculates, or adds the batch of the writes with the next id. -/
theorem step_cases {action : Action κ α} {s' : LocalStore κ α} (h : s.step action = some s') :
    (∃ r, s.recalculation action = some r ∧ s' = r.run) ∨
      ∃ localWriteTime writes, action = .writeMutations localWriteTime writes ∧
        s' = s.addBatch (batchOf s.nextBatchId localWriteTime writes) := by
  cases action with
  | writeMutations localWriteTime writes =>
    rw [step, writeLocally] at h
    split at h
    · cases h
    · cases h
      exact .inr ⟨localWriteTime, writes, rfl, rfl⟩
  | acknowledgeBatch batchId mutationResults =>
    obtain ⟨r, hr, rfl⟩ := Option.map_eq_some_iff.1 h
    exact .inl ⟨r, hr, rfl⟩
  | rejectBatch batchId =>
    obtain ⟨r, hr, rfl⟩ := Option.map_eq_some_iff.1 h
    exact .inl ⟨r, hr, rfl⟩
  | applyRemoteEvent documentUpdates =>
    cases h
    exact .inl ⟨_, rfl, rfl⟩

/-- Writes join the queue at its end, answers are to its first batch. -/
theorem mutationQueue_step {action : Action κ α} {s' : LocalStore κ α} (h : s.step action = some s') :
    s'.mutationQueue =
      match action with
      | .writeMutations localWriteTime writes =>
        s.mutationQueue ++ [batchOf s.nextBatchId localWriteTime writes]
      | .acknowledgeBatch _ _ | .rejectBatch _ => s.mutationQueue.tail
      | .applyRemoteEvent _ => s.mutationQueue := by
  rcases step_cases h with ⟨r, hr, rfl⟩ | ⟨localWriteTime, writes, rfl, rfl⟩
  · rcases recalculation_cases hr with ⟨batch, queue, cache, hqueue, hanswer, rfl⟩ | ⟨_, rfl, rfl⟩
    · rcases hanswer with ⟨rfl, -⟩ | ⟨results, rfl, -, -⟩
      · exact (congrArg List.tail hqueue).symm
      · exact (congrArg List.tail hqueue).symm
    · rfl
  · rfl

theorem Indexed.step (h : s.Indexed) {action : Action κ α} {s' : LocalStore κ α}
    (hstep : s.step action = some s') : s'.Indexed := by
  rcases step_cases hstep with ⟨r, hr, rfl⟩ | ⟨localWriteTime, writes, rfl, rfl⟩
  · exact (h.recalculation hr).recalculateAndSaveOverlays _ _
  · exact h.addBatch rfl

/-- **In every run a document that no batch waits for has no overlay, and is shown as the server's.** -/
theorem getDocument_of_drained (actions : List (Action κ α)) :
    ∀ t ∈ Transition.visited LocalStore.step (empty : LocalStore κ α) actions, ∀ key,
      t.batchesAffecting key = [] →
        t.overlays key = none ∧ t.getDocument key = t.remoteDocument key := by
  intro t ht key hdrained
  have hindexed := Transition.visited_invariant indexed_empty
    (fun _ _ _ hu hstep => hu.step hstep) actions t ht
  have hnone := hindexed.overlays_eq_none hdrained
  refine ⟨hnone, ?_⟩
  rw [getDocument, hnone]
  rfl

/-- One field. -/
def oneField (v : ℕ) : ObjectValue ℕ where
  fields := [("a", .scalar v)]
  sorted := FieldTree.SortedFields.nil.insertKey "a" (.scalar v)

def oneMask : FieldMask := {⟨[], "a"⟩}

/-- A merge that made a document is refused while an update waits behind it. -/
def refusedMerge : List (Action Unit ℕ) :=
  [.writeMutations 0 [((), .merge (oneField 1) oneMask [])],
    .writeMutations 0 [((), .update (oneField 2) oneMask [])], .rejectBatch 1]

/-- And the update is refused too. -/
def allRefused : LocalStore Unit ℕ := Transition.exec step empty (refusedMerge ++ [.rejectBatch 2])

theorem getDocument_of_drained_allRefused :
    allRefused.overlays () = none ∧ allRefused.getDocument () = allRefused.remoteDocument () := by
  have hlast : allRefused ∈ Transition.visited step empty (refusedMerge ++ [.rejectBatch 2]) :=
    Transition.mem_visited.2 (.inr rfl)
  have hdrained : (allRefused.batchesAffecting ()).length = 0 := by decide +kernel
  exact getDocument_of_drained _ allRefused hlast () (List.eq_nil_of_length_eq_zero hdrained)

end LocalStore

end Firestore
