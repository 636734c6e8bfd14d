import TheHive.Firestore.LocalBatches

/-!
# Runs of the local store

A document is read through its overlay.  Over a run of writes, answers and remote events this is
what its pending mutations make of what is known of the server, as long as no recalculation leaves
an overlay behind.

* `Coherent` — an overlay does what the pending mutations do, to every base that exists when the
  known one does; one lemma for each step of the store.
* `Recalculation.KeepsUp` — a document that keeps an overlay has a pending mutation that applies.
* `getDocument_run_iff` — **in a run a document, and every query, always shows what the pending
  mutations make of it exactly when all its recalculations keep up**.
-/

set_option autoImplicit false

namespace Firestore

open MutableDocument

universe u v

variable {κ : Type v} {α : Type u} [DecidableEq κ]

/-- The app updates the document. -/
def Action.Updates (key : κ) : Action κ α → Prop
  | .writeMutations _ writes =>
    ∃ data fieldMask fieldTransforms, (key, .update data fieldMask fieldTransforms) ∈ writes
  | _ => False

/-- What the app writes to the document is plain; what it writes to others may be anything. -/
def Action.PlainAt (key : κ) : Action κ α → Prop
  | .writeMutations _ writes => ∀ w, (key, w) ∈ writes → w.toMutation.Plain
  | _ => True

namespace LocalStore

variable {s : LocalStore κ α} {key : κ}

/-! ## Overlays and pending mutations -/

/-- An overlay does what the pending mutations do, to every document that exists when the one from
the server does. -/
structure Coherent (s : LocalStore κ α) (key : κ) : Prop where
  remote : (s.remoteDocument key).hasLocalMutations = false
  plain : ∀ o, s.overlays key = some o → o.mutation.Plain
  shows : ∀ base, base.isFoundDocument = (s.remoteDocument key).isFoundDocument →
    overlaid ((s.overlays key).map Overlay.mutation) base =
      (applyAllToLocalView (s.pending key) base (some ∅)).1
  whole : ∀ o, s.overlays key = some o → o.mutation.isPatch = false →
    ∃ m ∈ s.pending key, m.1.isPatch = false

/-- What holds of the store, and of one document as long as its overlay is not left behind. -/
structure Inv (key : κ) (s : LocalStore κ α) : Prop where
  indexed : s.Indexed
  plain : ∀ m ∈ s.pending key, m.1.Plain
  coherent : s.Coherent key

theorem inv_empty (key : κ) : Inv key (empty : LocalStore κ α) :=
  ⟨indexed_empty, fun _ h => (by cases h),
    ⟨rfl, fun _ h => (by cases h), fun _ _ => rfl, fun _ h => (by cases h)⟩⟩

/-- The base does not matter where the overlay is whole. -/
theorem overlaid_of_whole {o : Mutation α} (h : o.Plain) (hpatch : o.isPatch = false)
    (base base' : MutableDocument α) : overlaid (some o) base' = overlaid (some o) base :=
  congrArg Prod.fst (h.applyToLocalView_eq hpatch base base' _ _ _ _)

omit [DecidableEq κ] in
theorem getDocument_eq_overlaid (hplain : ∀ o, s.overlays key = some o → o.mutation.Plain) :
    s.getDocument key =
      overlaid ((s.overlays key).map Overlay.mutation) (s.remoteDocument key) := by
  rw [getDocument, getBaseDocument]
  cases hoverlay : s.overlays key with
  | none => rfl
  | some o =>
    cases hpatch : o.mutation.isPatch with
    | true => simp [hpatch]
    | false =>
      simp only [Option.all_some, hpatch, Bool.false_eq_true, if_false, Option.map_some]
      exact overlaid_of_whole (hplain o hoverlay) hpatch _ _

/-- **In a coherent store a document is shown as its pending mutations make it.** -/
theorem Coherent.getDocument_eq (h : s.Coherent key) :
    s.getDocument key = s.getDocumentFromBatches key s.mutationQueue := by
  rw [getDocument_eq_overlaid h.plain, getDocumentFromBatches_eq]
  exact h.shows _ rfl

/-- It is about one document alone. -/
theorem Coherent.congr {s' : LocalStore κ α} (h : s.Coherent key)
    (hremote : s'.remoteDocument key = s.remoteDocument key)
    (hoverlay : s'.overlays key = s.overlays key) (hpending : s'.pending key = s.pending key) :
    s'.Coherent key := by
  refine ⟨?_, ?_, ?_, ?_⟩
  · rw [hremote]
    exact h.remote
  · rw [hoverlay]
    exact h.plain
  · rw [hremote, hoverlay, hpending]
    exact h.shows
  · rw [hoverlay, hpending]
    exact h.whole

/-- **A new overlay is coherent** when it sums up mutations that make of a base what the pending ones
do. -/
theorem Coherent.of_overlay {queue : MutationQueue α} {doc : MutableDocument α} {o : Overlay α}
    (hoverlay : s.overlays key = some o)
    (hcalc : Mutation.calculateOverlayMutation (applyAllToLocalView queue doc (some ∅)).1
      (applyAllToLocalView queue doc (some ∅)).2 = some o.mutation)
    (hqueue : ∀ m ∈ queue, m.1.Plain) (hdoc : doc.hasLocalMutations = false)
    (hremote : (s.remoteDocument key).hasLocalMutations = false)
    (hfound : doc.isFoundDocument = (s.remoteDocument key).isFoundDocument)
    (hreplay : ∀ base, base.isFoundDocument = (s.remoteDocument key).isFoundDocument →
      (applyAllToLocalView queue base (some ∅)).1 =
        (applyAllToLocalView (s.pending key) base (some ∅)).1)
    (hwhole : (∃ m ∈ queue, m.1.isPatch = false) → ∃ m ∈ s.pending key, m.1.isPatch = false) :
    s.Coherent key := by
  refine ⟨hremote, fun o' ho => ?_, fun base hbase => ?_, fun o' ho hpatch => ?_⟩
  · obtain rfl : o = o' := Option.some.inj (hoverlay.symm.trans ho)
    exact (plain_of_calculateOverlayMutation hqueue hdoc hcalc).1
  · rw [hoverlay, Option.map_some, ← hcalc, overlaid_eq_of_plain hqueue hdoc (hbase.trans hfound.symm)]
    exact hreplay base hbase
  · obtain rfl : o = o' := Option.some.inj (hoverlay.symm.trans ho)
    exact hwhole (exists_whole_of_mask_eq_none (whole_of_calculateOverlayMutation hcalc hpatch))

/-- **Without an overlay a document is coherent** when nothing that is pending applies to it. -/
theorem Coherent.of_no_overlay (hoverlay : s.overlays key = none)
    (hplain : ∀ m ∈ s.pending key, m.1.Plain)
    (hremote : (s.remoteDocument key).hasLocalMutations = false)
    (hnot : ∀ m ∈ s.pending key, ¬ m.1.precondition.isValidFor (s.remoteDocument key)) :
    s.Coherent key := by
  refine ⟨hremote, fun o ho => ?_, fun base hbase => ?_, fun o ho => ?_⟩
  · rw [hoverlay] at ho
    cases ho
  · rw [hoverlay, applyAllToLocalView_of_forall]
    · rfl
    · intro m hm hvalid
      rw [(hplain m hm).isValidFor_eq hbase] at hvalid
      exact hnot m hm hvalid
  · rw [hoverlay] at ho
    cases ho

/-! ### Recalculations -/

/-- What holds of a document that is about to be recalculated, or not. -/
structure Recalculation.Ready (r : Recalculation κ α) (key : κ) : Prop where
  remote : (r.store.remoteDocument key).hasLocalMutations = false
  docs : r.keys key = true → (r.docs key).hasLocalMutations = false ∧
    (r.docs key).isFoundDocument = (r.store.remoteDocument key).isFoundDocument
  rest : r.keys key = false → r.store.Coherent key

/-- A document that keeps an overlay has a pending mutation that applies to what it is recalculated
from. -/
def Recalculation.KeepsUp (r : Recalculation κ α) (key : κ) : Prop :=
  r.keys key = true → (r.store.overlays key).isSome →
    ∃ m ∈ r.store.pending key, m.1.precondition.isValidFor (r.docs key)

section Recalculate

variable {r : Recalculation κ α}

/-- The overlay after a recalculation of the document. -/
theorem Recalculation.overlays_run (hkey : r.keys key = true) :
    r.run.overlays key =
      ((r.store.lastBatchId key).bind fun batchId =>
        (Mutation.calculateOverlayMutation
          (applyAllToLocalView (r.store.pending key) (r.docs key) (some ∅)).1
          (applyAllToLocalView (r.store.pending key) (r.docs key) (some ∅)).2).map
            (Overlay.mk batchId)).or (r.store.overlays key) := by
  rw [Recalculation.run, overlays_recalculateAndSaveOverlays, if_pos hkey]

/-- **A recalculation keeps a document coherent**, when no overlay of it is left behind. -/
theorem Recalculation.Ready.coherent (h : r.Ready key) (hindexed : r.store.Indexed)
    (hplain : ∀ m ∈ r.store.pending key, m.1.Plain) (hkeeps : r.KeepsUp key) :
    r.run.Coherent key := by
  cases hkey : r.keys key with
  | false =>
    refine (h.rest hkey).congr rfl ?_ rfl
    rw [Recalculation.run, overlays_recalculateAndSaveOverlays, hkey, if_neg Bool.false_ne_true]
  | true =>
    obtain ⟨hdocs, hfound⟩ := h.docs hkey
    have hoverlays := Recalculation.overlays_run hkey
    cases hlast : r.store.lastBatchId key with
    | none =>
      -- nothing is pending
      have hdrained : r.store.batchesAffecting key = [] := by
        rwa [lastBatchId, Option.map_eq_none_iff, List.getLast?_eq_none_iff] at hlast
      rw [hlast, hindexed.overlays_eq_none hdrained] at hoverlays
      have hnil : r.store.pending key = [] := by
        rw [← pendingIn_batchesAffecting, hdrained]
        rfl
      refine Coherent.of_no_overlay hoverlays hplain h.remote fun m hm => ?_
      rw [show r.run.pending key = r.store.pending key from rfl, hnil] at hm
      cases hm
    | some batchId =>
      rw [hlast, Option.bind_some] at hoverlays
      cases hnew : Mutation.calculateOverlayMutation
          (applyAllToLocalView (r.store.pending key) (r.docs key) (some ∅)).1
          (applyAllToLocalView (r.store.pending key) (r.docs key) (some ∅)).2 with
      | some o =>
        rw [hnew] at hoverlays
        exact Coherent.of_overlay (o := ⟨batchId, o⟩) hoverlays hnew hplain hdocs h.remote hfound
          (fun _ _ => rfl) id
      | none =>
        -- nothing applies, so there is no overlay either
        rw [MutationBatch.calculateOverlayMutation_eq_none_iff] at hnew
        have hnot : ¬ ∃ m ∈ r.store.pending key, m.1.precondition.isValidFor (r.docs key) := by
          rw [← hasLocalMutations_iff hdocs (some ∅), hnew]
          exact Bool.false_ne_true
        have hold : r.store.overlays key = none := by
          cases hoverlay : r.store.overlays key with
          | none => rfl
          | some o => exact absurd (hkeeps hkey (by rw [hoverlay]; rfl)) hnot
        rw [MutationBatch.calculateOverlayMutation_eq_none_iff.2 hnew, hold] at hoverlays
        refine Coherent.of_no_overlay hoverlays hplain h.remote fun m hm hvalid => ?_
        have hvalid : m.1.precondition.isValidFor (r.store.remoteDocument key) := hvalid
        rw [(hplain m hm).isValidFor_eq hfound.symm] at hvalid
        exact hnot ⟨m, hm, hvalid⟩

/-- **An overlay that is left behind shows**: the document is not what its pending mutations make. -/
theorem Recalculation.Ready.getDocument_ne (h : r.Ready key) (hindexed : r.store.Indexed)
    (hplain : ∀ m ∈ r.store.pending key, m.1.Plain) (hkeeps : ¬ r.KeepsUp key) :
    r.run.getDocument key ≠ r.run.getDocumentFromBatches key r.run.mutationQueue := by
  simp only [Recalculation.KeepsUp, not_forall, not_exists, not_and, exists_prop] at hkeeps
  obtain ⟨hkey, hsome, hnot⟩ := hkeeps
  obtain ⟨hdocs, hfound⟩ := h.docs hkey
  obtain ⟨o, ho⟩ := Option.isSome_iff_exists.1 hsome
  have hnew : Mutation.calculateOverlayMutation
      (applyAllToLocalView (r.store.pending key) (r.docs key) (some ∅)).1
      (applyAllToLocalView (r.store.pending key) (r.docs key) (some ∅)).2 = none := by
    rw [applyAllToLocalView_of_forall hnot, MutationBatch.calculateOverlayMutation_eq_none_iff]
    exact hdocs
  have hleft : r.run.overlays key = some o := by
    rw [Recalculation.overlays_run hkey, hnew, ho]
    cases r.store.lastBatchId key <;> rfl
  have hshown : (r.run.getDocument key).hasLocalMutations = true := by
    rw [getDocument, hleft]
    refine Mutation.hasLocalMutations_of_isValidFor ?_ _ _
    rw [hindexed.applies key o ho]
    rfl
  have hremote : ∀ m ∈ r.store.pending key,
      ¬ m.1.precondition.isValidFor (r.store.remoteDocument key) := by
    intro m hm
    rw [(hplain m hm).isValidFor_eq hfound.symm]
    exact hnot m hm
  intro heq
  rw [heq, getDocumentFromBatches_eq, show r.run.pending key = r.store.pending key from rfl,
    show r.run.remoteDocument key = r.store.remoteDocument key from rfl,
    applyAllToLocalView_of_forall hremote, h.remote] at hshown
  cases hshown

end Recalculate

/-! ### Answers -/

section Answer

variable {batch : MutationBatch κ α} {queue : List (MutationBatch κ α)}
  {cache : κ → Option (MutableDocument α)}

/-- Documents that the batch does not write to keep their overlays. -/
theorem overlays_removeBatch (h : s.Indexed) (hqueue : s.mutationQueue = batch :: queue)
    (hkey : key ∉ batch.keys) :
    (s.removeBatch batch.batchId queue cache).overlays key = s.overlays key := by
  show (s.overlays key).filter _ = _
  cases hoverlay : s.overlays key with
  | none => rfl
  | some o =>
    rw [Option.filter_some, if_pos]
    refine decide_eq_true ?_
    -- its last batch comes after the one that goes
    have hlast := h.largest key o hoverlay
    have hasc := h.ascending
    rw [hqueue, List.pairwise_cons] at hasc
    rw [lastBatchId, batchesAffecting, hqueue, List.filter_cons_of_neg (by simpa using hkey),
      Option.map_eq_some_iff] at hlast
    obtain ⟨b, hb, hid⟩ := hlast
    have hmem := (List.mem_filter.1 (List.mem_of_getLast? hb)).1
    rw [← hid]
    exact (hasc.1 b hmem).ne'

theorem ready_removeBatch (h : s.Inv key) (hqueue : s.mutationQueue = batch :: queue)
    (hremote : ((cache key).getD invalidDocument).hasLocalMutations = false)
    (hother : key ∉ batch.keys → cache key = s.remoteDocumentCache key) :
    Recalculation.Ready ⟨s.removeBatch batch.batchId queue cache, fun key => key ∈ batch.keys,
      (s.removeBatch batch.batchId queue cache).remoteDocument⟩ key := by
  refine ⟨hremote, fun _ => ⟨hremote, rfl⟩, fun hkey => ?_⟩
  have hkey : key ∉ batch.keys := of_decide_eq_false hkey
  refine h.coherent.congr (congrArg (·.getD invalidDocument) (hother hkey))
    (overlays_removeBatch h.indexed hqueue hkey) ?_
  show pendingIn queue key = pendingIn s.mutationQueue key
  rw [hqueue, pendingIn, pendingIn, List.flatMap_cons, MutationBatch.pending_eq_nil hkey,
    List.nil_append]

/-- What an accepted mutation keeps, an answer keeps. -/
theorem applyToRemoteDocument_induction {P : MutableDocument α → Prop}
    (hm : ∀ (m : Mutation α) doc result, P doc → P (m.applyToRemoteDocument doc result))
    {doc : MutableDocument α} (hdoc : P doc) (key : κ) (mutationResults : List (MutationResult α)) :
    P (batch.applyToRemoteDocument key doc mutationResults) := by
  rw [MutationBatch.applyToRemoteDocument]
  generalize batch.mutations.zip mutationResults = l
  induction l generalizing doc with
  | nil => exact hdoc
  | cons m l ih =>
    rw [List.foldl_cons]
    split
    · exact ih (hm _ _ _ hdoc)
    · exact ih hdoc

theorem applyBatchResult_induction {P : MutableDocument α → Prop}
    (hm : ∀ (m : Mutation α) doc result, P doc → P (m.applyToRemoteDocument doc result))
    (hremote : P (s.remoteDocument key)) (mutationResults : List (MutationResult α)) :
    P ((s.applyBatchResult batch mutationResults key).getD invalidDocument) := by
  unfold applyBatchResult
  dsimp only
  split
  · split
    · split
      · exact applyToRemoteDocument_induction hm hremote _ _
      · exact hremote
    · exact hremote
  · exact hremote

theorem hasLocalMutations_applyToRemoteDocument (m : Mutation α) (doc : MutableDocument α)
    (result : MutationResult α) (_ : doc.hasLocalMutations = false) :
    (m.applyToRemoteDocument doc result).hasLocalMutations = false := by
  cases m with
  | set => rfl
  | delete => rfl
  | patch =>
    rw [Mutation.applyToRemoteDocument]
    split <;> rfl

/-- An answer leaves the documents it is not about. -/
theorem applyBatchResult_of_notMem (hkey : key ∉ batch.keys)
    (mutationResults : List (MutationResult α)) :
    s.applyBatchResult batch mutationResults key = s.remoteDocumentCache key := by
  have hnone : ackVersion batch mutationResults key = none := by
    rw [ackVersion, List.filter_eq_nil_iff.2]
    · rfl
    · intro m hm hmk
      exact hkey (MutationBatch.mem_keys.2 ⟨m.1, (List.of_mem_zip hm).1, of_decide_eq_true hmk⟩)
  unfold applyBatchResult
  rw [hnone]

end Answer

/-! ### Remote events -/

theorem populateDocumentChange_cases {existingDoc doc : MutableDocument α}
    {doc' : Option (MutableDocument α)} (h : populateDocumentChange existingDoc doc = some doc') :
    (doc' = none ∧ doc.isFoundDocument = false) ∨ doc' = some doc := by
  rw [populateDocumentChange] at h
  split at h
  · rename_i hno
    cases h
    refine .inl ⟨rfl, ?_⟩
    rw [Bool.and_eq_true] at hno
    rw [isFoundDocument, of_decide_eq_true hno.1]
    rfl
  · split at h
    · cases h
      exact .inr rfl
    · cases h

/-- A remote event leaves a document as it is, or brings what the server tells of it. -/
theorem populateDocumentChanges_cases (s : LocalStore κ α)
    (documentUpdates : List (κ × RemoteDocument α)) (key : κ) :
    ((s.populateDocumentChanges documentUpdates).remoteDocument key = s.remoteDocument key ∧
        s.recalculates documentUpdates key = false) ∨
      ((s.populateDocumentChanges documentUpdates).remoteDocument key).hasLocalMutations = false ∧
        (s.changedDocs documentUpdates key).hasLocalMutations = false ∧
        (s.changedDocs documentUpdates key).isFoundDocument =
          ((s.populateDocumentChanges documentUpdates).remoteDocument key).isFoundDocument ∧
        s.recalculates documentUpdates key =
          ((s.changedDocs documentUpdates key).isFoundDocument !=
              (s.remoteDocument key).isFoundDocument &&
            (s.overlays key).all fun o => o.mutation.isPatch) := by
  cases hlookup : documentUpdates.lookup key with
  | none =>
    left
    simp only [populateDocumentChanges, remoteDocument, recalculates, hlookup, and_self]
  | some update =>
    have hsynced : update.toMutableDocument.hasLocalMutations = false := by
      cases update <;> rfl
    cases hchange : populateDocumentChange (s.remoteDocument key) update.toMutableDocument with
    | none =>
      left
      have hremote : (s.populateDocumentChanges documentUpdates).remoteDocument key =
          s.remoteDocument key := by
        rw [remoteDocument]
        simp only [populateDocumentChanges, hlookup, hchange, Option.getD_none]
        rfl
      refine ⟨hremote, ?_⟩
      simp only [recalculates, hlookup, hchange, Option.isSome_none, Bool.false_and]
    | some doc =>
      right
      have hremote : (s.populateDocumentChanges documentUpdates).remoteDocument key =
          doc.getD invalidDocument := by
        rw [remoteDocument]
        simp only [populateDocumentChanges, hlookup, hchange, Option.getD_some]
      rw [hremote]
      simp only [recalculates, changedDocs, hlookup, hchange, Option.getD_some, Option.map_some,
        Option.isSome_some, Bool.true_and]
      rcases populateDocumentChange_cases hchange with ⟨rfl, hno⟩ | rfl
      · exact ⟨rfl, hsynced, hno, trivial⟩
      · exact ⟨hsynced, hsynced, rfl, trivial⟩

/-- What holds of unknown documents and of the server's, and what an accepted mutation keeps, holds
of every cached document. -/
theorem remoteDocument_step {P : MutableDocument α → Prop} (hinvalid : P invalidDocument)
    (hserver : ∀ doc : RemoteDocument α, P doc.toMutableDocument)
    (hm : ∀ (m : Mutation α) doc result, P doc → P (m.applyToRemoteDocument doc result))
    (h : P (s.remoteDocument key)) {action : Action κ α} {s' : LocalStore κ α}
    (hstep : s.step action = some s') : P (s'.remoteDocument key) := by
  rcases step_cases hstep with ⟨r, hr, rfl⟩ | ⟨localWriteTime, writes, rfl, rfl⟩
  · rcases recalculation_cases hr with ⟨batch, queue, cache, -, hanswer, rfl⟩ |
      ⟨documentUpdates, rfl, rfl⟩
    · rcases hanswer with ⟨rfl, rfl⟩ | ⟨results, rfl, -, rfl⟩
      · exact h
      · exact applyBatchResult_induction hm h results
    · show P ((s.populateDocumentChanges documentUpdates).remoteDocument key)
      rw [remoteDocument, populateDocumentChanges]
      dsimp only
      split
      · rename_i update hlookup
        cases hchange : populateDocumentChange (s.remoteDocument key) update.toMutableDocument with
        | none => exact h
        | some doc' =>
          rcases populateDocumentChange_cases hchange with ⟨rfl, -⟩ | rfl
          · exact hinvalid
          · exact hserver update
      · exact h
  · exact h

/-- A new document from the server leaves an overlay right, when it exists as before or the overlay
is whole. -/
theorem Coherent.of_remote (h : s.Coherent key) {s' : LocalStore κ α}
    (hplain : ∀ m ∈ s.pending key, m.1.Plain) (hoverlay : s'.overlays key = s.overlays key)
    (hpending : s'.pending key = s.pending key)
    (hremote : (s'.remoteDocument key).hasLocalMutations = false)
    (hcase : (s'.remoteDocument key).isFoundDocument = (s.remoteDocument key).isFoundDocument ∨
      ∃ o, s.overlays key = some o ∧ o.mutation.isPatch = false) : s'.Coherent key := by
  refine ⟨hremote, ?_, fun base hbase => ?_, ?_⟩
  · rw [hoverlay]
    exact h.plain
  · rw [hoverlay, hpending]
    rcases hcase with hfound | ⟨o, ho, hpatch⟩
    · exact h.shows base (hbase.trans hfound)
    · -- what the document was does not matter
      have hshown := h.shows (s.remoteDocument key) rfl
      have hwhole := applyAllToLocalView_of_whole hplain (h.whole o ho hpatch)
        (s.remoteDocument key) base (some ∅) (some ∅)
      rw [ho] at hshown ⊢
      calc overlaid (some o.mutation) base
          = overlaid (some o.mutation) (s.remoteDocument key) :=
            overlaid_of_whole (h.plain o ho) hpatch _ _
        _ = (applyAllToLocalView (s.pending key) (s.remoteDocument key) (some ∅)).1 := hshown
        _ = (applyAllToLocalView (s.pending key) base (some ∅)).1 := (congrArg Prod.fst hwhole).symm
  · rw [hoverlay, hpending]
    exact h.whole

theorem ready_applyRemoteEvent (h : s.Inv key) (documentUpdates : List (κ × RemoteDocument α)) :
    (s.applyRemoteEvent documentUpdates).Ready key := by
  have hcoherent := h.coherent
  have hof := @Coherent.of_remote _ _ _ _ _ hcoherent (s.populateDocumentChanges documentUpdates)
    h.plain rfl rfl
  rcases populateDocumentChanges_cases s documentUpdates key with
    ⟨hsame, hkeys⟩ | ⟨hlocal, hdocs, hfound, hkeys⟩
  · have hremote : ((s.populateDocumentChanges documentUpdates).remoteDocument key).hasLocalMutations
        = false := by
      rw [hsame]
      exact hcoherent.remote
    refine ⟨hremote, fun hkey => ?_, fun _ => hof hremote (.inl (by rw [hsame]))⟩
    have hkey : s.recalculates documentUpdates key = true := hkey
    rw [hkeys] at hkey
    cases hkey
  · refine ⟨hlocal, fun _ => ⟨hdocs, hfound⟩, fun hkey => hof hlocal ?_⟩
    have hkey : s.recalculates documentUpdates key = false := hkey
    rw [hkeys, Bool.and_eq_false_iff] at hkey
    rcases hkey with hsame | hwhole
    · left
      rw [← hfound]
      simpa using hsame
    · right
      cases hoverlay : s.overlays key with
      | none =>
        rw [hoverlay] at hwhole
        cases hwhole
      | some o =>
        rw [hoverlay] at hwhole
        exact ⟨o, rfl, by simpa using hwhole⟩

/-- **Every recalculation finds the document as it needs it.** -/
theorem Inv.ready (h : s.Inv key) {action : Action κ α} {r : Recalculation κ α}
    (hr : s.recalculation action = some r) : r.Ready key := by
  rcases recalculation_cases hr with ⟨batch, queue, cache, hqueue, hcache, rfl⟩ | ⟨_, -, rfl⟩
  · rcases hcache with ⟨-, rfl⟩ | ⟨results, -, -, rfl⟩
    · exact ready_removeBatch h hqueue h.coherent.remote fun _ => rfl
    · exact ready_removeBatch h hqueue
        (applyBatchResult_induction hasLocalMutations_applyToRemoteDocument h.coherent.remote results)
        fun hkey => applyBatchResult_of_notMem hkey results
  · exact ready_applyRemoteEvent h _

/-! ### Writes -/

/-- The overlay of a document as a queue of its own. -/
def overlayQueue (overlay : Option (Overlay α)) : MutationQueue α :=
  (overlay.map fun o => (o.mutation, 0)).toList

theorem applyAllToLocalView_overlayQueue (overlay : Option (Overlay α)) (base : MutableDocument α) :
    (applyAllToLocalView (overlayQueue overlay) base (some ∅)).1 =
      overlaid (overlay.map Overlay.mutation) base := by
  cases overlay <;> rfl

omit [DecidableEq κ] in
/-- What is shown, and the fields it changes, is what that queue makes of the server's document. -/
theorem getOverlayedDocument_eq (hplain : ∀ o, s.overlays key = some o → o.mutation.Plain)
    (happlies : ∀ o, s.overlays key = some o → o.mutation.precondition = .none) :
    s.getOverlayedDocument key =
      applyAllToLocalView (overlayQueue (s.overlays key)) (s.remoteDocument key) (some ∅) := by
  rw [getOverlayedDocument]
  cases hoverlay : s.overlays key with
  | none => rfl
  | some o =>
    have hnone := happlies o hoverlay
    have htransforms := (hplain o hoverlay).transforms
    obtain ⟨largestBatchId, mutation⟩ := o
    cases mutation with
    | set value pre fieldTransforms =>
      obtain rfl : pre = .none := hnone
      rfl
    | delete pre =>
      obtain rfl : pre = .none := hnone
      rfl
    | patch value mask pre fieldTransforms =>
      obtain rfl : pre = .none := hnone
      obtain rfl : fieldTransforms = [] := htransforms
      have hmask : (∅ ∪ mask ∪ (∅ : FieldMask)) = mask := by
        rw [Finset.empty_union, Finset.union_empty]
      show (_, some mask) = (_, some (∅ ∪ mask ∪ ∅))
      rw [hmask]
      rfl

theorem pending_addBatch (s : LocalStore κ α) (batch : MutationBatch κ α) (key : κ) :
    (s.addBatch batch).pending key = s.pending key ++ batch.pending key := by
  rw [pending, addBatch, pendingIn_append]
  exact congrArg _ (List.append_nil _)

/-- Without an overlay nothing that is pending applies. -/
theorem Coherent.not_isValidFor (h : s.Coherent key) (hnone : s.overlays key = none) :
    ∀ m ∈ s.pending key, ¬ m.1.precondition.isValidFor (s.remoteDocument key) := by
  intro m hm hvalid
  have hshows := h.shows _ rfl
  rw [hnone] at hshows
  have hlocal := (hasLocalMutations_iff h.remote (some ∅)).2 ⟨m, hm, hvalid⟩
  rw [← hshows] at hlocal
  exact Bool.false_ne_true (h.remote.symm.trans hlocal)

/-- The old overlay of a document, and what the batch does to it. -/
def summedQueue (s : LocalStore κ α) (batch : MutationBatch κ α) (key : κ) : MutationQueue α :=
  overlayQueue (s.overlays key) ++ batch.pending key

theorem mem_summedQueue {batch : MutationBatch κ α} {m : Mutation α × Timestamp} :
    m ∈ s.summedQueue batch key ↔
      (∃ o, s.overlays key = some o ∧ m = (o.mutation, 0)) ∨ m ∈ batch.pending key := by
  rw [summedQueue, List.mem_append, overlayQueue, Option.mem_toList, Option.map_eq_some_iff]
  simp only [eq_comm]

/-- **The new overlay sums up the old one and the batch.** -/
theorem Coherent.overlays_addBatch (h : s.Coherent key) (hindexed : s.Indexed)
    {batch : MutationBatch κ α} (hkey : key ∈ batch.keys) :
    (s.addBatch batch).overlays key =
      ((Mutation.calculateOverlayMutation
        (applyAllToLocalView (s.summedQueue batch key) (s.remoteDocument key) (some ∅)).1
        (applyAllToLocalView (s.summedQueue batch key) (s.remoteDocument key) (some ∅)).2).map
          (Overlay.mk batch.batchId)).or (s.overlays key) := by
  rw [LocalStore.overlays_addBatch hkey, getOverlayedDocument_eq h.plain (hindexed.applies key),
    summedQueue, applyAllToLocalView_append]

/-- Where they come to nothing there was no overlay. -/
theorem Coherent.overlays_eq_none (h : s.Coherent key) (hindexed : s.Indexed)
    {batch : MutationBatch κ α}
    (hnothing : (applyAllToLocalView (s.summedQueue batch key) (s.remoteDocument key)
      (some ∅)).1.hasLocalMutations = false) : s.overlays key = none := by
  cases hoverlay : s.overlays key with
  | none => rfl
  | some o =>
    rw [summedQueue, applyAllToLocalView_append,
      ← getOverlayedDocument_eq h.plain (hindexed.applies key), hasLocalMutations_applyAllToLocalView
        (hasLocalMutations_getOverlayedDocument hindexed hoverlay)] at hnothing
    cases hnothing

/-- **A write keeps a document coherent.** -/
theorem Coherent.addBatch (h : s.Coherent key) (hindexed : s.Indexed) {batch : MutationBatch κ α}
    (hpending : ∀ m ∈ s.pending key, m.1.Plain) (hbatch : ∀ m ∈ batch.pending key, m.1.Plain) :
    (s.addBatch batch).Coherent key := by
  by_cases hkey : key ∈ batch.keys
  · have hnew := h.overlays_addBatch hindexed hkey
    have hplain : ∀ m ∈ s.summedQueue batch key, m.1.Plain := by
      intro m hm
      rcases mem_summedQueue.1 hm with ⟨o, ho, rfl⟩ | hm
      · exact h.plain o ho
      · exact hbatch m hm
    cases hcalc : Mutation.calculateOverlayMutation
        (applyAllToLocalView (s.summedQueue batch key) (s.remoteDocument key) (some ∅)).1
        (applyAllToLocalView (s.summedQueue batch key) (s.remoteDocument key) (some ∅)).2 with
    | some o =>
      rw [hcalc] at hnew
      refine Coherent.of_overlay (o := ⟨batch.batchId, o⟩) hnew hcalc hplain h.remote h.remote rfl
        (fun base hbase => ?_) fun hwhole => ?_
      · -- the old overlay and the batch make of a base what all pending mutations do
        rw [pending_addBatch, summedQueue, fst_applyAllToLocalView_append _ _ _ _ (some ∅),
          fst_applyAllToLocalView_append _ _ _ _ (some ∅), applyAllToLocalView_overlayQueue,
          h.shows base hbase]
      · obtain ⟨m, hm, hwhole⟩ := hwhole
        rw [pending_addBatch]
        rcases mem_summedQueue.1 hm with ⟨o, ho, rfl⟩ | hm
        · obtain ⟨m', hm', hwhole'⟩ := h.whole o ho hwhole
          exact ⟨m', List.mem_append_left _ hm', hwhole'⟩
        · exact ⟨m, List.mem_append_right _ hm, hwhole⟩
    | none =>
      -- nothing is shown changed
      rw [hcalc, Option.map_none, Option.none_or] at hnew
      rw [MutationBatch.calculateOverlayMutation_eq_none_iff] at hcalc
      have hnone := h.overlays_eq_none hindexed hcalc
      rw [hnone] at hnew
      refine Coherent.of_no_overlay hnew (fun m hm => ?_) h.remote fun m hm hvalid => ?_
      · rw [pending_addBatch] at hm
        exact (List.mem_append.1 hm).elim (hpending m) (hbatch m)
      · rw [pending_addBatch] at hm
        rcases List.mem_append.1 hm with hm | hm
        · exact h.not_isValidFor hnone m hm hvalid
        · rw [(hasLocalMutations_iff h.remote (some ∅)).2
            ⟨m, mem_summedQueue.2 (.inr hm), hvalid⟩] at hcalc
          cases hcalc
  · refine h.congr rfl (overlays_addBatch_of_notMem hkey) ?_
    rw [pending_addBatch, MutationBatch.pending_eq_nil hkey, List.append_nil]

/-! ### Runs -/

/-- The step does not leave the overlay of the document behind: when it recalculates the document,
and the document keeps an overlay, a pending mutation applies to it. -/
def KeepsUp (key : κ) (s : LocalStore κ α) (action : Action κ α) : Prop :=
  ∀ r, s.recalculation action = some r → r.KeepsUp key

omit [DecidableEq κ] in
/-- **A query finds exactly the documents that match as they are shown.** -/
theorem getDocumentsMatchingCollectionQuery_eq
    (hplain : ∀ o, s.overlays key = some o → o.mutation.Plain) (query : Query κ α) :
    s.getDocumentsMatchingCollectionQuery query key =
      (some (s.getDocument key)).filter fun doc => query.matchesDocument key doc := by
  rw [getDocument_eq_overlaid hplain, getDocumentsMatchingCollectionQuery, remoteDocumentMatchingQuery,
    remoteDocument]
  cases hin : query.inCollection key with
  | false =>
    have hnot : ∀ doc : MutableDocument α, query.matchesDocument key doc = false := fun doc => by
      rw [Query.matchesDocument, hin, Bool.and_false, Bool.false_and]
    simp [hnot]
  | true =>
    cases hoverlay : s.overlays key with
    | none =>
      cases hcache : s.remoteDocumentCache key with
      | none => rfl
      | some doc =>
        -- without an overlay the query has asked already
        simp [overlaid]
    | some o => cases s.remoteDocumentCache key <;> rfl

/-- The document is shown as its pending mutations make it, by itself and in every query. -/
structure ShowsPending (key : κ) (s : LocalStore κ α) : Prop where
  document : s.getDocument key = s.getDocumentFromBatches key s.mutationQueue
  query : ∀ query, s.getDocumentsMatchingCollectionQuery query key =
    (some (s.getDocumentFromBatches key s.mutationQueue)).filter fun doc =>
      query.matchesDocument key doc

/-- A recalculation is of mutations that were pending. -/
theorem mem_pending_of_recalculation {action : Action κ α} {r : Recalculation κ α}
    (hr : s.recalculation action = some r) {m : Mutation α × Timestamp}
    (hm : m ∈ r.store.pending key) : m ∈ s.pending key := by
  obtain ⟨batch, hbatch, hm⟩ := List.mem_flatMap.1 hm
  exact List.mem_flatMap.2 ⟨batch, mem_of_mem_recalculation hr hbatch, hm⟩

theorem Inv.plain_recalculation (h : s.Inv key) {action : Action κ α} {r : Recalculation κ α}
    (hr : s.recalculation action = some r) : ∀ m ∈ r.store.pending key, m.1.Plain :=
  fun m hm => h.plain m (mem_pending_of_recalculation hr hm)

/-- The mutations of a new batch are those of the writes. -/
theorem mem_pending_batchOf {batchId : BatchId} {localWriteTime : Timestamp}
    {writes : List (κ × UserWrite α)} {m : Mutation α × Timestamp}
    (hm : m ∈ (batchOf batchId localWriteTime writes).pending key) :
    ∃ w, (key, w) ∈ writes ∧ m.1 = w.toMutation := by
  obtain ⟨m', hm', rfl⟩ := MutationBatch.mem_pending.1 hm
  obtain ⟨⟨key', w⟩, hw, heq⟩ := List.mem_map.1 hm'
  obtain ⟨rfl, rfl⟩ := Prod.mk.inj heq
  exact ⟨w, hw, rfl⟩

/-- **A step keeps a document right**, when it does not leave its overlay behind. -/
theorem Inv.step (h : s.Inv key) {action : Action κ α} {s' : LocalStore κ α}
    (hplain : action.PlainAt key) (hstep : s.step action = some s')
    (hkeeps : s.KeepsUp key action) : s'.Inv key := by
  rcases step_cases hstep with ⟨r, hr, rfl⟩ | ⟨localWriteTime, writes, rfl, rfl⟩
  · exact ⟨h.indexed.step hstep, h.plain_recalculation hr,
      (h.ready hr).coherent (h.indexed.recalculation hr) (h.plain_recalculation hr) (hkeeps r hr)⟩
  · have hbatch : ∀ m ∈ (batchOf s.nextBatchId localWriteTime writes).pending key, m.1.Plain := by
      intro m hm
      obtain ⟨w, hw, hmw⟩ := mem_pending_batchOf hm
      rw [hmw]
      exact hplain w hw
    refine ⟨h.indexed.step hstep, fun m hm => ?_, h.coherent.addBatch h.indexed h.plain hbatch⟩
    rw [pending_addBatch] at hm
    exact (List.mem_append.1 hm).elim (h.plain m) (hbatch m)

theorem Inv.showsPending (h : s.Inv key) : s.ShowsPending key := by
  refine ⟨h.coherent.getDocument_eq, fun query => ?_⟩
  rw [getDocumentsMatchingCollectionQuery_eq h.coherent.plain, h.coherent.getDocument_eq]

theorem Inv.not_showsPending (h : s.Inv key) {action : Action κ α} {s' : LocalStore κ α}
    (hstep : s.step action = some s') (hkeeps : ¬ s.KeepsUp key action) : ¬ s'.ShowsPending key := by
  simp only [KeepsUp, not_forall] at hkeeps
  obtain ⟨r, hr, hkey⟩ := hkeeps
  rcases step_cases hstep with ⟨r', hr', rfl⟩ | ⟨localWriteTime, writes, rfl, -⟩
  · obtain rfl : r = r' := Option.some.inj (hr.symm.trans hr')
    intro hshows
    exact (h.ready hr).getDocument_ne (h.indexed.recalculation hr) (h.plain_recalculation hr) hkey
      hshows.document
  · cases hr

/-- **In every run in which the app writes plainly to a document, it is always shown as its pending
mutations make it, by itself and in queries, exactly when no step leaves its overlay behind**,
whatever happens to other documents. -/
theorem getDocument_run_iff (key : κ) (actions : List (Action κ α))
    (hplain : ∀ action ∈ actions, action.PlainAt key) :
    (∀ t ∈ Transition.visited LocalStore.step (empty : LocalStore κ α) actions, t.ShowsPending key) ↔
      ∀ x ∈ Transition.taken LocalStore.step (empty : LocalStore κ α) actions,
        x.1.KeepsUp key x.2 :=
  Transition.visited_iff_taken_of_breaks (A := Action.PlainAt key) (inv_empty key)
    (fun _ => Inv.showsPending) (fun _ _ _ h => h.step)
    (fun _ _ _ h _ => h.not_showsPending) actions hplain

/-! ### One field of one document -/

theorem present_oneField (v : ℕ) : ∀ p ∈ oneMask, ((oneField v).get p.segments).isSome := by
  intro p hp
  obtain rfl := Finset.mem_singleton.1 hp
  rfl

theorem shallow_oneMask : ∀ p ∈ oneMask, p.parent.length ≤ 1 := by decide

/-- Merges only. -/
def merges : List (Action Unit ℕ) :=
  [.writeMutations 0 [((), .merge (oneField 1) oneMask [])],
    .writeMutations 0 [((), .merge (oneField 2) oneMask [])], .rejectBatch 1]

theorem plainAt_merges : ∀ action ∈ merges, action.PlainAt () := by
  intro action haction
  simp only [merges, List.mem_cons, List.not_mem_nil, or_false] at haction
  rcases haction with rfl | rfl | rfl
  · rintro w hw
    cases List.mem_singleton.1 hw
    exact plain_merge (present_oneField 1) shallow_oneMask
  · rintro w hw
    cases List.mem_singleton.1 hw
    exact plain_merge (present_oneField 2) shallow_oneMask
  · trivial

theorem plainAt_refusedMerge : ∀ action ∈ refusedMerge, action.PlainAt () := by
  intro action haction
  simp only [refusedMerge, List.mem_cons, List.not_mem_nil, or_false] at haction
  rcases haction with rfl | rfl | rfl
  · rintro w hw
    cases List.mem_singleton.1 hw
    exact plain_merge (present_oneField 1) shallow_oneMask
  · rintro w hw
    cases List.mem_singleton.1 hw
    exact plain_update (present_oneField 2) shallow_oneMask
  · trivial

/-- The update alone makes no document, but one is still shown. -/
theorem getDocument_run_iff_refusedMerge :
    (∀ t ∈ Transition.visited step empty refusedMerge, t.ShowsPending ()) ↔
      ∀ x ∈ Transition.taken step empty refusedMerge, x.1.KeepsUp () x.2 :=
  getDocument_run_iff () refusedMerge plainAt_refusedMerge

example : ((Transition.exec step empty refusedMerge).getDocument ()).isFoundDocument = true ∧
    ((Transition.exec step empty refusedMerge).getDocumentFromBatches ()
      (Transition.exec step empty refusedMerge).mutationQueue).isFoundDocument = false := by
  decide +kernel

/-! ### Documents that are not updated -/

/-- No mutation that waits for the document asks whether it exists. -/
def Unconditional (key : κ) (s : LocalStore κ α) : Prop :=
  ∀ m ∈ s.pending key, m.1.precondition = .none

/-- An overlay has a pending mutation. -/
theorem Indexed.exists_pending (h : s.Indexed) {o : Overlay α} (ho : s.overlays key = some o) :
    ∃ m, m ∈ s.pending key := by
  obtain ⟨batch, hbatch, -⟩ := Option.map_eq_some_iff.1 (h.largest key o ho)
  obtain ⟨hqueue, hkey⟩ := List.mem_filter.1 (List.mem_of_getLast? hbatch)
  obtain ⟨m, hm, hmk⟩ := MutationBatch.mem_keys.1 (of_decide_eq_true hkey)
  exact ⟨(m.2, batch.localWriteTime), List.mem_flatMap.2
    ⟨batch, hqueue, List.mem_map.2 ⟨m, List.mem_filter.2 ⟨hm, decide_eq_true hmk⟩, rfl⟩⟩⟩

/-- What applies to every document keeps up. -/
theorem Unconditional.keepsUp (h : s.Unconditional key) (hindexed : s.Indexed)
    (action : Action κ α) : s.KeepsUp key action := by
  intro r hr _ hsome
  obtain ⟨o, ho⟩ := Option.isSome_iff_exists.1 hsome
  obtain ⟨m, hm⟩ := (hindexed.recalculation hr).exists_pending ho
  refine ⟨m, hm, ?_⟩
  rw [h m (mem_pending_of_recalculation hr hm)]
  rfl

theorem Unconditional.step (h : s.Unconditional key) {action : Action κ α} {s' : LocalStore κ α}
    (hstep : s.step action = some s') (haction : ¬ action.Updates key) : s'.Unconditional key := by
  rcases step_cases hstep with ⟨r, hr, rfl⟩ | ⟨localWriteTime, writes, rfl, rfl⟩
  · exact fun m hm => h m (mem_pending_of_recalculation hr hm)
  · intro m hm
    rw [pending_addBatch] at hm
    rcases List.mem_append.1 hm with hm | hm
    · exact h m hm
    · obtain ⟨w, hw, hmw⟩ := mem_pending_batchOf hm
      rw [hmw]
      cases w with
      | set | merge | delete => rfl
      | update data fieldMask fieldTransforms =>
        exact absurd ⟨data, fieldMask, fieldTransforms, hw⟩ haction

/-- **A document that the app writes plainly and never updates is always shown as its pending
mutations make it**: no overlay of it can be left behind. -/
theorem showsPending_of_not_updates (actions : List (Action κ α))
    (hplain : ∀ action ∈ actions, action.PlainAt key)
    (h : ∀ action ∈ actions, ¬ action.Updates key) :
    ∀ t ∈ Transition.visited LocalStore.step (empty : LocalStore κ α) actions, t.ShowsPending key := by
  intro t ht
  refine (Transition.visited_invariant_of_taken
    (I := fun s : LocalStore κ α => s.Inv key ∧ s.Unconditional key)
    (C := fun _ action => Action.PlainAt key action ∧ ¬ Action.Updates key action)
    ⟨inv_empty key, fun _ hm => by cases hm⟩ ?_ actions
    (fun x hx => ⟨hplain x.2 (Transition.mem_of_mem_taken actions x hx),
      h x.2 (Transition.mem_of_mem_taken actions x hx)⟩) t ht).1.showsPending
  rintro s action s' ⟨hinv, huncond⟩ ⟨haction, hupdates⟩ hstep
  exact ⟨hinv.step haction hstep (huncond.keepsUp hinv.indexed action), huncond.step hstep hupdates⟩

theorem showsPending_of_not_updates_merges : (Transition.exec step empty merges).ShowsPending () := by
  refine showsPending_of_not_updates merges plainAt_merges (fun action haction hupdates => ?_) _
    (Transition.mem_visited.2 (.inr rfl))
  simp only [merges, List.mem_cons, List.not_mem_nil, or_false] at haction
  rcases haction with rfl | rfl | rfl
  · obtain ⟨data, mask, transforms, hdata⟩ := hupdates
    cases (Prod.mk.inj (List.mem_singleton.1 hdata)).2
  · obtain ⟨data, mask, transforms, hdata⟩ := hupdates
    cases (Prod.mk.inj (List.mem_singleton.1 hdata)).2
  · exact hupdates

end LocalStore

end Firestore
