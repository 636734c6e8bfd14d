import TheHive.Firestore.Writes

/-!
# The local store

`LocalStore` of the vendored client, for one user: what it knows of the server, the queue of
batches that wait for it, and one overlay for each document with pending writes.  A document is
read through its overlay; the other `GetDocument` replays the queue.

* `writeMutations`, `acknowledgeBatch`, `rejectBatch`, `applyRemoteEvent` — the four steps.
* `recalculateAndSaveOverlays` — overlays from the queue; an overlay is saved, never removed.
* `getDocument`, `getDocumentsMatchingCollectionQuery` — the readers; `getDocumentFromBatches` — the
  document with batches replayed.
* `pending` — the mutations that wait for one document; what the loops over batches, and over the
  mutations of a batch, do to one document is said in terms of it.
-/

set_option autoImplicit false

namespace Firestore

open MutableDocument

universe u v

variable {κ : Type v} {α : Type u} [DecidableEq κ]

abbrev BatchId := Nat

/-! ## Batches -/

/-- `MutationBatch`: mutations by document, sent as one unit. -/
structure MutationBatch (κ : Type v) (α : Type u) where
  batchId : BatchId
  localWriteTime : Timestamp
  mutations : List (κ × Mutation α)

namespace MutationBatch

def keys (batch : MutationBatch κ α) : List κ := (batch.mutations.map Prod.fst).dedup

/-- `ApplyToLocalView`, of the document at `key`. -/
def applyToLocalView (batch : MutationBatch κ α) (key : κ) (doc : MutableDocument α)
    (mutatedFields : Option FieldMask) : MutableDocument α × Option FieldMask :=
  batch.mutations.foldl (fun s mutation =>
    if mutation.1 = key then mutation.2.applyToLocalView s.1 s.2 batch.localWriteTime else s)
    (doc, mutatedFields)

/-- `ApplyToRemoteDocument`, of the document at `key`. -/
def applyToRemoteDocument (batch : MutationBatch κ α) (key : κ) (doc : MutableDocument α)
    (mutationResults : List (MutationResult α)) : MutableDocument α :=
  (batch.mutations.zip mutationResults).foldl (fun doc m =>
    if m.1.1 = key then m.1.2.applyToRemoteDocument doc m.2 else doc) doc

/-- One turn of the loop of `ApplyToLocalDocumentSet`: the whole batch is applied, with the mask
there was at first; the first overlay is kept. -/
def overlayStep (batch : MutationBatch κ α) (key : κ) (mutatedFields : Option FieldMask)
    (s : MutableDocument α × Option (Mutation α)) : MutableDocument α × Option (Mutation α) :=
  let applied := batch.applyToLocalView key s.1 mutatedFields
  let overlay := Mutation.calculateOverlayMutation applied.1 applied.2
  (if applied.1.isValidDocument then applied.1 else applied.1.convertToNoDocument 0, s.2.or overlay)

/-- `ApplyToLocalDocumentSet`, of the document at `key`: a turn for each of its mutations. -/
def applyToLocalDocumentSet (batch : MutationBatch κ α) (key : κ) (doc : MutableDocument α)
    (mutatedFields : Option FieldMask) : MutableDocument α × Option (Mutation α) :=
  batch.mutations.foldl (fun s mutation =>
    if mutation.1 = key then batch.overlayStep key mutatedFields s else s) (doc, none)

/-- The mutations of one document. -/
def pending (batch : MutationBatch κ α) (key : κ) : MutationQueue α :=
  (batch.mutations.filter fun mutation => mutation.1 = key).map fun mutation =>
    (mutation.2, batch.localWriteTime)

end MutationBatch

/-- `Overlay`. -/
structure Overlay (α : Type u) where
  largestBatchId : BatchId
  mutation : Mutation α

/-- The persisted state: the remote document cache, the mutation queue, the overlay cache and the
next id. -/
structure LocalStore (κ : Type v) (α : Type u) where
  remoteDocumentCache : κ → Option (MutableDocument α)
  mutationQueue : List (MutationBatch κ α)
  overlays : κ → Option (Overlay α)
  nextBatchId : BatchId

/-- A query of a collection: where its documents are, and what is asked of one. -/
structure Query (κ : Type v) (α : Type u) where
  inCollection : κ → Bool
  filter : κ → ObjectValue α → Bool

/-- `Matches`. -/
def Query.matchesDocument (query : Query κ α) (key : κ) (doc : MutableDocument α) : Bool :=
  doc.isFoundDocument && query.inCollection key && query.filter key doc.data

/-- What the server tells of a document: `FoundDocument` or `NoDocument`. -/
inductive RemoteDocument (α : Type u) where
  | found (version : SnapshotVersion) (value : ObjectValue α)
  | no (version : SnapshotVersion)

def RemoteDocument.toMutableDocument : RemoteDocument α → MutableDocument α
  | found version value => ⟨.foundDocument, version, value, .synced⟩
  | no version => ⟨.noDocument, version, .empty, .synced⟩

namespace LocalStore

def empty : LocalStore κ α := ⟨fun _ => none, [], fun _ => none, 1⟩

/-! ## Readers -/

/-- `RemoteDocumentCache::Get`. -/
def remoteDocument (s : LocalStore κ α) (key : κ) : MutableDocument α :=
  (s.remoteDocumentCache key).getD invalidDocument

/-- `GetBaseDocument`: a whole document needs no base. -/
def getBaseDocument (s : LocalStore κ α) (key : κ) (overlay : Option (Overlay α)) :
    MutableDocument α :=
  if overlay.all fun o => o.mutation.isPatch then s.remoteDocument key else invalidDocument

/-- `GetDocument`. -/
def getDocument (s : LocalStore κ α) (key : κ) : MutableDocument α :=
  overlaid ((s.overlays key).map Overlay.mutation) (s.getBaseDocument key (s.overlays key))

/-- `GetDocument`, with the batches to apply. -/
def getDocumentFromBatches (s : LocalStore κ α) (key : κ) (batches : List (MutationBatch κ α)) :
    MutableDocument α :=
  batches.foldl (fun document batch => (batch.applyToLocalView key document (some ∅)).1)
    (s.remoteDocument key)

/-- `GetOverlayedDocuments`: the document as it is shown, and the fields it changes. -/
def getOverlayedDocument (s : LocalStore κ α) (key : κ) : MutableDocument α × Option FieldMask :=
  match s.overlays key with
  | some overlay =>
    ((overlay.mutation.applyToLocalView (s.remoteDocument key) none 0).1, overlay.mutation.fieldMask)
  | none => (s.remoteDocument key, some ∅)

/-- `RemoteDocumentCache::GetDocumentsMatchingQuery`, of one document: one with an overlay need not
match. -/
def remoteDocumentMatchingQuery (s : LocalStore κ α) (query : Query κ α) (key : κ) :
    Option (MutableDocument α) :=
  if query.inCollection key then
    (s.remoteDocumentCache key).filter fun doc =>
      (s.overlays key).isSome || query.matchesDocument key doc
  else none

/-- `GetDocumentsMatchingCollectionQuery`, of one document. -/
def getDocumentsMatchingCollectionQuery (s : LocalStore κ α) (query : Query κ α) (key : κ) :
    Option (MutableDocument α) :=
  let overlay := if query.inCollection key then s.overlays key else none
  let remoteDocument := (s.remoteDocumentMatchingQuery query key).or
    (overlay.map fun _ => invalidDocument)
  (remoteDocument.map fun doc => overlaid (overlay.map Overlay.mutation) doc).filter fun doc =>
    query.matchesDocument key doc

/-! ## Overlays -/

/-- `AllMutationBatchesAffectingDocumentKeys`, of one key. -/
def batchesAffecting (s : LocalStore κ α) (key : κ) : List (MutationBatch κ α) :=
  s.mutationQueue.filter fun batch => key ∈ batch.keys

/-- `RecalculateAndSaveOverlays`: what the queue makes of each document is saved under the last
batch that changes it; where that comes to nothing, nothing is saved. -/
def recalculateAndSaveOverlays (s : LocalStore κ α) (keys : κ → Bool) (docs : κ → MutableDocument α) :
    LocalStore κ α :=
  { s with overlays := fun key =>
      if keys key then
        let batches := s.batchesAffecting key
        let applied := batches.foldl (fun d batch => batch.applyToLocalView key d.1 d.2)
          (docs key, some ∅)
        match batches.getLast? with
        | some batch =>
          match Mutation.calculateOverlayMutation applied.1 applied.2 with
          | some mutation => some ⟨batch.batchId, mutation⟩
          | none => s.overlays key
        | none => s.overlays key
      else s.overlays key }

/-- `RemoveOverlaysForBatchId`. -/
def removeOverlaysForBatchId (batchId : BatchId) (s : LocalStore κ α) : LocalStore κ α :=
  { s with overlays := fun key => (s.overlays key).filter fun o => o.largestBatchId ≠ batchId }

/-! ## The steps -/

/-- A batch joins the queue, and what it makes of the documents as they are shown is saved. -/
def addBatch (batch : MutationBatch κ α) (s : LocalStore κ α) : LocalStore κ α :=
  { s with
    mutationQueue := s.mutationQueue ++ [batch]
    nextBatchId := s.nextBatchId + 1
    overlays := fun key =>
      let overlayed := s.getOverlayedDocument key
      match (batch.applyToLocalDocumentSet key overlayed.1 overlayed.2).2 with
      | some mutation => some ⟨batch.batchId, mutation⟩
      | none => s.overlays key }

/-- `WriteLocally`; a batch is not empty. -/
def writeLocally (localWriteTime : Timestamp) (mutations : List (κ × Mutation α))
    (s : LocalStore κ α) : Option (LocalStore κ α) :=
  if mutations.isEmpty then none else some (s.addBatch ⟨s.nextBatchId, localWriteTime, mutations⟩)

/-- `doc_versions` of a `MutationBatchResult`: the last result for the document. -/
def ackVersion (batch : MutationBatch κ α) (mutationResults : List (MutationResult α)) (key : κ) :
    Option SnapshotVersion :=
  ((batch.mutations.zip mutationResults).filter fun m => m.1.1 = key).getLast?.map fun m =>
    m.2.version

/-- `ApplyBatchResult`, for what the cache holds of a document: nothing new where the watch stream
has brought it further by then. -/
def applyBatchResult (s : LocalStore κ α) (batch : MutationBatch κ α)
    (mutationResults : List (MutationResult α)) (key : κ) : Option (MutableDocument α) :=
  let doc := s.remoteDocument key
  match ackVersion batch mutationResults key with
  | some version =>
    if doc.version < version then
      let doc' := batch.applyToRemoteDocument key doc mutationResults
      if doc'.isValidDocument then some doc' else s.remoteDocumentCache key
    else s.remoteDocumentCache key
  | none => s.remoteDocumentCache key

/-- The batch leaves the queue, with the overlays it wrote last. -/
def removeBatch (batchId : BatchId) (queue : List (MutationBatch κ α))
    (cache : κ → Option (MutableDocument α)) (s : LocalStore κ α) : LocalStore κ α :=
  removeOverlaysForBatchId batchId
    { s with mutationQueue := queue, remoteDocumentCache := cache }

/-- `PopulateDocumentChanges`, of one document: what the cache holds from then on, if anything
changes.  Where access was lost a `NoDocument` without a version is made up. -/
def populateDocumentChange (existingDoc doc : MutableDocument α) :
    Option (Option (MutableDocument α)) :=
  if doc.isNoDocument && doc.version = 0 then some none
  else if !existingDoc.isValidDocument || existingDoc.version < doc.version ||
      doc.version = existingDoc.version && existingDoc.hasPendingWrites then some (some doc)
  else none

/-- The documents of a remote event, as the cache holds them afterwards. -/
def populateDocumentChanges (documentUpdates : List (κ × RemoteDocument α)) (s : LocalStore κ α) :
    LocalStore κ α :=
  { s with remoteDocumentCache := fun key =>
      match documentUpdates.lookup key with
      | some doc =>
        (populateDocumentChange (s.remoteDocument key) doc.toMutableDocument).getD
          (s.remoteDocumentCache key)
      | none => s.remoteDocumentCache key }

/-- Whether `ComputeViews` recalculates the overlay of a document: it changed, in whether it
exists, and has no overlay or a patch. -/
def recalculates (documentUpdates : List (κ × RemoteDocument α)) (s : LocalStore κ α) (key : κ) :
    Bool :=
  match documentUpdates.lookup key with
  | some doc =>
    (populateDocumentChange (s.remoteDocument key) doc.toMutableDocument).isSome &&
      doc.toMutableDocument.isFoundDocument != (s.remoteDocument key).isFoundDocument &&
      (s.overlays key).all fun o => o.mutation.isPatch
  | none => false

/-- The documents of a remote event. -/
def changedDocs (documentUpdates : List (κ × RemoteDocument α)) (s : LocalStore κ α) (key : κ) :
    MutableDocument α :=
  ((documentUpdates.lookup key).map RemoteDocument.toMutableDocument).getD (s.remoteDocument key)

end LocalStore

/-- What reaches the local store: writes of the app, answers to the batch at the front of the
queue, and events of the watch stream. -/
inductive Action (κ : Type v) (α : Type u) where
  | writeMutations (localWriteTime : Timestamp) (writes : List (κ × UserWrite α))
  | acknowledgeBatch (batchId : BatchId) (mutationResults : List (MutationResult α))
  | rejectBatch (batchId : BatchId)
  | applyRemoteEvent (documentUpdates : List (κ × RemoteDocument α))

namespace LocalStore

/-- A step is the state before overlays are recalculated, with the documents that are recalculated
and what they are recalculated from. -/
structure Recalculation (κ : Type v) (α : Type u) where
  store : LocalStore κ α
  keys : κ → Bool
  docs : κ → MutableDocument α

def Recalculation.run (r : Recalculation κ α) : LocalStore κ α :=
  r.store.recalculateAndSaveOverlays r.keys r.docs

/-- `AcknowledgeBatch`, up to the recalculation.  All its documents are recalculated: what
`GetKeysWithTransformResults` compares with 0 is the array size of a field descriptor. -/
def acknowledgeBatch (batchId : BatchId) (mutationResults : List (MutationResult α))
    (s : LocalStore κ α) : Option (Recalculation κ α) :=
  match s.mutationQueue with
  | [] => none
  | batch :: queue =>
    if batch.batchId = batchId ∧ mutationResults.length = batch.mutations.length then
      let store := s.removeBatch batchId queue (s.applyBatchResult batch mutationResults)
      some ⟨store, fun key => key ∈ batch.keys, store.remoteDocument⟩
    else none

/-- `RejectBatch`, up to the recalculation. -/
def rejectBatch (batchId : BatchId) (s : LocalStore κ α) : Option (Recalculation κ α) :=
  match s.mutationQueue with
  | [] => none
  | batch :: queue =>
    if batch.batchId = batchId then
      let store := s.removeBatch batchId queue s.remoteDocumentCache
      some ⟨store, fun key => key ∈ batch.keys, store.remoteDocument⟩
    else none

/-- `ApplyRemoteEvent`, up to the recalculation. -/
def applyRemoteEvent (documentUpdates : List (κ × RemoteDocument α)) (s : LocalStore κ α) :
    Recalculation κ α :=
  ⟨s.populateDocumentChanges documentUpdates, s.recalculates documentUpdates,
    s.changedDocs documentUpdates⟩

/-- The recalculation of a step, if it has one. -/
def recalculation (s : LocalStore κ α) : Action κ α → Option (Recalculation κ α)
  | .writeMutations _ _ => none
  | .acknowledgeBatch batchId mutationResults => s.acknowledgeBatch batchId mutationResults
  | .rejectBatch batchId => s.rejectBatch batchId
  | .applyRemoteEvent documentUpdates => some (s.applyRemoteEvent documentUpdates)

def step (s : LocalStore κ α) : Action κ α → Option (LocalStore κ α)
  | .writeMutations localWriteTime writes =>
    s.writeLocally localWriteTime (writes.map fun w => (w.1, w.2.toMutation))
  | action => (s.recalculation action).map Recalculation.run

end LocalStore

end Firestore
