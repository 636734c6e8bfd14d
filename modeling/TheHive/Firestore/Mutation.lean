import TheHive.Firestore.ObjectValue

/-!
# Documents and mutations of the Firestore client

`MutableDocument`, the three mutations of the vendored client and what they do to the local view of
a document; `CalculateOverlayMutation` sums up mutations in a single one.

* `MutableDocument`, `Precondition`, `Mutation` — the data of one document; its key is left to the
  queue.
* `Mutation.applyToLocalView` — the document and the fields changed so far; `none` for the latter
  when the document was set or deleted whole.
* `Mutation.calculateOverlayMutation` — the one mutation that is kept for a document.
* `applyAllToLocalView` — a queue of mutations, one after the other.
-/

set_option autoImplicit false

namespace Firestore

open FieldTree

universe u

variable {α : Type u}

inductive DocumentType where
  | invalid
  | foundDocument
  | noDocument
  | unknownDocument
  deriving DecidableEq

inductive DocumentState where
  | hasLocalMutations
  | hasCommittedMutations
  | synced
  deriving DecidableEq

/-- `SnapshotVersion`, with `SnapshotVersion::None()` as 0. -/
abbrev SnapshotVersion := Nat

/-- `Timestamp`, of a local write. -/
abbrev Timestamp := Nat

/-- `MutableDocument`, without its key. -/
structure MutableDocument (α : Type u) where
  documentType : DocumentType
  version : SnapshotVersion
  data : ObjectValue α
  documentState : DocumentState

namespace MutableDocument

def invalidDocument : MutableDocument α := ⟨.invalid, 0, .empty, .synced⟩

def convertToFoundDocument (version : SnapshotVersion) (value : ObjectValue α)
    (_ : MutableDocument α) : MutableDocument α := ⟨.foundDocument, version, value, .synced⟩

def convertToNoDocument (version : SnapshotVersion) (_ : MutableDocument α) : MutableDocument α :=
  ⟨.noDocument, version, .empty, .synced⟩

def convertToUnknownDocument (version : SnapshotVersion) (_ : MutableDocument α) :
    MutableDocument α := ⟨.unknownDocument, version, .empty, .hasCommittedMutations⟩

def setHasCommittedMutations (doc : MutableDocument α) : MutableDocument α :=
  { doc with documentState := .hasCommittedMutations }

def setHasLocalMutations (doc : MutableDocument α) : MutableDocument α :=
  { doc with documentState := .hasLocalMutations, version := 0 }

def hasLocalMutations (doc : MutableDocument α) : Bool := doc.documentState = .hasLocalMutations

def hasCommittedMutations (doc : MutableDocument α) : Bool :=
  doc.documentState = .hasCommittedMutations

def hasPendingWrites (doc : MutableDocument α) : Bool :=
  doc.hasLocalMutations || doc.hasCommittedMutations

def isValidDocument (doc : MutableDocument α) : Bool := doc.documentType ≠ .invalid

def isFoundDocument (doc : MutableDocument α) : Bool := doc.documentType = .foundDocument

def isNoDocument (doc : MutableDocument α) : Bool := doc.documentType = .noDocument

end MutableDocument

open MutableDocument

inductive Precondition where
  | none
  | exists (b : Bool)
  | updateTime (version : SnapshotVersion)

def Precondition.isValidFor (doc : MutableDocument α) : Precondition → Bool
  | .updateTime version => doc.isFoundDocument && doc.version = version
  | .exists b => b = doc.isFoundDocument
  | .none => true

/-- `FieldMask`; it is walked in ascending order. -/
abbrev FieldMask := Finset (Path String)

/-- `TransformOperation`: from the previous value, and the time of the write or the server's
result. -/
structure TransformOperation (α : Type u) where
  applyToLocalView : Option (FieldValue α) → Timestamp → FieldValue α
  applyToRemoteDocument : Option (FieldValue α) → FieldValue α → FieldValue α

structure FieldTransform (α : Type u) where
  path : Path String
  transformation : TransformOperation α

inductive Mutation (α : Type u) where
  | set (value : ObjectValue α) (precondition : Precondition) (fieldTransforms : List (FieldTransform α))
  | patch (value : ObjectValue α) (mask : FieldMask) (precondition : Precondition)
      (fieldTransforms : List (FieldTransform α))
  | delete (precondition : Precondition)

namespace Mutation

def precondition : Mutation α → Precondition
  | set _ precondition _ | patch _ _ precondition _ | delete precondition => precondition

def fieldTransforms : Mutation α → List (FieldTransform α)
  | set _ _ fieldTransforms | patch _ _ _ fieldTransforms => fieldTransforms
  | delete _ => []

/-- `field_mask()`; only a patch has one. -/
def fieldMask : Mutation α → Option FieldMask
  | patch _ mask _ _ => some mask
  | _ => none

def isPatch : Mutation α → Bool
  | patch .. => true
  | _ => false

end Mutation

/-- `LocalTransformResults`. -/
def localTransformResults (fieldTransforms : List (FieldTransform α)) (previousData : ObjectValue α)
    (localWriteTime : Timestamp) : TransformMap α :=
  assignAll (fieldTransforms.map fun t =>
    (t.path, some (t.transformation.applyToLocalView (previousData.get t.path.segments) localWriteTime)))

/-- `ServerTransformResults`. -/
def serverTransformResults (fieldTransforms : List (FieldTransform α)) (previousData : ObjectValue α)
    (results : List (FieldValue α)) : TransformMap α :=
  assignAll ((fieldTransforms.zip results).map fun t =>
    (t.1.path, some (t.1.transformation.applyToRemoteDocument (previousData.get t.1.path.segments) t.2)))

/-- `MutationResult`: the version of the commit, and what the transforms came to. -/
structure MutationResult (α : Type u) where
  version : SnapshotVersion
  transformResults : List (FieldValue α)

/-- `GetPatch`. -/
def getPatch (value : ObjectValue α) (mask : FieldMask) : TransformMap α :=
  mask.sort.map fun path => (path, value.get path.segments)

namespace Mutation

/-- `ApplyToLocalView`. -/
def applyToLocalView (doc : MutableDocument α) (previousMask : Option FieldMask)
    (localWriteTime : Timestamp) : Mutation α → MutableDocument α × Option FieldMask
  | set value precondition fieldTransforms =>
    if precondition.isValidFor doc then
      let transformResults := localTransformResults fieldTransforms doc.data localWriteTime
      ((doc.convertToFoundDocument doc.version (value.setAll transformResults)).setHasLocalMutations,
        none)
    else (doc, previousMask)
  | patch value mask precondition fieldTransforms =>
    if precondition.isValidFor doc then
      let transformResults := localTransformResults fieldTransforms doc.data localWriteTime
      let data := (doc.data.setAll (getPatch value mask)).setAll transformResults
      ((doc.convertToFoundDocument doc.version data).setHasLocalMutations,
        previousMask.map fun previous =>
          previous ∪ mask ∪ (fieldTransforms.map FieldTransform.path).toFinset)
    else (doc, previousMask)
  | delete precondition =>
    if precondition.isValidFor doc then ((doc.convertToNoDocument 0).setHasLocalMutations, none)
    else (doc, previousMask)

/-- `ApplyToRemoteDocument`: the server has accepted the mutation. -/
def applyToRemoteDocument (doc : MutableDocument α) (mutationResult : MutationResult α) :
    Mutation α → MutableDocument α
  | set value _ fieldTransforms =>
    let transformResults :=
      serverTransformResults fieldTransforms doc.data mutationResult.transformResults
    (doc.convertToFoundDocument mutationResult.version (value.setAll transformResults)).setHasCommittedMutations
  | patch value mask precondition fieldTransforms =>
    if precondition.isValidFor doc then
      let transformResults :=
        serverTransformResults fieldTransforms doc.data mutationResult.transformResults
      let data := (doc.data.setAll (getPatch value mask)).setAll transformResults
      (doc.convertToFoundDocument mutationResult.version data).setHasCommittedMutations
    else doc.convertToUnknownDocument mutationResult.version
  | delete _ => (doc.convertToNoDocument mutationResult.version).setHasCommittedMutations

/-- One turn of the loop of `CalculateOverlayMutation`: where a nested field is missing its parent
is taken. -/
def overlayStep (docValue : ObjectValue α) (s : ObjectValue α × FieldMask) (path : Path String) :
    ObjectValue α × FieldMask :=
  if path ∈ s.2 then s
  else
    let path := if (docValue.get path.segments).isNone then path.up.getD path else path
    match docValue.get path.segments with
    | some value => (s.1.set path value, insert path s.2)
    | none => (s.1.delete path, insert path s.2)

/-- `CalculateOverlayMutation`. -/
def calculateOverlayMutation (doc : MutableDocument α) (mask : Option FieldMask) :
    Option (Mutation α) :=
  if !doc.hasLocalMutations then none
  else match mask with
    | none =>
      if doc.isNoDocument then some (delete .none) else some (set doc.data .none [])
    | some mask =>
      let s := mask.sort.foldl (overlayStep doc.data) (.empty, ∅)
      some (patch s.1 s.2 .none [])

end Mutation

/-- The mutations of a queue, each with the time of its write. -/
abbrev MutationQueue (α : Type u) := List (Mutation α × Timestamp)

/-- One mutation after the other. -/
def applyAllToLocalView (queue : MutationQueue α) (doc : MutableDocument α)
    (mask : Option FieldMask) : MutableDocument α × Option FieldMask :=
  queue.foldl (fun s m => m.1.applyToLocalView s.1 s.2 m.2) (doc, mask)

theorem applyAllToLocalView_append (queue queue' : MutationQueue α) (doc : MutableDocument α)
    (mask : Option FieldMask) :
    applyAllToLocalView (queue ++ queue') doc mask =
      applyAllToLocalView queue' (applyAllToLocalView queue doc mask).1
        (applyAllToLocalView queue doc mask).2 := List.foldl_append

theorem applyAllToLocalView_concat (queue : MutationQueue α) (m : Mutation α × Timestamp)
    (doc : MutableDocument α) (mask : Option FieldMask) :
    applyAllToLocalView (queue ++ [m]) doc mask =
      m.1.applyToLocalView (applyAllToLocalView queue doc mask).1
        (applyAllToLocalView queue doc mask).2 m.2 := applyAllToLocalView_append queue [m] doc mask

/-- What an overlay makes of a document, at any time and for any mask. -/
def overlaid (overlay : Option (Mutation α)) (doc : MutableDocument α) : MutableDocument α :=
  match overlay with
  | none => doc
  | some mutation => (mutation.applyToLocalView doc (some ∅) 0).1

end Firestore
