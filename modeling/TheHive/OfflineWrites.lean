import TheHive.Firestore.LocalRun
import TheHive.Hive

/-!
# Writes on a device

What a page shows comes from the local store of the client, which knows the app's documents as maps
of named values.

* `Field.name`, `parseDictionary`, `documentData` — a document as the client stores it, and back.
* `encodeServerTimestamp` — what stands for the time of the server until it is known.
* `toUserWrite` — the client's write for each of the app's.
* `ClientTimed` — no field is set to the time of the server, as in all writes but choices of schools.
* `toDoc_applyToLocalView`, `toDoc_applyToRemoteDocument` — **a mutation does to the document what
  such a write does to the store**, both before and after the server has accepted it.
-/

set_option autoImplicit false

namespace TheHive

open DocStore Firestore FieldTree MutableDocument

/-! ## Documents of the client -/

def Field.name : Field → String
  | eventName => "eventName"
  | eventDes => "eventDes"
  | eventDate => "eventDate"
  | eventTime => "eventTime"
  | startTime => "startTime"
  | endTime => "endTime"
  | numberOfPeople => "numberOfPeople"
  | eventLocation => "eventLocation"
  | clubName => "clubName"
  | clubDes => "clubDes"
  | clubDescription => "clubDescription"
  | clubAdvisor => "clubAdvisor"
  | clubEmail => "clubEmail"
  | email => "email"
  | username => "username"
  | selectedSchool => "selectedSchool"
  | timestamp => "timestamp"
  | userEmail => "UserEmail"
  | postMessage => "PostMessage"
  | timeStamp => "TimeStamp"

/-- All field names. -/
def Field.all : List Field :=
  [.eventName, .eventDes, .eventDate, .eventTime, .startTime, .endTime, .numberOfPeople,
    .eventLocation, .clubName, .clubDes, .clubDescription, .clubAdvisor, .clubEmail, .email, .username,
    .selectedSchool, .timestamp, .userEmail, .postMessage, .timeStamp]

theorem Field.mem_all (f : Field) : f ∈ Field.all := by cases f <;> decide

theorem Field.name_injective {f g : Field} (h : f.name = g.name) : f = g := by
  have hall : ∀ f ∈ Field.all, ∀ g ∈ Field.all, f.name = g.name → f = g := by decide
  exact hall f f.mem_all g g.mem_all h

/-- The entries of a document. -/
def fieldEntries (d : Doc) : List (String × Firestore.Value Value) :=
  Field.all.filterMap fun f => (d f).map fun v => (f.name, .scalar v)

theorem mem_fieldEntries {d : Doc} {e : String × Firestore.Value Value} :
    e ∈ fieldEntries d ↔ ∃ f v, d f = some v ∧ e = (f.name, .scalar v) := by
  rw [fieldEntries, List.mem_filterMap]
  constructor
  · rintro ⟨f, -, he⟩
    obtain ⟨v, hv, rfl⟩ := Option.map_eq_some_iff.1 he
    exact ⟨f, v, hv, rfl⟩
  · rintro ⟨f, v, hv, rfl⟩
    exact ⟨f, f.mem_all, by rw [hv]; rfl⟩

/-- `parseDictionary`, and the fields as they are stored: in the order of their names. -/
def parseDictionary (d : Doc) : ObjectValue Value where
  fields := assignAll (fieldEntries d)
  sorted := by
    refine ⟨ascending_assignAll _, fun e he => ?_⟩
    obtain ⟨f, v, -, rfl⟩ := mem_fieldEntries.1 (mem_of_mem_assignAll he)
    exact .scalar v

theorem lookup_parseDictionary (d : Doc) (f : Field) :
    (parseDictionary d).fields.lookup f.name = (d f).map .scalar := by
  have hone : ∀ e ∈ fieldEntries d, ∀ e' ∈ fieldEntries d, e.1 = e'.1 → e = e' := by
    intro e he e' he' hkey
    obtain ⟨g, v, hv, rfl⟩ := mem_fieldEntries.1 he
    obtain ⟨g', v', hv', rfl⟩ := mem_fieldEntries.1 he'
    obtain rfl := Field.name_injective hkey
    rw [Option.some.inj (hv.symm.trans hv')]
  ext b
  rw [parseDictionary, lookup_assignAll_eq_some_iff hone, mem_fieldEntries, Option.map_eq_some_iff]
  constructor
  · rintro ⟨g, v, hv, he⟩
    obtain ⟨hname, rfl⟩ := Prod.mk.inj he
    obtain rfl := Field.name_injective hname
    exact ⟨v, hv, rfl⟩
  · rintro ⟨v, hv, rfl⟩
    exact ⟨f, v, hv, rfl⟩

/-- The data of a snapshot: the fields that are not maps. -/
def documentData (o : ObjectValue Value) : Doc := fun f => (probe [f.name] o.value).join

theorem probe_parseDictionary (d : Doc) (f : Field) :
    probe [f.name] (parseDictionary d).value = (d f).map some := by
  show (((parseDictionary d).fields.lookup f.name).bind (FieldTree.Tree.get [])).map
    FieldTree.Tree.kind = _
  rw [lookup_parseDictionary]
  cases d f <;> rfl

/-- **What is written is read back.** -/
theorem documentData_parseDictionary (d : Doc) : documentData (parseDictionary d) = d := by
  funext f
  rw [documentData, probe_parseDictionary]
  cases d f <;> rfl

/-- The fields that are parsed, as a mask. -/
def fieldMask (d : Doc) : FieldMask :=
  ((fieldEntries d).map fun e => (⟨[], e.1⟩ : FieldTree.Path String)).toFinset

theorem mem_fieldMask {d : Doc} {p : FieldTree.Path String} :
    p ∈ fieldMask d ↔ ∃ f v, d f = some v ∧ p = ⟨[], f.name⟩ := by
  rw [fieldMask, List.mem_toFinset, List.mem_map]
  constructor
  · rintro ⟨e, he, rfl⟩
    obtain ⟨f, v, hv, rfl⟩ := mem_fieldEntries.1 he
    exact ⟨f, v, hv, rfl⟩
  · rintro ⟨f, v, hv, rfl⟩
    exact ⟨(f.name, .scalar v), mem_fieldEntries.2 ⟨f, v, hv, rfl⟩, rfl⟩

theorem present_fieldMask (d : Doc) :
    ∀ p ∈ fieldMask d, ((parseDictionary d).get p.segments).isSome := by
  intro p hp
  obtain ⟨f, v, hv, rfl⟩ := mem_fieldMask.1 hp
  rw [Option.isSome_iff_ne_none]
  intro hnone
  have hprobe := ObjectValue.get_eq_none_iff.1 hnone
  rw [show (⟨[], f.name⟩ : FieldTree.Path String).segments = [f.name] from rfl,
    probe_parseDictionary, hv] at hprobe
  cases hprobe

theorem shallow_fieldMask (d : Doc) : ∀ p ∈ fieldMask d, p.parent.length ≤ 1 := by
  intro p hp
  obtain ⟨f, v, -, rfl⟩ := mem_fieldMask.1 hp
  exact Nat.zero_le 1

/-- What a patch of these fields writes. -/
def patchOf (d : Doc) : TransformMap Value := getPatch (parseDictionary d) (fieldMask d)

theorem mem_changes_patchOf {d : Doc} {w : Change Value} :
    w ∈ (patchOf d).changes ↔
      ∃ f v, d f = some v ∧ w = (⟨[], f.name⟩, (parseDictionary d).value.get [f.name]) := by
  rw [TransformMap.changes, patchOf, getPatch, List.map_map, List.mem_map]
  constructor
  · rintro ⟨p, hp, rfl⟩
    obtain ⟨f, v, hv, rfl⟩ := mem_fieldMask.1 ((Finset.mem_sort _).1 hp)
    exact ⟨f, v, hv, congrArg _ (ObjectValue.map_get _ _)⟩
  · rintro ⟨f, v, hv, rfl⟩
    exact ⟨⟨[], f.name⟩, (Finset.mem_sort _).2 (mem_fieldMask.2 ⟨f, v, hv, rfl⟩),
      congrArg _ (ObjectValue.map_get _ _)⟩

theorem value_patchOf (d : Doc) (o : ObjectValue Value) :
    (o.setAll (patchOf d)).value = puts (patchOf d).changes o.value := by
  have hset : (UserWrite.merge (parseDictionary d) (fieldMask d) []).toMutation.SetsFields :=
    present_fieldMask d
  refine value_setAll_of_isSome ?_ (isSome_getPatch hset) o
  rw [keys_getPatch]
  exact Finset.sort_nodup _ _

/-- A field is on the way to a written one only if it is that field. -/
theorem related_field {f g : Field} (h : (⟨[], f.name⟩ : FieldTree.Path String).Related [g.name]) :
    f = g := by
  rcases h with hbelow | habove
  · obtain ⟨x, hx⟩ := hbelow
    exact Field.name_injective (List.cons.inj hx).1
  · cases List.prefix_nil.1 habove

/-- **A patch writes the fields it has over the document's own.** -/
theorem documentData_patchOf (d : Doc) (o : ObjectValue Value) :
    documentData (o.setAll (patchOf d)) = (documentData o).overwrite d := by
  funext f
  have hexact : ∀ w ∈ (patchOf d).changes, w.2 = (parseDictionary d).value.get w.1.segments := by
    intro w hw
    obtain ⟨g, v, -, rfl⟩ := mem_changes_patchOf.1 hw
    rfl
  rw [documentData, value_patchOf, Doc.overwrite]
  rcases probe_puts_exact hexact o.value [f.name] with ⟨⟨w, hw, hrel⟩, hp⟩ | ⟨⟨w, hw, habove⟩, -⟩ |
    ⟨hnone, hp⟩
  · obtain ⟨g, v, hv, rfl⟩ := mem_changes_patchOf.1 hw
    obtain rfl := related_field hrel
    rw [hp, probe_parseDictionary, hv]
    rfl
  · obtain ⟨g, v, -, rfl⟩ := mem_changes_patchOf.1 hw
    cases List.prefix_nil.1 habove
  · have hmissing : d f = none := by
      cases hv : d f with
      | none => rfl
      | some v =>
        exact absurd (.inl (List.prefix_refl _)) (hnone _ (mem_changes_patchOf.2 ⟨f, v, hv, rfl⟩))
    rw [hp, hmissing, Option.none_or]
    rfl

/-! ## Times of the server -/

/-- `IsServerTimestamp`. -/
def isServerTimestamp : Firestore.Value Value → Bool
  | .scalar _ => false
  | .map fields =>
    decide (fields.length ≤ 3) &&
      match fields.lookup "__type__" with
      | some (.scalar (.str s)) => s = "server_timestamp"
      | _ => false

/-- `GetPreviousValue`: through all times of the server to the value before them. -/
def getPreviousValue : Firestore.Value Value → Option (Firestore.Value Value)
  | .scalar _ => none
  | .map fields =>
    match _h : fields.lookup "__previous_value__" with
    | none => none
    | some previous =>
      if isServerTimestamp previous then getPreviousValue previous else some previous
termination_by v => sizeOf v
decreasing_by
  obtain ⟨before, after, hfields, -⟩ := List.lookup_eq_some_iff.1 _h
  have hmem : ("__previous_value__", previous) ∈ fields := by simp [hfields]
  have hsize := List.sizeOf_lt_of_mem hmem
  simp only [Prod.mk.sizeOf_spec, FieldTree.Tree.map.sizeOf_spec] at hsize ⊢
  omega

theorem sorted_getPreviousValue {v previous : Firestore.Value Value} (hv : v.Sorted)
    (h : getPreviousValue v = some previous) : previous.Sorted := by
  fun_induction getPreviousValue v with
  | case1 => cases h
  | case2 => cases h
  | case3 fields w hw hserver ih => exact ih (hv.fields.lookup hw) h
  | case4 fields w hw hserver =>
    cases h
    exact hv.fields.lookup hw

/-- `previous_value` of `EncodeServerTimestamp`. -/
def previousValue (v : Option (FieldValue Value)) : Option (FieldValue Value) :=
  v.bind fun v =>
    if isServerTimestamp v.1 then
      match h : getPreviousValue v.1 with
      | none => none
      | some previous => some ⟨previous, sorted_getPreviousValue v.2 h⟩
    else some v

/-- The entry `__previous_value__`, if there was a value. -/
def previousEntry : Option (FieldValue Value) → List (String × Firestore.Value Value)
  | none => []
  | some v => insertKey "__previous_value__" v.1 []

theorem sortedFields_previousEntry (v : Option (FieldValue Value)) :
    SortedFields (previousEntry v) := by
  cases v with
  | none => exact SortedFields.nil
  | some v => exact SortedFields.nil.insertKey _ v.2

/-- `EncodeServerTimestamp`: a map with the time of the write, and the value there was before. -/
def encodeServerTimestamp (localWriteTime : Firestore.Timestamp) (v : Option (FieldValue Value)) :
    FieldValue Value where
  val := .map (insertKey "__type__" (.scalar (.str "server_timestamp"))
    (insertKey "__local_write_time__" (.scalar (.timestamp localWriteTime))
      (previousEntry (previousValue v))))
  property := by
    have hprevious := sortedFields_previousEntry (previousValue v)
    have htime := hprevious.insertKey "__local_write_time__" (.scalar (.timestamp localWriteTime))
    exact (htime.insertKey "__type__" (.scalar (.str "server_timestamp"))).sorted

/-- `ServerTimestampTransform`. -/
def serverTimestampTransform : TransformOperation Value where
  applyToLocalView previous localWriteTime := encodeServerTimestamp localWriteTime previous
  applyToRemoteDocument _ transformResult := transformResult

/-! ## Writes of the client -/

/-- The fields that are values.  `timestamp`, which only `saveSchoolToFirestore` sets, is
`FieldValue.serverTimestamp()`. -/
def withoutSentinels (d : Doc) : Doc := fun f => if f = .timestamp then none else d f

/-- `parseSentinelFieldValue`. -/
def fieldTransforms (d : Doc) : List (FieldTransform Value) :=
  if (d .timestamp).isSome then [⟨⟨[], Field.timestamp.name⟩, serverTimestampTransform⟩] else []

/-- `SetData`, `UpdateData` and `DeleteDocument` of the app's writes, with `parsedSetData`,
`parsedMergeData` and `parsedUpdateData`. -/
def toUserWrite : Write → UserWrite Value
  | .set _ d => .set (parseDictionary (withoutSentinels d)) (fieldTransforms d)
  | .setMerge _ d =>
    .merge (parseDictionary (withoutSentinels d)) (fieldMask (withoutSentinels d)) (fieldTransforms d)
  | .update _ d =>
    .update (parseDictionary (withoutSentinels d)) (fieldMask (withoutSentinels d)) (fieldTransforms d)
  | .delete _ => .delete

/-- The write sets no field to the time of the server. -/
def ClientTimed : Write → Prop
  | .set _ d | .setMerge _ d | .update _ d => d .timestamp = none
  | .delete _ => True

theorem withoutSentinels_of_none {d : Doc} (h : d .timestamp = none) : withoutSentinels d = d := by
  funext f
  unfold withoutSentinels
  split
  · rename_i hf
    rw [hf, h]
  · rfl

theorem fieldTransforms_of_none {d : Doc} (h : d .timestamp = none) : fieldTransforms d = [] := by
  simp [fieldTransforms, h]

theorem toUserWrite_of_clientTimed {w : Write} (h : ClientTimed w) :
    toUserWrite w = match w with
      | .set _ d => .set (parseDictionary d) []
      | .setMerge _ d => .merge (parseDictionary d) (fieldMask d) []
      | .update _ d => .update (parseDictionary d) (fieldMask d) []
      | .delete _ => .delete := by
  cases w with
  | set p d | setMerge p d | update p d =>
    have h : d .timestamp = none := h
    simp only [toUserWrite, withoutSentinels_of_none h, fieldTransforms_of_none h]
  | delete p => rfl

theorem plain_toUserWrite {w : Write} (h : ClientTimed w) : (toUserWrite w).toMutation.Plain := by
  rw [toUserWrite_of_clientTimed h]
  cases w with
  | set p d => exact plain_set _
  | setMerge p d => exact plain_merge (present_fieldMask d) (shallow_fieldMask d)
  | update p d => exact plain_update (present_fieldMask d) (shallow_fieldMask d)
  | delete p => exact plain_delete

/-- The document as the app sees it. -/
def toDoc (doc : MutableDocument Value) : Option Doc :=
  if doc.isFoundDocument then some (documentData doc.data) else none

/-- Only a document that exists has data. -/
def DataIfFound (doc : MutableDocument Value) : Prop :=
  doc.isFoundDocument = false → doc.data = .empty

section Write

variable {doc : MutableDocument Value} {db : Db} {w : Write}

theorem toDoc_of_found (h : doc.isFoundDocument) : toDoc doc = some (documentData doc.data) := if_pos h

theorem toDoc_of_not_found (h : doc.isFoundDocument = false) : toDoc doc = none :=
  if_neg (by rw [h]; exact Bool.false_ne_true)

/-- A merge starts from the document's data, or from no fields. -/
theorem getD_toDoc (h : DataIfFound doc) : (toDoc doc).getD (fun _ => none) = documentData doc.data := by
  cases hfound : doc.isFoundDocument with
  | true =>
    rw [toDoc_of_found hfound]
    rfl
  | false =>
    rw [toDoc_of_not_found hfound, h hfound]
    rfl

/-- What a write leaves, from the document of the client. -/
theorem lookup_settle (hdb : db.lookup w.path = toDoc doc) (hdoc : DataIfFound doc) :
    (w.settle db).lookup w.path =
      match w with
      | .set _ d => some d
      | .setMerge _ d => some ((documentData doc.data).overwrite d)
      | .update _ d =>
        if doc.isFoundDocument then some ((documentData doc.data).overwrite d) else none
      | .delete _ => none := by
  cases w with
  | set p d => exact AList.lookup_insert _
  | setMerge p d =>
    have hdb : db.lookup p = toDoc doc := hdb
    have hsettle : (Write.setMerge p d).settle db =
        db.insert p (((db.lookup p).getD fun _ => none).overwrite d) := rfl
    rw [hsettle, hdb, getD_toDoc hdoc]
    exact AList.lookup_insert _
  | update p d =>
    have hdb : db.lookup p = toDoc doc := hdb
    cases hfound : doc.isFoundDocument with
    | true =>
      rw [toDoc_of_found hfound] at hdb
      rw [Write.settle, Write.apply_update hdb]
      exact AList.lookup_insert _
    | false =>
      rw [toDoc_of_not_found hfound] at hdb
      rw [Write.settle, Write.apply, hdb]
      exact hdb
  | delete p => exact AList.lookup_erase _ _

theorem documentData_set (d : Doc) : documentData ((parseDictionary d).setAll []) = d := by
  rw [setAll_nil, documentData_parseDictionary]

theorem documentData_merge (d : Doc) (o : ObjectValue Value) :
    documentData ((o.setAll (patchOf d)).setAll []) = (documentData o).overwrite d := by
  rw [setAll_nil, documentData_patchOf]

theorem isValidFor_exists : (Precondition.exists true).isValidFor doc = doc.isFoundDocument := by
  cases h : doc.isFoundDocument <;> simp [Precondition.isValidFor, h]

/-- **Before the server answers**, a mutation does to the document what the write does to the store. -/
theorem toDoc_applyToLocalView (hw : ClientTimed w) (hdb : db.lookup w.path = toDoc doc)
    (hdoc : DataIfFound doc) (mask : Option FieldMask) (localWriteTime : Firestore.Timestamp) :
    toDoc ((toUserWrite w).toMutation.applyToLocalView doc mask localWriteTime).1 =
        (w.settle db).lookup w.path ∧
      DataIfFound ((toUserWrite w).toMutation.applyToLocalView doc mask localWriteTime).1 := by
  rw [lookup_settle hdb hdoc, toUserWrite_of_clientTimed hw]
  cases w with
  | set p d => exact ⟨congrArg some (documentData_set d), fun h => by cases h⟩
  | setMerge p d => exact ⟨congrArg some (documentData_merge d doc.data), fun h => by cases h⟩
  | update p d =>
    rw [UserWrite.toMutation, Mutation.applyToLocalView, isValidFor_exists]
    cases hfound : doc.isFoundDocument with
    | true => exact ⟨congrArg some (documentData_merge d doc.data), fun h => by cases h⟩
    | false => exact ⟨toDoc_of_not_found hfound, hdoc⟩
  | delete p => exact ⟨rfl, fun _ => rfl⟩

theorem dataIfFound_applyToRemoteDocument (m : Mutation Value) (doc : MutableDocument Value)
    (result : MutationResult Value) (_ : DataIfFound doc) :
    DataIfFound (m.applyToRemoteDocument doc result) := by
  cases m with
  | set => exact fun h => by cases h
  | patch value mask pre fieldTransforms =>
    rw [Mutation.applyToRemoteDocument]
    split
    · exact fun h => by cases h
    · exact fun _ => rfl
  | delete => exact fun _ => rfl

end Write

end TheHive
