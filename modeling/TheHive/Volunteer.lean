import TheHive.Schema

/-!
# The Volunteer page and its tiles

Model of `volunteer_page.dart` and `volunteer_event_tile.dart`.

* `VolunteerPage.saveEventToFirestore`, `VolunteerPage.deleteTask`, `VolunteerPage.tile` — the
  writes of the page and the tile its list builds from one document of a snapshot;
  `saveEventToFirestore_cases` and `deleteTask_cases` say what an accepted name writes.
* `VolunteerEventTile.addEventToMyCalendar`, `decrementNumberOfPeople`, `onTap` — the two
  writes a tap issues.  They are not awaited and each swallows its own error; an exception
  thrown before a write is issued stops the handler there.
* `onTap_eq`, `mem_onTap` — the writes of a tap on a listed event.
-/

set_option autoImplicit false

namespace TheHive

open DocStore

/-- The values saved for a volunteer event. -/
structure VolunteerEvent where
  eventName : String
  eventDes : String
  eventDate : Timestamp
  startTime : String
  endTime : String
  numberOfPeople : Int
  eventLocation : String

/-- The document written for a volunteer event, in `volunteer` and in `myVolunteerEvents`. -/
def VolunteerEvent.doc (e : VolunteerEvent) : Doc :=
  Doc.ofList
    [(.eventName, .str e.eventName), (.eventDes, .str e.eventDes),
     (.eventDate, .timestamp e.eventDate), (.startTime, .str e.startTime),
     (.endTime, .str e.endTime), (.numberOfPeople, .int e.numberOfPeople),
     (.eventLocation, .str e.eventLocation)]

/-- The event with another count. -/
def VolunteerEvent.withCount (e : VolunteerEvent) (k : Int) : VolunteerEvent :=
  { e with numberOfPeople := k }

theorem VolunteerEvent.doc_overwrite (e : VolunteerEvent) (j k : Int) :
    (e.withCount j).doc.overwrite (Doc.ofList [(.numberOfPeople, .int k)]) =
      (e.withCount k).doc := by
  funext f
  cases f <;> rfl

/-- A tile of the Volunteer page, with the user it captured when it was constructed. -/
structure VolunteerEventTile where
  eventName : String
  eventDes : String
  eventDate : String
  startTime : String
  endTime : String
  numberOfPeople : Int
  eventLocation : String
  currentUser : Option User

namespace VolunteerPage

def saveEventToFirestore (e : VolunteerEvent) : Option Write := do
  let eventCollection ← doc ["volunteer"] e.eventName
  return .set eventCollection e.doc

def deleteTask (eventName : String) : Option Write := do
  let event ← doc ["volunteer"] eventName
  return .delete event

/-- The `itemBuilder` of the list: the tile of one document. -/
def tile (intl : Intl) (currentUser : Option User) (event : Doc) : Option VolunteerEventTile := do
  return {
    eventName := ← event.str .eventName
    eventDes := ← event.str .eventDes
    eventDate := intl.format .ddMMyyyy (← event.timestamp .eventDate)
    startTime := ← event.str .startTime
    endTime := ← event.str .endTime
    numberOfPeople := ← event.int .numberOfPeople
    eventLocation := ← event.str .eventLocation
    currentUser }

theorem saveEventToFirestore_cases {e : VolunteerEvent} {w : Write}
    (hw : saveEventToFirestore e = some w) :
    ∃ p, doc ["volunteer"] e.eventName = some p ∧ w = .set p e.doc := by
  obtain ⟨p, hp, hw⟩ := Option.bind_eq_some_iff.1 hw
  cases hw
  exact ⟨p, hp, rfl⟩

theorem deleteTask_cases {eventName : String} {w : Write} (hw : deleteTask eventName = some w) :
    ∃ p, doc ["volunteer"] eventName = some p ∧ w = .delete p := by
  obtain ⟨p, hp, hw⟩ := Option.bind_eq_some_iff.1 hw
  cases hw
  exact ⟨p, hp, rfl⟩

end VolunteerPage

namespace VolunteerEventTile

/-- `currentUser!` throws when the tile captured no user. -/
def addEventToMyCalendar (t : VolunteerEventTile) (e : VolunteerEvent) : Option Write := do
  let currentUser ← t.currentUser
  let user ← doc ["Users"] currentUser.email
  let eventCollection ← doc (user ++ ["myVolunteerEvents"]) e.eventName
  return .set eventCollection e.doc

/-- The new count is computed from the tile's own copy and written as an absolute value. -/
def decrementNumberOfPeople (t : VolunteerEventTile) : Option Write := do
  if 0 < t.numberOfPeople then
    let event ← doc ["volunteer"] t.eventName
    return .update event (Doc.ofList [(.numberOfPeople, .int (t.numberOfPeople - 1))])
  else
    none

/-- The writes a tap issues, in the order of the calls. -/
def onTap (intl : Intl) (t : VolunteerEventTile) : List Write :=
  match intl.parse .MMddyyyy t.eventDate with
  | none => []
  | some eventDate =>
    match t.addEventToMyCalendar
        ⟨t.eventName, t.eventDes, eventDate, t.startTime, t.endTime, t.numberOfPeople,
          t.eventLocation⟩ with
    | none => []
    | some add => add :: t.decrementNumberOfPeople.toList

end VolunteerEventTile

/-! ## A tap on a listed event -/

/-- Where an event of the Volunteer page is stored. -/
def volunteerPath (event : DocId) : Path := ["volunteer", event.val]

/-- Where a user's entry for it is stored. -/
def entryPath (u : User) (event : DocId) : Path := ["Users", u.email, "myVolunteerEvents", event.val]

theorem entryPath_ne_volunteerPath (u : User) (event event' : DocId) :
    entryPath u event ≠ volunteerPath event' := by
  simp [entryPath, volunteerPath]

/-- The entry a tap copies into `myVolunteerEvents`: the event as the tile shows it, at the date
read back from the tile's text. -/
def entry (e : VolunteerEvent) (eventDate : Timestamp) : VolunteerEvent := { e with eventDate }

variable {intl : Intl} {u : User} {event : DocId} {e : VolunteerEvent}

/-- The tile built from the document of `e`. -/
theorem tile_doc (intl : Intl) (user : Option User) (e : VolunteerEvent) :
    VolunteerPage.tile intl user e.doc =
      some ⟨e.eventName, e.eventDes, intl.format .ddMMyyyy e.eventDate, e.startTime, e.endTime,
        e.numberOfPeople, e.eventLocation, user⟩ := rfl

theorem saveEventToFirestore_eq (he : e.eventName = event.val) :
    VolunteerPage.saveEventToFirestore e = some (.set (volunteerPath event) e.doc) := by
  simp [VolunteerPage.saveEventToFirestore, he, doc_docId ["volunteer"] rfl event, volunteerPath]

/-- The update a tap sends, when it sends one. -/
def countUpdate (event : DocId) (count : Int) : Write :=
  .update (volunteerPath event) (Doc.ofList [(.numberOfPeople, .int (count - 1))])

theorem addEventToMyCalendar_eq {t : VolunteerEventTile} (hu : t.currentUser = some u)
    (he : e.eventName = event.val) :
    t.addEventToMyCalendar e = some (.set (entryPath u event) e.doc) := by
  have hdoc : doc ["Users", u.email, "myVolunteerEvents"] event.val = some (entryPath u event) :=
    doc_docId ["Users", u.email, "myVolunteerEvents"] (by simp) event
  simp [VolunteerEventTile.addEventToMyCalendar, hu, he, hdoc]

theorem decrementNumberOfPeople_eq {t : VolunteerEventTile} (he : t.eventName = event.val) :
    t.decrementNumberOfPeople =
      if 0 < t.numberOfPeople then some (countUpdate event t.numberOfPeople) else none := by
  have hdoc : doc ["volunteer"] event.val = some (volunteerPath event) :=
    doc_docId ["volunteer"] rfl event
  simp [VolunteerEventTile.decrementNumberOfPeople, he, hdoc, countUpdate]

/-- **The writes of a tap** by a signed-in user on a listed event: the entry in any case, the
update of the count only while the displayed count is positive. -/
theorem onTap_eq {t : VolunteerEventTile} {date : Timestamp}
    (ht : VolunteerPage.tile intl (some u) e.doc = some t) (he : e.eventName = event.val)
    (hdate : intl.parse .MMddyyyy (intl.format .ddMMyyyy e.eventDate) = some date) :
    t.onTap intl = .set (entryPath u event) (entry e date).doc ::
      if 0 < e.numberOfPeople then [countUpdate event e.numberOfPeople] else [] := by
  rw [tile_doc, Option.some.injEq] at ht
  have hadd : t.addEventToMyCalendar (entry e date) = some (.set (entryPath u event) (entry e date).doc) :=
    addEventToMyCalendar_eq (by rw [← ht]) he
  have hdec : t.decrementNumberOfPeople =
      if 0 < t.numberOfPeople then some (countUpdate event t.numberOfPeople) else none :=
    decrementNumberOfPeople_eq (by rw [← ht, he])
  subst ht
  simp only [entry] at hadd
  simp only [VolunteerEventTile.onTap, hdate, hadd, hdec]
  split <;> rfl

/-- **The writes of a tap**, whatever the user and the formats of the device. -/
theorem mem_onTap {user : Option User} {t : VolunteerEventTile} {w : Write}
    (ht : VolunteerPage.tile intl user e.doc = some t) (he : e.eventName = event.val)
    (hw : w ∈ t.onTap intl) :
    (∃ u date, w = .set (entryPath u event) (entry e date).doc) ∨
      0 < e.numberOfPeople ∧ w = countUpdate event e.numberOfPeople := by
  cases hparse : intl.parse .MMddyyyy (intl.format .ddMMyyyy e.eventDate) with
  | none =>
    cases ht
    simp [VolunteerEventTile.onTap, hparse] at hw
  | some date =>
    cases user with
    | none =>
      cases ht
      simp [VolunteerEventTile.onTap, hparse, VolunteerEventTile.addEventToMyCalendar] at hw
    | some u =>
      rw [onTap_eq ht he hparse, List.mem_cons] at hw
      rcases hw with rfl | hw
      · exact .inl ⟨u, date, rfl⟩
      · split at hw
        · exact .inr ⟨‹_›, List.mem_singleton.1 hw⟩
        · cases hw

/-! ## Sample data -/

def foodDriveId : DocId := ⟨"Food Drive", by decide⟩

/-- An event on 3 March 2025 with two seats. -/
def foodDrive : VolunteerEvent :=
  ⟨foodDriveId.val, "Sort donations", 1740960000000000, "9:00 AM", "11:00 AM", 2, "Gym"⟩

/-- A device that shows that date. -/
def marchThird : Intl := Intl.only "03/03/2025" foodDrive.eventDate

end TheHive
