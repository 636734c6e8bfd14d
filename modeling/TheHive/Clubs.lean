import TheHive.Schema

/-!
# Clubs, their events, members and posts

Model of the writers of `create_a_club.dart`, `club_calendar_page.dart`, `club_outline.dart`
and `PostStream/firestore.dart`.

* `CreateAClub.submit`, `ClubCalendarPage.saveEventToFirestore` — full writes keyed by a typed
  name; `submit_cases` and `saveEventToFirestore_cases` say where an accepted name is stored.
* `ClubOutline.clubRef`, `joinClub` — the membership of a user.
* `FirestoreDatabase.addPost` — a post under a generated id.
-/

set_option autoImplicit false

namespace TheHive

open DocStore

/-- A tile of `My Clubs` or `All Clubs`; the club is a document of `club`. -/
structure ClubTile where
  clubName : DocId
  clubDescription : String
  clubAdvisor : String
  clubEmail : String
  deriving DecidableEq

/-- A sample club. -/
def chessClub : ClubTile := ⟨⟨"Chess", by decide⟩, "Chess on Fridays", "Ms. King", "king@school.org"⟩

/-- The values saved for an event of a club. -/
structure ClubEvent where
  eventName : String
  eventDate : Timestamp
  startTime : String
  endTime : String
  eventLocation : String

def ClubEvent.doc (e : ClubEvent) : Doc :=
  Doc.ofList
    [(.eventName, .str e.eventName), (.eventDate, .timestamp e.eventDate),
     (.startTime, .str e.startTime), (.endTime, .str e.endTime),
     (.eventLocation, .str e.eventLocation)]

namespace CreateAClub

/-- The document of a new club.  Its e-mail is read from the advisor's text field. -/
def clubDoc (clubName clubDes clubAdvisor : String) : Doc :=
  Doc.ofList
    [(.clubName, .str clubName), (.clubDes, .str clubDes), (.clubAdvisor, .str clubAdvisor),
     (.clubEmail, .str clubAdvisor)]

def submit (clubName clubDes clubAdvisor : String) : Option Write := do
  let collRef ← doc ["club"] clubName
  return .set collRef (clubDoc clubName clubDes clubAdvisor)

theorem submit_cases {clubName clubDes clubAdvisor : String} {w : Write}
    (hw : submit clubName clubDes clubAdvisor = some w) :
    ∃ p, doc ["club"] clubName = some p ∧ w = .set p (clubDoc clubName clubDes clubAdvisor) := by
  obtain ⟨p, hp, hw⟩ := Option.bind_eq_some_iff.1 hw
  cases hw
  exact ⟨p, hp, rfl⟩

end CreateAClub

namespace ClubCalendarPage

def saveEventToFirestore (clubName : DocId) (e : ClubEvent) : Option Write := do
  let club ← doc ["club"] clubName.val
  let eventCollection ← doc (club ++ ["clubEvents"]) e.eventName
  return .set eventCollection e.doc

/-- The delete action of the club's own calendar addresses the collection `events`. -/
def deleteTask (eventName : String) : Option Write := do
  let event ← doc ["events"] eventName
  return .delete event

theorem saveEventToFirestore_cases {clubName : DocId} {e : ClubEvent} {w : Write}
    (hw : saveEventToFirestore clubName e = some w) :
    ∃ p, doc ["club", clubName.val, "clubEvents"] e.eventName = some p ∧ w = .set p e.doc := by
  obtain ⟨club, hclub, hw⟩ := Option.bind_eq_some_iff.1 hw
  rw [doc_docId ["club"] rfl clubName, Option.some.injEq] at hclub
  subst hclub
  obtain ⟨p, hp, hw⟩ := Option.bind_eq_some_iff.1 hw
  cases hw
  exact ⟨p, hp, rfl⟩

theorem deleteTask_cases {eventName : String} {w : Write} (hw : deleteTask eventName = some w) :
    ∃ p, doc ["events"] eventName = some p ∧ w = .delete p := by
  obtain ⟨p, hp, hw⟩ := Option.bind_eq_some_iff.1 hw
  cases hw
  exact ⟨p, hp, rfl⟩

end ClubCalendarPage

namespace ClubOutline

/-- `Users/<currentUser?.email>/joinedClubs/<clubName>`; without a user, `doc(null)` names a
document with the fresh id `auto`. -/
def clubRef (currentUser : Option User) (auto : AutoId) (club : ClubTile) : Path :=
  match currentUser with
  | some user => ["Users", user.email, "joinedClubs", club.clubName.val]
  | none => ["Users", auto.val, "joinedClubs", club.clubName.val]

def joinedDoc (club : ClubTile) : Doc :=
  Doc.ofList
    [(.clubName, .str club.clubName.val), (.clubDescription, .str club.clubDescription),
     (.clubAdvisor, .str club.clubAdvisor), (.clubEmail, .str club.clubEmail)]

/-- The write of `joinClub`, decided on what its read of the reference found. -/
def joinClub (currentUser : Option User) (auto : AutoId) (club : ClubTile) (db : Db) :
    Option Write :=
  let clubRef := clubRef currentUser auto club
  if (db.lookup clubRef).isSome then none else some (.set clubRef (joinedDoc club))

end ClubOutline

namespace FirestoreDatabase

/-- `user!` throws when the database object captured no user. -/
def addPost (user : Option User) (auto : AutoId) (now : Timestamp) (message : String)
    (clubName : DocId) : Option Write := do
  let user ← user
  return .set ["club", clubName.val, "Posts", auto.val]
    (Doc.ofList
      [(.userEmail, .str user.email), (.postMessage, .str message), (.timeStamp, .timestamp now)])

end FirestoreDatabase

end TheHive
