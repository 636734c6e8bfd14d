import TheHive.CalendarPage

/-!
# Deleting from My Calendar

The delete action of a tile looks its event up again, by name, in the `clubEvents` collections
of all clubs, and deletes the first hit.

* `BareId` — what a collection-group filter on the document id does with a text that is not a
  full path; the law below is the same for both.
* `CalendarPage.deleteTask` — the write the action issues; `deleteTask_eq_some_iff` — it deletes
  the stored hit of least path.
* `deletesExactly_iff` — the action removes the document of its tile, and nothing else, exactly
  when that document is the first hit.
* `not_isHit_rejected`, `isHit_lastSegment_iff` — a plain name has no hit when bare ids are
  rejected; else its hits are the events of that name of all clubs.
* `namesakes_not_deletable` — two clubs with an event of the same name.
-/

set_option autoImplicit false

namespace TheHive

open DocStore CalendarPage

/-- How Firestore reads the value of a `FieldPath.documentId` filter on a collection group. -/
inductive BareId where
  /-- The value has to be the full path of a document. -/
  | rejected
  /-- The value is compared with the last segment. -/
  | lastSegment
  deriving DecidableEq

/-- The filter; `none` when the query throws. -/
def documentIdIs (mode : BareId) (eventId : String) : Option (Path → Bool) :=
  match mode with
  | .rejected =>
    if (segments eventId).length % 2 = 0 then some fun p => p = segments eventId else none
  | .lastSegment => some fun p => p.getLast? = some eventId

/-- A tile of the page. -/
structure EventTile where
  eventName : String
  eventDate : String
  startTime : String
  endTime : String
  eventLocation : String

namespace CalendarPage

/-- The `itemBuilder` of the list. -/
def tile (intl : Intl) (event : Doc) : Option EventTile := do
  return {
    eventName := ← Doc.str event .eventName
    eventDate := intl.format .ddMMyyyy (← Doc.timestamp event .eventDate)
    startTime := ← Doc.str event .startTime
    endTime := ← Doc.str event .endTime
    eventLocation := ← Doc.str event .eventLocation }

/-- The events the page merges. -/
def events (currentUser : User) (joinedClubs : List String) (db : Db) : List (Path × Doc) :=
  getClubEvents joinedClubs db ++ getVolunteerEvents currentUser db

/-- The delete of the first hit, if there is one. -/
def deleteTask (mode : BareId) (eventId : String) (db : Db) : Option Write := do
  let filter ← documentIdIs mode eventId
  let first ← ((collectionGroup db "clubEvents").filter fun e => filter e.1).head?
  return .delete first.1

end CalendarPage

/-- A document of a `clubEvents` collection that passes the filter. -/
def IsHit (mode : BareId) (eventId : String) (p : Path) : Prop :=
  InGroup "clubEvents" p ∧
    match mode with
    | .rejected => p = segments eventId ∧ (segments eventId).length % 2 = 0
    | .lastSegment => p.getLast? = some eventId

variable {mode : BareId} {eventId : String} {db : Db} {p : Path}

theorem isHit_iff :
    IsHit mode eventId p ↔
      InGroup "clubEvents" p ∧ ∃ f, documentIdIs mode eventId = some f ∧ f p = true := by
  unfold IsHit documentIdIs
  cases mode with
  | rejected =>
    by_cases heven : (segments eventId).length % 2 = 0
    · simp [heven]
    · simp [heven]
  | lastSegment => simp

/-- **A plain name has no hit when bare ids are rejected.** -/
theorem not_isHit_rejected (h : IsDocId eventId) : ¬ IsHit .rejected eventId p := by
  rintro ⟨-, -, heven⟩
  rw [segments_of_isDocId h] at heven
  cases heven

theorem isHit_lastSegment_iff :
    IsHit .lastSegment eventId p ↔ ∃ c, p = c ++ ["clubEvents", eventId] := by
  show p.dropLast.getLast? = some "clubEvents" ∧ p.getLast? = some eventId ↔ _
  constructor
  · rintro ⟨hgroup, hlast⟩
    have h₁ := List.dropLast_append_getLast? _ hlast
    have h₂ := List.dropLast_append_getLast? _ hgroup
    refine ⟨p.dropLast.dropLast, ?_⟩
    calc p = p.dropLast ++ [eventId] := h₁.symm
      _ = p.dropLast.dropLast ++ ["clubEvents"] ++ [eventId] := by rw [h₂]
      _ = p.dropLast.dropLast ++ ["clubEvents", eventId] := by simp
  · rintro ⟨c, rfl⟩
    have hdrop : (c ++ ["clubEvents", eventId]).dropLast = c ++ ["clubEvents"] := by
      rw [show c ++ ["clubEvents", eventId] = c ++ ["clubEvents"] ++ [eventId] by simp,
        List.dropLast_concat]
    rw [hdrop]
    simp

/-- **The action deletes the stored hit of least path.** -/
theorem deleteTask_eq_some_iff {w : Write} :
    CalendarPage.deleteTask mode eventId db = some w ↔
      ∃ p, w = .delete p ∧ (IsHit mode eventId p ∧ (db.lookup p).isSome) ∧
        ∀ q, IsHit mode eventId q → (db.lookup q).isSome → p ≤ q := by
  simp only [isHit_iff]
  unfold CalendarPage.deleteTask
  cases hfilter : documentIdIs mode eventId with
  | none => simp
  | some f =>
    simp only [Option.bind_eq_bind, Option.bind_some, Option.bind_eq_some_iff, Option.pure_def,
      Option.some.injEq, exists_eq_left']
    constructor
    · rintro ⟨⟨p, d⟩, hhead, rfl⟩
      obtain ⟨⟨hgroup, hf, hd⟩, hleast⟩ := head?_filter_collectionGroup.1 hhead
      exact ⟨p, rfl, ⟨⟨hgroup, hf⟩, by rw [hd]; rfl⟩, fun q hq => hleast q hq.1 hq.2⟩
    · rintro ⟨p, rfl, ⟨⟨hgroup, hf⟩, hstored⟩, hleast⟩
      obtain ⟨d, hd⟩ := Option.isSome_iff_exists.1 hstored
      exact ⟨(p, d), head?_filter_collectionGroup.2
        ⟨⟨hgroup, hf, hd⟩, fun q hg hq => hleast q ⟨hg, hq⟩⟩, rfl⟩

/-- Pressing the delete action of a tile removes the document at `p`, and nothing else. -/
def DeletesExactly (mode : BareId) (db : Db) (p : Path) (t : EventTile) : Prop :=
  ∀ q, (commit (CalendarPage.deleteTask mode t.eventName db).toList db).lookup q =
    if q = p then none else db.lookup q

theorem isSome_lookup_of_mem_events {u : User} {clubs : List String} {d : Doc}
    (hx : (p, d) ∈ CalendarPage.events u clubs db) : (db.lookup p).isSome := by
  rcases List.mem_append.1 hx with h | h
  · obtain ⟨-, -, -, -, hd⟩ := mem_getClubEvents.1 h
    rw [hd]
    rfl
  · obtain ⟨-, -, hd⟩ := mem_getVolunteerEvents.1 h
    rw [hd]
    rfl

/-- **The delete action of a tile is exact exactly when** the document the tile was rendered
from is the first hit of its event name. -/
theorem deletesExactly_iff {intl : Intl} {u : User} {clubs : List String} {d : Doc} {t : EventTile}
    (hx : (p, d) ∈ CalendarPage.events u clubs db) (_ : CalendarPage.tile intl d = some t) :
    DeletesExactly mode db p t ↔
      IsHit mode t.eventName p ∧
        ∀ q, IsHit mode t.eventName q → (db.lookup q).isSome → p ≤ q := by
  have hstored := isSome_lookup_of_mem_events hx
  constructor
  · intro hexact
    have hp := hexact p
    rw [if_pos rfl] at hp
    cases htask : CalendarPage.deleteTask mode t.eventName db with
    | none =>
      rw [htask] at hp
      change db.lookup p = none at hp
      rw [hp] at hstored
      cases hstored
    | some w =>
      obtain ⟨p', rfl, ⟨hhit, -⟩, hleast⟩ := deleteTask_eq_some_iff.1 htask
      have hsame : p = p' := by
        by_contra hne
        have hframe : (commit [.delete p'] db).lookup p = db.lookup p :=
          commit_frame fun w hw => by rw [List.mem_singleton.1 hw]; exact hne
        rw [htask] at hp
        change (commit [.delete p'] db).lookup p = none at hp
        rw [← hframe, hp] at hstored
        cases hstored
      subst hsame
      exact ⟨hhit, hleast⟩
  · rintro ⟨hhit, hleast⟩ q
    have htask : CalendarPage.deleteTask mode t.eventName db = some (.delete p) :=
      deleteTask_eq_some_iff.2 ⟨p, rfl, ⟨hhit, hstored⟩, hleast⟩
    rw [htask]
    show (db.erase p).lookup q = _
    split
    · rename_i hq
      rw [hq]
      exact AList.lookup_erase p db
    · rename_i hq
      exact AList.lookup_erase_ne hq

/-- Both clubs of Ann meet on 3 March. -/
def roboticsMeeting : ClubEvent := { chessMeeting with eventLocation := "Lab" }

def namesakes : Db :=
  (AList.insert (clubEventsOf "Chess" ++ ["Meeting"]) chessMeeting.doc
    (∅ : Db)).insert (clubEventsOf "Robotics" ++ ["Meeting"]) roboticsMeeting.doc

def meetingTile : EventTile := ⟨"Meeting", "03/03/2025", "3:00 PM", "4:00 PM", "Lab"⟩

theorem deletesExactly_iff_namesakes :
    DeletesExactly .lastSegment namesakes (clubEventsOf "Robotics" ++ ["Meeting"]) meetingTile ↔
      IsHit .lastSegment "Meeting" (clubEventsOf "Robotics" ++ ["Meeting"]) ∧
        ∀ q, IsHit .lastSegment "Meeting" q → (namesakes.lookup q).isSome →
          clubEventsOf "Robotics" ++ ["Meeting"] ≤ q :=
  have hx : (clubEventsOf "Robotics" ++ ["Meeting"], roboticsMeeting.doc) ∈
      CalendarPage.events ann ["Chess", "Robotics"] namesakes :=
    List.mem_append_left _ (mem_getClubEvents.2 ⟨"Robotics", by simp, "Meeting", rfl, rfl⟩)
  have ht : CalendarPage.tile marchThird roboticsMeeting.doc = some meetingTile := rfl
  deletesExactly_iff hx ht

/-- Whatever Firestore does with a bare id, the tile of the second club's event does not delete
that event. -/
theorem namesakes_not_deletable :
    (clubEventsOf "Robotics" ++ ["Meeting"], roboticsMeeting.doc) ∈
        CalendarPage.events ann ["Chess", "Robotics"] namesakes ∧
      CalendarPage.tile marchThird roboticsMeeting.doc = some meetingTile ∧
      ¬ ∃ mode, DeletesExactly mode namesakes (clubEventsOf "Robotics" ++ ["Meeting"])
        meetingTile := by
  refine ⟨List.mem_append_left _ (mem_getClubEvents.2 ⟨"Robotics", by simp, "Meeting", rfl, rfl⟩),
    rfl, ?_⟩
  rintro ⟨mode, h⟩
  have hgone := h (clubEventsOf "Robotics" ++ ["Meeting"])
  rw [if_pos rfl] at hgone
  have hkept : ((commit (CalendarPage.deleteTask mode "Meeting" namesakes).toList namesakes).lookup
      (clubEventsOf "Robotics" ++ ["Meeting"])).isSome := by
    cases mode <;> decide
  change (commit (CalendarPage.deleteTask mode "Meeting" namesakes).toList namesakes).lookup _ = none
    at hgone
  rw [hgone] at hkept
  cases hkept

end TheHive
