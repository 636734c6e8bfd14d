import TheHive.CalendarPage

/-!
# Names and documents

The three creating forms build the path of their document from a typed name.

* `NameForm` — a submission of one of the forms, with the collection its page lists.
* `write_cases` — where an accepted submission is stored.
* `childOfList_iff` — the document is a child of that collection exactly when the name has no `/`.
* `samePath_iff_of_club_of_clubEvent` — when the form of a club and the form of an event of a
  club meet at one document; two other forms never do.
* `mapsSafely_iff` — **two accepted submissions are both listed by their pages, and meet only
  under the same collection and name, exactly when neither name has a `/`**.
* `club_name_reaches_clubEvents` — a club whose name is the path of an event.
-/

set_option autoImplicit false

namespace TheHive

open DocStore

inductive NameForm where
  | club (clubName clubDes clubAdvisor : String)
  | clubEvent (clubName : DocId) (e : ClubEvent)
  | volunteerEvent (e : VolunteerEvent)

namespace NameForm

/-- The typed name. -/
def name : NameForm → String
  | club clubName _ _ => clubName
  | clubEvent _ e => e.eventName
  | volunteerEvent e => e.eventName

/-- The collection the form's page lists. -/
def listed : NameForm → Path
  | club _ _ _ => ["club"]
  | clubEvent clubName _ => clubEventsOf clubName.val
  | volunteerEvent _ => ["volunteer"]

/-- The write of the form; `none` when the name is not accepted. -/
def write : NameForm → Option Write
  | club clubName clubDes clubAdvisor => CreateAClub.submit clubName clubDes clubAdvisor
  | clubEvent clubName e => ClubCalendarPage.saveEventToFirestore clubName e
  | volunteerEvent e => VolunteerPage.saveEventToFirestore e

end NameForm

variable {f f' : NameForm} {w w' : Write}

/-- **An accepted name** is appended to the collection, segment by segment. -/
theorem write_cases (hw : f.write = some w) :
    ∃ d, w = .set (f.listed ++ segments f.name) d ∧ "" ∉ segments f.name := by
  cases f with
  | club clubName clubDes clubAdvisor =>
    obtain ⟨p, hp, rfl⟩ := CreateAClub.submit_cases hw
    rw [prefix_of_doc hp]
    exact ⟨_, rfl, not_mem_segments_of_doc hp⟩
  | clubEvent clubName e =>
    obtain ⟨p, hp, rfl⟩ := ClubCalendarPage.saveEventToFirestore_cases hw
    rw [prefix_of_doc hp]
    exact ⟨_, rfl, not_mem_segments_of_doc hp⟩
  | volunteerEvent e =>
    obtain ⟨p, hp, rfl⟩ := VolunteerPage.saveEventToFirestore_cases hw
    rw [prefix_of_doc hp]
    exact ⟨_, rfl, not_mem_segments_of_doc hp⟩

/-! ## One name -/

/-- The document is a direct child of the collection the page lists, and the list shows it. -/
structure ChildOfList (f : NameForm) (w : Write) : Prop where
  child : ∃ i, w.path = f.listed ++ [i]
  shown : ∀ db, ∃ d, (w.path, d) ∈ snapshotDocs (commit [w] db) f.listed

/-- **The document of an accepted name is in the list of its page exactly when the name has no
separator.** -/
theorem childOfList_iff (hw : f.write = some w) : ChildOfList f w ↔ '/' ∉ f.name.toList := by
  obtain ⟨d, rfl, -⟩ := write_cases hw
  constructor
  · rintro ⟨⟨i, hi⟩, -⟩
    have hone : segments f.name = [i] := List.append_cancel_left hi
    exact (segments_eq_singleton_iff.1 hone).2
  · intro hplain
    have hone : segments f.name = [f.name] := segments_eq_singleton_iff.2 ⟨rfl, hplain⟩
    rw [hone]
    exact ⟨⟨f.name, rfl⟩, fun db =>
      ⟨d, mem_snapshotDocs.2 ⟨f.name, rfl, AList.lookup_insert _⟩⟩⟩

/-! ## Two names -/

/-- Submissions to collections of one depth meet only under the same collection and name. -/
theorem eq_of_samePath (hpath : f.listed ++ segments f.name = f'.listed ++ segments f'.name)
    (hlisted : f.listed.length = f'.listed.length) : f.listed = f'.listed ∧ f.name = f'.name := by
  obtain ⟨hl, hs⟩ := List.append_inj hpath hlisted
  exact ⟨hl, segments_injective hs⟩

/-- **A club and an event of a club are one document exactly when** the name of the club spells
the path of the event. -/
theorem samePath_iff_of_club_of_clubEvent {name des advisor : String} {clubName : DocId}
    {e : ClubEvent} (hw : (NameForm.club name des advisor).write = some w)
    (hw' : (NameForm.clubEvent clubName e).write = some w') :
    w.path = w'.path ↔ name = clubName.val ++ "/" ++ ("clubEvents" ++ "/" ++ e.eventName) := by
  obtain ⟨d, rfl, -⟩ := write_cases hw
  obtain ⟨d', rfl, -⟩ := write_cases hw'
  have hevent : segments (clubName.val ++ "/" ++ ("clubEvents" ++ "/" ++ e.eventName)) =
      clubName.val :: "clubEvents" :: segments e.eventName := by
    rw [segments_append clubName.ok.2, segments_append (by decide)]
  show "club" :: segments name = "club" :: clubName.val :: "clubEvents" :: segments e.eventName ↔ _
  rw [List.cons_inj_right, ← hevent]
  exact ⟨segments_injective, fun h => by rw [h]⟩

/-- What the names of two submissions owe their pages: both documents are listed, and they are
one document only under the same collection and the same name. -/
structure MapsSafely (f f' : NameForm) (w w' : Write) : Prop where
  left : ChildOfList f w
  right : ChildOfList f' w'
  apart : w.path = w'.path → f.listed = f'.listed ∧ f.name = f'.name

/-- **Two accepted names map safely to documents exactly when neither has a separator.** -/
theorem mapsSafely_iff (hw : f.write = some w) (hw' : f'.write = some w') :
    MapsSafely f f' w w' ↔ '/' ∉ f.name.toList ∧ '/' ∉ f'.name.toList := by
  constructor
  · rintro ⟨hleft, hright, -⟩
    exact ⟨(childOfList_iff hw).1 hleft, (childOfList_iff hw').1 hright⟩
  · rintro ⟨hplain, hplain'⟩
    refine ⟨(childOfList_iff hw).2 hplain, (childOfList_iff hw').2 hplain', fun hpath => ?_⟩
    obtain ⟨d, rfl, -⟩ := write_cases hw
    obtain ⟨d', rfl, -⟩ := write_cases hw'
    change f.listed ++ segments f.name = f'.listed ++ segments f'.name at hpath
    -- both names add one segment, so the collections are equally long
    refine eq_of_samePath hpath ?_
    have hlen := congrArg List.length hpath
    rw [segments_eq_singleton_iff.2 ⟨rfl, hplain⟩, segments_eq_singleton_iff.2 ⟨rfl, hplain'⟩] at hlen
    simpa using hlen

/-- A club named like the path of an event of the club `Chess`. -/
def pathNamedClub : NameForm := .club "Chess/clubEvents/Match" "Chess on Fridays" "Ms. King"

def matchOfChess : NameForm := .clubEvent chessClub.clubName chessMatch

def submitOfChess : NameForm := .club "Chess" "Openings" "Ms. King"

theorem mapsSafely_iff_matchOfChess :
    MapsSafely submitOfChess matchOfChess
        (.set ["club", "Chess"] (CreateAClub.clubDoc "Chess" "Openings" "Ms. King"))
        (.set ["club", "Chess", "clubEvents", "Match"] chessMatch.doc) ↔
      '/' ∉ submitOfChess.name.toList ∧ '/' ∉ matchOfChess.name.toList :=
  mapsSafely_iff rfl rfl

/-- The form of a club writes to the document of an event of another club, and its page does not
list that document. -/
theorem club_name_reaches_clubEvents :
    ¬ ∀ (f f' : NameForm) (w w' : Write), f.write = some w → f'.write = some w' →
      MapsSafely f f' w w' := by
  intro h
  have hsafe := h pathNamedClub matchOfChess
    (.set ["club", "Chess", "clubEvents", "Match"]
      (CreateAClub.clubDoc "Chess/clubEvents/Match" "Chess on Fridays" "Ms. King"))
    (.set ["club", "Chess", "clubEvents", "Match"] chessMatch.doc) rfl rfl
  obtain ⟨hlisted, -⟩ := hsafe.apart rfl
  cases hlisted

end TheHive
