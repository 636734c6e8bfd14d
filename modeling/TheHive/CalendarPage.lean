import TheHive.Lib.ComparisonSort
import TheHive.Clubs
import TheHive.Volunteer

/-!
# My Calendar

Model of `calendar_page.dart`.

* `CalendarPage.getUserJoinedClubs`, `getClubEvents`, `getVolunteerEvents` — what the page
  reads; `mem_getClubEvents`, `mem_getVolunteerEvents` say which stored documents these are.
* `CalendarPage.compareEvents` — the comparator of the sort: by `eventDate`, and on equal dates
  by the field `eventTime`.  No writer of the app stores that field.
* `raisesOnTies_compareEvents` — on documents the app wrote the comparator raises exactly on
  equal dates.
* `sortsCalendar_iff` — whatever comparison sort is used, a calendar is sorted exactly when no
  two of its events have the same date.
* `sameDay_raises` — two club events on one day.
-/

set_option autoImplicit false

namespace TheHive

open DocStore ComparisonSort

/-! ## What the page reads -/

/-- The collection of a club's events. -/
def clubEventsOf (club : String) : Path := ["club", club, "clubEvents"]

/-- The collection of a user's volunteer entries. -/
def entriesOf (u : User) : Path := ["Users", u.email, "myVolunteerEvents"]

/-- The documents of a collection, with their references. -/
def snapshotDocs (db : Db) (c : Path) : List (Path × Doc) :=
  (collection db c).map fun e => (c ++ [e.1], e.2)

theorem mem_snapshotDocs {db : Db} {c p : Path} {d : Doc} :
    (p, d) ∈ snapshotDocs db c ↔ ∃ i, p = c ++ [i] ∧ db.lookup p = some d := by
  unfold snapshotDocs
  rw [List.mem_map]
  constructor
  · rintro ⟨⟨i, d'⟩, hmem, heq⟩
    cases heq
    exact ⟨i, rfl, mem_collection.1 hmem⟩
  · rintro ⟨i, rfl, h⟩
    exact ⟨(i, d), mem_collection.2 h, rfl⟩

/-- The references of a listing differ. -/
theorem nodup_map_fst_snapshotDocs (db : Db) (c : Path) :
    ((snapshotDocs db c).map Prod.fst).Nodup := by
  have hmap : (snapshotDocs db c).map Prod.fst =
      ((collection db c).map Prod.fst).map fun i => c ++ [i] := by
    simp [snapshotDocs]
  rw [hmap]
  refine (nodup_collection db c).map fun i j hij => ?_
  simpa using hij

theorem nodup_snapshotDocs (db : Db) (c : Path) : (snapshotDocs db c).Nodup :=
  List.Nodup.of_map Prod.fst (nodup_map_fst_snapshotDocs db c)

/-- Stores that agree on a collection list the same documents. -/
theorem snapshotDocs_perm_of_lookup {db db' : Db} {c : Path}
    (h : ∀ i, db'.lookup (c ++ [i]) = db.lookup (c ++ [i])) :
    (snapshotDocs db' c).Perm (snapshotDocs db c) := by
  rw [List.perm_ext_iff_of_nodup (nodup_snapshotDocs _ _) (nodup_snapshotDocs _ _)]
  rintro ⟨p, d⟩
  rw [mem_snapshotDocs, mem_snapshotDocs]
  refine exists_congr fun i => and_congr_right fun hp => ?_
  rw [hp, h i]

/-- **A new document of a collection** is listed beside the others. -/
theorem snapshotDocs_insert_perm {db : Db} {c : Path} {i : String} {d : Doc}
    (hnone : db.lookup (c ++ [i]) = none) :
    (snapshotDocs (db.insert (c ++ [i]) d) c).Perm ((c ++ [i], d) :: snapshotDocs db c) := by
  have hnew : (c ++ [i], d) ∉ snapshotDocs db c := by
    intro hmem
    obtain ⟨-, -, hd⟩ := mem_snapshotDocs.1 hmem
    rw [hnone] at hd
    cases hd
  rw [List.perm_ext_iff_of_nodup (nodup_snapshotDocs _ _)
    (List.nodup_cons.2 ⟨hnew, nodup_snapshotDocs _ _⟩)]
  rintro ⟨p, d'⟩
  rw [List.mem_cons, mem_snapshotDocs, mem_snapshotDocs]
  by_cases hp : p = c ++ [i]
  · subst hp
    rw [AList.lookup_insert, hnone]
    simp [eq_comm]
  · rw [AList.lookup_insert_ne hp]
    simp [hp]

namespace CalendarPage

/-- The ids of the joined clubs. -/
def getUserJoinedClubs (currentUser : User) (db : Db) : List String :=
  (collection db ["Users", currentUser.email, "joinedClubs"]).map Prod.fst

/-- The events of the clubs, as the combined streams list them. -/
def getClubEvents (joinedClubs : List String) (db : Db) : List (Path × Doc) :=
  joinedClubs.flatMap fun clubName => snapshotDocs db (clubEventsOf clubName)

def getVolunteerEvents (currentUser : User) (db : Db) : List (Path × Doc) :=
  snapshotDocs db (entriesOf currentUser)

end CalendarPage

open CalendarPage

theorem mem_getUserJoinedClubs {u : User} {db : Db} {club : String} :
    club ∈ getUserJoinedClubs u db ↔
      (db.lookup ["Users", u.email, "joinedClubs", club]).isSome := by
  unfold getUserJoinedClubs
  rw [List.mem_map, Option.isSome_iff_exists]
  constructor
  · rintro ⟨⟨i, d⟩, hmem, rfl⟩
    exact ⟨d, mem_collection.1 hmem⟩
  · rintro ⟨d, h⟩
    exact ⟨(club, d), mem_collection.2 h, rfl⟩

theorem mem_getClubEvents {clubs : List String} {db : Db} {p : Path} {d : Doc} :
    (p, d) ∈ getClubEvents clubs db ↔
      ∃ club ∈ clubs, ∃ i, p = clubEventsOf club ++ [i] ∧ db.lookup p = some d := by
  unfold getClubEvents
  rw [List.mem_flatMap]
  simp only [mem_snapshotDocs]

theorem mem_getVolunteerEvents {u : User} {db : Db} {p : Path} {d : Doc} :
    (p, d) ∈ getVolunteerEvents u db ↔
      ∃ i, p = entriesOf u ++ [i] ∧ db.lookup p = some d := mem_snapshotDocs

/-! ## The sort -/

/-- The UTF-16 code units of a string. -/
def codeUnits (s : String) : List Nat :=
  s.toList.flatMap fun c =>
    if c.toNat < 0x10000 then [c.toNat]
    else [0xD800 + (c.toNat - 0x10000) / 0x400, 0xDC00 + (c.toNat - 0x10000) % 0x400]

/-- `String.compareTo`. -/
def compareStrings (a b : String) : Int :=
  if codeUnits a < codeUnits b then -1 else if codeUnits b < codeUnits a then 1 else 0

/-- `int.compareTo`, and `DateTime.compareTo` on instants. -/
def compareInts (a b : Int) : Int := if a < b then -1 else if b < a then 1 else 0

/-- `a.compareTo(b)` on dynamic values; raises on a missing value and across types. -/
def compareDynamic : Option Value → Option Value → Option Int
  | some (.str a), some (.str b) => some (compareStrings a b)
  | some (.int a), some (.int b) => some (compareInts a b)
  | some (.timestamp a), some (.timestamp b) => some (compareInts a b)
  | _, _ => none

/-- The comparator of `events.sort`. -/
def CalendarPage.compareEvents (aData bData : Doc) : Option Int := do
  let aDateTime ← Doc.timestamp aData .eventDate
  let bDateTime ← Doc.timestamp bData .eventDate
  if aDateTime = bDateTime then
    compareDynamic (aData .eventTime) (bData .eventTime)
  else
    return compareInts aDateTime bDateTime

/-- An event document a writer of the app stores: `ClubCalendarPage.saveEventToFirestore` or
`VolunteerEventTile.addEventToMyCalendar`. -/
inductive AppEvent where
  | club (e : ClubEvent)
  | volunteer (e : VolunteerEvent)

namespace AppEvent

def doc : AppEvent → Doc
  | club e => e.doc
  | volunteer e => e.doc

def eventDate : AppEvent → Timestamp
  | club e => e.eventDate
  | volunteer e => e.eventDate

theorem timestamp_doc (e : AppEvent) : Doc.timestamp e.doc .eventDate = some e.eventDate := by
  cases e <;> rfl

theorem eventTime_doc (e : AppEvent) : e.doc .eventTime = none := by
  cases e <;> rfl

end AppEvent

/-- The date of a document. -/
def dateOf (d : Doc) : Timestamp := (Doc.timestamp d .eventDate).getD 0

@[simp] theorem dateOf_doc (e : AppEvent) : dateOf e.doc = e.eventDate := by
  rw [dateOf, e.timestamp_doc, Option.getD_some]

theorem compareEvents_doc (e e' : AppEvent) :
    compareEvents e.doc e'.doc =
      if e.eventDate = e'.eventDate then none else some (compareInts e.eventDate e'.eventDate) := by
  simp only [compareEvents, e.timestamp_doc, e'.timestamp_doc, Option.bind_eq_bind,
    Option.bind_some, e.eventTime_doc]
  split <;> rfl

/-- **The comparator raises exactly on equal dates**: `eventTime` is missing on both sides. -/
theorem raisesOnTies_compareEvents {α : Type} (data : α → Doc) {l : List α}
    (hl : ∀ a ∈ l, ∃ e : AppEvent, data a = e.doc) :
    RaisesOnTies (fun a b => compareEvents (data a) (data b)) (fun a => dateOf (data a)) l := by
  refine ⟨?_, ?_, ?_⟩ <;> intro a ha b hb hdate <;>
    obtain ⟨e, he⟩ := hl a ha <;> obtain ⟨e', he'⟩ := hl b hb <;>
    rw [he, he', dateOf_doc, dateOf_doc] at hdate
  · refine ⟨-1, ?_, by omega⟩
    rw [he, he', compareEvents_doc, if_neg (ne_of_lt hdate), compareInts, if_pos hdate]
  · refine ⟨1, ?_, by omega⟩
    rw [he, he', compareEvents_doc, if_neg (ne_of_gt hdate), compareInts,
      if_neg (not_lt_of_gt hdate), if_pos hdate]
  · rw [he, he', compareEvents_doc, if_pos hdate]

/-! ## Clock texts -/

/-- `TimeOfDay.format` with the 12-hour clock: `h:mm AM` or `h:mm PM`. -/
def clockText (hour : Fin 24) (minute : Fin 60) : String :=
  toString (if hour.val % 12 = 0 then 12 else hour.val % 12) ++ ":" ++
    (if minute.val < 10 then "0" else "") ++ toString minute.val ++
    (if hour.val < 12 then " AM" else " PM")

/-- The start time of a document is a clock text for the `m`-th minute of the day. -/
def StartsAt (d : Doc) (m : Nat) : Prop :=
  ∃ hour minute, Doc.str d .startTime = some (clockText hour minute) ∧
    m = 60 * hour.val + minute.val

/-- What the page needs of its sort: it does not raise, and it arranges the events by date, and
by well-formed start times within a date. -/
def SortsCalendar (A : Algorithm) (events : List Doc) : Prop :=
  ∃ sorted, A.sort compareEvents events = some sorted ∧ sorted.Perm events ∧
    (sorted.Pairwise fun a b => dateOf a ≤ dateOf b) ∧
    sorted.Pairwise fun a b => dateOf a = dateOf b →
      ∀ m n, StartsAt a m → StartsAt b n → m ≤ n

/-- **A calendar is sorted exactly when no two of its events have the same date.** -/
theorem sortsCalendar_iff (A : Algorithm) (events : List AppEvent) :
    SortsCalendar A (events.map AppEvent.doc) ↔ (events.map AppEvent.eventDate).Nodup := by
  have hraises : RaisesOnTies compareEvents dateOf (events.map AppEvent.doc) := by
    refine raisesOnTies_compareEvents id fun d hd => ?_
    obtain ⟨e, -, rfl⟩ := List.mem_map.1 hd
    exact ⟨e, rfl⟩
  have hdates : (events.map AppEvent.doc).map dateOf = events.map AppEvent.eventDate := by
    rw [List.map_map]
    exact List.map_congr_left fun e _ => dateOf_doc e
  rw [← hdates]
  constructor
  · rintro ⟨sorted, hsort, -⟩
    exact nodup_of_sort A hraises hsort
  · intro hnodup
    obtain ⟨sorted, hsort, hperm, hsorted⟩ := sort_of_nodup A hraises hnodup
    refine ⟨sorted, hsort, hperm, hsorted, ?_⟩
    -- two entries of one date cannot occur
    have hne : sorted.Pairwise fun a b => dateOf a ≠ dateOf b :=
      List.pairwise_map.1 ((hperm.map dateOf).nodup_iff.2 hnodup)
    exact hne.imp fun {a b} hab hdate => absurd hdate hab

/-- Two events of a club on the same day. -/
def chessMeeting : ClubEvent :=
  ⟨"Meeting", 1740960000000000, "3:00 PM", "4:00 PM", "Room 12"⟩
def chessMatch : ClubEvent :=
  ⟨"Match", 1740960000000000, "10:00 AM", "11:00 AM", "Gym"⟩

/-- Two events on one day make the sort raise. -/
theorem sameDay_raises :
    ¬ ∃ A : Algorithm, SortsCalendar A [chessMeeting.doc, chessMatch.doc] := by
  rintro ⟨A, sorted, hsort, -⟩
  have hraises : RaisesOnTies compareEvents dateOf [chessMeeting.doc, chessMatch.doc] := by
    refine raisesOnTies_compareEvents id fun d hd => ?_
    rcases List.mem_pair.1 hd with rfl | rfl
    · exact ⟨.club chessMeeting, rfl⟩
    · exact ⟨.club chessMatch, rfl⟩
  have hnodup := nodup_of_sort A hraises hsort
  exact absurd hnodup (by decide)

end TheHive
