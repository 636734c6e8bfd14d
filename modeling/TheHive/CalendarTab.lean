import TheHive.CalendarPage
import TheHive.Navigation

/-!
# The Calendar tab

`CalendarPage` as a tab of `SideBarPage`.  It is built once and kept: its joined clubs come from
one read, and only the streams subscribed after that read stay live.

* `calendarStep` — one user joining clubs, signing up for volunteer events and switching tabs,
  anybody adding club events, the one read of the joined clubs and the snapshots of the streams.
* `CalendarTab.listed` — the events the tab lists.
* `EventDocs` — the calendar collections hold event documents of the app; `calendarInv_step`
  — this, and that no joined club is ever left.
* `listed_iff` — with all snapshots delivered, what a tab that read some clubs lists.
* `showsCalendar_iff` — **in every reachable state with all snapshots delivered, the tab shows
  the calendar exactly when** it read no club and there is nothing to show, or it read some
  clubs, the dates of their events and of the volunteer entries are distinct, and no club joined
  since the read has an event.
* `club_joined_later_missing` — a club joined after the tab was built.
-/

set_option autoImplicit false

namespace TheHive

open DocStore Transition ComparisonSort CalendarPage

/-- The tab's own state, and the tab that is selected. -/
structure CalendarTab where
  db : Db
  selectedIndex : Tab
  /-- What the future of `getUserJoinedClubs` completed with. -/
  clubs : Option (List String)
  /-- The last snapshot of each club's events. -/
  clubShots : String → Option (List (Path × Doc))
  /-- The last snapshot of the user's entries. -/
  volunteerShot : Option (List (Path × Doc))

inductive CalendarAction where
  | joinClub (auto : AutoId) (club : ClubTile)
  | signUp (t : VolunteerEventTile)
  | addClubEvent (clubName : DocId) (e : ClubEvent)
  | switchTab (index : Tab)
  | readJoinedClubs
  | deliverClub (club : String)
  | deliverVolunteer

namespace CalendarTab

def start (db : Db) : CalendarTab := ⟨db, .myClubs, none, fun _ => none, none⟩

/-- The value of `Rx.combineLatest2`, once every stream has delivered. -/
def eventSnapshot (s : CalendarTab) (joinedClubs : List String) : Option (List (Path × Doc)) := do
  let clubEvents ← joinedClubs.mapM s.clubShots
  let volunteerEvents ← s.volunteerShot
  return clubEvents.flatten ++ volunteerEvents

/-- The events the tab lists; `none` when its builder throws. -/
def listed (A : Algorithm) (s : CalendarTab) : Option (List (Path × Doc)) :=
  match s.clubs with
  | none => some []
  | some [] => some []
  | some (club :: clubs) =>
    match s.eventSnapshot (club :: clubs) with
    | none => some []
    | some [] => some []
    | some (e :: es) => A.sort (fun a b => compareEvents a.2 b.2) (e :: es)

end CalendarTab

/-- The writes of an action, on the store as it is. -/
def calendarWrites (intl : Intl) (u : User) (db : Db) : CalendarAction → List Write
  | .joinClub auto club => (ClubOutline.joinClub (some u) auto club db).toList
  | .signUp t => if t.currentUser = some u then t.onTap intl else []
  | .addClubEvent clubName e => (ClubCalendarPage.saveEventToFirestore clubName e).toList
  | _ => []

def calendarStep (intl : Intl) (u : User) (s : CalendarTab) (a : CalendarAction) :
    Option CalendarTab :=
  let db := commit (calendarWrites intl u s.db a) s.db
  match a with
  | .joinClub _ _ | .signUp _ | .addClubEvent _ _ => some { s with db }
  | .switchTab index => some { s with selectedIndex := index }
  | .readJoinedClubs =>
    if s.clubs = none then some { s with clubs := some (getUserJoinedClubs u s.db) } else none
  | .deliverClub club =>
    if (s.clubs.getD []).contains club then
      some { s with
        clubShots := Function.update s.clubShots club (some (snapshotDocs s.db (clubEventsOf club))) }
    else none
  | .deliverVolunteer =>
    if s.clubs.getD [] ≠ [] then some { s with volunteerShot := some (getVolunteerEvents u s.db) }
    else none

/-! ## The calendar of a user -/

/-- An event of a club the user is a member of now, or an entry of the user. -/
def InCalendar (u : User) (db : Db) (x : Path × Doc) : Prop :=
  ((∃ club ∈ getUserJoinedClubs u db, ∃ i, x.1 = clubEventsOf club ++ [i]) ∨
      ∃ i, x.1 = entriesOf u ++ [i]) ∧
    db.lookup x.1 = some x.2

/-- The tab shows exactly the user's calendar, every event once. -/
def ShowsCalendar (A : Algorithm) (u : User) (s : CalendarTab) : Prop :=
  ∃ l, s.listed A = some l ∧ l.Nodup ∧ ∀ x, x ∈ l ↔ InCalendar u s.db x

/-- The clubs have been read, and every stream subscribed since has delivered its last
snapshot. -/
def Delivered (u : User) (clubs : List String) (s : CalendarTab) : Prop :=
  s.clubs = some clubs ∧
    (clubs ≠ [] → (∀ club ∈ clubs, s.clubShots club = some (snapshotDocs s.db (clubEventsOf club))) ∧
      s.volunteerShot = some (getVolunteerEvents u s.db))

/-- The events a tab that read `clubs` merges. -/
def merged (u : User) (clubs : List String) (db : Db) : List (Path × Doc) :=
  getClubEvents clubs db ++ getVolunteerEvents u db

/-- The condition on what was read and what is stored. -/
def CanShow (u : User) (clubs : List String) (db : Db) : Prop :=
  clubs = [] ∧ (∀ x, ¬ InCalendar u db x) ∨
    clubs ≠ [] ∧ ((merged u clubs db).map fun x => dateOf x.2).Nodup ∧
      ∀ club ∈ getUserJoinedClubs u db, club ∉ clubs → snapshotDocs db (clubEventsOf club) = []

/-! ## The invariant -/

/-- A document of a calendar collection. -/
def CalendarPath (p : Path) : Prop :=
  (∃ club i, p = clubEventsOf club ++ [i]) ∨ ∃ u i, p = entriesOf u ++ [i]

/-- The calendar collections hold the event documents the app writes. -/
def EventDocs (db : Db) : Prop :=
  ∀ p d, CalendarPath p → db.lookup p = some d → ∃ e : AppEvent, d = e.doc

/-- A write of an event document, or of a document outside the calendar collections. -/
def CalendarWrite (w : Write) : Prop :=
  (∃ (p : Path) (e : AppEvent), w = .set p e.doc) ∨ ¬ CalendarPath w.path ∧ ∀ p, w ≠ .delete p

variable {intl : Intl} {u : User} {db : Db} {s t : CalendarTab} {a : CalendarAction}
  {clubs : List String}

theorem CalendarWrite.not_delete {w : Write} (h : CalendarWrite w) : ∀ p, w ≠ .delete p := by
  rcases h with ⟨p, e, rfl⟩ | ⟨-, h⟩
  · intro q hq
    cases hq
  · exact h

theorem eventDocs_settle (h : EventDocs db) {w : Write} (hw : CalendarWrite w) :
    EventDocs (w.settle db) := by
  intro p d hp hd
  by_cases hpath : p = w.path
  · subst hpath
    rcases hw with ⟨q, e, rfl⟩ | ⟨hout, -⟩
    · change (db.insert q e.doc).lookup q = some d at hd
      rw [AList.lookup_insert] at hd
      cases hd
      exact ⟨e, rfl⟩
    · exact absurd hp hout
  · rw [Write.settle_frame hpath] at hd
    exact h p d hp hd

theorem eventDocs_commit : ∀ {ws : List Write} {db : Db}, EventDocs db → (∀ w ∈ ws, CalendarWrite w) →
    EventDocs (commit ws db)
  | [], _, h, _ => h
  | w :: ws, db, h, hws => by
    rw [commit_cons]
    exact eventDocs_commit (eventDocs_settle h (hws w List.mem_cons_self))
      fun v hv => hws v (List.mem_cons_of_mem _ hv)

/-- Outside the calendar collections, by the first and the third segment. -/
theorem not_calendarPath {p : Path} (hclub : ∀ club i, p ≠ ["club", club, "clubEvents", i])
    (huser : ∀ email i, p ≠ ["Users", email, "myVolunteerEvents", i]) : ¬ CalendarPath p := by
  rintro (⟨club, i, rfl⟩ | ⟨u, i, rfl⟩)
  · exact hclub club i rfl
  · exact huser u.email i rfl

theorem entriesOf_ne_clubEventsOf {i j club : String} :
    entriesOf u ++ [i] ≠ clubEventsOf club ++ [j] := by
  simp [entriesOf, clubEventsOf]

theorem calendarWrite_onTap {t : VolunteerEventTile} {w : Write} (hw : w ∈ t.onTap intl) :
    CalendarWrite w := by
  unfold VolunteerEventTile.onTap at hw
  split at hw
  · cases hw
  · rename_i date _
    split at hw
    · cases hw
    · rename_i add hadd
      rcases List.mem_cons.1 hw with rfl | hw
      · -- the entry
        simp only [VolunteerEventTile.addEventToMyCalendar, Option.bind_eq_bind,
          Option.bind_eq_some_iff, Option.pure_def, Option.some.injEq] at hadd
        obtain ⟨_, _, _, _, p, _, rfl⟩ := hadd
        exact .inl ⟨p, .volunteer _, rfl⟩
      · -- the count
        rw [Option.mem_toList] at hw
        unfold VolunteerEventTile.decrementNumberOfPeople at hw
        split at hw
        · obtain ⟨p, hp, hw⟩ := Option.bind_eq_some_iff.1 hw
          cases hw
          refine .inr ⟨?_, fun q hq => by cases hq⟩
          show ¬ CalendarPath p
          rw [prefix_of_doc hp]
          exact not_calendarPath (by simp) (by simp)
        · cases hw

theorem calendarWrite_of_mem {w : Write} (hw : w ∈ calendarWrites intl u db a) :
    CalendarWrite w := by
  cases a with
  | joinClub auto club =>
    simp only [calendarWrites, ClubOutline.joinClub, Option.mem_toList] at hw
    split at hw
    · cases hw
    · cases hw
      exact .inr ⟨not_calendarPath (by simp [Write.path, ClubOutline.clubRef])
        (by simp [Write.path, ClubOutline.clubRef]), fun q hq => by cases hq⟩
  | signUp t =>
    simp only [calendarWrites] at hw
    split at hw
    · exact calendarWrite_onTap hw
    · cases hw
  | addClubEvent clubName e =>
    simp only [calendarWrites, Option.mem_toList] at hw
    obtain ⟨p, -, rfl⟩ := ClubCalendarPage.saveEventToFirestore_cases hw
    exact .inl ⟨p, .club e, rfl⟩
  | switchTab _ | readJoinedClubs | deliverClub _ | deliverVolunteer => cases hw

/-- The calendar collections are as the app writes them, and the clubs that were read are still
joined. -/
structure CalendarInv (u : User) (s : CalendarTab) : Prop where
  docs : EventDocs s.db
  nodup : ∀ clubs, s.clubs = some clubs → clubs.Nodup
  joined : ∀ clubs, s.clubs = some clubs → ∀ club ∈ clubs, club ∈ getUserJoinedClubs u s.db

theorem calendarInv_start (hdb : EventDocs db) : CalendarInv u (.start db) :=
  ⟨hdb, fun _ h => (by cases h), fun _ h => (by cases h)⟩

theorem mem_joined_commit {ws : List Write} (hws : ∀ w ∈ ws, CalendarWrite w) {club : String}
    (h : club ∈ getUserJoinedClubs u db) : club ∈ getUserJoinedClubs u (commit ws db) := by
  rw [mem_getUserJoinedClubs] at h ⊢
  exact isSome_lookup_commit (fun w hw => (hws w hw).not_delete) h

theorem calendarInv_step (h : CalendarInv u s) (ht : calendarStep intl u s a = some t) :
    CalendarInv u t := by
  have hws : ∀ w ∈ calendarWrites intl u s.db a, CalendarWrite w := fun w hw =>
    calendarWrite_of_mem hw
  have hwrite : CalendarInv u { s with db := commit (calendarWrites intl u s.db a) s.db } :=
    ⟨eventDocs_commit h.docs hws, h.nodup,
      fun clubs hc club hclub => mem_joined_commit hws (h.joined clubs hc club hclub)⟩
  unfold calendarStep at ht
  cases a with
  | joinClub _ _ | signUp _ | addClubEvent _ _ => cases ht; exact hwrite
  | switchTab index => cases ht; exact ⟨h.docs, h.nodup, h.joined⟩
  | readJoinedClubs =>
    obtain ⟨-, ht'⟩ := Option.ite_none_right_eq_some.1 ht
    cases ht'
    refine ⟨h.docs, fun clubs hc => ?_, fun clubs hc club hclub => ?_⟩
    · cases hc
      exact nodup_collection _ _
    · cases hc
      exact hclub
  | deliverClub _ | deliverVolunteer =>
    obtain ⟨-, ht'⟩ := Option.ite_none_right_eq_some.1 ht
    cases ht'
    exact ⟨h.docs, h.nodup, h.joined⟩

/-! ## What the tab lists -/

theorem mapM_eq_some_map {α β : Type} {f : α → Option β} {g : α → β} :
    ∀ {l : List α}, (∀ a ∈ l, f a = some (g a)) → l.mapM f = some (l.map g)
  | [], _ => rfl
  | a :: l, h => by
    rw [List.mapM_cons, h a List.mem_cons_self,
      mapM_eq_some_map fun b hb => h b (List.mem_cons_of_mem _ hb)]
    rfl

theorem eventSnapshot_of_delivered (h : Delivered u clubs s) (hne : clubs ≠ []) :
    s.eventSnapshot clubs = some (merged u clubs s.db) := by
  obtain ⟨hshots, hvolunteer⟩ := h.2 hne
  have hmap : clubs.mapM s.clubShots =
      some (clubs.map fun club => snapshotDocs s.db (clubEventsOf club)) :=
    mapM_eq_some_map hshots
  rw [CalendarTab.eventSnapshot, hmap, hvolunteer]
  rfl

theorem nodup_merged (hclubs : clubs.Nodup) : (merged u clubs db).Nodup := by
  refine List.nodup_append'.2 ⟨List.nodup_flatMap.2 ⟨fun club _ => nodup_snapshotDocs _ _, ?_⟩,
    nodup_snapshotDocs _ _, ?_⟩
  · refine hclubs.imp fun {club club'} hne => ?_
    rintro ⟨p, d⟩ h h'
    obtain ⟨i, rfl, -⟩ := mem_snapshotDocs.1 h
    obtain ⟨j, hij, -⟩ := mem_snapshotDocs.1 h'
    cases hij
    exact hne rfl
  · rintro ⟨p, d⟩ h h'
    obtain ⟨club, -, i, rfl, -⟩ := mem_getClubEvents.1 h
    obtain ⟨j, hij, -⟩ := mem_getVolunteerEvents.1 h'
    exact entriesOf_ne_clubEventsOf hij.symm

theorem appEvent_of_mem_merged (hdocs : EventDocs db) {x : Path × Doc}
    (hx : x ∈ merged u clubs db) : ∃ e : AppEvent, x.2 = e.doc := by
  rcases List.mem_append.1 hx with h | h
  · obtain ⟨club, -, i, hp, hd⟩ := mem_getClubEvents.1 h
    exact hdocs x.1 x.2 (.inl ⟨club, i, hp⟩) hd
  · obtain ⟨i, hp, hd⟩ := mem_getVolunteerEvents.1 h
    exact hdocs x.1 x.2 (.inr ⟨u, i, hp⟩) hd

/-- **What a tab that read some clubs lists**, with all snapshots delivered: the merged events,
unless two of them have the same date. -/
theorem listed_iff (A : Algorithm) (hdocs : EventDocs s.db) (h : Delivered u clubs s)
    (hne : clubs ≠ []) {P : List (Path × Doc) → Prop} (hP : ∀ l l', l.Perm l' → (P l ↔ P l')) :
    (∃ l, s.listed A = some l ∧ P l) ↔
      ((merged u clubs s.db).map fun x => dateOf x.2).Nodup ∧ P (merged u clubs s.db) := by
  have hraises : RaisesOnTies (fun a b : Path × Doc => compareEvents a.2 b.2)
      (fun x => dateOf x.2) (merged u clubs s.db) :=
    raisesOnTies_compareEvents Prod.snd fun x hx => appEvent_of_mem_merged hdocs hx
  have hlisted : s.listed A =
      A.sort (fun a b => compareEvents a.2 b.2) (merged u clubs s.db) := by
    unfold CalendarTab.listed
    rw [h.1]
    cases clubs with
    | nil => exact absurd rfl hne
    | cons club clubs =>
      simp only [eventSnapshot_of_delivered h hne]
      cases hm : merged u (club :: clubs) s.db with
      | nil =>
        rw [hm] at hraises
        obtain ⟨l, hsort, hperm, -⟩ := sort_of_nodup A hraises (by simp)
        rw [hsort, hperm.eq_nil]
      | cons e es => rfl
  rw [hlisted]
  constructor
  · rintro ⟨l, hsort, hl⟩
    have hnodup := nodup_of_sort A hraises hsort
    obtain ⟨l', hsort', hperm, -⟩ := sort_of_nodup A hraises hnodup
    rw [hsort] at hsort'
    cases hsort'
    exact ⟨hnodup, (hP _ _ hperm).1 hl⟩
  · rintro ⟨hnodup, hl⟩
    obtain ⟨l, hsort, hperm, -⟩ := sort_of_nodup A hraises hnodup
    exact ⟨l, hsort, (hP _ _ hperm).2 hl⟩

/-- The merged events are the calendar exactly when no club missing from the read has one. -/
theorem merged_eq_calendar_iff
    (hjoined : ∀ club ∈ clubs, club ∈ getUserJoinedClubs u db) :
    (∀ x, x ∈ merged u clubs db ↔ InCalendar u db x) ↔
      ∀ club ∈ getUserJoinedClubs u db, club ∉ clubs →
        snapshotDocs db (clubEventsOf club) = [] := by
  constructor
  · intro hall club hclub hnot
    rw [List.eq_nil_iff_forall_not_mem]
    rintro ⟨p, d⟩ hmem
    obtain ⟨i, rfl, hd⟩ := mem_snapshotDocs.1 hmem
    have hin := (hall (clubEventsOf club ++ [i], d)).2 ⟨.inl ⟨club, hclub, i, rfl⟩, hd⟩
    rcases List.mem_append.1 hin with h | h
    · obtain ⟨club', hclub', j, heq, -⟩ := mem_getClubEvents.1 h
      cases heq
      exact hnot hclub'
    · obtain ⟨j, heq, -⟩ := mem_getVolunteerEvents.1 h
      exact absurd heq.symm entriesOf_ne_clubEventsOf
  · rintro hempty ⟨p, d⟩
    unfold merged InCalendar
    rw [List.mem_append, mem_getClubEvents, mem_getVolunteerEvents]
    constructor
    · rintro (⟨club, hclub, i, hp, hd⟩ | ⟨i, hp, hd⟩)
      · exact ⟨.inl ⟨club, hjoined club hclub, i, hp⟩, hd⟩
      · exact ⟨.inr ⟨i, hp⟩, hd⟩
    · rintro ⟨⟨club, hclub, i, hp⟩ | ⟨i, hp⟩, hd⟩
      · refine .inl ⟨club, ?_, i, hp, hd⟩
        by_contra hnot
        have hmem : (p, d) ∈ snapshotDocs db (clubEventsOf club) := mem_snapshotDocs.2 ⟨i, hp, hd⟩
        rw [hempty club hclub hnot] at hmem
        cases hmem
      · exact .inr ⟨i, hp, hd⟩

/-- **In every reachable state with all snapshots delivered, the tab shows the user's calendar
exactly when it can** with the clubs it read. -/
theorem showsCalendar_iff (A : Algorithm) (hdb : EventDocs db) (as : List CalendarAction) :
    ∀ s ∈ visited (calendarStep intl u) (.start db) as, ∀ clubs, Delivered u clubs s →
      (ShowsCalendar A u s ↔ CanShow u clubs s.db) := by
  intro s hs clubs hdelivered
  have hinv : CalendarInv u s :=
    visited_invariant (calendarInv_start hdb) (fun _ _ _ h ht => calendarInv_step h ht) as s hs
  by_cases hne : clubs = []
  · -- the builder stops at the clubs, and lists nothing
    have hlisted : s.listed A = some [] := by
      unfold CalendarTab.listed
      rw [hdelivered.1, hne]
    simp only [ShowsCalendar, CanShow, hlisted, hne, Option.some.injEq, exists_eq_left',
      List.nodup_nil, List.not_mem_nil, false_iff, true_and, ne_eq, not_true_eq_false, false_and,
      or_false]
  · have hP : ∀ l l' : List (Path × Doc), l.Perm l' →
        ((l.Nodup ∧ ∀ x, x ∈ l ↔ InCalendar u s.db x) ↔
          l'.Nodup ∧ ∀ x, x ∈ l' ↔ InCalendar u s.db x) := fun l l' hperm => by
      simp only [hperm.nodup_iff, hperm.mem_iff]
    unfold ShowsCalendar CanShow
    rw [listed_iff A hinv.docs hdelivered hne hP,
      merged_eq_calendar_iff (hinv.joined clubs hdelivered.1)]
    simp only [hne, false_and, false_or, not_false_eq_true, true_and, ne_eq,
      nodup_merged (hinv.nodup clubs hdelivered.1)]

/-- Ann joins a club before the tab reads her clubs; the club then meets. -/
def joinThenRead : List CalendarAction :=
  [.joinClub sampleAutoId chessClub, .readJoinedClubs,
    .addClubEvent chessClub.clubName chessMeeting, .deliverClub "Chess", .deliverVolunteer]

/-- The tab reads no club, and then Ann joins one that meets. -/
def readThenJoin : List CalendarAction :=
  [.readJoinedClubs, .joinClub sampleAutoId chessClub,
    .addClubEvent chessClub.clubName chessMeeting]

theorem eventDocs_empty : EventDocs ∅ := fun _ _ _ h => (by cases h)

theorem showsCalendar_iff_joinThenRead :
    ShowsCalendar insertionSort ann
        (exec (calendarStep marchThird ann) (.start ∅) joinThenRead) ↔
      CanShow ann ["Chess"] (exec (calendarStep marchThird ann) (.start ∅) joinThenRead).db :=
  have hdelivered : Delivered ann ["Chess"]
      (exec (calendarStep marchThird ann) (.start ∅) joinThenRead) :=
    ⟨rfl, fun _ => ⟨fun club hclub => by rw [List.mem_singleton.1 hclub]; rfl, rfl⟩⟩
  showsCalendar_iff insertionSort eventDocs_empty joinThenRead _ (mem_visited.2 (.inr rfl))
    ["Chess"] hdelivered

/-- A club joined after the read is missing, although it meets. -/
theorem club_joined_later_missing :
    ¬ ∀ s ∈ visited (calendarStep marchThird ann) (.start ∅) readThenJoin, ∀ clubs,
      Delivered ann clubs s → ShowsCalendar insertionSort ann s := by
  intro h
  obtain ⟨l, hlisted, -, hmem⟩ := h (exec (calendarStep marchThird ann) (.start ∅) readThenJoin)
    (mem_visited.2 (.inr rfl)) [] ⟨rfl, fun hne => absurd rfl hne⟩
  cases hlisted
  have hmeeting : InCalendar ann (exec (calendarStep marchThird ann) (.start ∅) readThenJoin).db
      (clubEventsOf "Chess" ++ ["Meeting"], chessMeeting.doc) :=
    ⟨.inl ⟨"Chess", by decide, "Meeting", rfl⟩, rfl⟩
  cases (hmem _).2 hmeeting

end TheHive
