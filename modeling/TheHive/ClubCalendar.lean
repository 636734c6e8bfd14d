import TheHive.Lib.Transition
import TheHive.CalendarDelete

/-!
# The calendars of the clubs

`ClubCalendarPage` adds, deletes and lists the events of one club; each of the three spells out
the location by itself.

* `EventMap` — what the calendars are for: for each club a map from names to the events last
  added.
* `clubCalendarStep` — Add Event and the delete action of a tile, on the store and on the map.
* `ShowsMap` — the lists of all clubs show the maps.  `ClubFrame` — an action changes nothing but
  documents of its own club's list.
* `delete_keeps_list` — the delete action of the page changes no list.
* `showsMap_step` — a step keeps the lists right exactly when it is a `PlainAdd`.
* `clubCalendarLaw_iff` — **a run keeps the law exactly when it adds events under plain names
  only and deletes none**.
* `deleted_event_stays` — an event is added and deleted.
-/

set_option autoImplicit false

namespace TheHive

open DocStore Transition

/-- The `itemBuilder` of the list, word for word the one of My Calendar. -/
def ClubCalendarPage.tile (intl : Intl) (event : Doc) : Option EventTile :=
  CalendarPage.tile intl event

inductive ClubCalendarAction where
  | addEvent (clubName : DocId) (e : ClubEvent)
  /-- On a tile of the club's list. -/
  | deleteTile (clubName : DocId) (eventName : String)

/-- The club whose page the action is on. -/
def ClubCalendarAction.club : ClubCalendarAction → DocId
  | addEvent clubName _ => clubName
  | deleteTile clubName _ => clubName

/-! ## What the calendars are for -/

/-- For each club, the events added and not deleted since, by name. -/
abbrev EventMap := DocId → String → Option ClubEvent

namespace EventMap

def add (m : EventMap) (clubName : DocId) (e : ClubEvent) : EventMap :=
  Function.update m clubName (Function.update (m clubName) e.eventName (some e))

def delete (m : EventMap) (clubName : DocId) (eventName : String) : EventMap :=
  Function.update m clubName (Function.update (m clubName) eventName none)

theorem add_eq_some_iff {m : EventMap} {clubName c : DocId} {e e' : ClubEvent} {n : String} :
    m.add clubName e c n = some e' ↔
      c = clubName ∧ n = e.eventName ∧ e' = e ∨
        ¬ (c = clubName ∧ n = e.eventName) ∧ m c n = some e' := by
  unfold add
  by_cases hc : c = clubName
  · subst hc
    by_cases hn : n = e.eventName
    · subst hn
      simp [eq_comm]
    · simp [hn]
  · simp [hc]

theorem delete_eq_none (m : EventMap) (clubName : DocId) (eventName : String) :
    m.delete clubName eventName clubName eventName = none := by
  simp [delete]

end EventMap

/-! ## The page -/

structure ClubCalendars where
  db : Db
  /-- The map, kept beside the store to compare with. -/
  added : EventMap

/-- A tile with that name is in the club's list. -/
def listsTile (db : Db) (clubName : DocId) (eventName : String) : Bool :=
  (snapshotDocs db (clubEventsOf clubName.val)).any fun x => Doc.str x.2 .eventName = some eventName

def clubCalendarStep (s : ClubCalendars) : ClubCalendarAction → Option ClubCalendars
  | .addEvent clubName e =>
    (ClubCalendarPage.saveEventToFirestore clubName e).map fun w =>
      ⟨commit [w] s.db, s.added.add clubName e⟩
  | .deleteTile clubName eventName =>
    if listsTile s.db clubName eventName then
      some ⟨commit (ClubCalendarPage.deleteTask eventName).toList s.db,
        s.added.delete clubName eventName⟩
    else none

/-- The calendars before any event was added. -/
def ClubCalendars.start (db : Db) : ClubCalendars := ⟨db, fun _ _ => none⟩

/-- No club has an event. -/
def NoClubEvents (db : Db) : Prop :=
  ∀ (clubName : DocId) (i : String), db.lookup (clubEventsOf clubName.val ++ [i]) = none

/-- Every club's list shows the events of the map, each with the fields it was added with, and
no other. -/
def ShowsMap (s : ClubCalendars) : Prop :=
  ∀ (clubName : DocId) (p : Path) (d : Doc),
    (p, d) ∈ snapshotDocs s.db (clubEventsOf clubName.val) ↔
      ∃ n e, s.added clubName n = some e ∧ p = clubEventsOf clubName.val ++ [n] ∧ d = e.doc

/-- Only documents of the club's list have changed. -/
def ClubFrame (clubName : DocId) (db db' : Db) : Prop :=
  ∀ q, (∀ i, q ≠ clubEventsOf clubName.val ++ [i]) → db'.lookup q = db.lookup q

/-- The law of the calendars over a run. -/
structure ClubCalendarLaw (db : Db) (as : List ClubCalendarAction) : Prop where
  shown : ∀ s ∈ visited clubCalendarStep (.start db) as, ShowsMap s
  frame : ∀ x ∈ taken clubCalendarStep (.start db) as, ∀ t, clubCalendarStep x.1 x.2 = some t →
    ClubFrame x.2.club x.1.db t.db

/-- Add Event with a name that has no separator. -/
def PlainAdd : ClubCalendarAction → Prop
  | .addEvent _ e => '/' ∉ e.eventName.toList
  | .deleteTile _ _ => False

variable {db : Db} {s t : ClubCalendars} {a : ClubCalendarAction} {clubName : DocId} {e : ClubEvent}
  {eventName : String}

/-! ## The two writes -/

theorem addEvent_cases (ht : clubCalendarStep s (.addEvent clubName e) = some t) :
    t.added = s.added.add clubName e ∧
      t.db = s.db.insert (clubEventsOf clubName.val ++ segments e.eventName) e.doc := by
  obtain ⟨w, hw, rfl⟩ := Option.map_eq_some_iff.1 ht
  obtain ⟨p, hp, rfl⟩ := ClubCalendarPage.saveEventToFirestore_cases hw
  rw [prefix_of_doc hp]
  exact ⟨rfl, rfl⟩

/-- **The delete action of the page changes no list**: it addresses the collection `events`. -/
theorem delete_keeps_list (eventName : String) (c : DocId) (i : String) :
    (commit (ClubCalendarPage.deleteTask eventName).toList db).lookup (clubEventsOf c.val ++ [i]) =
      db.lookup (clubEventsOf c.val ++ [i]) := by
  refine commit_frame fun w hw => ?_
  rw [Option.mem_toList] at hw
  obtain ⟨p, hp, rfl⟩ := ClubCalendarPage.deleteTask_cases hw
  show _ ≠ p
  rw [prefix_of_doc hp]
  simp [clubEventsOf]

/-! ## One step -/

/-- Only documents with plain names are in the lists, and the map is keyed by the names. -/
structure ClubCalendarInv (s : ClubCalendars) : Prop where
  plain : ∀ (clubName : DocId) (i : String) (d : Doc),
    s.db.lookup (clubEventsOf clubName.val ++ [i]) = some d → '/' ∉ i.toList
  keyed : ∀ clubName n e, s.added clubName n = some e → e.eventName = n

theorem clubCalendarInv_start (hdb : NoClubEvents db) : ClubCalendarInv (.start db) := by
  refine ⟨fun c i d h => ?_, fun c n e h => by cases h⟩
  rw [show (ClubCalendars.start db).db = db from rfl, hdb c i] at h
  cases h

theorem showsMap_start (hdb : NoClubEvents db) : ShowsMap (.start db) := by
  intro c p d
  refine iff_of_false (fun h => ?_) fun ⟨n, e, h, _⟩ => by cases h
  obtain ⟨i, rfl, hd⟩ := mem_snapshotDocs.1 h
  rw [show (ClubCalendars.start db).db = db from rfl, hdb c i] at hd
  cases hd

/-- The lists of two clubs are apart. -/
theorem clubEventsOf_append_inj {c c' : DocId} {l l' : Path}
    (h : clubEventsOf c.val ++ l = clubEventsOf c'.val ++ l') : c = c' ∧ l = l' := by
  obtain ⟨hcoll, hl⟩ := List.append_inj h rfl
  have hval : c.val = c'.val := by simpa [clubEventsOf] using hcoll
  exact ⟨DocId.val_injective hval, hl⟩

theorem listed_path_cases {c : DocId} {i n : String}
    (h : clubEventsOf c.val ++ [i] = clubEventsOf clubName.val ++ segments n) :
    c = clubName ∧ i = n ∧ '/' ∉ n.toList := by
  obtain ⟨hc, hseg⟩ := clubEventsOf_append_inj h
  obtain ⟨rfl, hplain⟩ := segments_eq_singleton_iff.1 hseg.symm
  exact ⟨hc, rfl, hplain⟩

theorem clubCalendarInv_step (h : ClubCalendarInv s) (ht : clubCalendarStep s a = some t) :
    ClubCalendarInv t := by
  cases a with
  | addEvent clubName e =>
    obtain ⟨hadded, hdb⟩ := addEvent_cases ht
    refine ⟨fun c i d hd => ?_, fun c n e' he' => ?_⟩
    · rw [hdb] at hd
      by_cases hp : clubEventsOf c.val ++ [i] = clubEventsOf clubName.val ++ segments e.eventName
      · obtain ⟨-, rfl, hplain⟩ := listed_path_cases hp
        exact hplain
      · rw [AList.lookup_insert_ne hp] at hd
        exact h.plain c i d hd
    · rw [hadded, EventMap.add_eq_some_iff] at he'
      rcases he' with ⟨-, rfl, rfl⟩ | ⟨-, hold⟩
      · rfl
      · exact h.keyed c n e' hold
  | deleteTile clubName eventName =>
    obtain ⟨-, ht'⟩ := Option.ite_none_right_eq_some.1 ht
    cases ht'
    refine ⟨fun c i d hd => ?_, fun c n e he => ?_⟩
    · rw [delete_keeps_list] at hd
      exact h.plain c i d hd
    · by_cases hc : c = clubName
      · subst hc
        simp only [EventMap.delete, Function.update_self] at he
        by_cases hn : n = eventName
        · subst hn
          simp at he
        · rw [Function.update_of_ne hn] at he
          exact h.keyed c n e he
      · simp only [EventMap.delete, Function.update_of_ne hc] at he
        exact h.keyed c n e he

/-- The lists after an event was added under a plain name. -/
theorem showsMap_add (hs : ShowsMap s) (hplain : '/' ∉ e.eventName.toList)
    (ht : clubCalendarStep s (.addEvent clubName e) = some t) : ShowsMap t := by
  obtain ⟨hadded, hdb⟩ := addEvent_cases ht
  rw [segments_eq_singleton_iff.2 ⟨rfl, hplain⟩] at hdb
  intro c p d
  rw [hadded, mem_snapshotDocs, hdb]
  simp only [EventMap.add_eq_some_iff]
  by_cases hp : p = clubEventsOf clubName.val ++ [e.eventName]
  · -- the new document
    subst hp
    rw [AList.lookup_insert]
    constructor
    · rintro ⟨i, hi, hd⟩
      obtain ⟨rfl, -⟩ := clubEventsOf_append_inj hi
      cases hd
      exact ⟨e.eventName, e, .inl ⟨rfl, rfl, rfl⟩, rfl, rfl⟩
    · rintro ⟨n, e', hcase, hpath, rfl⟩
      obtain ⟨rfl, hname⟩ := clubEventsOf_append_inj hpath
      cases hname
      rcases hcase with ⟨-, -, rfl⟩ | ⟨hne, -⟩
      · exact ⟨e'.eventName, rfl, rfl⟩
      · exact absurd ⟨rfl, rfl⟩ hne
  · rw [AList.lookup_insert_ne hp, ← mem_snapshotDocs, hs c p d]
    constructor
    · rintro ⟨n, e', hold, rfl, rfl⟩
      exact ⟨n, e', .inr ⟨fun ⟨hc, hn⟩ => hp (by rw [hc, hn]), hold⟩, rfl, rfl⟩
    · rintro ⟨n, e', ⟨rfl, rfl, rfl⟩ | ⟨-, hold⟩, hpath, rfl⟩
      · exact absurd hpath hp
      · exact ⟨n, e', hold, hpath, rfl⟩

/-- **One step keeps the lists right exactly when it adds an event under a plain name.** -/
theorem showsMap_step (h : ClubCalendarInv s) (hs : ShowsMap s)
    (ht : clubCalendarStep s a = some t) : ShowsMap t ↔ PlainAdd a := by
  cases a with
  | addEvent clubName e =>
    refine ⟨fun hshows => ?_, fun hplain => showsMap_add hs hplain ht⟩
    -- the list shows the event, so its name is that of a listed document
    obtain ⟨hadded, -⟩ := addEvent_cases ht
    have hmem := (hshows clubName (clubEventsOf clubName.val ++ [e.eventName]) e.doc).2
      ⟨e.eventName, e, by rw [hadded]; exact EventMap.add_eq_some_iff.2 (.inl ⟨rfl, rfl, rfl⟩),
        rfl, rfl⟩
    obtain ⟨i, hi, hd⟩ := mem_snapshotDocs.1 hmem
    exact (clubCalendarInv_step h ht).plain clubName e.eventName e.doc hd
  | deleteTile clubName eventName =>
    obtain ⟨hlists, ht'⟩ := Option.ite_none_right_eq_some.1 ht
    cases ht'
    refine iff_of_false (fun hshows => ?_) id
    -- the tile is still in the list
    obtain ⟨⟨p, d⟩, hmem, hname⟩ := List.any_eq_true.1 hlists
    obtain ⟨n, e, hadded, rfl, rfl⟩ := (hs clubName p d).1 hmem
    have hn : n = eventName := by
      have hstr : e.eventName = eventName := Option.some.inj (of_decide_eq_true hname)
      rw [← hstr, h.keyed clubName n e hadded]
    subst hn
    obtain ⟨i, hi, hd⟩ := mem_snapshotDocs.1 hmem
    rw [← delete_keeps_list n] at hd
    obtain ⟨n', e', hadded', hpath, -⟩ :=
      (hshows clubName (clubEventsOf clubName.val ++ [n]) e.doc).1 (mem_snapshotDocs.2 ⟨n, rfl, hd⟩)
    obtain ⟨-, hnn⟩ := clubEventsOf_append_inj hpath
    cases hnn
    have hnone : s.added.delete clubName n clubName n = none := EventMap.delete_eq_none ..
    rw [show s.added.delete clubName n clubName n = some e' from hadded'] at hnone
    cases hnone

/-- Add Event under a plain name changes one document of the club's list. -/
theorem clubFrame_of_plainAdd (hplain : PlainAdd a) (ht : clubCalendarStep s a = some t) :
    ClubFrame a.club s.db t.db := by
  cases a with
  | addEvent clubName e =>
    obtain ⟨-, hdb⟩ := addEvent_cases ht
    rw [segments_eq_singleton_iff.2 ⟨rfl, hplain⟩] at hdb
    intro q hq
    rw [hdb]
    exact AList.lookup_insert_ne (hq e.eventName)
  | deleteTile clubName eventName => exact absurd hplain id

/-! ## Runs -/

/-- **The calendars keep their law over a run exactly when** it adds events under plain names
only, and deletes none. -/
theorem clubCalendarLaw_iff (hdb : NoClubEvents db) (as : List ClubCalendarAction) :
    ClubCalendarLaw db as ↔ ∀ x ∈ taken clubCalendarStep (.start db) as, PlainAdd x.2 := by
  have hshown : (∀ s ∈ visited clubCalendarStep (.start db) as, ShowsMap s) ↔
      ∀ x ∈ taken clubCalendarStep (.start db) as, PlainAdd x.2 :=
    visited_iff_taken (C := fun _ a => PlainAdd a) (clubCalendarInv_start hdb) (showsMap_start hdb)
      (fun _ _ _ h ht => clubCalendarInv_step h ht) (fun _ _ _ h hs ht => showsMap_step h hs ht) as
  constructor
  · intro h
    exact hshown.1 h.shown
  · intro h
    exact ⟨hshown.2 h, fun x hx t ht => clubFrame_of_plainAdd (h x hx) ht⟩

/-- The chess club meets, and the meeting is called off. -/
def addThenDelete : List ClubCalendarAction :=
  [.addEvent chessClub.clubName chessMeeting, .deleteTile chessClub.clubName "Meeting"]

theorem noClubEvents_empty : NoClubEvents ∅ := fun _ _ => rfl

theorem clubCalendarLaw_iff_addThenDelete :
    ClubCalendarLaw ∅ addThenDelete ↔
      ∀ x ∈ taken clubCalendarStep (.start ∅) addThenDelete, PlainAdd x.2 :=
  clubCalendarLaw_iff noClubEvents_empty addThenDelete

/-- The deleted meeting stays in the list of its club. -/
theorem deleted_event_stays : ¬ ClubCalendarLaw ∅ addThenDelete := by
  intro h
  have hlast := h.shown (exec clubCalendarStep (.start ∅) addThenDelete) (mem_visited.2 (.inr rfl))
  obtain ⟨n, e, hadded, hpath, -⟩ := (hlast chessClub.clubName
    (clubEventsOf "Chess" ++ ["Meeting"]) chessMeeting.doc).1
      (mem_snapshotDocs.2 ⟨"Meeting", rfl, rfl⟩)
  cases hpath
  cases hadded

end TheHive
