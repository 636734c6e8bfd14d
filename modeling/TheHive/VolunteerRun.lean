import TheHive.Lib.Transition
import TheHive.CalendarPage

/-!
# Volunteer events over a run

Any users create and delete volunteer events; devices build tiles from the snapshots they
receive and keep them for as long as they like; taps send their two writes, which arrive late
and in any order.  Events of all names share the run.

* `volunteerStep` — the five kinds of steps.
* `current` — the event of the last creation of a name, unless a deletion followed.
* `VolunteerInv` — every stored count, shown count and update under way is at most one with which
  the name was created, and not negative unless it was created so; an entry is a copy of a created
  event; a name is stored exactly while it is `current`.
* `remainingSeats_bounded` — **the stored count lies between 0 and the largest count the name was
  created with**.
* `volunteerEntries_follow` — **an entry copies an event that was created, and the event is stored
  with the same times and place exactly when the last creation or deletion of its name is a
  creation with these values**.
* `deleted_event_leaves_entry` — an event is deleted after a sign-up.
-/

set_option autoImplicit false

namespace TheHive

open DocStore Transition

structure VolunteerRun where
  db : Db
  /-- The tiles on the devices, each as it was built and with the formats of its device. -/
  tiles : List (Intl × VolunteerEventTile)
  /-- The writes of the taps that have not arrived. -/
  net : List Write

inductive VolunteerAction where
  | create (e : VolunteerEvent)
  | delete (eventName : String)
  /-- A device builds a tile from the server's document of the event as it is now.  The updates of
  its own that are still under way are left out of it. -/
  | deliver (intl : Intl) (user : Option User) (event : DocId)
  | tap (n : Nat)
  | arrive (n : Nat)

def volunteerStep (s : VolunteerRun) : VolunteerAction → Option VolunteerRun
  | .create e => (VolunteerPage.saveEventToFirestore e).map fun w => { s with db := w.settle s.db }
  | .delete eventName =>
    (VolunteerPage.deleteTask eventName).map fun w => { s with db := w.settle s.db }
  | .deliver intl user event => do
    let d ← s.db.lookup (volunteerPath event)
    let t ← VolunteerPage.tile intl user d
    return { s with tiles := s.tiles ++ [(intl, t)] }
  | .tap n => do
    let x ← s.tiles[n]?
    return { s with net := s.net ++ x.2.onTap x.1 }
  | .arrive n => do
    let w ← s.net[n]?
    return { s with db := w.settle s.db, net := s.net.eraseIdx n }

def VolunteerRun.start (db : Db) : VolunteerRun := ⟨db, [], []⟩

/-- The steps taken so far. -/
abbrev VolunteerHistory := List (VolunteerRun × VolunteerAction)

def Created (h : VolunteerHistory) (e : VolunteerEvent) : Prop := ∃ s, (s, .create e) ∈ h

/-- What a step makes of the event listed under a name. -/
def changeListed (name : String) (c : Option VolunteerEvent) : VolunteerAction → Option VolunteerEvent
  | .create e => if e.eventName = name then some e else c
  | .delete eventName => if eventName = name then none else c
  | _ => c

/-- The event of the last creation of a name, unless a deletion followed. -/
def current (h : VolunteerHistory) (name : String) : Option VolunteerEvent :=
  h.foldl (fun c x => changeListed name c x.2) none

/-- The same times and place. -/
def SameSlot (d d' : Doc) : Prop :=
  d .startTime = d' .startTime ∧ d .endTime = d' .endTime ∧ d .eventLocation = d' .eventLocation

/-- Every entry has an event of the same name, times and place. -/
def NoDangling (db : Db) : Prop :=
  ∀ (u : User) (i : String) (d : Doc), db.lookup (entriesOf u ++ [i]) = some d →
    ∃ d', db.lookup ["volunteer", i] = some d' ∧ SameSlot d' d

/-- The document copies the times and the place of an event created under the name. -/
def CopiesCreated (h : VolunteerHistory) (name : String) (d : Doc) : Prop :=
  ∃ e, Created h e ∧ e.eventName = name ∧ SameSlot e.doc d

/-- A count no larger than one the name was created with; if it is negative, it is one of
these. -/
def InBounds (h : VolunteerHistory) (name : String) (k : Int) : Prop :=
  ∃ e, Created h e ∧ e.eventName = name ∧ k ≤ e.numberOfPeople ∧ (0 ≤ k ∨ k = e.numberOfPeople)

/-- No volunteer event and no entry yet. -/
structure NoVolunteerEvents (db : Db) : Prop where
  events : ∀ l, db.lookup ("volunteer" :: l) = none
  entries : ∀ (u : User) (i : String), db.lookup (entriesOf u ++ [i]) = none

variable {db : Db} {s t : VolunteerRun} {a : VolunteerAction} {h : VolunteerHistory}
  {e : VolunteerEvent} {name : String} {p : Path} {k : Int} {event : DocId} {w : Write}

/-! ## The history -/

theorem current_append (x : VolunteerRun × VolunteerAction) :
    current (h ++ [x]) name = changeListed name (current h name) x.2 := by
  simp [current]

theorem Created.append (hc : Created h e) (x : VolunteerRun × VolunteerAction) :
    Created (h ++ [x]) e := by
  obtain ⟨s, hs⟩ := hc
  exact ⟨s, List.mem_append_left _ hs⟩

theorem created_last (s : VolunteerRun) (e : VolunteerEvent) : Created (h ++ [(s, .create e)]) e :=
  ⟨s, by simp⟩

theorem InBounds.append (hk : InBounds h name k) (x : VolunteerRun × VolunteerAction) :
    InBounds (h ++ [x]) name k := by
  obtain ⟨e, hc, hrest⟩ := hk
  exact ⟨e, hc.append x, hrest⟩

theorem CopiesCreated.append {d : Doc} (hd : CopiesCreated h name d)
    (x : VolunteerRun × VolunteerAction) : CopiesCreated (h ++ [x]) name d := by
  obtain ⟨e, hc, hrest⟩ := hd
  exact ⟨e, hc.append x, hrest⟩

/-- A count taken from a shown one that is positive. -/
theorem InBounds.pred (hk : InBounds h name k) (hpos : 0 < k) : InBounds h name (k - 1) := by
  obtain ⟨e, hc, hname, hle, -⟩ := hk
  exact ⟨e, hc, hname, by omega, .inl (by omega)⟩

/-! ## The invariant -/

/-- A write under way: an entry copied from a created event, or the update of a count. -/
def SentByTap (h : VolunteerHistory) (w : Write) : Prop :=
  (∃ u event d, w = .set (entryPath u event) d ∧ CopiesCreated h event.val d) ∨
    ∃ event k, w = countUpdate event k ∧ InBounds h event.val (k - 1)

/-- The tile was built from a document an event of its name has had. -/
def TileOfEvent (h : VolunteerHistory) (intl : Intl) (t : VolunteerEventTile) : Prop :=
  ∃ (user : Option User) (e : VolunteerEvent) (event : DocId),
    VolunteerPage.tile intl user e.doc = some t ∧ e.eventName = event.val ∧
      CopiesCreated h event.val e.doc ∧ InBounds h event.val e.numberOfPeople

/-- The document stored under a name is the event listed under it, with some count. -/
def StoredAs (h : VolunteerHistory) (name : String) (stored : Option Doc) : Prop :=
  match current h name with
  | none => stored = none
  | some e => e.eventName = name ∧ Created h e ∧
      ∃ k, stored = some (e.withCount k).doc ∧ InBounds h name k

/-- After the steps `h`. -/
structure VolunteerInv (h : VolunteerHistory) (s : VolunteerRun) : Prop where
  stored : ∀ name p, doc ["volunteer"] name = some p → StoredAs h name (s.db.lookup p)
  tiles : ∀ x ∈ s.tiles, TileOfEvent h x.1 x.2
  net : ∀ w ∈ s.net, SentByTap h w
  entries : ∀ (u : User) (i : String) (d : Doc), s.db.lookup (entriesOf u ++ [i]) = some d →
    IsDocId i ∧ CopiesCreated h i d

theorem SentByTap.append (hw : SentByTap h w) (x : VolunteerRun × VolunteerAction) :
    SentByTap (h ++ [x]) w := by
  rcases hw with ⟨u, event, d, rfl, hd⟩ | ⟨event, k, rfl, hk⟩
  · exact .inl ⟨u, event, d, rfl, hd.append x⟩
  · exact .inr ⟨event, k, rfl, hk.append x⟩

theorem TileOfEvent.append {intl : Intl} {t : VolunteerEventTile} (ht : TileOfEvent h intl t)
    (x : VolunteerRun × VolunteerAction) : TileOfEvent (h ++ [x]) intl t := by
  obtain ⟨user, e, event, htile, hname, hd, hk⟩ := ht
  exact ⟨user, e, event, htile, hname, hd.append x, hk.append x⟩

/-- A step that neither creates nor deletes under the name, and leaves its document. -/
theorem StoredAs.append {stored : Option Doc} (hd : StoredAs h name stored)
    {x : VolunteerRun × VolunteerAction}
    (hx : changeListed name (current h name) x.2 = current h name) :
    StoredAs (h ++ [x]) name stored := by
  unfold StoredAs at hd ⊢
  rw [current_append, hx]
  cases hcur : current h name with
  | none =>
    rw [hcur] at hd
    exact hd
  | some e =>
    rw [hcur] at hd
    obtain ⟨hname, hc, k, hk, hb⟩ := hd
    exact ⟨hname, hc.append x, k, hk, hb.append x⟩

namespace VolunteerInv

theorem start (hdb : NoVolunteerEvents db) : VolunteerInv [] (.start db) := by
  refine ⟨fun name p hp => ?_, fun x hx => (by cases hx), fun w hw => (by cases hw),
    fun u i d hd => ?_⟩
  · rw [prefix_of_doc hp]
    exact hdb.events _
  · rw [show (VolunteerRun.start db).db = db from rfl, hdb.entries u i] at hd
    cases hd

/-- The entries, one step later. -/
theorem entries_append (hi : VolunteerInv h s) (x : VolunteerRun × VolunteerAction) {u : User}
    {i : String} {d : Doc} (hd : s.db.lookup (entriesOf u ++ [i]) = some d) :
    IsDocId i ∧ CopiesCreated (h ++ [x]) i d := by
  obtain ⟨hid, hcopy⟩ := hi.entries u i d hd
  exact ⟨hid, hcopy.append x⟩

/-- **A write to the document of one name**, in a step that creates or deletes no other. -/
theorem of_write (hi : VolunteerInv h s) {x : VolunteerRun × VolunteerAction}
    (hp : doc ["volunteer"] name = some p) (hw : w.path = p)
    (hnew : StoredAs (h ++ [x]) name ((w.settle s.db).lookup p))
    (hx : ∀ n, name ≠ n → changeListed n (current h n) x.2 = current h n) :
    VolunteerInv (h ++ [x]) { s with db := w.settle s.db } := by
  -- the entries are below `Users`
  have hentries : ∀ (u : User) (i : String),
      (w.settle s.db).lookup (entriesOf u ++ [i]) = s.db.lookup (entriesOf u ++ [i]) := by
    intro u i
    refine Write.settle_frame ?_
    rw [hw, prefix_of_doc hp]
    simp [entriesOf]
  refine ⟨fun n q hq => ?_, fun y hy => (hi.tiles y hy).append x, fun v hv => (hi.net v hv).append x,
    fun u i _ hd => hi.entries_append x ((hentries u i).symm.trans hd)⟩
  by_cases hn : name = n
  · subst hn
    rw [hp] at hq
    cases hq
    exact hnew
  · have hne : q ≠ w.path := by
      rw [hw]
      rintro rfl
      exact hn (doc_injective hp hq)
    show StoredAs (h ++ [x]) n ((w.settle s.db).lookup q)
    rw [Write.settle_frame hne]
    exact (hi.stored n q hq).append (hx n hn)

theorem create (hi : VolunteerInv h s) (ht : volunteerStep s (.create e) = some t) :
    VolunteerInv (h ++ [(s, .create e)]) t := by
  obtain ⟨w, hw, rfl⟩ := Option.map_eq_some_iff.1 ht
  obtain ⟨p, hp, rfl⟩ := VolunteerPage.saveEventToFirestore_cases hw
  refine hi.of_write hp rfl ?_ fun n hn => if_neg hn
  rw [StoredAs, current_append, changeListed, if_pos rfl]
  exact ⟨rfl, created_last s e, e.numberOfPeople, AList.lookup_insert _, e, created_last s e, rfl,
    le_refl _, .inr rfl⟩

theorem delete {eventName : String} (hi : VolunteerInv h s)
    (ht : volunteerStep s (.delete eventName) = some t) :
    VolunteerInv (h ++ [(s, .delete eventName)]) t := by
  obtain ⟨w, hw, rfl⟩ := Option.map_eq_some_iff.1 ht
  obtain ⟨p, hp, rfl⟩ := VolunteerPage.deleteTask_cases hw
  refine hi.of_write hp rfl ?_ fun n hn => if_neg hn
  rw [StoredAs, current_append, changeListed, if_pos rfl]
  exact AList.lookup_erase p s.db

theorem deliver {intl : Intl} {user : Option User} (hi : VolunteerInv h s)
    (ht : volunteerStep s (.deliver intl user event) = some t) :
    VolunteerInv (h ++ [(s, .deliver intl user event)]) t := by
  simp only [volunteerStep, Option.bind_eq_bind, Option.bind_eq_some_iff, Option.pure_def,
    Option.some.injEq] at ht
  obtain ⟨d, hd, tile, htile, rfl⟩ := ht
  -- the document is the event listed under the name
  have hstored := hi.stored event.val (volunteerPath event) (doc_docId ["volunteer"] rfl event)
  rw [hd] at hstored
  have hnew : TileOfEvent h intl tile := by
    unfold StoredAs at hstored
    split at hstored
    · cases hstored
    · rename_i e _
      obtain ⟨hname, hc, k, hk, hb⟩ := hstored
      cases hk
      exact ⟨user, e.withCount k, event, htile, hname, ⟨e, hc, hname, rfl, rfl, rfl⟩, hb⟩
  refine ⟨fun name p hp => (hi.stored name p hp).append rfl, fun x hx => ?_,
    fun w hw => (hi.net w hw).append _, fun _ _ _ hd => hi.entries_append _ hd⟩
  rcases List.mem_append.1 hx with hx | hx
  · exact (hi.tiles x hx).append _
  · rw [List.mem_singleton.1 hx]
    exact hnew.append _

theorem tap {n : Nat} (hi : VolunteerInv h s) (ht : volunteerStep s (.tap n) = some t) :
    VolunteerInv (h ++ [(s, .tap n)]) t := by
  simp only [volunteerStep, Option.bind_eq_bind, Option.bind_eq_some_iff, Option.pure_def,
    Option.some.injEq] at ht
  obtain ⟨x, hx, rfl⟩ := ht
  obtain ⟨user, e, event, htile, hname, hd, hk⟩ := hi.tiles x (List.mem_of_getElem? hx)
  refine ⟨fun name p hp => (hi.stored name p hp).append rfl, fun y hy => (hi.tiles y hy).append _,
    fun w hw => ?_, fun _ _ _ hd => hi.entries_append _ hd⟩
  rcases List.mem_append.1 hw with hw | hw
  · exact (hi.net w hw).append _
  · refine SentByTap.append ?_ _
    rcases mem_onTap htile hname hw with ⟨u, date, rfl⟩ | ⟨hpos, rfl⟩
    · -- the entry has the times and the place of the tile
      exact .inl ⟨u, event, (entry e date).doc, rfl, hd⟩
    · exact .inr ⟨event, e.numberOfPeople, rfl, hk.pred hpos⟩

/-- An entry arrives. -/
theorem arrive_entry (hi : VolunteerInv h s) {x : VolunteerRun × VolunteerAction} {u : User} {d : Doc}
    (hd : CopiesCreated h event.val d) (hx : ∀ name c, changeListed name c x.2 = c) :
    VolunteerInv (h ++ [x]) { s with db := (Write.set (entryPath u event) d).settle s.db } := by
  refine ⟨fun name p hp => ?_, fun y hy => (hi.tiles y hy).append x,
    fun w hw => (hi.net w hw).append x, fun u' i d' hd' => ?_⟩
  · have hne : p ≠ entryPath u event := by
      rw [prefix_of_doc hp]
      simp [entryPath]
    show StoredAs _ _ ((Write.settle _ _).lookup p)
    rw [Write.settle_frame hne]
    exact (hi.stored name p hp).append (hx name _)
  · change (s.db.insert (entryPath u event) d).lookup (entriesOf u' ++ [i]) = some d' at hd'
    by_cases hp : entriesOf u' ++ [i] = entryPath u event
    · rw [hp, AList.lookup_insert] at hd'
      cases hd'
      have hi' : i = event.val := by
        simp only [entriesOf, entryPath, List.cons_append, List.nil_append, List.cons.injEq,
          true_and, and_true] at hp
        exact hp.2
      rw [hi']
      exact ⟨event.ok, hd.append x⟩
    · rw [AList.lookup_insert_ne hp] at hd'
      exact hi.entries_append x hd'

/-- The update of a count arrives; without the document it is rejected. -/
theorem arrive_update (hi : VolunteerInv h s) {x : VolunteerRun × VolunteerAction}
    (hk : InBounds h event.val (k - 1)) (hx : ∀ name c, changeListed name c x.2 = c) :
    VolunteerInv (h ++ [x]) { s with db := (countUpdate event k).settle s.db } := by
  have hevent : doc ["volunteer"] event.val = some (volunteerPath event) :=
    doc_docId ["volunteer"] rfl event
  refine hi.of_write hevent rfl ?_ fun n _ => hx n _
  have hstored := hi.stored event.val _ hevent
  refine StoredAs.append ?_ (hx _ _)
  unfold StoredAs at hstored ⊢
  cases hcur : current h event.val with
  | none =>
    rw [hcur] at hstored
    rw [Write.settle, countUpdate, Write.apply, hstored]
    exact hstored
  | some e =>
    rw [hcur] at hstored
    obtain ⟨hname, hc, k', hd, -⟩ := hstored
    refine ⟨hname, hc, k - 1, ?_, hk⟩
    rw [Write.settle, countUpdate, Write.apply_update hd, e.doc_overwrite, Option.getD_some]
    exact AList.lookup_insert _

theorem arrive {n : Nat} (hi : VolunteerInv h s) (ht : volunteerStep s (.arrive n) = some t) :
    VolunteerInv (h ++ [(s, .arrive n)]) t := by
  simp only [volunteerStep, Option.bind_eq_bind, Option.bind_eq_some_iff, Option.pure_def,
    Option.some.injEq] at ht
  obtain ⟨w, hw, rfl⟩ := ht
  have hdb : VolunteerInv (h ++ [(s, .arrive n)]) { s with db := w.settle s.db } := by
    rcases hi.net w (List.mem_of_getElem? hw) with ⟨u, event, d, rfl, hd⟩ | ⟨event, k, rfl, hk⟩
    · exact hi.arrive_entry hd fun _ _ => rfl
    · exact hi.arrive_update hk fun _ _ => rfl
  exact ⟨hdb.stored, hdb.tiles, fun w hw => hdb.net w (List.mem_of_mem_eraseIdx hw), hdb.entries⟩

/-- **Every step keeps the invariant.** -/
theorem step (hi : VolunteerInv h s) (ht : volunteerStep s a = some t) :
    VolunteerInv (h ++ [(s, a)]) t := by
  cases a with
  | create e => exact hi.create ht
  | delete eventName => exact hi.delete ht
  | deliver intl user event => exact hi.deliver ht
  | tap n => exact hi.tap ht
  | arrive n => exact hi.arrive ht

/-- **The invariant holds after every run.** -/
theorem run (hdb : NoVolunteerEvents db) (as : List VolunteerAction) :
    VolunteerInv (taken volunteerStep (.start db) as) (exec volunteerStep (.start db) as) :=
  history_invariant (start hdb) (fun _ _ _ _ hi ht => hi.step ht) as

end VolunteerInv

/-! ## The remaining seats -/

/-- **The stored count lies between 0 and the largest count its name was created with**, however
stale the tiles are and whenever the updates arrive. -/
theorem remainingSeats_bounded (hdb : NoVolunteerEvents db) (as : List VolunteerAction)
    (hp : doc ["volunteer"] name = some p)
    (hcounts : ∀ e, .create e ∈ as → e.eventName = name → 0 ≤ e.numberOfPeople) {d : Doc}
    (hd : (exec volunteerStep (.start db) as).db.lookup p = some d) :
    ∃ k, Doc.int d .numberOfPeople = some k ∧ 0 ≤ k ∧
      ∃ e, Created (taken volunteerStep (.start db) as) e ∧ e.eventName = name ∧
        k ≤ e.numberOfPeople := by
  have hstored := (VolunteerInv.run hdb as).stored name p hp
  rw [hd] at hstored
  unfold StoredAs at hstored
  split at hstored
  · cases hstored
  · obtain ⟨-, -, k, hk, e, hc, hname, hle, hlow⟩ := hstored
    cases hk
    refine ⟨k, rfl, ?_, e, hc, hname, hle⟩
    obtain ⟨s, hs⟩ := hc
    have hcount := hcounts e (mem_of_mem_taken as _ hs) hname
    omega

/-- Ann and Bob sign up for the two seats, both from the first snapshot. -/
def bothSignUp : List VolunteerAction :=
  [.create foodDrive, .deliver marchThird (some ann) foodDriveId,
   .deliver marchThird (some bob) foodDriveId, .tap 0, .tap 1, .arrive 0, .arrive 2, .arrive 0,
   .arrive 0]

theorem noVolunteerEvents_empty : NoVolunteerEvents ∅ := ⟨fun _ => rfl, fun _ _ => rfl⟩

theorem remainingSeats_bounded_bothSignUp :
    ∃ d, (exec volunteerStep (.start ∅) bothSignUp).db.lookup (volunteerPath foodDriveId) = some d ∧
      ∃ k, Doc.int d .numberOfPeople = some k ∧ 0 ≤ k ∧
        ∃ e, Created (taken volunteerStep (.start ∅) bothSignUp) e ∧ e.eventName = "Food Drive" ∧
          k ≤ e.numberOfPeople := by
  have hstored : ((exec volunteerStep (.start ∅) bothSignUp).db.lookup
      (volunteerPath foodDriveId)).isSome := by decide
  have hcounts : ∀ e, .create e ∈ bothSignUp → e.eventName = "Food Drive" → 0 ≤ e.numberOfPeople := by
    intro e he _
    simp only [bothSignUp, List.mem_cons, VolunteerAction.create.injEq, reduceCtorEq, or_false,
      List.not_mem_nil] at he
    rw [he]
    decide
  obtain ⟨d, hd⟩ := Option.isSome_iff_exists.1 hstored
  exact ⟨d, hd, remainingSeats_bounded noVolunteerEvents_empty bothSignUp
    (doc_docId ["volunteer"] rfl foodDriveId) hcounts hd⟩

/-! ## The entries -/

/-- **An entry copies an event that was created under its name**; the event is stored with the
same times and place exactly when the last creation or deletion of the name is a creation with
these values. -/
theorem volunteerEntries_follow (hdb : NoVolunteerEvents db) (as : List VolunteerAction) {u : User}
    {i : String} {d : Doc}
    (hd : (exec volunteerStep (.start db) as).db.lookup (entriesOf u ++ [i]) = some d) :
    CopiesCreated (taken volunteerStep (.start db) as) i d ∧
      ((∃ d', (exec volunteerStep (.start db) as).db.lookup ["volunteer", i] = some d' ∧
          SameSlot d' d) ↔
        ∃ e, current (taken volunteerStep (.start db) as) i = some e ∧ SameSlot e.doc d) := by
  have hi := VolunteerInv.run hdb as
  obtain ⟨hid, hcopy⟩ := hi.entries u i d hd
  refine ⟨hcopy, ?_⟩
  have hstored := hi.stored i ["volunteer", i] (doc_of_isDocId hid rfl)
  unfold StoredAs at hstored
  split at hstored
  · rename_i hcur
    rw [hcur, hstored]
    simp
  · rename_i e hcur
    obtain ⟨-, -, k, hk, -⟩ := hstored
    rw [hcur, hk]
    simp only [Option.some.injEq, exists_eq_left']
    exact Iff.rfl

/-- The event is deleted after Ann signed up. -/
def signUpThenDelete : List VolunteerAction :=
  [.create foodDrive, .deliver marchThird (some ann) foodDriveId, .tap 0, .arrive 0, .arrive 0,
   .delete "Food Drive"]

theorem volunteerEntries_follow_signUpThenDelete :
    ∃ d, (exec volunteerStep (.start ∅) signUpThenDelete).db.lookup (entriesOf ann ++ ["Food Drive"]) =
        some d ∧
      CopiesCreated (taken volunteerStep (.start ∅) signUpThenDelete) "Food Drive" d ∧
      ((∃ d', (exec volunteerStep (.start ∅) signUpThenDelete).db.lookup
          ["volunteer", "Food Drive"] = some d' ∧ SameSlot d' d) ↔
        ∃ e, current (taken volunteerStep (.start ∅) signUpThenDelete) "Food Drive" = some e ∧
          SameSlot e.doc d) := by
  have hstored : ((exec volunteerStep (.start ∅) signUpThenDelete).db.lookup
      (entriesOf ann ++ ["Food Drive"])).isSome := by decide
  obtain ⟨d, hd⟩ := Option.isSome_iff_exists.1 hstored
  exact ⟨d, hd, volunteerEntries_follow noVolunteerEvents_empty signUpThenDelete hd⟩

/-- Her entry stays without an event. -/
theorem deleted_event_leaves_entry :
    ¬ ∀ s ∈ visited volunteerStep (.start ∅) signUpThenDelete, NoDangling s.db := by
  intro hlaw
  have hlast := hlaw (exec volunteerStep (.start ∅) signUpThenDelete) (mem_visited.2 (.inr rfl))
  have hstored : ((exec volunteerStep (.start ∅) signUpThenDelete).db.lookup
      (entriesOf ann ++ ["Food Drive"])).isSome := by decide
  obtain ⟨d, hd⟩ := Option.isSome_iff_exists.1 hstored
  obtain ⟨d', hd', -⟩ := hlast ann "Food Drive" d hd
  have hgone : ((exec volunteerStep (.start ∅) signUpThenDelete).db.lookup
      ["volunteer", "Food Drive"]).isSome = false := by decide
  rw [hd'] at hgone
  cases hgone

end TheHive
