import TheHive.AppWrites
import TheHive.ClubCalendar

/-!
# The pages of the hive

The lists of the app and the profile, over runs of all writers.  My Calendar is not among the
pages here; the entries it is given are.

* `PostsStreamPage.tile`, `ProfilePage.body` — the two pages with texts to fall back on.
* `Listing` — a page that lists a collection: its references, its tiles and what they show.
  `Listing.shows_view`, `Listing.renders_iff` — the tiles are the contents, each once and in order;
  a tile is missing exactly at litter.
* `PagesRender`, `ShowsHive` — no page raises; every page shows the hive.
* `pagesRender_run` — **the pages render throughout a run exactly when no club lands on the path
  of an event**.
* `pages_show_hive` — **on every schedule the pages show the hive of that schedule**.
-/

set_option autoImplicit false

namespace TheHive

open DocStore TypedStore List

/-! ## Posts and the profile -/

/-- `data.containsKey(f) ? data[f] : ifMissing`, or `data[f] ?? ifMissing`; another type raises. -/
def Doc.strOr (d : Doc) (f : Field) (ifMissing : String) : Option String :=
  (Doc.optStr d f).map fun s => s.getD ifMissing

structure MyListTile where
  title : String
  subTitle : String
  trailing : String

/-- The `itemBuilder` of the posts. -/
def PostsStreamPage.tile (intl : Intl) (now : Timestamp) (data : Doc) : Option MyListTile := do
  let message ← Doc.strOr data .postMessage "No message"
  let userEmail ← Doc.strOr data .userEmail "No email"
  let timestamp ← (Doc.optTimestamp data .timeStamp).map fun t => t.getD now
  return ⟨message, userEmail, intl.format .MMddyyyy timestamp⟩

structure ProfileLines where
  username : String
  selectedSchool : String
  email : String

inductive ProfileBody where
  | error (text : String)
  | noUserData
  | lines (l : ProfileLines)

def ProfilePage.lines (user : Doc) : Option ProfileLines := do
  return {
    username := ← Doc.strOr user .username "No username available"
    selectedSchool := ← Doc.strOr user .selectedSchool "No school available"
    email := ← Doc.strOr user .email "No email available" }

/-- The page once `getUserDetials` has completed. -/
def ProfilePage.body (currentUser : Option User) (db : Db) : Option ProfileBody :=
  match currentUser with
  | none => some (.error "Error: Exception: User is not logged in or email is unavailable.")
  | some currentUser =>
    match db.lookup ["Users", currentUser.email] with
    | none => some .noUserData
    | some user => (ProfilePage.lines user).map .lines

/-! ## Listings -/

/-- A page that lists a collection. -/
structure Listing (α : Type) where
  coll : Path
  ref : DocId → Ref
  path_ref : ∀ i, (ref i).path = coll ++ [i.val]
  tile : Doc → Option α
  /-- What the tile of a content shows. -/
  shows : ∀ i, Content (ref i) → α
  tile_read : ∀ i d x, hiveSchema.read (ref i) d = some x → tile d = some (shows i x)
  tile_litter : ∀ i d, hiveSchema.litter (ref i) d → tile d = none

variable {α : Type} {L : Listing α} {intl : Intl} {db : Db}

def Listing.tiles (L : Listing α) (db : Db) : List α :=
  (snapshotDocs db L.coll).filterMap fun x => L.tile x.2

/-- No tile raises. -/
def Listing.Renders (L : Listing α) (db : Db) : Prop :=
  ∀ x ∈ snapshotDocs db L.coll, (L.tile x.2).isSome

/-- The listed documents are those of the references. -/
theorem Listing.mem_snapshotDocs (hdb : PlainPaths db) {p : Path} {d : Doc} :
    (p, d) ∈ snapshotDocs db L.coll ↔ ∃ i, p = (L.ref i).path ∧ db.lookup p = some d := by
  rw [TheHive.mem_snapshotDocs]
  constructor
  · rintro ⟨i, rfl, hd⟩
    have hi : IsDocId i := hdb _ (by rw [hd]; rfl) i (by simp)
    exact ⟨⟨i, hi⟩, (L.path_ref ⟨i, hi⟩).symm, hd⟩
  · rintro ⟨i, rfl, hd⟩
    exact ⟨i.val, L.path_ref i, hd⟩

/-- A list shows the contents at the references of its collection: each once, in the order of the
ids. -/
def Listing.Shows (L : Listing α) (hive : Hive) (tiles : List α) : Prop :=
  ∃ ids : List DocId, (∀ i, i ∈ ids ↔ (hive (L.ref i)).isSome) ∧
    (ids.Pairwise fun i j => i.val < j.val) ∧
      tiles.map some = ids.map fun i => (hive (L.ref i)).map (L.shows i)

/-- The ids of the contents. -/
def Listing.ids (L : Listing α) (db : Db) : List DocId :=
  (collection db L.coll).filterMap fun e =>
    (asDocId e.1).filter fun i => (hiveSchema.view db (L.ref i)).isSome

theorem Listing.mem_ids {i : DocId} :
    i ∈ L.ids db ↔ (hiveSchema.view db (L.ref i)).isSome := by
  unfold Listing.ids
  simp only [List.mem_filterMap, Option.filter_eq_some_iff, asDocId_eq_some_iff]
  constructor
  · rintro ⟨e, -, -, h⟩
    exact h
  · intro h
    obtain ⟨x, hx⟩ := Option.isSome_iff_exists.1 h
    obtain ⟨d, hd, -⟩ := view_eq_some_iff.1 hx
    refine ⟨(i.val, d), mem_collection.2 ?_, rfl, h⟩
    rw [← L.path_ref i]
    exact hd

theorem Listing.pairwise_ids : (L.ids db).Pairwise fun i j => i.val < j.val := by
  refine (pairwise_lt_collection db L.coll).filterMap _ ?_
  intro e e' hlt i hi j hj
  simp only [Option.filter_eq_some_iff, asDocId_eq_some_iff] at hi hj
  rw [hi.1, hj.1]
  exact hlt

/-- **The tiles of a page are the contents of its references**, each once and in order. -/
theorem Listing.shows_view (hdb : PlainPaths db) (hs : hiveSchema.Sound db) :
    L.Shows (hiveSchema.view db) (L.tiles db) := by
  refine ⟨L.ids db, fun i => Listing.mem_ids, Listing.pairwise_ids, ?_⟩
  unfold Listing.tiles Listing.ids snapshotDocs
  rw [List.filterMap_map, List.map_filterMap, List.map_filterMap]
  refine List.filterMap_congr ?_
  rintro ⟨i, d⟩ hmem
  have hd := mem_collection.1 hmem
  have hi : IsDocId i := hdb _ (by rw [hd]; rfl) i (by simp)
  have hpath : L.coll ++ [i] = (L.ref ⟨i, hi⟩).path := (L.path_ref ⟨i, hi⟩).symm
  rw [hpath] at hd
  have hview : hiveSchema.view db (L.ref ⟨i, hi⟩) = hiveSchema.read (L.ref ⟨i, hi⟩) d :=
    view_of_lookup hd
  have hid : asDocId i = some ⟨i, hi⟩ := asDocId_val ⟨i, hi⟩
  simp only [Function.comp_apply, hid]
  rcases hs (L.ref ⟨i, hi⟩) d hd with hread | ⟨hnone, hlitter⟩
  · obtain ⟨x, hx⟩ := Option.isSome_iff_exists.1 hread
    rw [hx] at hview
    simp [L.tile_read _ d x hx, hview]
  · rw [L.tile_litter _ d hlitter, Option.filter_some, hview, hnone]
    rfl

/-- **A page renders exactly when there is no litter at its references.** -/
theorem Listing.renders_iff (hdb : PlainPaths db) (hs : hiveSchema.Sound db) :
    L.Renders db ↔ ∀ i d, db.lookup (L.ref i).path = some d → ¬ hiveSchema.litter (L.ref i) d := by
  constructor
  · intro h i d hd hlitter
    have htile := h _ ((Listing.mem_snapshotDocs hdb).2 ⟨i, rfl, hd⟩)
    rw [L.tile_litter i d hlitter] at htile
    cases htile
  · rintro h ⟨p, d⟩ hmem
    obtain ⟨i, rfl, hd⟩ := (Listing.mem_snapshotDocs hdb).1 hmem
    rcases hs (L.ref i) d hd with hread | ⟨-, hlitter⟩
    · obtain ⟨x, hx⟩ := Option.isSome_iff_exists.1 hread
      show (L.tile d).isSome
      rw [L.tile_read i d x hx]
      rfl
    · exact absurd hlitter (h i d hd)

/-! The listings of the app. -/

/-- All Clubs. -/
def allClubs : Listing ClubTile where
  coll := ["club"]
  ref := .club
  path_ref _ := rfl
  tile := SearchPage.tile
  shows _ x := x.1
  tile_read _ _ _ h := read_club_iff.1 h
  tile_litter _ _ h := h.elim

/-- My Clubs. -/
def myClubs (u : User) : Listing ClubTile where
  coll := ["Users", u.email, "joinedClubs"]
  ref := .member u
  path_ref _ := rfl
  tile := HomePage.tile
  shows _ x := x.1
  tile_read _ _ _ h := read_member_iff.1 h
  tile_litter _ _ h := h.elim

/-- The tile of a club event. -/
def ClubEvent.tile (intl : Intl) (e : ClubEvent) : EventTile :=
  ⟨e.eventName, intl.format .ddMMyyyy e.eventDate, e.startTime, e.endTime, e.eventLocation⟩

/-- The tile of an entry in My Calendar. -/
def VolunteerEvent.calendarTile (intl : Intl) (e : VolunteerEvent) : EventTile :=
  ⟨e.eventName, intl.format .ddMMyyyy e.eventDate, e.startTime, e.endTime, e.eventLocation⟩

theorem tile_of_readClubEvent {d : Doc} {e : ClubEvent} (h : ClubEvent.read d = some e) :
    CalendarPage.tile intl d = some (e.tile intl) := by
  simp only [ClubEvent.read, Option.bind_eq_bind, Option.bind_eq_some_iff, Option.pure_def,
    Option.some.injEq] at h
  obtain ⟨n, hn, date, hdate, st, hst, en, hen, loc, hloc, rfl⟩ := h
  simp [CalendarPage.tile, hn, hdate, hst, hen, hloc, ClubEvent.tile]

theorem calendarTile_of_read {d : Doc} {e : VolunteerEvent} (h : VolunteerEvent.read d = some e) :
    CalendarPage.tile intl d = some (e.calendarTile intl) := by
  simp only [VolunteerEvent.read, Option.bind_eq_bind, Option.bind_eq_some_iff, Option.pure_def,
    Option.some.injEq] at h
  obtain ⟨n, hn, des, -, date, hdate, st, hst, en, hen, num, -, loc, hloc, rfl⟩ := h
  simp [CalendarPage.tile, hn, hdate, hst, hen, hloc, VolunteerEvent.calendarTile]

theorem volunteerTile_of_read {user : Option User} {d : Doc} {e : VolunteerEvent}
    (h : VolunteerEvent.read d = some e) :
    VolunteerPage.tile intl user d = some ⟨e.eventName, e.eventDes, intl.format .ddMMyyyy e.eventDate,
      e.startTime, e.endTime, e.numberOfPeople, e.eventLocation, user⟩ := by
  simp only [VolunteerEvent.read, Option.bind_eq_bind, Option.bind_eq_some_iff, Option.pure_def,
    Option.some.injEq] at h
  obtain ⟨n, hn, des, hdes, date, hdate, st, hst, en, hen, num, hnum, loc, hloc, rfl⟩ := h
  simp [VolunteerPage.tile, hn, hdes, hdate, hst, hen, hnum, hloc]

/-- The events of a club, on its calendar and in My Calendar. -/
def clubCalendar (intl : Intl) (club : DocId) : Listing EventTile where
  coll := clubEventsOf club.val
  ref := .clubEvent club
  path_ref _ := rfl
  tile := ClubCalendarPage.tile intl
  shows _ x := x.1.tile intl
  tile_read _ _ _ h := tile_of_readClubEvent (read_clubEvent_iff.1 h)
  tile_litter _ _ h := by
    obtain ⟨clubName, clubDes, clubAdvisor, rfl⟩ := h
    rfl

/-- The entries of a user, in My Calendar. -/
def entries (intl : Intl) (u : User) : Listing EventTile where
  coll := entriesOf u
  ref := .entry u
  path_ref _ := rfl
  tile := CalendarPage.tile intl
  shows _ x := x.1.calendarTile intl
  tile_read _ _ _ h := calendarTile_of_read (read_entry_iff.1 h)
  tile_litter _ _ h := h.elim

/-- The Volunteer page. -/
def volunteerEvents (intl : Intl) (user : Option User) : Listing VolunteerEventTile where
  coll := ["volunteer"]
  ref := .volunteer
  path_ref _ := rfl
  tile := VolunteerPage.tile intl user
  shows _ x := ⟨x.1.eventName, x.1.eventDes, intl.format .ddMMyyyy x.1.eventDate, x.1.startTime,
    x.1.endTime, x.1.numberOfPeople, x.1.eventLocation, user⟩
  tile_read _ _ _ h := volunteerTile_of_read (read_volunteer_iff.1 h)
  tile_litter _ _ h := h.elim

/-- The tile of a post. -/
def PostText.tile (intl : Intl) (p : PostText) : MyListTile :=
  ⟨p.postMessage, p.userEmail, intl.format .MMddyyyy p.timeStamp⟩

theorem optStr_of_str {d : Doc} {f : Field} {s : String} (h : Doc.str d f = some s) :
    Doc.optStr d f = some (some s) := by
  unfold Doc.str at h
  unfold Doc.optStr
  split at h
  · rename_i hd
    cases h
    rw [hd]
  · cases h

theorem optTimestamp_of_timestamp {d : Doc} {f : Field} {t : Timestamp}
    (h : Doc.timestamp d f = some t) : Doc.optTimestamp d f = some (some t) := by
  unfold Doc.timestamp at h
  unfold Doc.optTimestamp
  split at h
  · rename_i hd
    cases h
    rw [hd]
  · cases h

/-- **A readable post is shown with its own texts**: no fallback is used. -/
theorem postTile_of_read (now : Timestamp) {d : Doc} {p : PostText} (h : PostText.read d = some p) :
    PostsStreamPage.tile intl now d = some (p.tile intl) := by
  simp only [PostText.read, Option.bind_eq_bind, Option.bind_eq_some_iff, Option.pure_def,
    Option.some.injEq] at h
  obtain ⟨email, hemail, message, hmessage, t, ht, rfl⟩ := h
  simp [PostsStreamPage.tile, Doc.strOr, optStr_of_str hemail, optStr_of_str hmessage,
    optTimestamp_of_timestamp ht, PostText.tile]

theorem stamped_of_read {d : Doc} {p : PostText} (h : PostText.read d = some p) :
    (Doc.timestamp d .timeStamp).isSome := by
  simp only [PostText.read, Option.bind_eq_bind, Option.bind_eq_some_iff, Option.pure_def,
    Option.some.injEq] at h
  obtain ⟨-, -, -, -, t, ht, -⟩ := h
  rw [ht]
  rfl

/-- The posts of a club; the query selects those that have a time stamp. -/
def posts (intl : Intl) (now : Timestamp) (club : DocId) : Listing MyListTile where
  coll := postsOf club
  ref := .post club
  path_ref _ := rfl
  tile d := if (Doc.timestamp d .timeStamp).isSome then PostsStreamPage.tile intl now d else none
  shows _ x := PostText.tile intl x
  tile_read _ _ x h := by
    rw [if_pos (stamped_of_read (p := x) h)]
    exact postTile_of_read now (p := x) h
  tile_litter _ _ h := by
    obtain ⟨clubName, clubDes, clubAdvisor, rfl⟩ := h
    rfl

/-! ## All pages -/

/-- What the profile page shows of a profile. -/
def Profile.body : Option Profile → ProfileBody
  | none => .noUserData
  | some x => .lines
    { username := x.username.getD "No username available"
      selectedSchool := x.selectedSchool.getD "No school available"
      email := x.email.getD "No email available" }

theorem lines_of_read {d : Doc} {x : Profile} (h : Profile.read d = some x) :
    (ProfilePage.lines d).map .lines = some (Profile.body (some x)) := by
  simp only [Profile.read, Option.bind_eq_bind, Option.bind_eq_some_iff, Option.pure_def,
    Option.some.injEq] at h
  obtain ⟨email, hemail, username, husername, school, hschool, -, -, rfl⟩ := h
  simp [ProfilePage.lines, Doc.strOr, hemail, husername, hschool, Profile.body]

theorem profileBody_eq (hs : hiveSchema.Sound db) (u : User) :
    ProfilePage.body (some u) db = some (Profile.body (hiveSchema.view db (.profile u))) := by
  cases hd : db.lookup ["Users", u.email] with
  | none =>
    rw [view_of_not_stored (S := hiveSchema) (r := .profile u) hd]
    simp only [ProfilePage.body, hd]
    rfl
  | some d =>
    obtain ⟨x, hx⟩ := hs.read (r := .profile u) (fun _ h => h) hd
    rw [view_of_lookup (S := hiveSchema) (r := .profile u) hd, hx]
    simp only [ProfilePage.body, hd]
    exact lines_of_read hx

/-- No page raises. -/
structure PagesRender (intl : Intl) (db : Db) : Prop where
  allClubs : allClubs.Renders db
  myClubs : ∀ u, (myClubs u).Renders db
  clubCalendar : ∀ club, (clubCalendar intl club).Renders db
  volunteer : ∀ user, (volunteerEvents intl user).Renders db
  posts : ∀ club now, ∀ x ∈ FirestoreDatabase.getPostStream club db,
    (PostsStreamPage.tile intl now x.2).isSome
  profile : ∀ user, (ProfilePage.body user db).isSome

/-- The posts of a club are shown each once, by descending times and ids. -/
def ShowsPosts (intl : Intl) (club : DocId) (hive : Hive) (tiles : List (Option MyListTile)) : Prop :=
  ∃ ids : List DocId, (∀ i, i ∈ ids ↔ (hive (.post club i)).isSome) ∧
    (ids.Pairwise fun i j => ∀ x y : PostText, hive (.post club i) = some x →
      hive (.post club j) = some y →
        toLex (y.timeStamp, (Ref.post club j).path) < toLex (x.timeStamp, (Ref.post club i).path)) ∧
      tiles = ids.map fun i => (hive (.post club i)).map (PostText.tile intl)

/-- Every page shows what the hive keeps, and nothing else. -/
structure ShowsHive (intl : Intl) (db : Db) (hive : Hive) : Prop where
  allClubs : allClubs.Shows hive (SearchPage.clubs db)
  myClubs : ∀ u, (myClubs u).Shows hive (HomePage.clubs u db)
  /-- The tiles that do not raise. -/
  clubCalendar : ∀ club, (clubCalendar intl club).Shows hive ((clubCalendar intl club).tiles db)
  /-- What My Calendar is given of the user's entries. -/
  entries : ∀ u, (entries intl u).Shows hive
    ((CalendarPage.getVolunteerEvents u db).filterMap fun x => CalendarPage.tile intl x.2)
  volunteer : ∀ user, (volunteerEvents intl user).Shows hive ((volunteerEvents intl user).tiles db)
  posts : ∀ club now, ShowsPosts intl club hive
    ((FirestoreDatabase.getPostStream club db).map fun x => PostsStreamPage.tile intl now x.2)
  profile : ∀ u, ProfilePage.body (some u) db = some (Profile.body (hive (.profile u)))

/-- No club is stored in the place of an event. -/
def EventsClean (db : Db) : Prop :=
  ∀ club event d, db.lookup (Ref.clubEvent club event).path = some d → ¬ IsClubDoc d

/-- **What the posts query selects is a post.** -/
theorem post_of_stamped (hdb : PlainPaths db) (hs : hiveSchema.Sound db) {club : DocId}
    {x : Path × Doc} (hx : x ∈ stampedPosts club db) :
    ∃ i p, x.1 = (Ref.post club i).path ∧ hiveSchema.view db (.post club i) = some p ∧
      PostText.read x.2 = some p := by
  obtain ⟨p, d⟩ := x
  unfold stampedPosts at hx
  obtain ⟨hmem, hstamp⟩ := List.mem_filter.1 hx
  obtain ⟨i, rfl, hd⟩ := (Listing.mem_snapshotDocs (L := posts (Intl.only "" 0) 0 club) hdb).1 hmem
  rcases hs (.post club i) d hd with hread | ⟨-, clubName, clubDes, clubAdvisor, rfl⟩
  · obtain ⟨x, hx⟩ := Option.isSome_iff_exists.1 hread
    exact ⟨i, x, rfl, view_eq_some_iff.2 ⟨d, hd, hx⟩, hx⟩
  · cases hstamp

theorem timestamp_of_read {d : Doc} {p : PostText} (h : PostText.read d = some p) :
    Doc.timestamp d .timeStamp = some p.timeStamp := by
  simp only [PostText.read, Option.bind_eq_bind, Option.bind_eq_some_iff, Option.pure_def,
    Option.some.injEq] at h
  obtain ⟨-, -, -, -, t, ht, rfl⟩ := h
  exact ht

/-- Every post is selected. -/
theorem stamped_of_post {club i : DocId} {p : PostText} {d : Doc}
    (hd : db.lookup (Ref.post club i).path = some d) (hp : PostText.read d = some p) :
    ((Ref.post club i).path, d) ∈ stampedPosts club db := by
  refine List.mem_filter.2 ⟨mem_snapshotDocs.2 ⟨i.val, rfl, hd⟩, ?_⟩
  rw [timestamp_of_read hp]
  rfl

/-- The order of the posts is strict: their references differ. -/
theorem pairwise_getPostStream (club : DocId) (db : Db) :
    (FirestoreDatabase.getPostStream club db).Pairwise fun x y => postKey y < postKey x := by
  refine OrderBy.pairwise_lt_descending ?_
  have hpaths : ((stampedPosts club db).map Prod.fst).Nodup :=
    (nodup_map_fst_snapshotDocs db (postsOf club)).sublist (List.filter_sublist.map Prod.fst)
  refine List.Nodup.of_map (fun k => (ofLex k).2) ?_
  rw [List.map_map]
  exact hpaths

/-- **The posts are shown each once, in their order.** -/
theorem showsPosts_view (hdb : PlainPaths db) (hs : hiveSchema.Sound db) (club : DocId)
    (now : Timestamp) : ShowsPosts intl club (hiveSchema.view db)
      ((FirestoreDatabase.getPostStream club db).map fun x => PostsStreamPage.tile intl now x.2) := by
  have hpost : ∀ x ∈ FirestoreDatabase.getPostStream club db, ∃ i p,
      x.1 = (Ref.post club i).path ∧ hiveSchema.view db (.post club i) = some p ∧
        PostText.read x.2 = some p :=
    fun x hx => post_of_stamped hdb hs (OrderBy.mem_descending.1 hx)
  have hid : ∀ i, (Ref.post club i).path.getLast?.bind asDocId = some i := fun i => asDocId_val i
  refine ⟨(FirestoreDatabase.getPostStream club db).filterMap fun x => x.1.getLast?.bind asDocId,
    fun i => ?_, ?_, ?_⟩
  · rw [List.mem_filterMap]
    constructor
    · rintro ⟨x, hx, hi⟩
      obtain ⟨j, p, hpath, hview, -⟩ := hpost x hx
      rw [hpath, hid] at hi
      cases hi
      rw [hview]
      rfl
    · intro h
      obtain ⟨p, hp⟩ := Option.isSome_iff_exists.1 h
      obtain ⟨d, hd, hread⟩ := view_eq_some_iff.1 hp
      exact ⟨_, OrderBy.mem_descending.2 (stamped_of_post hd hread), hid i⟩
  · refine List.Pairwise.filterMap _ ?_ (List.Pairwise.and_mem.1 (pairwise_getPostStream club db))
    rintro x y ⟨hx, hy, hlt⟩ i hi j hj p q hp hq
    obtain ⟨i', p', hpath, hview, hread⟩ := hpost x hx
    obtain ⟨j', q', hpath', hview', hread'⟩ := hpost y hy
    rw [hpath, hid] at hi
    rw [hpath', hid] at hj
    cases hi
    cases hj
    cases hview.symm.trans hp
    cases hview'.symm.trans hq
    simpa only [postKey, timeStampOf, timestamp_of_read hread, timestamp_of_read hread', hpath,
      hpath', Option.getD_some] using hlt
  · rw [List.map_filterMap, ← List.filterMap_eq_map]
    refine List.filterMap_congr fun x hx => ?_
    obtain ⟨i, p, hpath, hview, hread⟩ := hpost x hx
    simp only [Function.comp_apply, hpath, hid, Option.map_some, hview]
    rw [postTile_of_read now hread]
    rfl

/-- **The pages render exactly when no club is stored in the place of an event.** -/
theorem pagesRender_iff (hdb : PlainPaths db) (hs : hiveSchema.Sound db) :
    PagesRender intl db ↔ EventsClean db := by
  constructor
  · intro h club
    exact ((clubCalendar intl club).renders_iff hdb hs).1 (h.clubCalendar club)
  · intro h
    refine ⟨(TheHive.allClubs.renders_iff hdb hs).2 fun _ _ _ hl => hl,
      fun u => ((TheHive.myClubs u).renders_iff hdb hs).2 fun _ _ _ hl => hl,
      fun club => ((clubCalendar intl club).renders_iff hdb hs).2 (h club),
      fun user => ((volunteerEvents intl user).renders_iff hdb hs).2 fun _ _ _ hl => hl,
      fun club now x hx => ?_, fun user => ?_⟩
    · obtain ⟨i, p, -, -, hread⟩ := post_of_stamped hdb hs (OrderBy.mem_descending.1 hx)
      rw [postTile_of_read now hread]
      rfl
    · cases user with
      | none => rfl
      | some u => rw [profileBody_eq hs u]; rfl

/-- **The pages show the contents of the store.** -/
theorem showsHive_view (hdb : PlainPaths db) (hs : hiveSchema.Sound db) :
    ShowsHive intl db (hiveSchema.view db) where
  allClubs := TheHive.allClubs.shows_view hdb hs
  myClubs u := (TheHive.myClubs u).shows_view hdb hs
  clubCalendar club := (TheHive.clubCalendar intl club).shows_view hdb hs
  entries u := (TheHive.entries intl u).shows_view hdb hs
  volunteer user := (volunteerEvents intl user).shows_view hdb hs
  posts club now := showsPosts_view hdb hs club now
  profile u := profileBody_eq hs u

/-! ## Rendering -/

/-- A club is written in the place of an event. -/
def SpoilsEvent (w : Write) : Prop :=
  ∃ club event d, IsClubDoc d ∧ w = .set (Ref.clubEvent club event).path d

/-- **One write keeps the events clean exactly when it spoils none.** -/
theorem eventsClean_settle {w : Write} (hw : IsAppWrite w) (hclean : EventsClean db) :
    EventsClean (w.settle db) ↔ ¬ SpoilsEvent w := by
  constructor
  · rintro h ⟨club, event, d, hd, rfl⟩
    exact h club event d (AList.lookup_insert _) hd
  · intro hspoils club event d hd hclub
    by_cases hpath : (Ref.clubEvent club event).path = w.path
    · obtain ⟨op, hop⟩ := hw.denotes
      cases hop with
      | put r c h =>
        cases Ref.path_injective hpath
        rw [eq_of_lookup_insert hd] at hclub
        obtain ⟨clubName, clubDes, clubAdvisor, rfl⟩ := hclub
        cases h
      | litter r h hlitter =>
        cases Ref.path_injective hpath
        exact hspoils ⟨club, event, _, hlitter, rfl⟩
      | modify r f hfirm h =>
        cases Ref.path_injective hpath
        exact hfirm d hclub
      | merge r c f hfirm hempty h =>
        cases Ref.path_injective hpath
        exact hfirm d hclub
      | remove r =>
        cases Ref.path_injective hpath
        have hnone := AList.lookup_erase (Ref.clubEvent club event).path db
        exact absurd (hnone.symm.trans hd) (by simp)
      | elsewhere h => exact h (.clubEvent club event) hpath.symm
    · rw [Write.settle_frame hpath] at hd
      exact hclean club event d hd hclub

/-- **The pages render throughout a run exactly when no club lands on the path of an event**,
whatever the devices had read and in whatever order the writes settle. -/
theorem pagesRender_run (intl : Intl) (hdb : WellKept db) (hclean : EventsClean db)
    (as : List (InFlight.Action Request)) :
    (∀ t ∈ Transition.visited (cloudStep intl) (.start db) as, PagesRender intl t.store) ↔
      ∀ w ∈ InFlight.landings (Transition.taken (cloudStep intl) (.start db) as),
        ¬ SpoilsEvent w := by
  have hkept := wellKept_visited intl hdb as
  have hrun := InFlight.visited_store_iff (P := IsAppWrite) (I := WellKept) (G := EventsClean)
    (C := fun w => ¬ SpoilsEvent w) (isAppWrite_appWrites intl) (fun _ _ hw h => h.settle hw)
    (fun _ _ hw _ hg => eventsClean_settle hw hg)
    (s := .start db) ⟨fun _ h => (by cases h), hdb⟩ hclean as
  refine Iff.trans ?_ hrun
  refine forall₂_congr fun t ht => ?_
  obtain ⟨-, hk⟩ := hkept t ht
  exact pagesRender_iff hk.paths hk.sound

/-- A club whose name is the path of the chess club's meeting. -/
def spoilingClub : List (InFlight.Action Request) :=
  [.emit ⟨∅, .store (.addClubEvent chessClub.clubName chessMeeting)⟩,
   .emit ⟨∅, .store (.submitClub "Chess/clubEvents/Meeting" "Meets on Fridays" "Ms. King")⟩,
   .settle 0 true, .settle 0 true]

theorem eventsClean_empty : EventsClean ∅ := fun _ _ _ h => by cases h

theorem pagesRender_run_spoilingClub :
    (∀ t ∈ Transition.visited (cloudStep marchThird) (.start ∅) spoilingClub,
        PagesRender marchThird t.store) ↔
      ∀ w ∈ InFlight.landings (Transition.taken (cloudStep marchThird) (.start ∅) spoilingClub),
        ¬ SpoilsEvent w :=
  pagesRender_run marchThird wellKept_empty eventsClean_empty spoilingClub

/-! ## What the pages show -/

/-- **On every schedule the pages show the hive of that schedule.** -/
theorem pages_show_hive (intl : Intl) (hdb : WellKept db) (as : List (InFlight.Action Request)) :
    ShowsHive intl (Transition.exec (cloudStep intl) (.start db) as).store
      (Transition.exec (hiveStep intl) (.start (hiveSchema.view db)) as).store := by
  obtain ⟨-, hk⟩ := wellKept_visited intl hdb as _ (Transition.mem_visited.2 (.inr rfl))
  rw [← hive_lockstep intl hdb.sound as]
  exact showsHive_view hk.paths hk.sound

theorem pages_show_hive_spoilingClub :
    ShowsHive marchThird (Transition.exec (cloudStep marchThird) (.start ∅) spoilingClub).store
      (Transition.exec (hiveStep marchThird) (.start (hiveSchema.view ∅)) spoilingClub).store :=
  pages_show_hive marchThird wellKept_empty spoilingClub

end TheHive
