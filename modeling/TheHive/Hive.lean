import TheHive.Lib.InFlight
import TheHive.Lib.TypedStore
import TheHive.Announcements
import TheHive.ClubDetails
import TheHive.CreateFrame
import TheHive.UserProfile

/-!
# The hive

What the app as a whole keeps: clubs with their events, posts and members, volunteer events with
the entries of their volunteers, and profiles.  All writers of the app, on any number of devices,
issue their writes against a store they may have read long ago; each write settles at any later
time, or is refused.

* `Ref`, `Content`, `hiveSchema` — the documents the pages read, and how; a club that was given
  the path of an event or of a post is litter there.
* `appWrites` — the writes of every handler; `hiveOps` — what each handler is for.
* `denotes_hiveOps` — every write denotes its operation.
* `hive_lockstep` — **on every schedule the contents of the store are the abstract hive's**.
-/

set_option autoImplicit false

namespace TheHive

open DocStore TypedStore List

/-! ## References and contents -/

inductive Ref where
  | club (club : DocId)
  | clubEvent (club event : DocId)
  | post (club id : DocId)
  | volunteer (event : DocId)
  | member (u : User) (club : DocId)
  | entry (u : User) (event : DocId)
  | profile (u : User)
  deriving DecidableEq

structure PostText where
  userEmail : String
  postMessage : String
  timeStamp : Timestamp

/-- The fields of a profile; a missing one is shown as such. -/
structure Profile where
  email : Option String
  username : Option String
  selectedSchool : Option String
  timestamp : Option Timestamp

/-- A named document carries the name it is stored under. -/
def Content : Ref → Type
  | .club club => {c : ClubTile // c.clubName = club}
  | .clubEvent _ event => {e : ClubEvent // e.eventName = event.val}
  | .post _ _ => PostText
  | .volunteer event => {e : VolunteerEvent // e.eventName = event.val}
  | .member _ club => {c : ClubTile // c.clubName = club}
  | .entry _ event => {e : VolunteerEvent // e.eventName = event.val}
  | .profile _ => Profile

namespace Ref

def path : Ref → Path
  | club c => ["club", c.val]
  | clubEvent c e => clubEventsOf c.val ++ [e.val]
  | post c i => postsOf c ++ [i.val]
  | volunteer e => volunteerPath e
  | member u c => ["Users", u.email, "joinedClubs", c.val]
  | entry u e => entryPath u e
  | profile u => ["Users", u.email]

end Ref

def asDocId (s : String) : Option DocId := if h : IsDocId s then some ⟨s, h⟩ else none

def asUser (s : String) : Option User :=
  if h : IsDocId s ∧ '@' ∈ s.toList then some ⟨s, h.1, h.2⟩ else none

/-- The reference stored at a path. -/
def refAt : Path → Option Ref
  | [c, i] =>
    if c = "club" then (asDocId i).map .club
    else if c = "volunteer" then (asDocId i).map .volunteer
    else if c = "Users" then (asUser i).map .profile
    else none
  | [c, i, g, j] =>
    if c = "club" then
      if g = "clubEvents" then (asDocId i).bind fun club => (asDocId j).map (.clubEvent club)
      else if g = "Posts" then (asDocId i).bind fun club => (asDocId j).map (.post club)
      else none
    else if c = "Users" then
      if g = "joinedClubs" then (asUser i).bind fun u => (asDocId j).map (.member u)
      else if g = "myVolunteerEvents" then (asUser i).bind fun u => (asDocId j).map (.entry u)
      else none
    else none
  | _ => none

theorem asDocId_eq_some_iff {s : String} {i : DocId} : asDocId s = some i ↔ i.val = s := by
  unfold asDocId
  split
  · simp only [Option.some.injEq]
    constructor
    · rintro rfl; rfl
    · rintro rfl; rfl
  · rename_i hs
    simp only [reduceCtorEq, false_iff]
    rintro rfl
    exact hs i.ok

theorem asUser_eq_some_iff {s : String} {u : User} : asUser s = some u ↔ u.email = s := by
  unfold asUser
  split
  · simp only [Option.some.injEq]
    constructor
    · rintro rfl; rfl
    · rintro rfl; rfl
  · rename_i hs
    simp only [reduceCtorEq, false_iff]
    rintro rfl
    exact hs ⟨u.email_ok, u.email_at⟩

@[simp] theorem asDocId_val (i : DocId) : asDocId i.val = some i := asDocId_eq_some_iff.2 rfl

@[simp] theorem asUser_email (u : User) : asUser u.email = some u := asUser_eq_some_iff.2 rfl

theorem refAt_path (r : Ref) : refAt r.path = some r := by
  cases r <;>
    simp [refAt, Ref.path, clubEventsOf, postsOf, volunteerPath, entryPath]

/-- **The references are the paths that `refAt` knows.** -/
theorem refAt_eq_some_iff {p : Path} {r : Ref} : refAt p = some r ↔ r.path = p := by
  refine ⟨fun h => ?_, fun h => by rw [← h, refAt_path]⟩
  unfold refAt at h
  split at h
  · rename_i c i
    split_ifs at h with hclub hvol husers
    · obtain ⟨c', hc', rfl⟩ := Option.map_eq_some_iff.1 h
      simp [Ref.path, hclub, asDocId_eq_some_iff.1 hc']
    · obtain ⟨e, he, rfl⟩ := Option.map_eq_some_iff.1 h
      simp [Ref.path, volunteerPath, hvol, asDocId_eq_some_iff.1 he]
    · obtain ⟨u, hu, rfl⟩ := Option.map_eq_some_iff.1 h
      simp [Ref.path, husers, asUser_eq_some_iff.1 hu]
  · rename_i c i g j
    split_ifs at h with hclub hevents hposts husers hjoined hentries
    · obtain ⟨c', hc', h⟩ := Option.bind_eq_some_iff.1 h
      obtain ⟨e, he, rfl⟩ := Option.map_eq_some_iff.1 h
      simp [Ref.path, clubEventsOf, hclub, hevents, asDocId_eq_some_iff.1 hc',
        asDocId_eq_some_iff.1 he]
    · obtain ⟨c', hc', h⟩ := Option.bind_eq_some_iff.1 h
      obtain ⟨e, he, rfl⟩ := Option.map_eq_some_iff.1 h
      simp [Ref.path, postsOf, hclub, hposts, asDocId_eq_some_iff.1 hc',
        asDocId_eq_some_iff.1 he]
    · obtain ⟨u, hu, h⟩ := Option.bind_eq_some_iff.1 h
      obtain ⟨c', hc', rfl⟩ := Option.map_eq_some_iff.1 h
      simp [Ref.path, husers, hjoined, asUser_eq_some_iff.1 hu, asDocId_eq_some_iff.1 hc']
    · obtain ⟨u, hu, h⟩ := Option.bind_eq_some_iff.1 h
      obtain ⟨e, he, rfl⟩ := Option.map_eq_some_iff.1 h
      simp [Ref.path, entryPath, husers, hentries, asUser_eq_some_iff.1 hu,
        asDocId_eq_some_iff.1 he]
  · cases h

theorem Ref.path_injective : Function.Injective Ref.path := by
  intro r q h
  have hr := refAt_path r
  rw [h, refAt_path] at hr
  exact (Option.some.inj hr).symm

/-! ## Reading the documents -/

def ClubEvent.read (d : Doc) : Option ClubEvent := do
  return {
    eventName := ← Doc.str d .eventName
    eventDate := ← Doc.timestamp d .eventDate
    startTime := ← Doc.str d .startTime
    endTime := ← Doc.str d .endTime
    eventLocation := ← Doc.str d .eventLocation }

def VolunteerEvent.read (d : Doc) : Option VolunteerEvent := do
  return {
    eventName := ← Doc.str d .eventName
    eventDes := ← Doc.str d .eventDes
    eventDate := ← Doc.timestamp d .eventDate
    startTime := ← Doc.str d .startTime
    endTime := ← Doc.str d .endTime
    numberOfPeople := ← Doc.int d .numberOfPeople
    eventLocation := ← Doc.str d .eventLocation }

def PostText.read (d : Doc) : Option PostText := do
  return {
    userEmail := ← Doc.str d .userEmail
    postMessage := ← Doc.str d .postMessage
    timeStamp := ← Doc.timestamp d .timeStamp }

/-- A text that may be missing. -/
def Doc.optStr (d : Doc) (f : Field) : Option (Option String) :=
  match d f with
  | none => some none
  | some (.str s) => some (some s)
  | some _ => none

def Doc.optTimestamp (d : Doc) (f : Field) : Option (Option Timestamp) :=
  match d f with
  | none => some none
  | some (.timestamp t) => some (some t)
  | some _ => none

def Profile.read (d : Doc) : Option Profile := do
  return {
    email := ← Doc.optStr d .email
    username := ← Doc.optStr d .username
    selectedSchool := ← Doc.optStr d .selectedSchool
    timestamp := ← Doc.optTimestamp d .timestamp }

/-- Keep what is stored under its own name. -/
def underName {α β : Type} [DecidableEq β] (name : α → β) (b : β) (o : Option α) :
    Option {a : α // name a = b} :=
  o.bind fun a => if h : name a = b then some ⟨a, h⟩ else none

theorem underName_eq_some_iff {α β : Type} [DecidableEq β] {name : α → β} {b : β} {o : Option α}
    {x : {a : α // name a = b}} : underName name b o = some x ↔ o = some x.1 := by
  unfold underName
  rw [Option.bind_eq_some_iff]
  constructor
  · rintro ⟨a, rfl, hx⟩
    split at hx
    · cases hx; rfl
    · cases hx
  · rintro rfl
    exact ⟨x.1, rfl, dif_pos x.2⟩

theorem ClubEvent.rename_self {e : ClubEvent} {n : String} (h : e.eventName = n) :
    { e with eventName := n } = e := by
  subst h; rfl

theorem VolunteerEvent.rename_self {e : VolunteerEvent} {n : String} (h : e.eventName = n) :
    { e with eventName := n } = e := by
  subst h; rfl

theorem ClubEvent.read_doc (e : ClubEvent) : ClubEvent.read e.doc = some e := rfl

theorem VolunteerEvent.read_doc (e : VolunteerEvent) : VolunteerEvent.read e.doc = some e := rfl

/-- A new count is read back, the other fields as they were. -/
theorem VolunteerEvent.read_overwrite {d : Doc} {e : VolunteerEvent} (h : VolunteerEvent.read d = some e)
    (k : Int) :
    VolunteerEvent.read (d.overwrite (Doc.ofList [(.numberOfPeople, .int k)])) =
      some (e.withCount k) := by
  simp only [VolunteerEvent.read, Option.bind_eq_bind, Option.bind_eq_some_iff, Option.pure_def,
    Option.some.injEq] at h
  obtain ⟨n, hn, des, hdes, date, hdate, st, hst, en, hen, num, -, loc, hloc, rfl⟩ := h
  have hstr : ∀ f, f ≠ .numberOfPeople →
      (d.overwrite (Doc.ofList [(.numberOfPeople, .int k)])) f = d f := by
    intro f hf
    rw [Doc.overwrite, Doc.ofList_cons_ne hf]
    rfl
  simp only [Doc.str, Doc.timestamp] at hn hdes hdate hst hen hloc
  simp only [VolunteerEvent.read, Doc.str, Doc.timestamp, hstr .eventName (by simp),
    hstr .eventDes (by simp), hstr .eventDate (by simp), hstr .startTime (by simp),
    hstr .endTime (by simp), hstr .eventLocation (by simp), hn, hdes, hdate, hst, hen, hloc]
  rfl

/-- A choice of school is read back, the registered texts as they were. -/
theorem Profile.read_overwrite {d : Doc} {x : Profile} (h : Profile.read d = some x) (school : String)
    (now : Timestamp) :
    Profile.read (d.overwrite
        (Doc.ofList [(.selectedSchool, .str school), (.timestamp, .timestamp now)])) =
      some { x with selectedSchool := some school, timestamp := some now } := by
  simp only [Profile.read, Option.bind_eq_bind, Option.bind_eq_some_iff, Option.pure_def,
    Option.some.injEq] at h
  obtain ⟨email, hemail, username, husername, -, -, -, -, rfl⟩ := h
  have hemail' : Doc.optStr (d.overwrite (Doc.ofList [(.selectedSchool, .str school),
      (.timestamp, .timestamp now)])) .email = some email := hemail
  have husername' : Doc.optStr (d.overwrite (Doc.ofList [(.selectedSchool, .str school),
      (.timestamp, .timestamp now)])) .username = some username := husername
  simp only [Profile.read, hemail', husername']
  rfl

/-- The document of a submitted club. -/
def IsClubDoc (d : Doc) : Prop :=
  ∃ clubName clubDes clubAdvisor, d = CreateAClub.clubDoc clubName clubDes clubAdvisor

def readContent : ∀ r : Ref, Doc → Option (Content r)
  | .club club, d => underName ClubTile.clubName club (SearchPage.tile d)
  | .clubEvent _ event, d => underName ClubEvent.eventName event.val (ClubEvent.read d)
  | .post _ _, d => PostText.read d
  | .volunteer event, d => underName VolunteerEvent.eventName event.val (VolunteerEvent.read d)
  | .member _ club, d => underName ClubTile.clubName club (HomePage.tile d)
  | .entry _ event, d => underName VolunteerEvent.eventName event.val (VolunteerEvent.read d)
  | .profile _, d => Profile.read d

def hiveSchema : Schema Ref Content Field Value where
  path := Ref.path
  path_injective := Ref.path_injective
  read := readContent
  litter
    | .clubEvent _ _, d | .post _ _, d => IsClubDoc d
    | _, _ => False

/-! What the pages read at a reference. -/

theorem read_club_iff {club : DocId} {d : Doc} {x : Content (.club club)} :
    hiveSchema.read (.club club) d = some x ↔ SearchPage.tile d = some x.1 :=
  underName_eq_some_iff (x := x)

theorem read_clubEvent_iff {club i : DocId} {d : Doc} {x : Content (.clubEvent club i)} :
    hiveSchema.read (.clubEvent club i) d = some x ↔ ClubEvent.read d = some x.1 :=
  underName_eq_some_iff (x := x)

theorem read_volunteer_iff {i : DocId} {d : Doc} {x : Content (.volunteer i)} :
    hiveSchema.read (.volunteer i) d = some x ↔ VolunteerEvent.read d = some x.1 :=
  underName_eq_some_iff (x := x)

theorem read_member_iff {u : User} {club : DocId} {d : Doc} {x : Content (.member u club)} :
    hiveSchema.read (.member u club) d = some x ↔ HomePage.tile d = some x.1 :=
  underName_eq_some_iff (x := x)

theorem read_entry_iff {u : User} {i : DocId} {d : Doc} {x : Content (.entry u i)} :
    hiveSchema.read (.entry u i) d = some x ↔ VolunteerEvent.read d = some x.1 :=
  underName_eq_some_iff (x := x)

/-- What the app keeps. -/
abbrev Hive := Contents Content

abbrev HiveOp := Op Content

/-! ## The handlers -/

/-- The writers of the app. -/
inductive AppAction where
  | store (a : StoreAction)
  | addPost (user : Option User) (auto : AutoId) (now : Timestamp) (message : String)
      (clubName : DocId)
  | createUserDocument (user : Option User) (username : String)
  | saveSchool (user : Option User) (school : String) (now : Timestamp)

/-- A handler runs with what its device has read of the store. -/
structure Request where
  seen : Db
  action : AppAction

def appWrites (intl : Intl) (q : Request) : List Write :=
  match q.action with
  | .store a => storeWrites intl q.seen a
  | .addPost user auto now message clubName =>
    (FirestoreDatabase.addPost user auto now message clubName).toList
  | .createUserDocument user username => (RegisterPage.createUserDocument user username).toList
  | .saveSchool user school now => (ChooseSchoolPage.saveSchoolToFirestore user school now).toList

/-! ## What the handlers are for -/

/-- The operation on the document that a typed name gives, if it gives one; a name with
separators gives a document that no page reads. -/
def named (c : Path) (name : String) (op : DocId → HiveOp) : List HiveOp :=
  (doc c name).toList.map fun _ =>
    match asDocId name with
    | some i => op i
    | none => .elsewhere

/-- A club submitted at a path.  A name with separators may hit the place of an event or of a
post, which is lost. -/
def clubAt (clubDes clubAdvisor : String) (p : Path) : HiveOp :=
  match refAt p with
  | some (.club c) => .put (.club c) ⟨⟨c, clubDes, clubAdvisor, clubAdvisor⟩, rfl⟩
  | some r => .remove r
  | none => .elsewhere

def submitClub (clubName clubDes clubAdvisor : String) : List HiveOp :=
  (doc ["club"] clubName).toList.map (clubAt clubDes clubAdvisor)

/-- The document at a path is deleted. -/
def removeAt (p : Path) : HiveOp :=
  match refAt p with
  | some r => .remove r
  | none => .elsewhere

instance (mode : BareId) (eventId : String) : DecidablePred (IsHit mode eventId) := fun p =>
  match mode with
  | .rejected => inferInstanceAs (Decidable
      (InGroup "clubEvents" p ∧ p = segments eventId ∧ (segments eventId).length % 2 = 0))
  | .lastSegment => inferInstanceAs (Decidable (InGroup "clubEvents" p ∧ p.getLast? = some eventId))

/-- The event a delete in My Calendar is for: the hit of least path among what the device has
read. -/
def firstHit (mode : BareId) (eventId : String) (seen : Db) : Option Path :=
  (seen.keys.filter fun p => IsHit mode eventId p).min?

def signUp (intl : Intl) (t : VolunteerEventTile) : List HiveOp :=
  match intl.parse .MMddyyyy t.eventDate, t.currentUser with
  | some date, some u =>
    named (entriesOf u) t.eventName (fun i =>
      .put (.entry u i) ⟨⟨i.val, t.eventDes, date, t.startTime, t.endTime, t.numberOfPeople,
        t.eventLocation⟩, rfl⟩) ++
    if 0 < t.numberOfPeople then
      named ["volunteer"] t.eventName fun i =>
        .modify (.volunteer i) fun e => ⟨e.1.withCount (t.numberOfPeople - 1), e.2⟩
    else []
  | _, _ => []

def joinClub (currentUser : Option User) (auto : AutoId) (club : ClubTile) (seen : Db) :
    List HiveOp :=
  if (seen.lookup (ClubOutline.clubRef currentUser auto club)).isSome then []
  else
    match currentUser with
    | some u => [.put (.member u club.clubName) ⟨club, rfl⟩]
    | none => [.elsewhere]

def storeOps (intl : Intl) (seen : Db) : StoreAction → List HiveOp
  | .submitClub clubName clubDes clubAdvisor => submitClub clubName clubDes clubAdvisor
  | .addClubEvent club e =>
    named (clubEventsOf club.val) e.eventName fun i =>
      .put (.clubEvent club i) ⟨{ e with eventName := i.val }, rfl⟩
  | .addVolunteerEvent e =>
    named ["volunteer"] e.eventName fun i => .put (.volunteer i) ⟨{ e with eventName := i.val }, rfl⟩
  | .signUp t => signUp intl t
  | .joinClub currentUser auto club => joinClub currentUser auto club seen
  | .deleteVolunteerEvent eventName => named ["volunteer"] eventName fun i => .remove (.volunteer i)
  | .deleteClubEvent eventName => named ["events"] eventName fun _ => .elsewhere
  | .deleteFromCalendar mode _ eventName => (firstHit mode eventName seen).toList.map removeAt

/-- What each handler is for. -/
def hiveOps (intl : Intl) (q : Request) : List HiveOp :=
  match q.action with
  | .store a => storeOps intl q.seen a
  | .addPost (some u) auto now message club =>
    [.put (.post club ⟨auto.val, auto.ok⟩) ⟨u.email, message, now⟩]
  | .createUserDocument (some u) username =>
    [.put (.profile u) ⟨some u.email, some username, none, none⟩]
  | .saveSchool (some u) school now =>
    [.merge (.profile u) ⟨none, none, none, none⟩ fun p =>
      { p with selectedSchool := some school, timestamp := some now }]
  | _ => []

/-! ## Every write denotes its operation -/

variable {intl : Intl} {c p : Path} {name : String} {op : DocId → HiveOp} {w : Write}

theorem denotes_elsewhere (h : refAt w.path = none) : Denotes hiveSchema w .elsewhere := by
  refine .elsewhere fun r hr => ?_
  rw [hr, show hiveSchema.path r = r.path from rfl, refAt_path] at h
  cases h

/-- A delete removes what is stored at its path, if a page reads it. -/
theorem denotes_removeAt (p : Path) : Denotes hiveSchema (.delete p) (removeAt p) := by
  unfold removeAt
  cases h : refAt p with
  | none => exact denotes_elsewhere h
  | some r =>
    rw [← refAt_eq_some_iff.1 h]
    exact .remove (S := hiveSchema) r

theorem firstHit_eq_some_iff {mode : BareId} {eventId : String} {seen : Db} :
    firstHit mode eventId seen = some p ↔
      (IsHit mode eventId p ∧ (seen.lookup p).isSome) ∧
        ∀ q, IsHit mode eventId q → (seen.lookup q).isSome → p ≤ q := by
  unfold firstHit
  rw [List.min?_eq_some_iff]
  simp only [List.mem_filter, decide_eq_true_eq, ← AList.mem_keys, ← AList.lookup_isSome]
  constructor
  · rintro ⟨⟨hstored, hhit⟩, hleast⟩
    exact ⟨⟨hhit, hstored⟩, fun q hq hqs => hleast q ⟨hqs, hq⟩⟩
  · rintro ⟨⟨hhit, hstored⟩, hleast⟩
    exact ⟨⟨hstored, hhit⟩, fun q hq => hleast q hq.2 hq.1⟩

/-- **A delete in My Calendar deletes the event it is for.** -/
theorem deleteTask_eq (mode : BareId) (eventId : String) (seen : Db) :
    CalendarPage.deleteTask mode eventId seen = (firstHit mode eventId seen).map .delete := by
  ext w
  rw [deleteTask_eq_some_iff, Option.map_eq_some_iff]
  refine exists_congr fun p => ?_
  rw [firstHit_eq_some_iff, and_comm, @eq_comm _ w]

/-- A name with separators gives a path that is at least two segments too long. -/
theorem long_of_not_isDocId (hc : c.length % 2 = 1) (hp : doc c name = some p)
    (hname : ¬ IsDocId name) : ∃ i j k l, p = c ++ i :: j :: k :: l := by
  have hpath := prefix_of_doc hp
  have hseg := not_mem_segments_of_doc hp
  have hlen : p.length % 2 = 0 := by
    unfold doc at hp
    split at hp
    · rename_i h
      cases hp
      exact h.2
    · cases hp
  rw [hpath, List.length_append] at hlen
  match hsegs : segments name with
  | [] =>
    rw [hsegs, List.length_nil] at hlen
    omega
  | [i] =>
    obtain ⟨rfl, hplain⟩ := segments_eq_singleton_iff.1 hsegs
    refine absurd ⟨fun hempty => hseg ?_, hplain⟩ hname
    rw [hsegs, hempty]
    exact List.mem_cons_self
  | [i, j] =>
    rw [hsegs, List.length_cons, List.length_cons, List.length_nil] at hlen
    omega
  | i :: j :: k :: l => exact ⟨i, j, k, l, by rw [hpath, hsegs]⟩

/-- A write of a named document, from its two cases. -/
theorem forall₂_named {write : Path → Write} (hc : c.length % 2 = 1)
    (hplain : ∀ i : DocId, name = i.val → Denotes hiveSchema (write (c ++ [i.val])) (op i))
    (hlong : ∀ i j k l, (write (c ++ i :: j :: k :: l)).path = c ++ i :: j :: k :: l ∧
      refAt (c ++ i :: j :: k :: l) = none) :
    Forall₂ (Denotes hiveSchema) ((doc c name).bind fun p => some (write p)).toList
      (named c name op) := by
  unfold named
  cases hp : doc c name with
  | none => exact .nil
  | some p =>
    refine .cons ?_ .nil
    by_cases hname : IsDocId name
    · rw [doc_of_isDocId hname hc] at hp
      cases hp
      rw [show asDocId name = some ⟨name, hname⟩ from asDocId_val ⟨name, hname⟩]
      exact hplain ⟨name, hname⟩ rfl
    · obtain ⟨i, j, k, l, rfl⟩ := long_of_not_isDocId hc hp hname
      have hnone : asDocId name = none := by
        rw [Option.eq_none_iff_forall_ne_some]
        intro i hi
        rw [← asDocId_eq_some_iff.1 hi] at hname
        exact hname i.ok
      rw [hnone]
      obtain ⟨hpath, hrefAt⟩ := hlong i j k l
      exact denotes_elsewhere (by rw [hpath, hrefAt])

/-! No page reads a document that far below a collection. -/

theorem refAt_long_volunteer (i j k : String) (l : Path) :
    refAt (["volunteer"] ++ i :: j :: k :: l) = none := by
  cases l <;> simp [refAt]

theorem refAt_events (l : Path) : refAt ("events" :: l) = none := by
  rw [Option.eq_none_iff_forall_ne_some]
  intro r hr
  have hpath := refAt_eq_some_iff.1 hr
  cases r <;> simp [Ref.path, clubEventsOf, postsOf, volunteerPath, entryPath] at hpath

theorem refAt_long_clubEvents (club : String) (i j k : String) (l : Path) :
    refAt (clubEventsOf club ++ i :: j :: k :: l) = none := rfl

theorem refAt_long_entries (u : User) (i j k : String) (l : Path) :
    refAt (entriesOf u ++ i :: j :: k :: l) = none := rfl

/-- **A submitted club** is stored under its name, or spoils the place of an event or a post. -/
theorem denotes_clubAt {clubName clubDes clubAdvisor : String} (hp : doc ["club"] clubName = some p) :
    Denotes hiveSchema (.set p (CreateAClub.clubDoc clubName clubDes clubAdvisor))
      (clubAt clubDes clubAdvisor p) := by
  have hpath := prefix_of_doc hp
  unfold clubAt
  cases hr : refAt p with
  | none => exact denotes_elsewhere hr
  | some r =>
    have hrp := refAt_eq_some_iff.1 hr
    subst hrp
    cases r with
    | club c =>
      have hseg : ["club"] ++ [c.val] = ["club"] ++ segments clubName := hpath
      obtain ⟨rfl, -⟩ := segments_eq_singleton_iff.1 (List.append_cancel_left hseg).symm
      refine .put (S := hiveSchema) (.club c) _ (read_club_iff.2 ?_)
      exact searchTile_doc (f := ⟨c.val, clubDes, clubAdvisor, clubAdvisor⟩) c.ok
    | clubEvent c e =>
      exact .litter (S := hiveSchema) (.clubEvent c e) rfl ⟨clubName, clubDes, clubAdvisor, rfl⟩
    | post c i =>
      exact .litter (S := hiveSchema) (.post c i) rfl ⟨clubName, clubDes, clubAdvisor, rfl⟩
    | volunteer e => simp [Ref.path, volunteerPath] at hpath
    | member u c => simp [Ref.path] at hpath
    | entry u e => simp [Ref.path, entryPath] at hpath
    | profile u => simp [Ref.path] at hpath

theorem denotes_submitClub (clubName clubDes clubAdvisor : String) :
    Forall₂ (Denotes hiveSchema) (CreateAClub.submit clubName clubDes clubAdvisor).toList
      (submitClub clubName clubDes clubAdvisor) := by
  unfold submitClub CreateAClub.submit
  cases hp : doc ["club"] clubName with
  | none => exact .nil
  | some p => exact .cons (denotes_clubAt hp) .nil

/-- The new count of an event. -/
theorem denotes_count (i : DocId) (k : Int) :
    Denotes hiveSchema (.update (volunteerPath i) (Doc.ofList [(.numberOfPeople, .int k)]))
      (.modify (.volunteer i) fun e => ⟨e.1.withCount k, e.2⟩) :=
  .modify (S := hiveSchema) (.volunteer i) _ (fun _ h => h) fun _ _ hc =>
    read_volunteer_iff.2 (VolunteerEvent.read_overwrite (read_volunteer_iff.1 hc) k)

/-- The entry that a tile copies into the documents of a user. -/
theorem denotes_entry (u : User) (e : VolunteerEvent) :
    Forall₂ (Denotes hiveSchema)
      ((doc (entriesOf u) e.eventName).bind fun p => some (.set p e.doc)).toList
      (named (entriesOf u) e.eventName fun i => .put (.entry u i) ⟨{ e with eventName := i.val }, rfl⟩) := by
  refine forall₂_named (by simp [entriesOf]) (fun i hi => ?_) fun i j k l =>
    ⟨rfl, refAt_long_entries u i j k l⟩
  exact .put (S := hiveSchema) (.entry u i) _
    (read_entry_iff.2 (e.read_doc.trans (congrArg some (VolunteerEvent.rename_self hi).symm)))

/-- Whether a name is accepted depends on the collection only through the parity of its path. -/
theorem doc_eq_none_congr {c c' : Path} (hc : c.length % 2 = c'.length % 2) (h : doc c name = none) :
    doc c' name = none := by
  unfold doc at h ⊢
  rw [ite_eq_right_iff] at h ⊢
  rintro ⟨hseg, hlen⟩
  refine absurd (h ⟨hseg, ?_⟩) (by simp)
  rw [List.length_append] at hlen ⊢
  omega

theorem denotes_decrement (t : VolunteerEventTile) :
    Forall₂ (Denotes hiveSchema) t.decrementNumberOfPeople.toList
      (if 0 < t.numberOfPeople then
        named ["volunteer"] t.eventName fun i =>
          .modify (.volunteer i) fun e => ⟨e.1.withCount (t.numberOfPeople - 1), e.2⟩
      else []) := by
  unfold VolunteerEventTile.decrementNumberOfPeople
  split
  · refine forall₂_named rfl (fun i _ => denotes_count i _) fun i j k l =>
      ⟨rfl, refAt_long_volunteer i j k l⟩
  · exact .nil

/-- The entry of a volunteer, then the count of the event. -/
theorem denotes_signUp (intl : Intl) (t : VolunteerEventTile) :
    Forall₂ (Denotes hiveSchema) (t.onTap intl) (signUp intl t) := by
  unfold VolunteerEventTile.onTap signUp
  cases intl.parse .MMddyyyy t.eventDate with
  | none => exact .nil
  | some date =>
    cases hu : t.currentUser with
    | none =>
      simp only [VolunteerEventTile.addEventToMyCalendar, hu]
      exact .nil
    | some u =>
      have hentry := denotes_entry u ⟨t.eventName, t.eventDes, date, t.startTime, t.endTime,
        t.numberOfPeople, t.eventLocation⟩
      have hadd : t.addEventToMyCalendar ⟨t.eventName, t.eventDes, date, t.startTime, t.endTime,
          t.numberOfPeople, t.eventLocation⟩ =
            (doc (entriesOf u) t.eventName).bind fun p => some (.set p (VolunteerEvent.doc
              ⟨t.eventName, t.eventDes, date, t.startTime, t.endTime, t.numberOfPeople,
                t.eventLocation⟩)) := by
        simp [VolunteerEventTile.addEventToMyCalendar, hu, entriesOf]
      simp only [hadd]
      cases hp : doc (entriesOf u) t.eventName with
      | none =>
        -- the name is rejected in both places
        have hvolunteer : doc ["volunteer"] t.eventName = none :=
          doc_eq_none_congr (by simp [entriesOf]) hp
        simp [named, hp, hvolunteer]
      | some p =>
        simp only [hp] at hentry
        exact List.rel_append hentry (denotes_decrement t)

/-- A membership; without a user, a document that no page reads. -/
theorem denotes_joinClub (currentUser : Option User) (auto : AutoId) (club : ClubTile) (seen : Db) :
    Forall₂ (Denotes hiveSchema) (ClubOutline.joinClub currentUser auto club seen).toList
      (joinClub currentUser auto club seen) := by
  by_cases h : (seen.lookup (ClubOutline.clubRef currentUser auto club)).isSome
  · simp [ClubOutline.joinClub, joinClub, h]
  · simp only [ClubOutline.joinClub, joinClub, if_neg h]
    cases currentUser with
    | some u =>
      refine .cons ?_ .nil
      exact .put (S := hiveSchema) (.member u club.clubName) _
        (read_member_iff.2 (homeTile_joinedDoc club))
    | none =>
      refine .cons (denotes_elsewhere ?_) .nil
      have hauto : asUser auto.val = none := by
        rw [Option.eq_none_iff_forall_ne_some]
        intro u hu
        exact u.email_ne_autoId auto (asUser_eq_some_iff.1 hu)
      simp [ClubOutline.clubRef, Write.path, refAt, hauto]

theorem denotes_storeOps (intl : Intl) (seen : Db) (a : StoreAction) :
    Forall₂ (Denotes hiveSchema) (storeWrites intl seen a) (storeOps intl seen a) := by
  cases a with
  | submitClub clubName clubDes clubAdvisor => exact denotes_submitClub clubName clubDes clubAdvisor
  | addClubEvent club e =>
    have hwrite : ClubCalendarPage.saveEventToFirestore club e =
        (doc (clubEventsOf club.val) e.eventName).bind fun p => some (.set p e.doc) := by
      simp [ClubCalendarPage.saveEventToFirestore, doc_docId ["club"] rfl club, clubEventsOf]
    show Forall₂ _ (ClubCalendarPage.saveEventToFirestore club e).toList _
    rw [hwrite]
    refine forall₂_named (by simp [clubEventsOf]) (fun i hi => ?_) fun i j k l =>
      ⟨rfl, refAt_long_clubEvents club.val i j k l⟩
    exact .put (S := hiveSchema) (.clubEvent club i) _
      (read_clubEvent_iff.2 (e.read_doc.trans (congrArg some (ClubEvent.rename_self hi).symm)))
  | addVolunteerEvent e =>
    refine forall₂_named rfl (fun i hi => ?_) fun i j k l => ⟨rfl, refAt_long_volunteer i j k l⟩
    exact .put (S := hiveSchema) (.volunteer i) _
      (read_volunteer_iff.2 (e.read_doc.trans (congrArg some (VolunteerEvent.rename_self hi).symm)))
  | signUp t => exact denotes_signUp intl t
  | joinClub currentUser auto club =>
    exact denotes_joinClub currentUser auto club seen
  | deleteVolunteerEvent eventName =>
    refine forall₂_named rfl (fun i _ => .remove (S := hiveSchema) (.volunteer i)) fun i j k l =>
      ⟨rfl, refAt_long_volunteer i j k l⟩
  | deleteClubEvent eventName =>
    refine forall₂_named rfl (fun i _ => denotes_elsewhere (refAt_events _)) fun i j k l =>
      ⟨rfl, refAt_events _⟩
  | deleteFromCalendar mode p eventName =>
    simp only [storeWrites, storeOps, deleteTask_eq]
    cases firstHit mode eventName seen with
    | none => exact .nil
    | some q => exact .cons (denotes_removeAt q) .nil

/-- A choice of school. -/
theorem denotes_choice (u : User) (school : String) (now : Timestamp) :
    Denotes hiveSchema (.setMerge ["Users", u.email]
        (Doc.ofList [(.selectedSchool, .str school), (.timestamp, .timestamp now)]))
      (.merge (.profile u) ⟨none, none, none, none⟩ fun p =>
        { p with selectedSchool := some school, timestamp := some now }) :=
  .merge (S := hiveSchema) (.profile u) _ _ (fun _ h => h) rfl fun _ _ hx =>
    Profile.read_overwrite hx school now

/-- **Every write of a handler denotes its operation.** -/
theorem denotes_hiveOps (intl : Intl) (q : Request) :
    Forall₂ (Denotes hiveSchema) (appWrites intl q) (hiveOps intl q) := by
  obtain ⟨seen, a⟩ := q
  cases a with
  | store a => exact denotes_storeOps intl seen a
  | addPost user auto now message club =>
    cases user with
    | none => exact .nil
    | some u => exact .cons (.put (S := hiveSchema) (.post club ⟨auto.val, auto.ok⟩) _ rfl) .nil
  | createUserDocument user username =>
    cases user with
    | none => exact .nil
    | some u =>
      simp only [appWrites, createUserDocument_eq]
      exact .cons (.put (S := hiveSchema) (.profile u) _ rfl) .nil
  | saveSchool user school now =>
    cases user with
    | none => exact .nil
    | some u =>
      simp only [appWrites, ChooseSchoolPage.saveSchoolToFirestore, doc_users]
      exact .cons (denotes_choice u school now) .nil

/-! ## Runs -/

/-- The requests of all devices and the settling of their writes. -/
def cloudStep (intl : Intl) :
    InFlight.State Db Write → InFlight.Action Request → Option (InFlight.State Db Write) :=
  InFlight.step (appWrites intl) Write.settle

/-- The same on the hive: the operations of the handlers take effect one by one. -/
def hiveStep (intl : Intl) :
    InFlight.State Hive HiveOp → InFlight.Action Request → Option (InFlight.State Hive HiveOp) :=
  InFlight.step (hiveOps intl) Op.run

/-- **On every schedule the contents of the store are the hive's**: the same requests, settled in
the same order, with the same ones refused. -/
theorem hive_lockstep (intl : Intl) {db : Db} (hdb : hiveSchema.Sound db)
    (as : List (InFlight.Action Request)) :
    hiveSchema.view (Transition.exec (cloudStep intl) (.start db) as).store =
      (Transition.exec (hiveStep intl) (.start (hiveSchema.view db)) as).store := by
  have h : InFlight.Related (Denotes hiveSchema)
      (fun db h => hiveSchema.Sound db ∧ hiveSchema.view db = h)
      (Transition.exec (cloudStep intl) (.start db) as)
      (Transition.exec (hiveStep intl) (.start (hiveSchema.view db)) as) :=
    InFlight.exec_related (denotes_hiveOps intl)
      (fun w op db h hop hv => ⟨hop.sound_settle hv.1, by rw [hop.view_settle hv.1, hv.2]⟩) as
      ⟨⟨hdb, rfl⟩, .nil⟩
  exact h.store.2

end TheHive
