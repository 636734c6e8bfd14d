import TheHive.Navigation
import TheHive.Volunteer

/-!
# Whose documents are written

Pages, tiles and database objects read `FirebaseAuth.instance.currentUser` when they are
constructed, and write under that user later, when somebody else, or nobody, may be signed in.

* `World` — the navigator, the store, the tiles constructed so far and the joins whose read has
  not returned; `worldStep` — every navigation, rebuild, press and tap, in any order.
* `userWrites` — the writes of `joinClub`, `addPost`, `onTap` and `saveSchoolToFirestore`, each
  with the user captured by what was pressed.
* `OwnWrites` — the writes of an action name the signed-in user, and there are none while nobody
  is signed in; `CapturedCurrent` — the captured user is the signed-in one, unless nothing is
  written.
* `joinClub_own`, `addPost_own`, `onTap_own`, `saveSchool_own` — for each writer, the one holds
  exactly when the other does.
* `ownWrites_of_sameUser` — while the same user stays signed in, every write is that user's own.
* `ownWrites_iff` — **all writes of a run are the signed-in user's own exactly when at each of
  them the captured user is the signed-in one**.
* `join_after_logout` — a join pressed after the logout.
-/

set_option autoImplicit false

namespace TheHive

open DocStore Transition

namespace ChooseSchoolPage

/-- `userId` is the e-mail of the user when the page's state was created.  `timestamp` is set to
`FieldValue.serverTimestamp()`: `now` is the time the server puts there, whatever it is. -/
def saveSchoolToFirestore (userId : Option User) (school : String) (now : Timestamp) :
    Option Write := do
  let userId ← userId
  let user ← doc ["Users"] userId.email
  return .setMerge user
    (Doc.ofList [(.selectedSchool, .str school), (.timestamp, .timestamp now)])

end ChooseSchoolPage

/-- A `joinClub` that waits for its read. -/
structure PendingJoin where
  currentUser : Option User
  auto : AutoId
  club : ClubTile

structure World where
  nav : Nav
  db : Db
  /-- The tiles of the Volunteer pages constructed so far. -/
  tiles : List VolunteerEventTile
  joins : List PendingJoin

inductive WorldAction where
  | nav (a : Nav.Action)
  /-- The join button; the read starts, and the page is rebuilt. -/
  | pressJoin (auto : AutoId)
  | finishJoin (i : Nat)
  /-- The notification button or a tab of the club page, which is rebuilt. -/
  | rebuildClub
  | post (auto : AutoId) (now : Timestamp) (message : String)
  /-- A Volunteer page in the tree builds the tile of a document. -/
  | buildTile (event : Doc)
  | tapTile (i : Nat)
  | selectSchool (school : String) (now : Timestamp)
  /-- Any other write to the store. -/
  | elsewhere (w : Write)

namespace World

def start (user : Option User) (db : Db) : World := ⟨.start user, db, [], []⟩

/-- The signed-in user. -/
def currentUser (w : World) : Option User := w.nav.currentUser

/-- The user the state of the page in front captured. -/
def pageUser (w : World) : Option User := w.nav.routes.head?.bind Route.currentUser

/-- The user the widgets of the page in front captured when it was built last. -/
def builtUser (w : World) : Option User := w.nav.routes.head?.bind Route.built

/-- The club page in front is rebuilt. -/
def rebuildTop (w : World) : World :=
  { w with nav := w.nav.mapTop fun r => { r with built := w.nav.currentUser } }

/-- A Volunteer page, or the tab, is in the tree. -/
def hasVolunteerPage (w : World) : Bool :=
  w.nav.routes.any fun r => r.page = .volunteerPage || r.page = .authPage && r.built.isSome

end World

/-- The writes made by `joinClub`, `addPost`, `onTap` and `saveSchoolToFirestore`. -/
def userWrites (intl : Intl) (w : World) : WorldAction → List Write
  | .finishJoin i =>
    match w.joins[i]? with
    | some j => (ClubOutline.joinClub j.currentUser j.auto j.club w.db).toList
    | none => []
  | .post auto now message =>
    match w.nav.clubInFront with
    | some club =>
      -- `postMessage` posts nothing while the text field is empty
      if message = "" then []
      else (FirestoreDatabase.addPost w.builtUser auto now message club.clubName).toList
    | none => []
  | .tapTile i =>
    match w.tiles[i]? with
    | some t => t.onTap intl
    | none => []
  | .selectSchool school now =>
    (ChooseSchoolPage.saveSchoolToFirestore w.pageUser school now).toList
  | _ => []

def worldStep (intl : Intl) (w : World) (a : WorldAction) : Option World :=
  match a with
  | .nav a => (navStep w.nav a).map fun nav => { w with nav }
  | .pressJoin auto =>
    w.nav.clubInFront.map fun club =>
      { w.rebuildTop with joins := w.joins ++ [⟨w.pageUser, auto, club⟩] }
  | .finishJoin i =>
    if i < w.joins.length then
      some { w with db := commit (userWrites intl w a) w.db, joins := w.joins.eraseIdx i }
    else none
  | .rebuildClub => w.nav.clubInFront.map fun _ => w.rebuildTop
  | .post _ _ _ =>
    w.nav.clubInFront.map fun _ => { w with db := commit (userWrites intl w a) w.db }
  | .buildTile event =>
    if w.hasVolunteerPage then
      (VolunteerPage.tile intl w.currentUser event).map fun t => { w with tiles := t :: w.tiles }
    else none
  | .tapTile _ =>
    if w.nav.canTap .volunteerPage then some { w with db := commit (userWrites intl w a) w.db }
    else none
  | .selectSchool _ _ =>
    if w.nav.canTap .chooseSchoolPage then some { w with db := commit (userWrites intl w a) w.db }
    else none
  | .elsewhere v => some { w with db := v.settle w.db }

/-! ## The law and its condition -/

/-- The write goes under `Users/<email>` of the user, if it goes under `Users` at all, and a
post carries the user's e-mail. -/
def NamesUser (u : User) (w : Write) : Prop :=
  (∀ id rest, w.path = "Users" :: id :: rest → id = u.email) ∧
    ∀ p d email, w = .set p d → d .userEmail = some (.str email) → email = u.email

/-- The writes are the signed-in user's own; there are none while nobody is signed in. -/
def OwnWrites (user : Option User) (ws : List Write) : Prop :=
  match user with
  | some u => ∀ w ∈ ws, NamesUser u w
  | none => ws = []

/-- The text names a document below `Users/<email>/myVolunteerEvents`. -/
def IsEntryName (eventName : String) : Prop :=
  "" ∉ segments eventName ∧ (segments eventName).length % 2 = 1

/-- The user captured by what an action presses is the signed-in one, unless the action writes
nothing: the club is joined already, the post is empty or its object captured no user, the tile
captured no user or cannot be read back, the school page captured no user. -/
def CapturedCurrent (intl : Intl) (w : World) : WorldAction → Prop
  | .finishJoin i => ∀ j, w.joins[i]? = some j →
      (w.db.lookup (ClubOutline.clubRef j.currentUser j.auto j.club)).isSome ∨
        j.currentUser.isSome ∧ j.currentUser = w.currentUser
  | .post _ _ message => message = "" ∨ w.builtUser = none ∨ w.builtUser = w.currentUser
  | .tapTile i => ∀ t, w.tiles[i]? = some t →
      intl.parse .MMddyyyy t.eventDate = none ∨ ¬ IsEntryName t.eventName ∨
        t.currentUser = none ∨ t.currentUser = w.currentUser
  | .selectSchool _ _ => w.pageUser = none ∨ w.pageUser = w.currentUser
  | _ => True

variable {intl : Intl} {u : User} {user captured : Option User}

/-! ## The four writers -/

theorem currentUser_tile {event : Doc} {t : VolunteerEventTile}
    (h : VolunteerPage.tile intl user event = some t) : t.currentUser = user := by
  simp only [VolunteerPage.tile, Option.bind_eq_bind, Option.bind_eq_some_iff, Option.pure_def,
    Option.some.injEq] at h
  obtain ⟨_, _, _, _, _, _, _, _, _, _, _, _, _, _, rfl⟩ := h
  rfl

theorem ownWrites_nil : OwnWrites user [] := by
  cases user with
  | none => rfl
  | some u => exact fun w hw => by cases hw

/-- A writer that writes under its captured user keeps the law exactly when that user is signed
in. -/
theorem ownWrites_iff_captured {u : User} {ws : List Write} (hne : ws ≠ [])
    (hnames : ∀ v : User, (∀ w ∈ ws, NamesUser v w) ↔ v.email = u.email) :
    OwnWrites user ws ↔ some u = user := by
  cases user with
  | none => exact iff_of_false hne (by simp)
  | some v =>
    show (∀ w ∈ ws, NamesUser v w) ↔ _
    rw [hnames v, Option.some.injEq]
    exact ⟨fun h => (User.email_injective h).symm, fun h => by rw [h]⟩

theorem namesUser_set_iff {v : User} {id : String} {rest : Path} {d : Doc}
    (hd : d .userEmail = none) :
    NamesUser v (.set ("Users" :: id :: rest) d) ↔ v.email = id := by
  constructor
  · intro h
    exact (h.1 id rest rfl).symm
  · intro h
    refine ⟨fun id' rest' heq => ?_, fun p d' email heq hemail => ?_⟩
    · cases heq
      exact h.symm
    · cases heq
      rw [hd] at hemail
      cases hemail

/-- **A join is the signed-in user's own exactly when** the club is joined already, or the page
captured the signed-in user. -/
theorem joinClub_own (auto : AutoId) (club : ClubTile) (db : Db) :
    OwnWrites user (ClubOutline.joinClub captured auto club db).toList ↔
      (db.lookup (ClubOutline.clubRef captured auto club)).isSome ∨
        captured.isSome ∧ captured = user := by
  by_cases hjoined : (db.lookup (ClubOutline.clubRef captured auto club)).isSome
  · have hnone : ClubOutline.joinClub captured auto club db = none := if_pos hjoined
    rw [hnone]
    exact iff_of_true ownWrites_nil (.inl hjoined)
  · have hset : ClubOutline.joinClub captured auto club db =
        some (.set (ClubOutline.clubRef captured auto club) (ClubOutline.joinedDoc club)) :=
      if_neg hjoined
    rw [hset]
    simp only [hjoined, Bool.false_eq_true, false_or]
    cases captured with
    | some u =>
      simp only [Option.isSome_some, true_and]
      refine ownWrites_iff_captured (by simp) fun v => ?_
      rw [Option.toList_some, List.forall_mem_singleton]
      exact namesUser_set_iff rfl
    | none =>
      -- the generated id is nobody's e-mail
      refine iff_of_false ?_ (by simp)
      cases user with
      | none => exact fun h => by cases h
      | some v =>
        intro h
        exact v.email_ne_autoId auto ((namesUser_set_iff rfl).1 (h _ (List.mem_singleton.2 rfl)))

/-- **A post is the signed-in user's own exactly when** its database object captured that user,
or none. -/
theorem addPost_own (auto : AutoId) (now : Timestamp) (message : String) (clubName : DocId) :
    OwnWrites user (FirestoreDatabase.addPost captured auto now message clubName).toList ↔
      captured = none ∨ captured = user := by
  cases captured with
  | none => exact iff_of_true ownWrites_nil (.inl rfl)
  | some u =>
    simp only [reduceCtorEq, false_or]
    refine ownWrites_iff_captured (by simp [FirestoreDatabase.addPost]) fun v => ?_
    show (∀ w ∈ [_], NamesUser v w) ↔ _
    rw [List.forall_mem_singleton]
    constructor
    · intro h
      exact (h.2 _ _ u.email rfl rfl).symm
    · intro h
      refine ⟨fun id rest heq => by simp [Write.path] at heq, fun p d email heq hemail => ?_⟩
      cases heq
      cases hemail
      exact h.symm

theorem saveSchool_own (school : String) (now : Timestamp) :
    OwnWrites user (ChooseSchoolPage.saveSchoolToFirestore captured school now).toList ↔
      captured = none ∨ captured = user := by
  cases captured with
  | none => exact iff_of_true ownWrites_nil (.inl rfl)
  | some u =>
    have hwrite : ChooseSchoolPage.saveSchoolToFirestore (some u) school now =
        some (.setMerge ["Users", u.email]
          (Doc.ofList [(.selectedSchool, .str school), (.timestamp, .timestamp now)])) := by
      simp [ChooseSchoolPage.saveSchoolToFirestore]
    rw [hwrite]
    simp only [reduceCtorEq, false_or]
    refine ownWrites_iff_captured (by simp) fun v => ?_
    rw [Option.toList_some, List.forall_mem_singleton]
    constructor
    · intro h
      exact (h.1 u.email [] rfl).symm
    · intro h
      refine ⟨fun id rest heq => ?_, fun p d email heq => by cases heq⟩
      cases heq
      exact h.symm

theorem doc_entry (u : User) (eventName : String) :
    doc ["Users", u.email, "myVolunteerEvents"] eventName =
      if "" ∉ segments eventName ∧ (segments eventName).length % 2 = 1 then
        some ("Users" :: u.email :: "myVolunteerEvents" :: segments eventName)
      else none := by
  have hlen : (["Users", u.email, "myVolunteerEvents"] ++ segments eventName).length % 2 = 0 ↔
      (segments eventName).length % 2 = 1 := by
    simp only [List.length_append, List.length_cons, List.length_nil]
    omega
  unfold doc
  simp only [hlen]
  rfl

/-- **A sign-up is the signed-in user's own exactly when** its tile captured that user, or none,
or cannot be read back. -/
theorem onTap_own (t : VolunteerEventTile) :
    OwnWrites user (t.onTap intl) ↔
      intl.parse .MMddyyyy t.eventDate = none ∨ ¬ IsEntryName t.eventName ∨
        t.currentUser = none ∨ t.currentUser = user := by
  unfold VolunteerEventTile.onTap
  cases hparse : intl.parse .MMddyyyy t.eventDate with
  | none => exact iff_of_true ownWrites_nil (.inl rfl)
  | some date =>
    simp only [VolunteerEventTile.addEventToMyCalendar, reduceCtorEq, false_or]
    cases hcap : t.currentUser with
    | none => exact iff_of_true ownWrites_nil (.inr (.inl rfl))
    | some u =>
      simp only [Option.bind_eq_bind, Option.bind_some, doc_users, List.cons_append,
        List.nil_append, doc_entry, reduceCtorEq, false_or]
      by_cases hname : IsEntryName t.eventName
      · rw [if_pos (show "" ∉ segments t.eventName ∧ _ from hname)]
        simp only [hname, not_true_eq_false, false_or, Option.bind_some, Option.pure_def]
        refine ownWrites_iff_captured (by simp) fun v => ?_
        rw [List.forall_mem_cons]
        -- the count is written below `volunteer`
        have hcount : ∀ w ∈ t.decrementNumberOfPeople.toList, NamesUser v w := by
          intro w hw
          rw [Option.mem_toList] at hw
          unfold VolunteerEventTile.decrementNumberOfPeople at hw
          split at hw
          · obtain ⟨p, hp, hw⟩ := Option.bind_eq_some_iff.1 hw
            cases hw
            refine ⟨fun id rest heq => ?_, fun p d email heq => by cases heq⟩
            change p = _ at heq
            rw [prefix_of_doc hp] at heq
            simp at heq
          · cases hw
        constructor
        · rintro ⟨h, -⟩
          exact (namesUser_set_iff rfl).1 h
        · intro h
          exact ⟨(namesUser_set_iff rfl).2 h, hcount⟩
      · rw [if_neg (show ¬ ("" ∉ segments t.eventName ∧ _) from hname)]
        exact iff_of_true ownWrites_nil (.inl hname)

/-! ## Runs -/

/-- **One action writes the signed-in user's own documents exactly when** the user it captured
is the signed-in one. -/
theorem ownWrites_step {w : World} {a : WorldAction} {w' : World}
    (ht : worldStep intl w a = some w') :
    OwnWrites w.currentUser (userWrites intl w a) ↔ CapturedCurrent intl w a := by
  cases a with
  | finishJoin i =>
    simp only [userWrites, CapturedCurrent]
    cases w.joins[i]? with
    | none => exact iff_of_true ownWrites_nil fun j hj => by cases hj
    | some j => simpa using joinClub_own j.auto j.club w.db
  | post auto now message =>
    obtain ⟨club, hclub, -⟩ := Option.map_eq_some_iff.1 ht
    simp only [userWrites, CapturedCurrent, hclub]
    split
    · rename_i hempty
      exact iff_of_true ownWrites_nil (.inl hempty)
    · rename_i hmessage
      simpa [hmessage] using addPost_own auto now message club.clubName
  | tapTile i =>
    simp only [userWrites, CapturedCurrent]
    cases w.tiles[i]? with
    | none => exact iff_of_true ownWrites_nil fun t ht => by cases ht
    | some t => simpa using onTap_own t
  | selectSchool school now => exact saveSchool_own school now
  | _ => exact iff_of_true ownWrites_nil trivial

/-! ### While the user stays the same -/

/-- Every page captured the user `c`, who is the signed-in one. -/
def CapturedBy (c : Option User) (s : Nav) : Prop :=
  s.currentUser = c ∧ ∀ r ∈ s.routes, r.currentUser = c ∧ r.built = c

namespace CapturedBy

variable {c : Option User} {s : Nav}

theorem of_routes (h : CapturedBy c s) {t : Nav} (huser : t.currentUser = c)
    (hroutes : ∀ r ∈ t.routes, r ∈ s.routes) : CapturedBy c t :=
  ⟨huser, fun r hr => h.2 r (hroutes r hr)⟩

theorem push (h : CapturedBy c s) (p : Page) : CapturedBy c (Nav.push p s) := by
  refine ⟨h.1, fun r hr => ?_⟩
  rcases List.mem_cons.1 hr with rfl | hr
  · exact ⟨h.1, h.1⟩
  · exact h.2 r hr

theorem removeTop (h : CapturedBy c s) : CapturedBy c (Nav.removeTop s) := by
  refine h.of_routes (Nav.currentUser_removeTop.trans h.1) fun r hr => ?_
  unfold Nav.removeTop at hr
  split at hr
  · exact hr
  · rename_i r' rs hs
    rw [hs]
    split at hr <;> exact List.mem_cons_of_mem _ hr

theorem mapTop (h : CapturedBy c s) {f : Route → Route}
    (hf : ∀ r, r.currentUser = c ∧ r.built = c → (f r).currentUser = c ∧ (f r).built = c) :
    CapturedBy c (Nav.mapTop f s) := by
  refine ⟨(Nav.currentUser_mapTop f).trans h.1, fun r hr => ?_⟩
  unfold Nav.mapTop at hr
  split at hr
  · exact h.2 r hr
  · rename_i r' rs hs
    rcases List.mem_cons.1 hr with rfl | hr
    · exact hf r' (h.2 r' (by rw [hs]; exact List.mem_cons_self))
    · exact h.2 r (by rw [hs]; exact List.mem_cons_of_mem _ hr)

theorem pop (h : CapturedBy c s) : CapturedBy c (Nav.pop s) := by
  unfold Nav.pop
  split
  · rename_i p user built d ds rs hs
    have hmap := h.mapTop (f := fun r => { r with drawers := r.drawers.tail }) fun r hr => hr
    simpa only [Nav.mapTop, hs, List.tail_cons] using hmap
  · exact h.removeTop

theorem rebuildAuthPage (h : CapturedBy c s) : CapturedBy c (Nav.rebuildAuthPage s) := by
  refine ⟨Nav.currentUser_rebuildAuthPage.trans h.1, fun r hr => ?_⟩
  unfold Nav.rebuildAuthPage at hr
  split at hr
  · obtain ⟨r', hr', rfl⟩ := List.mem_map.1 hr
    split
    · exact ⟨h.1, h.1⟩
    · exact h.2 r' hr'
  · exact h.2 r hr

theorem resumeWith (h : CapturedBy c s) {i : Nat} {k : CallKind → Nav → Nav}
    (hk : ∀ kind s, CapturedBy c s → CapturedBy c (k kind s)) :
    CapturedBy c (Nav.resumeWith i k s) := by
  unfold Nav.resumeWith
  split
  · exact h
  · rename_i call _
    show CapturedBy c (if call.mounted then k call.kind _ else _)
    split
    · exact hk _ _ ⟨h.1, h.2⟩
    · exact ⟨h.1, h.2⟩

theorem withUser (h : CapturedBy c s) (user : Option User) (huser : user = c) :
    CapturedBy c (Nav.withUser user s) := ⟨huser, h.2⟩

theorem succeeded (kind : CallKind) (s : Nav) (h : CapturedBy c s) :
    CapturedBy c (Nav.succeeded kind s) := by
  cases kind with
  | login => exact h.pop
  | register => exact h.pop.removeTop.push _
  | google => exact h

theorem failed (code : String) (kind : CallKind) (s : Nav) (h : CapturedBy c s) :
    CapturedBy c (Nav.failed code kind s) := by
  cases kind with
  | login => exact h.pop.push _
  | register => exact (h.pop.push _).removeTop.push _
  | google => exact h

/-- **An action that leaves the user signed in captures no other.** -/
theorem effect (h : CapturedBy c s) (a : Nav.Action) (ha : (Nav.effect a s).currentUser = c) :
    CapturedBy c (Nav.effect a s) := by
  rw [Nav.currentUser_effect] at ha
  cases a with
  | toggle | changeTab _ | tapGoogle => exact ⟨h.1, h.2⟩
  | tapLogin => exact ⟨h.1, (h.push .loading).2⟩
  | tapRegister passwordsMatch =>
    cases passwordsMatch with
    | true => exact ⟨h.1, (h.push .loading).2⟩
    | false => exact ((h.push .loading).pop).push _
  | settle i o =>
    cases o with
    | success user resume =>
      have huser := h.withUser (some user) ha
      cases resume with
      | first => exact (huser.resumeWith succeeded).rebuildAuthPage
      | afterRebuild => exact huser.rebuildAuthPage.resumeWith succeeded
    | failure code => exact h.resumeWith (failed code)
  | openDrawer p => exact h.mapTop fun _ hr => hr
  | closeDrawer p => exact h.mapTop fun _ hr => hr
  | drawerItem p => exact h.pop.push p
  | logout => exact (h.pop.withUser none ha).rebuildAuthPage
  | tapClub club => exact h.pop.push _
  | changeSchool => exact h.pop.push _
  | submitClub | tapPadding | openEventForm => exact h.push _
  | clubBack | next => exact h.removeTop.push _
  | closeEventForm | back => exact h.pop

end CapturedBy

/-- Everything that captured a user captured `u`, who is signed in. -/
structure SameUser (u : User) (w : World) : Prop where
  nav : CapturedBy (some u) w.nav
  tiles : ∀ t ∈ w.tiles, t.currentUser = some u
  joins : ∀ j ∈ w.joins, j.currentUser = some u

namespace SameUser

variable {w w' : World} {a : WorldAction}

theorem pageUser (h : SameUser u w) : w.pageUser = none ∨ w.pageUser = some u := by
  unfold World.pageUser
  cases hr : w.nav.routes with
  | nil => exact .inl rfl
  | cons r rs => exact .inr (h.nav.2 r (by rw [hr]; exact List.mem_cons_self)).1

theorem builtUser (h : SameUser u w) : w.builtUser = none ∨ w.builtUser = some u := by
  unfold World.builtUser
  cases hr : w.nav.routes with
  | nil => exact .inl rfl
  | cons r rs => exact .inr (h.nav.2 r (by rw [hr]; exact List.mem_cons_self)).2

theorem capturedCurrent (h : SameUser u w) : CapturedCurrent intl w a := by
  have hu : w.currentUser = some u := h.nav.1
  cases a with
  | finishJoin i =>
    intro j hj
    have hcap := h.joins j (List.mem_of_getElem? hj)
    exact .inr ⟨by rw [hcap]; rfl, by rw [hcap, hu]⟩
  | post auto now message =>
    refine .inr ?_
    rw [hu]
    exact h.builtUser
  | tapTile i =>
    intro t ht
    exact .inr (.inr (.inr (by rw [h.tiles t (List.mem_of_getElem? ht), hu])))
  | selectSchool school now =>
    show w.pageUser = none ∨ w.pageUser = w.currentUser
    rw [hu]
    exact h.pageUser
  | _ => exact trivial

theorem step (h : SameUser u w) (ht : worldStep intl w a = some w')
    (hu : w'.currentUser = some u) : SameUser u w' := by
  have hrebuild : CapturedBy (some u) w.rebuildTop.nav :=
    h.nav.mapTop fun _ hr => ⟨hr.1, h.nav.1⟩
  cases a with
  | nav a =>
    obtain ⟨nav, hnav, rfl⟩ := Option.map_eq_some_iff.1 ht
    obtain ⟨-, rfl⟩ := Nav.navStep_eq_some.1 hnav
    exact ⟨h.nav.effect a hu, h.tiles, h.joins⟩
  | pressJoin auto =>
    obtain ⟨club, hclub, rfl⟩ := Option.map_eq_some_iff.1 ht
    refine ⟨hrebuild, h.tiles, fun j hj => ?_⟩
    rcases List.mem_append.1 hj with hj | hj
    · exact h.joins j hj
    · rw [List.mem_singleton.1 hj]
      -- a club page is in front, so there is a route
      rcases h.pageUser with hnone | hsome
      · unfold Nav.clubInFront at hclub
        split at hclub
        · rename_i _ hshown
          obtain ⟨r, rs, hr, -⟩ := Nav.shown_eq_some.1 hshown
          have hcap := (h.nav.2 r (by rw [hr]; exact List.mem_cons_self)).1
          simp [World.pageUser, hr, hcap] at hnone
        · cases hclub
      · exact hsome
  | finishJoin i =>
    obtain ⟨-, hw'⟩ := Option.ite_none_right_eq_some.1 ht
    cases hw'
    exact ⟨h.nav, h.tiles, fun j hj => h.joins j (List.mem_of_mem_eraseIdx hj)⟩
  | rebuildClub =>
    obtain ⟨_, _, rfl⟩ := Option.map_eq_some_iff.1 ht
    exact ⟨hrebuild, h.tiles, h.joins⟩
  | post auto now message =>
    obtain ⟨_, _, rfl⟩ := Option.map_eq_some_iff.1 ht
    exact ⟨h.nav, h.tiles, h.joins⟩
  | buildTile event =>
    obtain ⟨-, hw'⟩ := Option.ite_none_right_eq_some.1 ht
    obtain ⟨t, htile, rfl⟩ := Option.map_eq_some_iff.1 hw'
    refine ⟨h.nav, fun t' ht' => ?_, h.joins⟩
    rcases List.mem_cons.1 ht' with rfl | ht'
    · rw [currentUser_tile htile]
      exact h.nav.1
    · exact h.tiles t' ht'
  | tapTile _ | selectSchool _ _ =>
    obtain ⟨-, hw'⟩ := Option.ite_none_right_eq_some.1 ht
    cases hw'
    exact ⟨h.nav, h.tiles, h.joins⟩
  | elsewhere v =>
    cases ht
    exact ⟨h.nav, h.tiles, h.joins⟩

end SameUser

/-- **While the same user stays signed in, every write is that user's own**: a captured user
goes stale only through a sign-in or a sign-out. -/
theorem ownWrites_of_sameUser (intl : Intl) (u : User) (db : Db) (as : List WorldAction)
    (hu : ∀ w ∈ visited (worldStep intl) (.start (some u) db) as, w.currentUser = some u) :
    ∀ x ∈ taken (worldStep intl) (.start (some u) db) as,
      OwnWrites x.1.currentUser (userWrites intl x.1 x.2) := by
  rw [forall_visited] at hu
  have hall : (∀ x ∈ taken (worldStep intl) (.start (some u) db) as, x.1.currentUser = some u) →
      (exec (worldStep intl) (.start (some u) db) as).currentUser = some u →
      SameUser u (exec (worldStep intl) (.start (some u) db) as) ∧
        ∀ x ∈ taken (worldStep intl) (.start (some u) db) as, SameUser u x.1 := by
    refine history_invariant (P := fun h w => (∀ x ∈ h, x.1.currentUser = some u) →
      w.currentUser = some u → SameUser u w ∧ ∀ x ∈ h, SameUser u x.1) ?_ ?_ as
    · intro _ _
      refine ⟨⟨⟨rfl, fun r hr => ?_⟩, fun t ht => (by cases ht), fun j hj => (by cases hj)⟩,
        fun x hx => (by cases hx)⟩
      rw [List.mem_singleton.1 hr]
      exact ⟨rfl, rfl⟩
    · intro h w a w' hP ht hh hw'
      simp only [List.forall_mem_append, List.forall_mem_singleton] at hh ⊢
      obtain ⟨hsame, hbefore⟩ := hP hh.1 hh.2
      exact ⟨hsame.step ht hw', hbefore, hsame⟩
  intro x hx
  obtain ⟨w', hw'⟩ := step_of_mem_taken as x hx
  exact (ownWrites_step hw').2 ((hall hu.1 hu.2).2 x hx).capturedCurrent

/-! ### Any run -/

/-- **All writes of a run are the signed-in user's own exactly when** at each of them the
captured user is the one signed in. -/
theorem ownWrites_iff (intl : Intl) (user : Option User) (db : Db) (as : List WorldAction) :
    (∀ x ∈ taken (worldStep intl) (.start user db) as,
        OwnWrites x.1.currentUser (userWrites intl x.1 x.2)) ↔
      ∀ x ∈ taken (worldStep intl) (.start user db) as, CapturedCurrent intl x.1 x.2 :=
  taken_iff_taken (I := fun _ => True)
    (G := fun w a => OwnWrites w.currentUser (userWrites intl w a)) trivial
    (fun _ _ _ _ _ => trivial) (fun _ _ _ _ ht => ownWrites_step ht) as

/-- Ann opens a club page from All Clubs, logs out from its drawer and presses its join
button. -/
def joinAfterLogout : List WorldAction :=
  [.nav (.openDrawer .homePage), .nav (.drawerItem .searchPage), .nav (.tapClub chessClub),
    .nav (.openDrawer (.clubOutline chessClub)), .nav .logout, .pressJoin sampleAutoId,
    .finishJoin 0]

/-- A join pressed after the logout is written under the user who has left. -/
theorem join_after_logout :
    ¬ ∀ x ∈ taken (worldStep marchThird) (.start (some ann) ∅) joinAfterLogout,
      OwnWrites x.1.currentUser (userWrites marchThird x.1 x.2) := by
  intro h
  have hlen : (taken (worldStep marchThird) (.start (some ann) ∅) joinAfterLogout).length = 7 := by
    decide
  have hlast := h _ (List.getElem_mem (show 6 < _ by rw [hlen]; omega))
  cases hlast

end TheHive
