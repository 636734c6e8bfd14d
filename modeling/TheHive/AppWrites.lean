import TheHive.Hive

/-!
# What the handlers write

* `AppAction.currentUser` — the user a handler reads.
* `AppWrite` — **every write of a handler, by what it does to which document**
  (`appWrite_appWrites`): where documents are set, what an update and a merge bring, and what is
  deleted.
* `WellKept` — readable documents at paths; `wellKept_visited` — every visited store is.
-/

set_option autoImplicit false

namespace TheHive

open DocStore TypedStore List

/-! ## Paths -/

theorem isPath_cons {i : String} {p : Path} : IsPath (i :: p) ↔ IsDocId i ∧ IsPath p :=
  List.forall_mem_cons

theorem isPath_nil : IsPath [] := fun _ h => by cases h

theorem isPath_users {i : String} {p : Path} (hi : IsDocId i) (hp : IsPath p) :
    IsPath ("Users" :: i :: p) :=
  isPath_cons.2 ⟨by decide, isPath_cons.2 ⟨hi, hp⟩⟩

theorem isPath_club {p : Path} (club : DocId) (hp : IsPath p) : IsPath ("club" :: club.val :: p) :=
  isPath_cons.2 ⟨by decide, isPath_cons.2 ⟨club.ok, hp⟩⟩

theorem isPath_singleton {i : String} (h : IsDocId i) : IsPath [i] := isPath_cons.2 ⟨h, isPath_nil⟩

theorem isPath_entriesOf (u : User) : IsPath (entriesOf u) :=
  isPath_users u.email_ok (isPath_singleton (by decide))

theorem isPath_clubEventsOf (club : DocId) : IsPath (clubEventsOf club.val) :=
  isPath_club club (isPath_singleton (by decide))

/-! ## The writes -/

/-- The user a handler reads, if it reads one. -/
def AppAction.currentUser : AppAction → Option User
  | .store (.signUp t) => t.currentUser
  | .store (.joinClub currentUser _ _) => currentUser
  | .addPost user _ _ _ _ | .createUserDocument user _ | .saveSchool user _ _ => user
  | .store _ => none

/-- A write of a handler that reads `user`.  Only a choice of school sets `timestamp`. -/
inductive AppWrite (user : Option User) : Write → Prop where
  /-- A club, an event of a club, a volunteer event or a post. -/
  | shared {p : Path} {d : Doc} (hp : IsPath p) (hroot : p.head? ≠ some "Users")
      (htime : d .timestamp = none) : AppWrite user (.set p d)
  /-- The profile, a membership or an entry of the user. -/
  | own {u : User} {p : Path} {d : Doc} (hu : user = some u) (hp : IsPath p)
      (hroot : ["Users", u.email] <+: p) (htime : d .timestamp = none) : AppWrite user (.set p d)
  /-- A membership of nobody. -/
  | nobody (hu : user = none) (auto : AutoId) (club : DocId) {d : Doc}
      (htime : d .timestamp = none) :
      AppWrite user (.set ["Users", auto.val, "joinedClubs", club.val] d)
  | count {name : String} {p : Path} (hp : doc ["volunteer"] name = some p) (k : Int) :
      AppWrite user (.update p (Doc.ofList [(.numberOfPeople, .int k)]))
  | choice {u : User} (hu : user = some u) (school : String) (now : Timestamp) :
      AppWrite user (.setMerge ["Users", u.email]
        (Doc.ofList [(.selectedSchool, .str school), (.timestamp, .timestamp now)]))
  /-- From the Volunteer page, a club's calendar or My Calendar. -/
  | delete {p : Path} (hp : (∃ name, doc ["volunteer"] name = some p) ∨
      (∃ name, doc ["events"] name = some p) ∨ InGroup "clubEvents" p) : AppWrite user (.delete p)

variable {intl : Intl} {user : Option User} {w : Write} {db : Db}

/-- A document set under a typed name of a shared collection. -/
theorem appWrite_shared {c p : Path} {name : String} {d : Doc} (hc : IsPath c)
    (hroot : ∀ l, (c ++ l).head? ≠ some "Users") (hp : doc c name = some p)
    (htime : d .timestamp = none) : AppWrite user (.set p d) :=
  .shared (isPath_doc hc hp) (by rw [prefix_of_doc hp]; exact hroot _) htime

/-- The entry in the documents of the user, and the count of the event. -/
theorem appWrite_onTap {t : VolunteerEventTile} (hw : w ∈ t.onTap intl) :
    AppWrite t.currentUser w := by
  unfold VolunteerEventTile.onTap at hw
  split at hw
  · cases hw
  · split at hw
    · cases hw
    · rename_i add hadd
      rcases List.mem_cons.1 hw with rfl | hw
      · simp only [VolunteerEventTile.addEventToMyCalendar, Option.bind_eq_bind,
          Option.bind_eq_some_iff, Option.pure_def, Option.some.injEq, doc_users] at hadd
        obtain ⟨u, hu, -, rfl, p, hp, rfl⟩ := hadd
        refine .own hu (isPath_doc (isPath_entriesOf u) hp) ?_ rfl
        rw [prefix_of_doc hp]
        exact ⟨_, rfl⟩
      · unfold VolunteerEventTile.decrementNumberOfPeople at hw
        split at hw
        · obtain ⟨p, hp, hw⟩ := Option.bind_eq_some_iff.1 (Option.mem_toList.1 hw)
          cases hw
          exact .count hp _
        · cases hw

theorem appWrite_storeWrites {seen : Db} {a : StoreAction} (hw : w ∈ storeWrites intl seen a) :
    AppWrite (AppAction.store a).currentUser w := by
  cases a with
  | submitClub clubName clubDes clubAdvisor =>
    obtain ⟨p, hp, rfl⟩ := CreateAClub.submit_cases (Option.mem_toList.1 hw)
    exact appWrite_shared (isPath_singleton (by decide)) (by simp) hp rfl
  | addClubEvent club e =>
    obtain ⟨p, hp, rfl⟩ := ClubCalendarPage.saveEventToFirestore_cases (Option.mem_toList.1 hw)
    exact appWrite_shared (isPath_clubEventsOf club) (by simp [clubEventsOf]) hp rfl
  | addVolunteerEvent e =>
    obtain ⟨p, hp, rfl⟩ := VolunteerPage.saveEventToFirestore_cases (Option.mem_toList.1 hw)
    exact appWrite_shared (isPath_singleton (by decide)) (by simp) hp rfl
  | signUp t => exact appWrite_onTap hw
  | joinClub currentUser auto club =>
    have hw := Option.mem_toList.1 hw
    unfold ClubOutline.joinClub at hw
    obtain ⟨-, hw⟩ := Option.ite_none_left_eq_some.1 hw
    cases hw
    cases currentUser with
    | some u =>
      refine .own (u := u) rfl ?_ ⟨_, rfl⟩ rfl
      exact isPath_users u.email_ok (isPath_cons.2 ⟨by decide, isPath_singleton club.clubName.ok⟩)
    | none => exact .nobody rfl auto club.clubName rfl
  | deleteVolunteerEvent eventName =>
    obtain ⟨p, hp, rfl⟩ := VolunteerPage.deleteTask_cases (Option.mem_toList.1 hw)
    exact .delete (.inl ⟨eventName, hp⟩)
  | deleteClubEvent eventName =>
    obtain ⟨p, hp, rfl⟩ := ClubCalendarPage.deleteTask_cases (Option.mem_toList.1 hw)
    exact .delete (.inr (.inl ⟨eventName, hp⟩))
  | deleteFromCalendar mode p eventName =>
    obtain ⟨q, rfl, ⟨⟨hgroup, -⟩, -⟩, -⟩ := deleteTask_eq_some_iff.1 (Option.mem_toList.1 hw)
    exact .delete (.inr (.inr hgroup))

/-- **What every handler writes.** -/
theorem appWrite_appWrites {q : Request} (hw : w ∈ appWrites intl q) :
    AppWrite q.action.currentUser w := by
  obtain ⟨seen, a⟩ := q
  cases a with
  | store a => exact appWrite_storeWrites hw
  | addPost user auto now message club =>
    cases user with
    | none => cases hw
    | some u =>
      rw [List.mem_singleton.1 hw]
      refine .shared ?_ (by simp) rfl
      exact isPath_club club (isPath_cons.2 ⟨by decide, isPath_singleton auto.ok⟩)
  | createUserDocument user username =>
    cases user with
    | none => cases hw
    | some u =>
      simp only [appWrites, createUserDocument_eq] at hw
      rw [List.mem_singleton.1 hw]
      exact .own (u := u) rfl (isPath_users u.email_ok isPath_nil) ⟨_, rfl⟩ rfl
  | saveSchool user school now =>
    cases user with
    | none => cases hw
    | some u =>
      simp only [appWrites, ChooseSchoolPage.saveSchoolToFirestore, doc_users] at hw
      rw [List.mem_singleton.1 hw]
      exact .choice rfl school now

/-- Every document is written at a path. -/
theorem AppWrite.isPath (h : AppWrite user w) : IsPath w.path ∨ ∃ p, w = .delete p := by
  cases h with
  | shared hp | own _ hp => exact .inl hp
  | nobody _ auto club =>
    exact .inl (isPath_users auto.ok (isPath_cons.2 ⟨by decide, isPath_singleton club.ok⟩))
  | count hp => exact .inl (isPath_doc (isPath_singleton (by decide)) hp)
  | @choice u => exact .inl (isPath_users u.email_ok isPath_nil)
  | @delete p => exact .inr ⟨p, rfl⟩

/-- Only volunteer events are named in the collection `volunteer`. -/
theorem ref_of_volunteer {name : String} {r : Ref} (h : doc ["volunteer"] name = some r.path) :
    ∃ event, r = .volunteer event := by
  have hpath := prefix_of_doc h
  cases r with
  | volunteer event => exact ⟨event, rfl⟩
  | club | clubEvent | post | member | entry | profile =>
    simp [Ref.path, clubEventsOf, postsOf, entryPath] at hpath

/-- **Only volunteer events are updated.** -/
theorem AppWrite.of_update {r : Ref} {d : Doc} (h : AppWrite user (.update r.path d)) :
    ∃ event, r = .volunteer event := by
  cases h with
  | count hp => exact ref_of_volunteer hp

/-- Only events are deleted. -/
theorem AppWrite.of_delete {r : Ref} (h : AppWrite user (.delete r.path)) :
    (∃ e, r = .volunteer e) ∨ ∃ c e, r = .clubEvent c e := by
  cases h with
  | delete hp =>
    rcases hp with ⟨name, hp⟩ | ⟨name, hp⟩ | hp
    · exact .inl (ref_of_volunteer hp)
    · have hpath := prefix_of_doc hp
      cases r <;> simp [Ref.path, clubEventsOf, postsOf, volunteerPath, entryPath] at hpath
    · cases r <;>
        simp [InGroup, Ref.path, clubEventsOf, postsOf, volunteerPath, entryPath] at hp ⊢

/-- What every write of the app is. -/
structure IsAppWrite (w : Write) : Prop where
  denotes : ∃ op, Denotes hiveSchema w op
  writes : ∃ user, AppWrite user w

theorem isAppWrite_appWrites (intl : Intl) (q : Request) : ∀ w ∈ appWrites intl q, IsAppWrite w :=
  fun w hw => ⟨InFlight.exists_of_forall₂ (denotes_hiveOps intl q) w hw, _, appWrite_appWrites hw⟩

/-! ## The stores -/

/-- A store of the app: readable documents at paths. -/
structure WellKept (db : Db) : Prop where
  sound : hiveSchema.Sound db
  paths : PlainPaths db

theorem wellKept_empty : WellKept ∅ :=
  ⟨fun _ _ h => (by cases h), fun _ h => (by cases h)⟩

theorem WellKept.settle (hdb : WellKept db) (hw : IsAppWrite w) : WellKept (w.settle db) := by
  obtain ⟨op, hop⟩ := hw.denotes
  obtain ⟨user, huser⟩ := hw.writes
  exact ⟨hop.sound_settle hdb.sound, plainPaths_settle hdb.paths huser.isPath⟩

/-- Every visited store is one of the app. -/
theorem wellKept_visited (intl : Intl) (hdb : WellKept db) (as : List (InFlight.Action Request)) :
    ∀ t ∈ Transition.visited (cloudStep intl) (.start db) as,
      (∀ w ∈ t.net, IsAppWrite w) ∧ WellKept t.store :=
  InFlight.emitted_visited (isAppWrite_appWrites intl) (fun _ _ hw h => h.settle hw)
    ⟨fun _ h => (by cases h), hdb⟩ as

end TheHive
