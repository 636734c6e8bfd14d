import TheHive.RootRoute

/-!
# Ways back

Which pages a user can still get to, from any state of the app.

* `reaches_below` — the back button leads to every route of the stack.
* `reaches_logout` — so does the drawer of a page in front to the sign-out.
* `loginPage_reachable_iff` — **the login page can be reached exactly while `AuthPage` is in the
  stack**: no action and no settling call ever brings it back.
* `Page.leadsToDrawer`, `stuck_step` — a stack without a page that leads to a drawer stays so.
* `signOut_reachable_iff` — **a user can still sign out exactly while a page that leads to a
  drawer is in the stack**.
-/

set_option autoImplicit false

namespace TheHive

open DocStore Transition Nav

variable {s t : Nav} {a : Nav.Action} {r : Route} {rs : List Route}

/-! ## The back button -/

theorem navStep_back (h : s.openDrawers ≠ [] ∨ 1 < s.routes.length) :
    navStep s .back = some (pop s) :=
  Nav.navStep_eq_some.2 ⟨by simpa [enabled] using h, rfl⟩

/-- The open drawers of the top route are closed one by one. -/
theorem reaches_noDrawers (p : Page) (user built : Option User) (ds : List Page)
    (hs : s.routes = ⟨p, user, built, ds⟩ :: rs) :
    Reaches navStep s { s with routes := ⟨p, user, built, []⟩ :: rs } := by
  induction ds generalizing s with
  | nil =>
    rw [← hs]
    exact .refl s
  | cons d ds ih =>
    have hpop : pop s = { s with routes := ⟨p, user, built, ds⟩ :: rs } := by
      simp only [pop, hs]
    have hback := navStep_back (s := s) (.inl (by simp [openDrawers, hs]))
    rw [hpop] at hback
    exact (Reaches.of_step hback).trans (ih rfl)

/-- **Back, and back again**: every route of the stack can be brought to the front. -/
theorem reaches_below {pre post : List Route} (hpre : ∀ q ∈ pre, q.page ≠ .authPage)
    (hs : s.routes = pre ++ r :: post) :
    Reaches navStep s { s with routes := { r with drawers := [] } :: post } := by
  induction pre generalizing s with
  | nil => exact reaches_noDrawers r.page r.currentUser r.built r.drawers hs
  | cons q pre ih =>
    have hclosed := reaches_noDrawers q.page q.currentUser q.built q.drawers hs
    refine hclosed.trans ?_
    have hq := hpre q List.mem_cons_self
    have hpop : pop { s with routes := ⟨q.page, q.currentUser, q.built, []⟩ :: (pre ++ r :: post) } =
        { s with routes := pre ++ r :: post } := by
      simp only [pop, removeTop, if_neg hq]
    have hback := navStep_back
      (s := { s with routes := ⟨q.page, q.currentUser, q.built, []⟩ :: (pre ++ r :: post) })
      (.inr (by simp))
    rw [hpop] at hback
    exact (Reaches.of_step hback).trans (ih (fun q' hq' => hpre q' (List.mem_cons_of_mem q hq')) rfl)

/-- A page of the stack, with what is above and below it. -/
theorem exists_route {p : Page} (h : NavInv s) (hp : p ∈ s.pages) :
    ∃ pre r post, s.routes = pre ++ r :: post ∧ r.page = p ∧ ∀ q ∈ pre, q.page ≠ .authPage := by
  obtain ⟨r, hr, rfl⟩ := List.mem_map.1 hp
  obtain ⟨pre, post, hs⟩ := List.append_of_mem hr
  refine ⟨pre, r, post, hs, rfl, fun q hq => ?_⟩
  have hbottom := h.bottom
  rw [hs, List.pairwise_append] at hbottom
  exact hbottom.2.2 q hq r List.mem_cons_self

/-! ## Signing out -/

/-- **With a drawer in reach the user signs out**: it is opened, and its last item is tapped. -/
theorem reaches_logout {p q : Page} (hshown : s.shown = some (.page p)) (hq : q ∈ p.drawerPages)
    (hclosed : s.openDrawers = []) : Reaches navStep s (rebuildAuthPage (withUser none s)) := by
  obtain ⟨r, rs, hs, hr⟩ := shown_eq_some.1 hshown
  have hds : r.drawers = [] := by simpa [openDrawers, hs] using hclosed
  have hopen : navStep s (.openDrawer q) =
      some { s with routes := { r with drawers := [q] } :: rs } := by
    refine Nav.navStep_eq_some.2 ⟨?_, ?_⟩
    · simp [enabled, drawerPages, hshown, hq, hclosed]
    · simp [effect, mapTop, hs, hds]
  have hshown' : ({ s with routes := { r with drawers := [q] } :: rs } : Nav).shown =
      some (.page p) := shown_eq_some.2 ⟨_, _, rfl, hr⟩
  have hpop : pop { s with routes := { r with drawers := [q] } :: rs } = s := by
    obtain ⟨page, user, built, ds⟩ := r
    cases hds
    simp only [pop]
    rw [← hs]
  have hlogout : navStep { s with routes := { r with drawers := [q] } :: rs } .logout =
      some (rebuildAuthPage (withUser none s)) := by
    refine Nav.navStep_eq_some.2 ⟨?_, ?_⟩
    · simp [enabled, drawerInFront, drawerPages, hshown', openDrawers, hq]
    · simp only [effect, hpop]
  exact (Reaches.of_step hopen).trans (.of_step hlogout)

/-! ## The login page -/

theorem mem_pages_pop {p : Page} (h : p ∈ (pop s).pages) : p ∈ s.pages := by
  rw [pages_pop] at h
  split at h
  · exact List.mem_of_mem_tail h
  · exact h

theorem authPage_of_push {p : Page} (hp : p ≠ .authPage) (h : .authPage ∈ (push p s).pages) :
    .authPage ∈ s.pages := by
  rw [pages_push, List.mem_cons] at h
  exact h.resolve_left (Ne.symm hp)

theorem authPage_of_pushReplacement {p : Page} (hp : p ≠ .authPage)
    (h : .authPage ∈ (pushReplacement p s).pages) : .authPage ∈ s.pages := by
  rw [pages_pushReplacement, List.mem_cons] at h
  exact List.mem_of_mem_tail (h.resolve_left (Ne.symm hp))

theorem authPage_of_resumeWith {i : Nat} {k : CallKind → Nav → Nav}
    (hk : ∀ kind s, .authPage ∈ (k kind s).pages → .authPage ∈ s.pages)
    (h : .authPage ∈ (resumeWith i k s).pages) : .authPage ∈ s.pages := by
  cases hc : s.calls[i]? with
  | none => simpa only [resumeWith, hc] using h
  | some c =>
    obtain ⟨s', hroutes, hpages⟩ := pages_resumeWith k hc
    rw [hpages] at h
    split at h
    · have hs' := hk _ _ h
      rw [pages, hroutes] at hs'
      exact hs'
    · exact h

theorem authPage_of_succeeded (kind : CallKind) (s : Nav) (h : .authPage ∈ (succeeded kind s).pages) :
    .authPage ∈ s.pages := by
  cases kind with
  | login => exact mem_pages_pop h
  | register => exact mem_pages_pop (authPage_of_pushReplacement (by simp) h)
  | google => exact h

theorem authPage_of_failed (code : String) (kind : CallKind) (s : Nav)
    (h : .authPage ∈ (failed code kind s).pages) : .authPage ∈ s.pages := by
  cases kind with
  | login => exact mem_pages_pop (authPage_of_push (by simp) h)
  | register =>
    exact mem_pages_pop (authPage_of_push (by simp) (authPage_of_pushReplacement (by simp) h))
  | google => exact h

/-- **No step brings `AuthPage` back.** -/
theorem authPage_of_step (ht : navStep s a = some t) (h : .authPage ∈ t.pages) :
    .authPage ∈ s.pages := by
  obtain ⟨hen, rfl⟩ := Nav.navStep_eq_some.1 ht
  cases a with
  | toggle | tapGoogle | changeTab _ => exact h
  | tapLogin => exact authPage_of_push (p := .loading) (by simp) h
  | tapRegister passwordsMatch =>
    cases passwordsMatch with
    | true => exact authPage_of_push (p := .loading) (by simp) h
    | false =>
      exact authPage_of_push (p := .loading) (by simp) (mem_pages_pop (authPage_of_push (by simp) h))
  | settle i o =>
    cases o with
    | success user resume =>
      cases resume with
      | first =>
        simp only [effect, settle, pages_rebuildAuthPage] at h
        exact authPage_of_resumeWith (s := withUser (some user) s) authPage_of_succeeded h
      | afterRebuild =>
        have hs := authPage_of_resumeWith authPage_of_succeeded h
        simpa using hs
    | failure code => exact authPage_of_resumeWith (authPage_of_failed code) h
  | openDrawer p | closeDrawer p =>
    rw [effect, pages_mapTop (by intro r; rfl)] at h
    exact h
  | drawerItem p =>
    have hp : p ≠ .authPage := by
      rintro rfl
      simp [enabled, MyDrawer.items] at hen
    exact mem_pages_pop (authPage_of_push hp h)
  | logout =>
    simp only [effect, pages_rebuildAuthPage, pages_withUser] at h
    exact mem_pages_pop h
  | tapClub club | changeSchool => exact mem_pages_pop (authPage_of_push (by simp) h)
  | submitClub | tapPadding | openEventForm => exact authPage_of_push (by simp) h
  | clubBack | next => exact authPage_of_pushReplacement (by simp) h
  | closeEventForm | back => exact mem_pages_pop h

/-- The bottom of the stack in front: the login page is at most a sign-out or a toggle away. -/
theorem reaches_loginPage (h : NavInv s) (hs : s.routes = [r]) (hr : r.page = .authPage)
    (hds : r.drawers = []) : ∃ t, Reaches navStep s t ∧ t.shown = some .loginPage := by
  have hbuilt := h.built r (by rw [hs]; exact List.mem_cons_self) hr
  cases hu : s.currentUser with
  | some user =>
    -- the tabs are in front
    have hshown : s.shown = some (.page s.selectedIndex.page) := by
      refine shown_eq_some.2 ⟨r, [], hs, ?_⟩
      rw [shownBy, if_pos hr, hbuilt, hu]
      rfl
    have hdrawer : s.selectedIndex.page ∈ s.selectedIndex.page.drawerPages := by
      cases s.selectedIndex <;> simp [Tab.page, Page.drawerPages]
    refine ⟨_, reaches_logout hshown hdrawer (by simp [openDrawers, hs, hds]), ?_⟩
    have hstale : stale none r = true := by simp [stale, hr, hbuilt, hu]
    simp [rebuildAuthPage, withUser, hs, hstale, shown, shownBy, hr]
  | none =>
    have hnone : r.built.isSome = false := by rw [hbuilt, hu]; rfl
    cases hlogin : s.showLoginPage with
    | true =>
      refine ⟨s, .refl s, shown_eq_some.2 ⟨r, [], hs, ?_⟩⟩
      simp [shownBy, hr, hnone, hlogin]
    | false =>
      have hshown : s.shown = some .registerPage := by
        refine shown_eq_some.2 ⟨r, [], hs, ?_⟩
        simp [shownBy, hr, hnone, hlogin]
      have htoggle : navStep s .toggle = some (effect .toggle s) :=
        Nav.navStep_eq_some.2 ⟨by simp [enabled, hshown], rfl⟩
      refine ⟨_, .of_step htoggle, ?_⟩
      simp [effect, unmountCalls, shown, shownBy, hs, hr, hnone, hlogin]

/-- **From any state of the app the login page can be reached exactly while `AuthPage` is in the
stack.** -/
theorem loginPage_reachable_iff (user : Option User) (as : List Nav.Action) :
    (∃ t, Reaches navStep (exec navStep (.start user) as) t ∧ t.shown = some .loginPage) ↔
      .authPage ∈ (exec navStep (.start user) as).pages := by
  have h : NavInv (exec navStep (.start user) as) :=
    exec_invariant (navInv_start user) (fun _ _ _ hi ht => navInv_step hi ht) as
  generalize exec navStep (.start user) as = s at h
  constructor
  · rintro ⟨t, hreach, hlogin⟩
    by_contra hnot
    have hlost := hreach.invariant (I := fun t => .authPage ∉ t.pages) hnot
      fun u a v hu hv hmem => hu (authPage_of_step hv hmem)
    exact hlost (authPage_mem_pages (authPage_of_shown (.inl hlogin)))
  · intro hmem
    obtain ⟨pre, r, post, hs, hr, hpre⟩ := exists_route h hmem
    have hbottom := h.bottom
    rw [hs, List.pairwise_append] at hbottom
    have hpost : post = [] := by
      cases post with
      | nil => rfl
      | cons q post => exact absurd hr ((List.pairwise_cons.1 hbottom.2.1).1 q List.mem_cons_self)
    subst hpost
    have hfront := reaches_below hpre hs
    have hinv : NavInv { s with routes := [{ r with drawers := [] }] } :=
      hfront.invariant (I := NavInv) h fun _ _ _ hi ht => navInv_step hi ht
    obtain ⟨t, ht, hlogin⟩ := reaches_loginPage hinv rfl hr rfl
    exact ⟨t, hfront.trans ht, hlogin⟩

/-! ## Stuck -/

/-- From the page in front the user gets to a drawer. -/
def Page.leadsToDrawer : Page → Bool
  | .authPage | .homePage | .searchPage | .volunteerPage | .calendarPage | .createAClub
  | .helpPage | .chooseSchoolPage | .clubOutline _ => true
  | _ => false

/-- Somebody is signed in, and no page of the stack leads to a drawer. -/
structure Stuck (s : Nav) : Prop where
  inv : NavInv s
  user : s.currentUser.isSome
  pages : ∀ p ∈ s.pages, p.leadsToDrawer = false

namespace Stuck

theorem not_authPage (h : Stuck s) : .authPage ∉ s.pages := fun hmem => by
  cases h.pages _ hmem

theorem unmounted (h : Stuck s) : ∀ c ∈ s.calls, c.mounted = false := fun c hc => by
  rw [Bool.eq_false_iff]
  exact fun hm => h.not_authPage (h.inv.mounted c hc hm).2

/-- What is in front leads nowhere. -/
theorem front (h : Stuck s) {p : Page} (hshown : s.shown = some (.page p)) : p.leadsToDrawer = false := by
  obtain ⟨r, rs, hs, hcase⟩ := page_of_shown hshown
  have hmem : r.page ∈ s.pages := by
    rw [Nav.pages, hs]
    exact List.mem_cons_self
  rcases hcase with ⟨hauth, -, -⟩ | ⟨-, rfl⟩
  · rw [hauth] at hmem
    exact absurd hmem h.not_authPage
  · exact h.pages _ hmem

theorem not_canTap (h : Stuck s) {p : Page} (hp : p.leadsToDrawer) : s.canTap p = false := by
  rw [Bool.eq_false_iff]
  intro hcan
  simp only [canTap, Bool.and_eq_true, decide_eq_true_eq] at hcan
  rw [h.front hcan.1] at hp
  cases hp

theorem drawerPages (h : Stuck s) : s.drawerPages = [] := by
  unfold Nav.drawerPages
  split
  · rename_i p hp
    have hfront := h.front hp
    cases p <;> first | rfl | cases hfront
  · rfl

theorem not_login (h : Stuck s) : ¬ (s.shown = some .loginPage ∨ s.shown = some .registerPage) :=
  fun hshown => h.not_authPage (authPage_mem_pages (authPage_of_shown hshown))

/-- A settling call has no page to go on in. -/
theorem settle (h : Stuck s) (i : Nat) (o : Outcome) : (settle i o s).pages = s.pages := by
  cases o with
  | success user resume =>
    cases resume with
    | first =>
      rw [Nav.settle, pages_rebuildAuthPage]
      exact pages_resumeWith_of_unmounted (s := withUser (some user) s) h.unmounted
    | afterRebuild =>
      have hcalls : ∀ c ∈ (rebuildAuthPage (withUser (some user) s)).calls, c.mounted = false := by
        unfold rebuildAuthPage
        split
        · intro c hc
          obtain ⟨c', -, rfl⟩ := List.mem_map.1 hc
          rfl
        · exact h.unmounted
      rw [Nav.settle, pages_resumeWith_of_unmounted hcalls, pages_rebuildAuthPage, pages_withUser]
  | failure code => exact pages_resumeWith_of_unmounted h.unmounted

end Stuck

/-- **A stack without a page that leads to a drawer stays so**, and the user stays signed in. -/
theorem stuck_step (h : Stuck s) (ht : navStep s a = some t) : Stuck t := by
  refine ⟨navInv_step h.inv ht, ?_, ?_⟩
  · obtain ⟨hen, rfl⟩ := Nav.navStep_eq_some.1 ht
    rw [currentUser_effect]
    split
    · rfl
    · -- no drawer is in front
      rw [enabled, drawerInFront, h.drawerPages] at hen
      cases hen
    · exact h.user
  · obtain ⟨hen, rfl⟩ := Nav.navStep_eq_some.1 ht
    cases a with
    | toggle => exact h.pages
    | tapLogin | tapGoogle =>
      exact absurd (.inl (by simpa [enabled] using hen)) h.not_login
    | tapRegister passwordsMatch => exact absurd (.inr (by simpa [enabled] using hen)) h.not_login
    | settle i o =>
      show ∀ p ∈ (settle i o s).pages, _
      rw [h.settle]
      exact h.pages
    | changeTab tab => exact h.pages
    | openDrawer p | closeDrawer p => simp [enabled, h.drawerPages] at hen
    | drawerItem p => simp [enabled, drawerInFront, h.drawerPages] at hen
    | logout => simp [enabled, drawerInFront, h.drawerPages] at hen
    | tapClub club =>
      simp [enabled, h.not_canTap (p := .homePage) rfl, h.not_canTap (p := .searchPage) rfl] at hen
    | submitClub | tapPadding | clubBack =>
      simp [enabled, h.not_canTap (p := .createAClub) rfl] at hen
    | changeSchool => simp [enabled, h.not_canTap (p := .helpPage) rfl] at hen
    | next => simp [enabled, h.not_canTap (p := .chooseSchoolPage) rfl] at hen
    | openEventForm =>
      intro p hp
      rcases List.mem_cons.1 hp with rfl | hp
      · rfl
      · exact h.pages p hp
    | closeEventForm | back => exact fun p hp => h.pages p (mem_pages_pop hp)

/-- With a drawer of the page in front the user signs out. -/
theorem signOut_of_front {q : Page} (hs : s.routes = r :: rs) (hds : r.drawers = [])
    (hr : r.page ≠ .authPage) (hq : q ∈ r.page.drawerPages) :
    ∃ t, Reaches navStep s t ∧ t.currentUser = none := by
  have hshown : s.shown = some (.page r.page) := by
    refine shown_eq_some.2 ⟨r, rs, hs, ?_⟩
    rw [shownBy, if_neg hr]
  exact ⟨_, reaches_logout hshown hq (by simp [openDrawers, hs, hds]), by simp [withUser]⟩

/-- From the school page the user gets home. -/
theorem signOut_of_chooseSchool (hs : s.routes = r :: rs) (hds : r.drawers = [])
    (hr : r.page = .chooseSchoolPage) : ∃ t, Reaches navStep s t ∧ t.currentUser = none := by
  have hcan : s.canTap .chooseSchoolPage := by
    simp [canTap, shown, shownBy, hs, hr, openDrawers, hds]
  have hnext : navStep s .next = some (pushReplacement .homePage s) :=
    Nav.navStep_eq_some.2 ⟨hcan, rfl⟩
  obtain ⟨t, ht, hnone⟩ := signOut_of_front (s := pushReplacement .homePage s) (q := .homePage)
    (r := ⟨.homePage, _, _, []⟩) rfl rfl (by simp) (by simp [Page.drawerPages])
  exact ⟨t, (Reaches.of_step hnext).trans ht, hnone⟩

/-- **From a page that leads to a drawer** the user signs out. -/
theorem signOut_of_leadsToDrawer (h : NavInv s) (hu : s.currentUser.isSome) (hs : s.routes = r :: rs)
    (hds : r.drawers = []) (hr : r.page.leadsToDrawer) :
    ∃ t, Reaches navStep s t ∧ t.currentUser = none := by
  have hclosed : s.openDrawers = [] := by simp [openDrawers, hs, hds]
  cases hpage : r.page with
  | authPage =>
    have hbuilt := h.built r (by rw [hs]; exact List.mem_cons_self) hpage
    have hshown : s.shown = some (.page s.selectedIndex.page) := by
      refine shown_eq_some.2 ⟨r, rs, hs, ?_⟩
      rw [shownBy, if_pos hpage, if_pos (by rw [hbuilt, hu])]
    have hdrawer : s.selectedIndex.page ∈ s.selectedIndex.page.drawerPages := by
      cases s.selectedIndex <;> simp [Tab.page, Page.drawerPages]
    exact ⟨_, reaches_logout hshown hdrawer hclosed, by simp [withUser]⟩
  | homePage | searchPage | volunteerPage | calendarPage | clubOutline club =>
    exact signOut_of_front (q := r.page) hs hds (by simp [hpage]) (by simp [hpage, Page.drawerPages])
  | chooseSchoolPage => exact signOut_of_chooseSchool hs hds hpage
  | createAClub =>
    have hcan : s.canTap .createAClub := by
      simp [canTap, shown, shownBy, hs, hpage, hclosed]
    have hsubmit : navStep s .submitClub = some (push .homePage s) :=
      Nav.navStep_eq_some.2 ⟨hcan, rfl⟩
    obtain ⟨t, ht, hnone⟩ := signOut_of_front (s := push .homePage s) (q := .homePage)
      (r := ⟨.homePage, _, _, []⟩) rfl rfl (by simp) (by simp [Page.drawerPages])
    exact ⟨t, (Reaches.of_step hsubmit).trans ht, hnone⟩
  | helpPage =>
    have hcan : s.canTap .helpPage := by
      simp [canTap, shown, shownBy, hs, hpage, hclosed]
    have hchange : navStep s .changeSchool = some (push .chooseSchoolPage (pop s)) :=
      Nav.navStep_eq_some.2 ⟨hcan, rfl⟩
    obtain ⟨t, ht, hnone⟩ := signOut_of_chooseSchool (s := push .chooseSchoolPage (pop s))
      (r := ⟨.chooseSchoolPage, _, _, []⟩) rfl rfl rfl
    exact ⟨t, (Reaches.of_step hchange).trans ht, hnone⟩
  | profilePage | placeholder | clubCalendarPage | eventForm | loading | message text =>
    rw [hpage] at hr
    cases hr

/-- **From any state of the app a signed-in user can still sign out exactly while a page that
leads to a drawer is in the stack.** -/
theorem signOut_reachable_iff (user : Option User) (as : List Nav.Action) :
    (∃ t, Reaches navStep (exec navStep (.start user) as) t ∧ t.currentUser = none) ↔
      (exec navStep (.start user) as).currentUser = none ∨
        ∃ p ∈ (exec navStep (.start user) as).pages, p.leadsToDrawer := by
  have h : NavInv (exec navStep (.start user) as) :=
    exec_invariant (navInv_start user) (fun _ _ _ hi ht => navInv_step hi ht) as
  generalize exec navStep (.start user) as = s at h
  constructor
  · rintro ⟨t, hreach, hnone⟩
    by_contra hnot
    rw [not_or] at hnot
    have hstuck : Stuck s := by
      refine ⟨h, Option.isSome_iff_ne_none.2 hnot.1, fun p hp => ?_⟩
      rw [Bool.eq_false_iff]
      exact fun hleads => hnot.2 ⟨p, hp, hleads⟩
    have huser := (hreach.invariant hstuck fun _ _ _ hu hv => stuck_step hu hv).user
    rw [hnone] at huser
    cases huser
  · rintro (hnone | ⟨p, hp, hleads⟩)
    · exact ⟨s, .refl s, hnone⟩
    · cases hu : s.currentUser with
      | none => exact ⟨s, .refl s, hu⟩
      | some u =>
        obtain ⟨pre, r, post, hs, rfl, hpre⟩ := exists_route h hp
        have hfront := reaches_below hpre hs
        have hinv : NavInv { s with routes := { r with drawers := [] } :: post } :=
          hfront.invariant (I := NavInv) h fun _ _ _ hi ht => navInv_step hi ht
        obtain ⟨t, ht, hnone⟩ := signOut_of_leadsToDrawer hinv (by simp [hu]) rfl rfl hleads
        exact ⟨t, hfront.trans ht, hnone⟩

end TheHive
