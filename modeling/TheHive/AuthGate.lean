import TheHive.Navigation

/-!
# The sign-in gate

While nobody is signed in, the user should see `AuthPage` with its login or register page, at
most under the dialogs of these two pages.

* `AuthGate` — that property of one state; `authGate_iff` reads it off the stack of pages.
* `front_of_gate` — what is in front while the gate holds and nobody is signed in.
* `gate_step` — from a state behind the gate, a step leads to a state behind it exactly when it
  does not `BreaksGate`.
* `authGate_iff_run` — a run stays behind the gate exactly when none of its steps is a logout
  from a pushed page, a registration that fails in front of its page, or a login that fails
  after its loading dialog was dismissed.
* `failed_registration_opens_gate` — one failed registration shows `ChooseSchoolPage`.
-/

set_option autoImplicit false

namespace TheHive

open Transition Nav

/-- The first route that is not a dialog of the login and register pages. -/
def Nav.underDialogs (s : Nav) : Option Route :=
  (s.routes.dropWhile fun r => r.page.isAuthDialog).head?

/-- Whenever no user is signed in, the visible route is `AuthPage` with the login or register
page, possibly under a loading or message dialog. -/
def AuthGate (s : Nav) : Prop :=
  s.currentUser = none → ∃ r ∈ s.underDialogs, r.page = .authPage ∧ r.built = none

/-- A logout from a page pushed above `AuthPage`; a failure that reaches the register page; a
failure that reaches the login page when its loading dialog is gone. -/
def BreaksGate (s : Nav) : Nav.Action → Prop
  | .logout => s.pages.head? ≠ some .authPage
  | .settle i (.failure _) => ∃ c, s.calls[i]? = some c ∧ c.mounted ∧
      (c.kind = .register ∨ c.kind = .login ∧ s.pages.head? = some .authPage)
  | _ => False

variable {s t : Nav} {a : Nav.Action}

/-! ## The gate on the stack of pages -/

/-- The first page that is not a dialog of the login and register pages. -/
def frontPage (ps : List Page) : Option Page := (ps.dropWhile Page.isAuthDialog).head?

theorem frontPage_cons (p : Page) (ps : List Page) :
    frontPage (p :: ps) = if p.isAuthDialog then frontPage ps else some p := by
  unfold frontPage
  rw [List.dropWhile_cons]
  split <;> rfl

theorem frontPage_pages : frontPage s.pages = s.underDialogs.map Route.page := by
  unfold frontPage pages underDialogs
  rw [List.dropWhile_map, List.head?_map]
  rfl

theorem authGate_iff (h : NavInv s) :
    AuthGate s ↔ (s.currentUser = none → frontPage s.pages = some .authPage) := by
  rw [frontPage_pages]
  refine forall_congr' fun hu => ?_
  constructor
  · rintro ⟨r, hr, hpage, -⟩
    rw [hr, Option.map_some, hpage]
  · intro hfront
    obtain ⟨r, hr, hpage⟩ := Option.map_eq_some_iff.1 hfront
    refine ⟨r, hr, hpage, ?_⟩
    have hmem : r ∈ s.routes := (List.dropWhile_suffix _).subset (List.mem_of_head? hr)
    have hbuilt := h.built r hmem hpage
    rw [hu] at hbuilt
    simpa using hbuilt

theorem gate_of_pages (h : NavInv t) (hu : t.currentUser = s.currentUser)
    (hpages : t.pages = s.pages) (hs : NavInv s) (hg : AuthGate s) : AuthGate t := by
  rw [authGate_iff h, hu, hpages]
  exact (authGate_iff hs).1 hg

/-- Behind the gate and signed out, `AuthPage` is alone on the stack but for dialogs; no drawer
is open, and no page of a signed-in user is in front. -/
theorem front_of_gate (h : NavInv s) (hu : s.currentUser = none) (hg : AuthGate s) :
    s.openDrawers = [] ∧
      (s.pages = [.authPage] ∨ ∃ p ps, s.pages = p :: ps ∧ p.isAuthDialog ∧
        frontPage ps = some .authPage) ∧
      ∀ q, s.shown = some (.page q) → q.isAuthDialog := by
  have hfront := (authGate_iff h).1 hg hu
  cases hs : s.routes with
  | nil => simp [pages, hs, frontPage] at hfront
  | cons r rs =>
    have hmem : r ∈ s.routes := by rw [hs]; exact List.mem_cons_self
    have hpages : s.pages = r.page :: rs.map Route.page := by rw [pages, hs, List.map_cons]
    have hnone : s.currentUser.isSome = false := by rw [hu]; rfl
    have hcase : r.page = .authPage ∧ rs = [] ∨
        r.page.isAuthDialog ∧ frontPage (rs.map Route.page) = some .authPage := by
      rw [hpages, frontPage_cons] at hfront
      split at hfront
      · rename_i hdialog
        exact .inr ⟨hdialog, hfront⟩
      · refine .inl ⟨Option.some.inj hfront, ?_⟩
        have hbottom := h.bottom
        rw [hs] at hbottom
        cases rs with
        | nil => rfl
        | cons r' rs =>
          exact absurd (Option.some.inj hfront)
            ((List.pairwise_cons.1 hbottom).1 r' List.mem_cons_self)
    refine ⟨?_, ?_, ?_⟩
    · show (s.routes.head?.map Route.drawers).getD [] = []
      rw [hs]
      show r.drawers = []
      refine h.drawers r hmem ?_
      rcases hcase with ⟨hpage, -⟩ | ⟨hdialog, -⟩
      · exact .inl ⟨hpage, hnone⟩
      · exact .inr hdialog
    · rcases hcase with ⟨hpage, rfl⟩ | ⟨hdialog, hrest⟩
      · exact .inl (by rw [hpages, hpage]; rfl)
      · exact .inr ⟨r.page, _, hpages, hdialog, hrest⟩
    · intro q hq
      obtain ⟨r', rs', hr', hpage⟩ := page_of_shown hq
      rw [hs] at hr'
      cases hr'
      rcases hpage with ⟨hpage, hbuilt, -⟩ | ⟨hne, rfl⟩
      · rw [h.built r hmem hpage, hnone] at hbuilt
        cases hbuilt
      · rcases hcase with ⟨hpage, -⟩ | ⟨hdialog, -⟩
        · exact absurd hpage hne
        · exact hdialog

/-! ## One step -/

/-- Only a settled call, or what the login and register pages offer, is there to be done while
the gate holds and nobody is signed in. -/
theorem not_canTap_of_gate {p : Page} (hdialog : p.isAuthDialog = false)
    (hall : ∀ q, s.shown = some (.page q) → q.isAuthDialog) : s.canTap p = false := by
  rw [Bool.eq_false_iff]
  intro hcan
  simp only [canTap, Bool.and_eq_true, decide_eq_true_eq] at hcan
  have := hall p hcan.1
  rw [hdialog] at this
  cases this

theorem not_mem_drawerPages_of_gate {p : Page}
    (hall : ∀ q, s.shown = some (.page q) → q.isAuthDialog) : p ∉ s.drawerPages := by
  intro hp
  obtain ⟨q, hq, hpq⟩ := shown_of_mem_drawerPages hp
  have hdialog := hall q hq
  cases q <;> simp [Page.isAuthDialog] at hdialog <;> cases hpq

/-- A failure behind the gate leaves it exactly when it breaks it. -/
theorem gate_failure (h : NavInv s) (hu : s.currentUser = none) (hg : AuthGate s) {i : Nat}
    {code : String} (ht : NavInv (settle i (.failure code) s)) (hi : i < s.calls.length) :
    AuthGate (settle i (.failure code) s) ↔ ¬ BreaksGate s (.settle i (.failure code)) := by
  obtain ⟨hdrawers, hfront, -⟩ := front_of_gate h hu hg
  have hgate := (authGate_iff h).1 hg hu
  have hcall : s.calls[i]? = some s.calls[i] := List.getElem?_eq_getElem hi
  rw [authGate_iff ht, currentUser_settle]
  simp only [hu, true_imp_iff, BreaksGate, hcall, Option.some.injEq, exists_eq_left']
  obtain ⟨s', hroutes, hpages⟩ := pages_resumeWith (failed code) hcall
  have hsame : s'.pages = s.pages := by rw [pages, hroutes, pages]
  have hpop : (pop s').pages = s.pages.tail := by
    have hclosed : s'.openDrawers = [] := by
      rw [openDrawers, hroutes]
      exact hdrawers
    rw [pages_pop, if_pos hclosed, hsame]
  change (settle i (.failure code) s).pages = _ at hpages
  rw [hpages]
  cases hm : s.calls[i].mounted with
  | false => simpa using hgate
  | true =>
    cases hk : s.calls[i].kind with
    | login =>
      show frontPage (.message code :: (pop s').pages) = _ ↔ _
      rw [hpop, frontPage_cons, if_pos (show (Page.message code).isAuthDialog from rfl)]
      rcases hfront with hp | ⟨p, ps, hp, hdialog, hps⟩
      · simp [hp, frontPage]
      · have hne : p ≠ .authPage := by rintro rfl; cases hdialog
        simp [hp, hps, hne]
    | register =>
      show frontPage (pushReplacement .chooseSchoolPage _).pages = _ ↔ _
      rw [pages_pushReplacement, frontPage_cons]
      simp [Page.isAuthDialog]
    | google =>
      show frontPage s'.pages = _ ↔ _
      rw [hsame]
      simpa using hgate

/-- Behind the gate there are only the login and register pages, the answers of their calls, a
change of tab and the back button. -/
theorem cases_of_gate (hdrawers : s.openDrawers = [])
    (hall : ∀ q, s.shown = some (.page q) → q.isAuthDialog) (hen : s.enabled a) :
    a = .toggle ∨ a = .tapLogin ∨ (∃ passwordsMatch, a = .tapRegister passwordsMatch) ∨
      a = .tapGoogle ∨ (∃ i o, a = .settle i o) ∨ (∃ tab, a = .changeTab tab) ∨ a = .back := by
  cases a with
  | toggle | tapLogin | tapRegister _ | tapGoogle | settle _ _ | changeTab _ | back => simp
  | openDrawer p | closeDrawer p =>
    simp only [enabled, Bool.and_eq_true, decide_eq_true_eq] at hen
    exact absurd hen.1 (not_mem_drawerPages_of_gate hall)
  | drawerItem p =>
    simp only [enabled, Bool.and_eq_true] at hen
    exact absurd hdrawers (openDrawers_of_drawerInFront hen.1)
  | logout => exact absurd hdrawers (openDrawers_of_drawerInFront hen)
  | tapClub club =>
    simp [enabled, not_canTap_of_gate (p := .homePage) rfl hall,
      not_canTap_of_gate (p := .searchPage) rfl hall] at hen
  | submitClub | tapPadding | clubBack =>
    simp [enabled, not_canTap_of_gate (p := .createAClub) rfl hall] at hen
  | changeSchool => simp [enabled, not_canTap_of_gate (p := .helpPage) rfl hall] at hen
  | next => simp [enabled, not_canTap_of_gate (p := .chooseSchoolPage) rfl hall] at hen
  | openEventForm =>
    simp only [enabled, not_canTap_of_gate (p := .volunteerPage) rfl hall, Bool.false_or,
      clubInFront] at hen
    split at hen
    · rename_i club hshown
      cases hall _ hshown
    · cases hen
  | closeEventForm => simp [enabled, not_canTap_of_gate (p := .eventForm) rfl hall] at hen

/-- A logout leaves the gate open exactly when a page is in front of `AuthPage`. -/
theorem gate_logout (hen : s.drawerInFront) (ht : NavInv (effect .logout s)) :
    AuthGate (effect .logout s) ↔ ¬ BreaksGate s .logout := by
  -- the drawer is open in front, so the pop closes it and the page stays
  have hopen := openDrawers_of_drawerInFront hen
  obtain ⟨p, hp, -⟩ := List.any_eq_true.1 hen
  obtain ⟨r, rs, hr, hdialog, -⟩ := top_of_mem_drawerPages hp
  have hpages : s.pages = r.page :: rs.map Route.page := by rw [pages, hr, List.map_cons]
  rw [authGate_iff ht, currentUser_effect]
  show (none = none → frontPage (rebuildAuthPage (withUser none (pop s))).pages = _) ↔ _
  rw [pages_rebuildAuthPage, pages_withUser, pages_pop, if_neg hopen, hpages, frontPage_cons,
    if_neg hdialog]
  simp [BreaksGate, hpages]

/-- **One step stays behind the gate exactly when it does not break it.** -/
theorem gate_step (h : NavInv s) (hg : AuthGate s) (ht : navStep s a = some t) :
    AuthGate t ↔ ¬ BreaksGate s a := by
  have htinv := navInv_step h ht
  obtain ⟨hen, rfl⟩ := navStep_eq_some.1 ht
  cases hu : s.currentUser with
  | some user =>
    have hsigned : (∀ u, (effect a s).currentUser = some u → AuthGate (effect a s)) :=
      fun u hsome hnone => by rw [hsome] at hnone; cases hnone
    have huser := currentUser_effect (s := s) a
    cases a with
    | logout => exact gate_logout hen htinv
    | settle i o =>
      cases o with
      | success u resume => exact iff_of_true (hsigned u huser) id
      | failure code =>
        refine iff_of_true (hsigned user (huser.trans hu)) ?_
        rintro ⟨c, hc, hm, -⟩
        have hsome := (h.mounted c (List.mem_of_getElem? hc) hm).1
        rw [hu] at hsome
        cases hsome
    | _ => exact iff_of_true (hsigned user (huser.trans hu)) id
  | none =>
    obtain ⟨hdrawers, hfront, hall⟩ := front_of_gate h hu hg
    have hgate := (authGate_iff h).1 hg hu
    have hsame : (effect a s).currentUser = s.currentUser → (effect a s).pages = s.pages →
        AuthGate (effect a s) := fun hcu hp => gate_of_pages htinv hcu hp h hg
    have hdialog : ∀ p : Page, p.isAuthDialog → (effect a s).pages = p :: s.pages →
        AuthGate (effect a s) := by
      intro p hp hpages
      rw [authGate_iff htinv, hpages, frontPage_cons, if_pos hp]
      exact fun _ => hgate
    rcases cases_of_gate hdrawers hall hen with
      rfl | rfl | ⟨passwordsMatch, rfl⟩ | rfl | ⟨i, o, rfl⟩ | ⟨tab, rfl⟩ | rfl
    · exact iff_of_true (hsame rfl rfl) id
    · exact iff_of_true (hdialog .loading rfl rfl) id
    · cases passwordsMatch with
      | true => exact iff_of_true (hdialog .loading rfl rfl) id
      | false => exact iff_of_true (hdialog (.message "Passwords don't match!") rfl rfl) id
    · exact iff_of_true (hsame rfl rfl) id
    · cases o with
      | success u resume =>
        refine iff_of_true (fun hnone => ?_) id
        rw [currentUser_effect] at hnone
        cases hnone
      | failure code => exact gate_failure h hu hg htinv (of_decide_eq_true hen)
    · exact iff_of_true (hsame rfl rfl) id
    · -- the back button takes a dialog away
      refine iff_of_true ?_ id
      rw [authGate_iff htinv]
      intro _
      show frontPage (pop s).pages = some .authPage
      rw [pages_pop, if_pos hdrawers]
      rcases hfront with hp | ⟨p, ps, hp, -, hps⟩
      · have hlen : s.routes.length = 1 := by
          rw [← List.length_map Route.page, ← pages, hp]
          rfl
        simp [enabled, hdrawers, hlen] at hen
      · rw [hp]
        exact hps

/-! ## Runs -/

/-- **A run from the start of the app keeps the gate closed exactly when none of its steps
breaks it.** -/
theorem authGate_iff_run (user : Option User) (as : List Nav.Action) :
    (∀ s ∈ visited navStep (.start user) as, AuthGate s) ↔
      ∀ x ∈ taken navStep (.start user) as, ¬ BreaksGate x.1 x.2 := by
  refine visited_iff_taken (navInv_start user) ?_ (fun _ _ _ h ht => navInv_step h ht)
    (fun _ _ _ h hg ht => gate_step h hg ht) as
  rw [authGate_iff (navInv_start user)]
  exact fun _ => rfl

/-- A registration with an address that is already in use. -/
def failedRegistration : List Nav.Action :=
  [.toggle, .tapRegister true, .settle 0 (.failure "email-already-in-use")]

/-- After a failed registration, a signed-out user sees `ChooseSchoolPage`. -/
theorem failed_registration_opens_gate :
    ¬ ∀ s ∈ visited navStep (.start none) failedRegistration, AuthGate s := by
  intro h
  obtain ⟨r, hr, hpage, -⟩ :=
    h (exec navStep (.start none) failedRegistration) (mem_visited.2 (.inr rfl)) (by decide)
  have hfront : (exec navStep (.start none) failedRegistration).underDialogs =
      some ⟨.chooseSchoolPage, none, none, []⟩ := by decide
  rw [hfront] at hr
  cases hr
  cases hpage

end TheHive
