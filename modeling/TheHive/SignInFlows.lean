import TheHive.Navigation

/-!
# The login and register flows

`login` and `registerUser` from the tap to the end of the handler, in any state of the app that
offers their button.  Each shows a loading dialog, awaits the authentication call and takes the
dialog off again; when the call succeeds, `AuthPage` may be rebuilt first.

* `LoginPage.login`, `RegisterPage.registerUser` — the two flows.
* `SettlesCleanly` — no loading dialog stays, a failure leaves its message on the stack of
  before, a registration ends on `ChooseSchoolPage`.
* `rest_of_failure`, `rest_of_success`, `rest_after_rebuild` — what is left to run once the call has
  settled.
* `signInFlows_iff` — **login settles cleanly unless `AuthPage` is rebuilt before it resumes;
  registration exactly when the passwords differ or the account is created and it resumes first**.
* `flows_do_not_settle` — a registration that fails, and a login after the rebuild.
-/

set_option autoImplicit false

namespace TheHive

open Transition Nav

/-- The handler of the Login button; `signIn` is what the authentication call answers. -/
def LoginPage.login (signIn : String → String → Outcome) (email password : String) (s : Nav) : Nav :=
  settle s.calls.length (signIn email password) (effect .tapLogin s)

/-- The handler of the Register button. -/
def RegisterPage.registerUser (createUser : String → String → Outcome)
    (email password confirmPw : String) (s : Nav) : Nav :=
  if password ≠ confirmPw then effect (.tapRegister false) s
  else settle s.calls.length (createUser email password) (effect (.tapRegister true) s)

/-- How a flow ends. -/
inductive FlowEnd where
  | signedIn | registered
  | failed (text : String)

/-- The end of a login. -/
def LoginPage.flowEnd : Outcome → FlowEnd
  | .success _ _ => .signedIn
  | .failure code => .failed code

/-- The end of a registration. -/
def RegisterPage.flowEnd (password confirmPw : String) (o : Outcome) : FlowEnd :=
  if password ≠ confirmPw then .failed "Passwords don't match!"
  else
    match o with
    | .success _ _ => .registered
    | .failure code => .failed code

/-- The stack `t` after a flow that started on the stack of `s`. -/
structure SettlesCleanly (s t : Nav) (flowEnd : FlowEnd) : Prop where
  no_loading : .loading ∉ t.pages
  message : ∀ text, flowEnd = .failed text →
    ∃ r, r.page = .message text ∧ t.routes = r :: s.routes
  choose_school : flowEnd = .registered → t.pages.head? = some .chooseSchoolPage

variable {s : Nav} {p : Page} {user : User}

/-! ## The rest of a flow -/

/-- A dialog over a route is taken off by one `pop`. -/
theorem pop_push (hp : p ≠ .authPage) : pop (push p s) = s := by
  simp [pop, push, removeTop, hp]

/-- The page whose call was made last goes on when that call settles. -/
theorem resumeWith_addCall (kind : CallKind) (k : CallKind → Nav → Nav) :
    resumeWith s.calls.length k (addCall kind s) = k kind s := by
  have hcall : (addCall kind s).calls[s.calls.length]? = some ⟨kind, true⟩ := by simp [addCall]
  have herase : (s.calls ++ [(⟨kind, true⟩ : Call)]).eraseIdx s.calls.length = s.calls := by
    rw [List.eraseIdx_append_of_length_le (le_refl _)]
    simp
  simp only [resumeWith, hcall, if_pos]
  rw [addCall, herase]

theorem rest_of_failure (kind : CallKind) (code : String) :
    settle s.calls.length (.failure code) (addCall kind (push .loading s)) =
      failed code kind (push .loading s) :=
  resumeWith_addCall (s := push .loading s) kind (failed code)

theorem rest_of_success (kind : CallKind) :
    settle s.calls.length (.success user .first) (addCall kind (push .loading s)) =
      rebuildAuthPage (succeeded kind (withUser (some user) (push .loading s))) :=
  congrArg rebuildAuthPage
    (resumeWith_addCall (s := withUser (some user) (push .loading s)) kind succeeded)

/-- The calls lose their context when `AuthPage` is rebuilt. -/
theorem mounted_rebuildAuthPage (h : s.routes.any (stale s.currentUser)) :
    ∀ c ∈ (rebuildAuthPage s).calls, c.mounted = false := by
  intro c hc
  rw [rebuildAuthPage, if_pos h] at hc
  obtain ⟨c', -, rfl⟩ := List.mem_map.1 hc
  rfl

/-- **When `AuthPage` is rebuilt first**, the rest of the flow does nothing. -/
theorem rest_after_rebuild (hstale : s.routes.any (stale (some user))) (kind : CallKind) :
    (settle s.calls.length (.success user .afterRebuild) (addCall kind (push .loading s))).pages =
      .loading :: s.pages := by
  have hany : (withUser (some user) (addCall kind (push .loading s))).routes.any
      (stale (some user)) := by
    show ((⟨.loading, _, _, []⟩ : Route) :: s.routes).any _
    rw [List.any_cons, hstale, Bool.or_true]
  rw [settle, pages_resumeWith_of_unmounted (mounted_rebuildAuthPage hany), pages_rebuildAuthPage]
  rfl

/-! ## Where the flows start -/

/-- The login and register pages are at the bottom of the stack and nothing is over them. -/
theorem routes_of_shown (h : NavInv s)
    (hshown : s.shown = some .loginPage ∨ s.shown = some .registerPage) :
    ∃ r, s.routes = [r] ∧ r.page = .authPage ∧ r.built.isSome = false := by
  obtain ⟨r, rs, hr, hpage, hbuilt⟩ := authPage_of_shown hshown
  have hbottom := h.bottom
  rw [hr] at hbottom
  cases rs with
  | nil => exact ⟨r, hr, hpage, hbuilt⟩
  | cons r' rs => exact absurd hpage ((List.pairwise_cons.1 hbottom).1 r' List.mem_cons_self)

theorem pages_of_shown (h : NavInv s)
    (hshown : s.shown = some .loginPage ∨ s.shown = some .registerPage) :
    s.pages = [.authPage] := by
  obtain ⟨r, hr, hpage, -⟩ := routes_of_shown h hshown
  rw [pages, hr, List.map_singleton, hpage]

theorem stale_of_shown (h : NavInv s)
    (hshown : s.shown = some .loginPage ∨ s.shown = some .registerPage) (user : User) :
    s.routes.any (stale (some user)) := by
  obtain ⟨r, hr, hpage, hbuilt⟩ := routes_of_shown h hshown
  simp [hr, stale, hpage, hbuilt]

/-! ## The two flows -/

/-- A message on the stack of before is a clean end of a failure. -/
theorem settlesCleanly_message (hpages : s.pages = [.authPage]) (text : String) :
    SettlesCleanly s (push (.message text) s) (.failed text) := by
  refine ⟨by simp [hpages], fun text' heq => ?_, fun heq => by cases heq⟩
  cases heq
  exact ⟨_, rfl, rfl⟩

/-- The page resumes before `AuthPage` is rebuilt. -/
def ResumesFirst (o : Outcome) : Prop := ∃ user, o = .success user .first

/-- The call fails. -/
def Fails (o : Outcome) : Prop := ∃ code, o = .failure code

theorem login_iff (h : NavInv s) (hshown : s.shown = some .loginPage)
    (signIn : String → String → Outcome) (email password : String) :
    SettlesCleanly s (LoginPage.login signIn email password s)
        (LoginPage.flowEnd (signIn email password)) ↔
      Fails (signIn email password) ∨ ResumesFirst (signIn email password) := by
  have hpages := pages_of_shown h (.inl hshown)
  rw [LoginPage.login]
  cases ho : signIn email password with
  | failure code =>
    refine iff_of_true ?_ (.inl ⟨code, rfl⟩)
    have hrest : settle s.calls.length (.failure code) (effect .tapLogin s) =
        push (.message code) s := by
      rw [effect, rest_of_failure]
      show push (.message code) (pop (push .loading s)) = _
      rw [pop_push (by simp)]
    rw [hrest]
    exact settlesCleanly_message hpages code
  | success user resume =>
    cases resume with
    | first =>
      refine iff_of_true ?_ (.inr ⟨user, rfl⟩)
      have hrest : (settle s.calls.length (.success user .first) (effect .tapLogin s)).pages =
          s.pages := by
        rw [effect, rest_of_success, pages_rebuildAuthPage, succeeded, pages_pop]
        rfl
      refine ⟨?_, fun text heq => (by cases heq), fun heq => (by cases heq)⟩
      simp [hrest, hpages]
    | afterRebuild =>
      have hrest := rest_after_rebuild (stale_of_shown h (.inl hshown) user) .login
      refine iff_of_false (fun hclean => ?_) (by simp [Fails, ResumesFirst])
      apply hclean.no_loading
      rw [effect, hrest]
      exact List.mem_cons_self

theorem registerUser_iff (h : NavInv s) (hshown : s.shown = some .registerPage)
    (createUser : String → String → Outcome) (email password confirmPw : String) :
    SettlesCleanly s (RegisterPage.registerUser createUser email password confirmPw s)
        (RegisterPage.flowEnd password confirmPw (createUser email password)) ↔
      password ≠ confirmPw ∨ ResumesFirst (createUser email password) := by
  have hpages := pages_of_shown h (.inr hshown)
  by_cases hpw : password = confirmPw
  · unfold RegisterPage.registerUser RegisterPage.flowEnd
    rw [if_neg (not_not.2 hpw), if_neg (not_not.2 hpw)]
    cases ho : createUser email password with
    | failure code =>
      -- the message is replaced by the page that follows a registration
      refine iff_of_false (fun hclean => ?_) (by simp [hpw, ResumesFirst])
      obtain ⟨r, hr, hroutes⟩ := hclean.message code rfl
      have htop : (settle s.calls.length (.failure code) (effect (.tapRegister true) s)).pages =
          .chooseSchoolPage :: s.pages := by
        rw [effect, rest_of_failure]
        show (pushReplacement .chooseSchoolPage (push (.message code) (pop (push .loading s)))).pages = _
        rw [pop_push (by simp), pages_pushReplacement]
        rfl
      rw [pages, hroutes, List.map_cons, hr] at htop
      cases htop
    | success user resume =>
      cases resume with
      | first =>
        refine iff_of_true ?_ (.inr ⟨user, rfl⟩)
        have hrest : (settle s.calls.length (.success user .first)
            (effect (.tapRegister true) s)).pages = [.chooseSchoolPage] := by
          rw [effect, rest_of_success, pages_rebuildAuthPage, succeeded, pages_pushReplacement,
            pages_pop]
          show .chooseSchoolPage :: s.pages.tail = _
          rw [hpages]
          rfl
        refine ⟨?_, fun text heq => (by cases heq), fun _ => ?_⟩
        · simp [hrest]
        · rw [hrest]
          rfl
      | afterRebuild =>
        have hrest := rest_after_rebuild (stale_of_shown h (.inr hshown) user) .register
        refine iff_of_false (fun hclean => ?_) (by simp [hpw, ResumesFirst])
        apply hclean.no_loading
        rw [effect, hrest]
        exact List.mem_cons_self
  · refine iff_of_true ?_ (.inl hpw)
    have hrest : effect (.tapRegister false) s = push (.message "Passwords don't match!") s := by
      show push (.message "Passwords don't match!") (pop (push .loading s)) = _
      rw [pop_push (by simp)]
    unfold RegisterPage.registerUser RegisterPage.flowEnd
    rw [if_pos hpw, if_pos hpw, hrest]
    exact settlesCleanly_message hpages _

/-- **When the two flows settle cleanly**, in any state of the app that shows their page: a login
unless it succeeds and `AuthPage` is rebuilt before it resumes, a registration when the
passwords differ, or it succeeds and resumes first. -/
theorem signInFlows_iff (remembered : Option User) (as : List Nav.Action) (s : Nav)
    (hs : s ∈ visited navStep (.start remembered) as)
    (call : String → String → Outcome) (email password confirmPw : String) :
    (s.shown = some .loginPage →
      (SettlesCleanly s (LoginPage.login call email password s)
          (LoginPage.flowEnd (call email password)) ↔
        Fails (call email password) ∨ ResumesFirst (call email password))) ∧
    (s.shown = some .registerPage →
      (SettlesCleanly s (RegisterPage.registerUser call email password confirmPw s)
          (RegisterPage.flowEnd password confirmPw (call email password)) ↔
        password ≠ confirmPw ∨ ResumesFirst (call email password))) := by
  have h : NavInv s := visited_invariant (navInv_start remembered) (fun _ _ _ => navInv_step) as s hs
  exact ⟨fun hshown => login_iff h hshown call email password,
    fun hshown => registerUser_iff h hshown call email password confirmPw⟩

/-- The app on its register page. -/
def atRegisterPage : Nav := exec navStep (.start none) [.toggle]

/-- The address is in use already. -/
def emailInUse (_email _password : String) : Outcome := .failure "email-already-in-use"

/-- The account is there, and the page is rebuilt before the handler resumes. -/
def annAfterRebuild (_email _password : String) : Outcome := .success ann .afterRebuild

theorem signInFlows_iff_ann :
    (SettlesCleanly (.start none) (LoginPage.login annAfterRebuild "ann@school.org" "secret" (.start none))
        (LoginPage.flowEnd (annAfterRebuild "ann@school.org" "secret")) ↔
      Fails (annAfterRebuild "ann@school.org" "secret") ∨
        ResumesFirst (annAfterRebuild "ann@school.org" "secret")) ∧
    (SettlesCleanly atRegisterPage
        (RegisterPage.registerUser emailInUse "ann@school.org" "secret" "secret" atRegisterPage)
        (RegisterPage.flowEnd "secret" "secret" (emailInUse "ann@school.org" "secret")) ↔
      "secret" ≠ "secret" ∨ ResumesFirst (emailInUse "ann@school.org" "secret")) :=
  ⟨(signInFlows_iff none [] (.start none) (mem_visited.2 (.inr rfl)) annAfterRebuild
      "ann@school.org" "secret" "secret").1 rfl,
    (signInFlows_iff none [.toggle] atRegisterPage (mem_visited.2 (.inr rfl)) emailInUse
      "ann@school.org" "secret" "secret").2 (by decide)⟩

/-- The message of a failed registration is replaced by `ChooseSchoolPage`, and a login that
resumes after the rebuild keeps its loading dialog. -/
theorem flows_do_not_settle :
    ¬ SettlesCleanly atRegisterPage
        (RegisterPage.registerUser emailInUse "ann@school.org" "secret" "secret" atRegisterPage)
        (RegisterPage.flowEnd "secret" "secret" (emailInUse "ann@school.org" "secret")) ∧
      ¬ SettlesCleanly (.start none)
        (LoginPage.login annAfterRebuild "ann@school.org" "secret" (.start none))
        (LoginPage.flowEnd (annAfterRebuild "ann@school.org" "secret")) := by
  constructor
  · intro h
    obtain ⟨r, hr, hroutes⟩ := h.message "email-already-in-use" rfl
    have htop : (RegisterPage.registerUser emailInUse "ann@school.org" "secret" "secret"
        atRegisterPage).routes.head? = some ⟨.chooseSchoolPage, none, none, []⟩ := by decide
    rw [hroutes] at htop
    cases htop
    cases hr
  · intro h
    exact h.no_loading (by decide)

end TheHive
