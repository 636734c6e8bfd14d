import TheHive.Lib.Transition
import TheHive.Clubs

/-!
# Navigation

The stack of routes and the sign-in state, as `auth.dart`, `login_or_register.dart`,
`login_page.dart`, `register_page.dart`, `side_bar_page.dart`, `my_drawer.dart`,
`club_tile.dart`, `create_a_club.dart`, `choose_school.dart` and `help_page.dart` move them.

* `Nav`, `Nav.push`, `pop`, `pushReplacement`, `rebuildAuthPage` — the navigator and the stream
  builder of `AuthPage`.  A route's open drawers are its local history: `pop` closes the one
  opened last before it removes the route.
* `Call` — a sign-in under way.  It goes on in the page that started it, if that page is still
  mounted, before or after `AuthPage` is rebuilt.
* `navStep` — what a user, or a call that settles, does next.
* `NavInv`, `navInv_step` — `AuthPage` has no route below it, shows the page for the user of the
  moment, and a mounted call has the login or register page to go on in.
* `pages_pop`, `pages_push`, … — the four operations on the stack of pages alone.
-/

set_option autoImplicit false

namespace TheHive

open DocStore Transition

/-- What a route shows.  `eventForm`, `loading` and `message` are dialogs. -/
inductive Page where
  | authPage
  | homePage | searchPage | volunteerPage | calendarPage
  | profilePage | createAClub | helpPage | chooseSchoolPage | placeholder
  | clubOutline (club : ClubTile) | clubCalendarPage
  | eventForm | loading | message (text : String)
  deriving DecidableEq

/-- The dialogs of the login and register pages. -/
def Page.isAuthDialog : Page → Bool
  | .loading | .message _ => true
  | _ => false

structure Route where
  page : Page
  /-- The user when the state of the page was created. -/
  currentUser : Option User
  /-- The user when the page was built last. -/
  built : Option User
  /-- The open drawers, the one opened last first, each with the page it belongs to. -/
  drawers : List Page
  deriving DecidableEq

inductive CallKind where
  | login | register | google
  deriving DecidableEq

/-- A sign-in that has not settled. -/
structure Call where
  kind : CallKind
  /-- The page that started it is still in the tree. -/
  mounted : Bool
  deriving DecidableEq

def Call.unmount (c : Call) : Call := { c with mounted := false }

/-- The tabs of `SideBarPage`. -/
inductive Tab where
  | myClubs | allClubs | volunteer | calendar
  deriving DecidableEq

def Tab.page : Tab → Page
  | .myClubs => .homePage
  | .allClubs => .searchPage
  | .volunteer => .volunteerPage
  | .calendar => .calendarPage

structure Nav where
  /-- The routes, the top one first. -/
  routes : List Route
  /-- `FirebaseAuth.instance.currentUser`. -/
  currentUser : Option User
  /-- The state of `LoginOrRegister`. -/
  showLoginPage : Bool
  /-- The state of `SideBarPage`. -/
  selectedIndex : Tab
  calls : List Call
  deriving DecidableEq

namespace Nav

/-- The app as it starts, with a user remembered from the last time or with none. -/
def start (user : Option User) : Nav := ⟨[⟨.authPage, user, user, []⟩], user, true, .myClubs, []⟩

/-! ## The navigator -/

def unmountCalls (s : Nav) : Nav := { s with calls := s.calls.map Call.unmount }

/-- `Navigator.push`: the new page captures the user of the moment. -/
def push (p : Page) (s : Nav) : Nav :=
  { s with routes := ⟨p, s.currentUser, s.currentUser, []⟩ :: s.routes }

/-- The top route leaves the stack, and the calls of the pages in it lose their context. -/
def removeTop (s : Nav) : Nav :=
  match s.routes with
  | [] => s
  | r :: rs =>
    if r.page = .authPage then unmountCalls { s with routes := rs } else { s with routes := rs }

/-- `Navigator.pop`: closes the drawer opened last, if one is open, else removes the top
route. -/
def pop (s : Nav) : Nav :=
  match s.routes with
  | ⟨p, user, built, _ :: ds⟩ :: rs => { s with routes := ⟨p, user, built, ds⟩ :: rs }
  | _ => removeTop s

/-- `Navigator.pushReplacement`. -/
def pushReplacement (p : Page) (s : Nav) : Nav := push p (removeTop s)

/-- `AuthPage` shows the wrong one of its two pages. -/
def stale (user : Option User) (r : Route) : Bool :=
  r.page = .authPage ∧ r.built.isSome ≠ user.isSome

/-- `AuthPage.build` after an auth-state change.  The other one of its two pages is created
anew: `SideBarPage` with its tabs and drawers, or `LoginOrRegister`.  Between two users nothing
is rebuilt, since `const SideBarPage()` is the same widget. -/
def rebuildAuthPage (s : Nav) : Nav :=
  if s.routes.any (stale s.currentUser) then
    { unmountCalls s with
      routes := s.routes.map fun r =>
        if stale s.currentUser r then ⟨r.page, s.currentUser, s.currentUser, []⟩ else r
      showLoginPage := true
      selectedIndex := .myClubs }
  else s

def withUser (user : Option User) (s : Nav) : Nav := { s with currentUser := user }

def addCall (kind : CallKind) (s : Nav) : Nav := { s with calls := s.calls ++ [⟨kind, true⟩] }

def mapTop (f : Route → Route) (s : Nav) : Nav :=
  match s.routes with
  | [] => s
  | r :: rs => { s with routes := f r :: rs }

/-! ## Sign-in calls -/

/-- Whether the page goes on before or after `AuthPage` is rebuilt. -/
inductive Resume where
  | first | afterRebuild
  deriving DecidableEq

inductive Outcome where
  | success (user : User) (resume : Resume)
  /-- A `FirebaseAuthException` with its code. -/
  | failure (code : String)
  deriving DecidableEq

/-- What the page that made the `i`-th call does once it has settled; without a context the
code after the `await` does nothing, or throws. -/
def resumeWith (i : Nat) (k : CallKind → Nav → Nav) (s : Nav) : Nav :=
  match s.calls[i]? with
  | none => s
  | some c =>
    let s := { s with calls := s.calls.eraseIdx i }
    if c.mounted then k c.kind s else s

/-- The rest of `login` and of `registerUser` after a success. -/
def succeeded : CallKind → Nav → Nav
  | .login => pop
  | .register => fun s => pushReplacement .chooseSchoolPage (pop s)
  | .google => id

/-- The rest of `login` and of `registerUser` after a `FirebaseAuthException`. -/
def failed (code : String) : CallKind → Nav → Nav
  | .login => fun s => push (.message code) (pop s)
  | .register => fun s => pushReplacement .chooseSchoolPage (push (.message code) (pop s))
  | .google => id

def settle (i : Nat) (o : Outcome) (s : Nav) : Nav :=
  match o with
  | .success user .first => rebuildAuthPage (resumeWith i succeeded (withUser (some user) s))
  | .success user .afterRebuild => resumeWith i succeeded (rebuildAuthPage (withUser (some user) s))
  | .failure code => resumeWith i (failed code) s

/-! ## What the user sees -/

inductive Screen where
  | loginPage | registerPage
  | page (p : Page)
  deriving DecidableEq

/-- What a route shows: `AuthPage` shows the login or register page, or the selected tab. -/
def shownBy (s : Nav) (r : Route) : Screen :=
  if r.page = .authPage then
    if r.built.isSome then .page s.selectedIndex.page
    else if s.showLoginPage then .loginPage
    else .registerPage
  else .page r.page

def shown (s : Nav) : Option Screen := s.routes.head?.map s.shownBy

def openDrawers (s : Nav) : List Page := (s.routes.head?.map Route.drawers).getD []

/-- The page is in front, and its drawer does not cover it. -/
def canTap (s : Nav) (p : Page) : Bool := s.shown = some (.page p) && p ∉ s.openDrawers

/-- The tabs of `SideBarPage` are in front. -/
def atTabs (s : Nav) : Bool :=
  s.routes.head?.any fun r => r.page = .authPage && r.built.isSome

/-- The club page in front. -/
def clubInFront (s : Nav) : Option ClubTile :=
  match s.shown with
  | some (.page (.clubOutline club)) => some club
  | _ => none

end Nav

/-- The pages with a `MyDrawer`, by what is in front; a club page and its calendar tab have one
each. -/
def Page.drawerPages : Page → List Page
  | .homePage => [.homePage]
  | .searchPage => [.searchPage]
  | .volunteerPage => [.volunteerPage]
  | .calendarPage => [.calendarPage]
  | .clubOutline club => [.clubOutline club, .clubCalendarPage]
  | _ => []

/-- The pages the items of `MyDrawer` lead to. -/
def MyDrawer.items : List Page :=
  [.profilePage, .createAClub, .homePage, .searchPage, .volunteerPage, .calendarPage, .helpPage]

namespace Nav

/-- The drawers of what is in front. -/
def drawerPages (s : Nav) : List Page :=
  match s.shown with
  | some (.page p) => p.drawerPages
  | _ => []

/-- A drawer is open in front. -/
def drawerInFront (s : Nav) : Bool := s.drawerPages.any (· ∈ s.openDrawers)

/-! ## Actions -/

inductive Action where
  | toggle
  | tapLogin
  | tapRegister (passwordsMatch : Bool)
  | tapGoogle
  | settle (i : Nat) (o : Outcome)
  | changeTab (t : Tab)
  | openDrawer (p : Page)
  | closeDrawer (p : Page)
  | drawerItem (p : Page)
  | logout
  | tapClub (club : ClubTile)
  | submitClub
  | tapPadding
  | clubBack
  | changeSchool
  | next
  | openEventForm
  | closeEventForm
  | back

/-- When an action is there to be taken. -/
def enabled (s : Nav) : Action → Bool
  | .toggle => s.shown = some .loginPage || s.shown = some .registerPage
  | .tapLogin | .tapGoogle => s.shown = some .loginPage
  | .tapRegister _ => s.shown = some .registerPage
  | .settle i _ => i < s.calls.length
  | .changeTab _ => s.atTabs
  | .openDrawer p => p ∈ s.drawerPages && p ∉ s.openDrawers
  | .closeDrawer p => p ∈ s.drawerPages && p ∈ s.openDrawers
  | .drawerItem p => s.drawerInFront && p ∈ MyDrawer.items
  | .logout => s.drawerInFront
  | .tapClub _ => s.canTap .homePage || s.canTap .searchPage
  | .submitClub | .tapPadding | .clubBack => s.canTap .createAClub
  | .changeSchool => s.canTap .helpPage
  | .next => s.canTap .chooseSchoolPage
  | .openEventForm => s.canTap .volunteerPage || s.clubInFront.isSome
  | .closeEventForm => s.canTap .eventForm
  | .back => s.openDrawers ≠ [] || 1 < s.routes.length

/-- What an action does. -/
def effect : Action → Nav → Nav
  | .toggle => fun s => unmountCalls { s with showLoginPage := !s.showLoginPage }
  | .tapLogin => fun s => addCall .login (push .loading s)
  | .tapRegister true => fun s => addCall .register (push .loading s)
  | .tapRegister false => fun s => push (.message "Passwords don't match!") (pop (push .loading s))
  | .tapGoogle => addCall .google
  | .settle i o => settle i o
  | .changeTab t => fun s => { s with selectedIndex := t }
  | .openDrawer p => mapTop fun r => { r with drawers := p :: r.drawers }
  | .closeDrawer p => mapTop fun r => { r with drawers := r.drawers.erase p }
  | .drawerItem p => fun s => push p (pop s)
  | .logout => fun s => rebuildAuthPage (withUser none (pop s))
  | .tapClub club => fun s => push (.clubOutline club) (pop s)
  | .submitClub => push .homePage
  | .tapPadding => push .placeholder
  | .clubBack => pushReplacement .homePage
  | .changeSchool => fun s => push .chooseSchoolPage (pop s)
  | .next => pushReplacement .homePage
  | .openEventForm => push .eventForm
  | .closeEventForm => pop
  | .back => pop

end Nav

def navStep (s : Nav) (a : Nav.Action) : Option Nav :=
  if s.enabled a then some (Nav.effect a s) else none

namespace Nav

/-! ## The stack of pages -/

def pages (s : Nav) : List Page := s.routes.map Route.page

variable {s t : Nav} {p : Page}

@[simp] theorem pages_push : (push p s).pages = p :: s.pages := rfl

@[simp] theorem pages_unmountCalls : (unmountCalls s).pages = s.pages := rfl

@[simp] theorem pages_withUser (user : Option User) : (withUser user s).pages = s.pages := rfl

@[simp] theorem pages_addCall (kind : CallKind) : (addCall kind s).pages = s.pages := rfl

@[simp] theorem pages_removeTop : (removeTop s).pages = s.pages.tail := by
  unfold removeTop
  split
  · rename_i h
    simp [pages, h]
  · rename_i r rs h
    split <;> simp [pages, h, unmountCalls]

/-- **A pop** removes the top page, unless it closes a drawer. -/
theorem pages_pop : (pop s).pages = if s.openDrawers = [] then s.pages.tail else s.pages := by
  unfold pop
  split
  · rename_i h
    simp [pages, openDrawers, h]
  · rename_i h
    rw [pages_removeTop, if_pos]
    cases hs : s.routes with
    | nil => simp [openDrawers, hs]
    | cons r rs =>
      obtain ⟨p, user, built, ds⟩ := r
      cases ds with
      | nil => simp [openDrawers, hs]
      | cons d ds => exact absurd hs (h p user built d ds rs)

@[simp] theorem pages_pushReplacement : (pushReplacement p s).pages = p :: s.pages.tail := by
  rw [pushReplacement, pages_push, pages_removeTop]

/-- A settled call goes on with the routes as they are, if its page is mounted. -/
theorem pages_resumeWith {i : Nat} {c : Call} (k : CallKind → Nav → Nav)
    (hc : s.calls[i]? = some c) :
    ∃ s' : Nav, s'.routes = s.routes ∧
      (resumeWith i k s).pages = if c.mounted then (k c.kind s').pages else s.pages := by
  refine ⟨{ s with calls := s.calls.eraseIdx i }, rfl, ?_⟩
  simp only [resumeWith, hc]
  split <;> rfl

/-- Without a mounted call nothing is popped or replaced. -/
theorem pages_resumeWith_of_unmounted {i : Nat} {k : CallKind → Nav → Nav}
    (h : ∀ c ∈ s.calls, c.mounted = false) : (resumeWith i k s).pages = s.pages := by
  cases hc : s.calls[i]? with
  | none => simp only [resumeWith, hc]
  | some c =>
    obtain ⟨s', -, hpages⟩ := pages_resumeWith k hc
    rw [hpages, h c (List.mem_of_getElem? hc)]
    rfl

@[simp] theorem pages_rebuildAuthPage : (rebuildAuthPage s).pages = s.pages := by
  unfold rebuildAuthPage
  split
  · simp only [pages, List.map_map]
    refine List.map_congr_left fun r _ => ?_
    show (if stale s.currentUser r then (⟨r.page, _, _, []⟩ : Route) else r).page = r.page
    split <;> rfl
  · rfl

theorem pages_mapTop {f : Route → Route} (hf : ∀ r, (f r).page = r.page) :
    (mapTop f s).pages = s.pages := by
  unfold mapTop
  split
  · rfl
  · rename_i r rs h
    simp [pages, h, hf]

/-! ## The user -/

@[simp] theorem currentUser_removeTop : (removeTop s).currentUser = s.currentUser := by
  unfold removeTop
  split
  · rfl
  · split <;> rfl

@[simp] theorem currentUser_pop : (pop s).currentUser = s.currentUser := by
  unfold pop
  split
  · rfl
  · exact currentUser_removeTop

@[simp] theorem currentUser_push : (push p s).currentUser = s.currentUser := rfl

@[simp] theorem currentUser_pushReplacement :
    (pushReplacement p s).currentUser = s.currentUser := currentUser_removeTop

@[simp] theorem currentUser_mapTop (f : Route → Route) :
    (mapTop f s).currentUser = s.currentUser := by
  unfold mapTop
  split <;> rfl

@[simp] theorem currentUser_rebuildAuthPage : (rebuildAuthPage s).currentUser = s.currentUser := by
  unfold rebuildAuthPage
  split <;> rfl

theorem currentUser_resumeWith {i : Nat} {k : CallKind → Nav → Nav}
    (hk : ∀ kind s, (k kind s).currentUser = s.currentUser) :
    (resumeWith i k s).currentUser = s.currentUser := by
  unfold resumeWith
  split
  · rfl
  · rename_i c _
    show (if c.mounted then k c.kind _ else _).currentUser = _
    split
    · exact hk _ _
    · rfl

theorem currentUser_succeeded (kind : CallKind) (s : Nav) :
    (succeeded kind s).currentUser = s.currentUser := by
  cases kind <;> simp [succeeded]

theorem currentUser_failed (code : String) (kind : CallKind) (s : Nav) :
    (failed code kind s).currentUser = s.currentUser := by
  cases kind <;> simp [failed]

/-- The user after a call has settled. -/
theorem currentUser_settle (i : Nat) (o : Outcome) :
    (settle i o s).currentUser =
      match o with
      | .success user _ => some user
      | .failure _ => s.currentUser := by
  cases o with
  | success user resume =>
    cases resume with
    | first =>
      simp only [settle, currentUser_rebuildAuthPage,
        currentUser_resumeWith currentUser_succeeded]
      rfl
    | afterRebuild =>
      simp only [settle, currentUser_resumeWith currentUser_succeeded,
        currentUser_rebuildAuthPage]
      rfl
  | failure code => exact currentUser_resumeWith (currentUser_failed code)

/-- Only a logout signs the user out. -/
theorem currentUser_effect (a : Action) :
    (effect a s).currentUser =
      match a with
      | .settle _ (.success user _) => some user
      | .logout => none
      | _ => s.currentUser := by
  cases a with
  | settle i o =>
    rw [effect, currentUser_settle]
    cases o <;> rfl
  | tapRegister passwordsMatch => cases passwordsMatch <;> simp [effect, addCall]
  | logout => simp [effect, withUser]
  | _ => simp [effect, unmountCalls, addCall]

/-! ## The invariant -/

end Nav

/-- `b`: a user was signed in when `AuthPage` was built last. -/
structure NavInvAt (b : Bool) (s : Nav) : Prop where
  bottom : s.routes.Pairwise fun r _ => r.page ≠ .authPage
  built : ∀ r ∈ s.routes, r.page = .authPage → r.built.isSome = b
  drawers : ∀ r ∈ s.routes, r.page = .authPage ∧ b = false ∨ r.page.isAuthDialog → r.drawers = []
  mounted : ∀ c ∈ s.calls, c.mounted → b = false ∧ .authPage ∈ s.pages

/-- `AuthPage` has no route below it and shows the page for the user of the moment; a mounted
call has the login or register page to go on in. -/
def NavInv (s : Nav) : Prop := NavInvAt s.currentUser.isSome s

theorem navInv_start (user : Option User) : NavInv (Nav.start user) := by
  refine ⟨List.pairwise_singleton _ _, ?_, ?_, ?_⟩
  · intro r hr _
    rw [List.mem_singleton.1 hr]
    rfl
  · intro r hr _
    rw [List.mem_singleton.1 hr]
  · intro c hc
    cases hc

namespace NavInvAt

open Nav

variable {b : Bool} {s : Nav} {p : Page}

theorem push (h : NavInvAt b s) (hp : p ≠ .authPage) : NavInvAt b (push p s) := by
  refine ⟨List.pairwise_cons.2 ⟨fun _ _ => hp, h.bottom⟩, ?_, ?_, fun c hc hm => ?_⟩
  · intro r hr hpage
    rcases List.mem_cons.1 hr with rfl | hr
    · exact absurd hpage hp
    · exact h.built r hr hpage
  · intro r hr hcase
    rcases List.mem_cons.1 hr with rfl | hr
    · rfl
    · exact h.drawers r hr hcase
  · obtain ⟨hb, hmem⟩ := h.mounted c hc hm
    exact ⟨hb, List.mem_cons_of_mem p hmem⟩

theorem withUser (h : NavInvAt b s) (user : Option User) : NavInvAt b (withUser user s) :=
  ⟨h.bottom, h.built, h.drawers, h.mounted⟩

theorem of_unmounted (h : NavInvAt b s) {t : Nav} (hroutes : t.routes = s.routes)
    (hcalls : t.calls = s.calls.map Call.unmount) : NavInvAt b t := by
  refine ⟨by rw [hroutes]; exact h.bottom, by rw [hroutes]; exact h.built,
    by rw [hroutes]; exact h.drawers, fun c hc hm => ?_⟩
  rw [hcalls, List.mem_map] at hc
  obtain ⟨c', _, rfl⟩ := hc
  cases hm

theorem of_calls (h : NavInvAt b s) {t : Nav} (hroutes : t.routes = s.routes)
    (hcalls : ∀ c ∈ t.calls, c.mounted → c ∈ s.calls ∨ b = false ∧ .authPage ∈ s.pages) :
    NavInvAt b t := by
  have hpages : t.pages = s.pages := by rw [pages, hroutes, pages]
  refine ⟨by rw [hroutes]; exact h.bottom, by rw [hroutes]; exact h.built,
    by rw [hroutes]; exact h.drawers, fun c hc hm => ?_⟩
  rw [hpages]
  rcases hcalls c hc hm with hc' | hb
  · exact h.mounted c hc' hm
  · exact hb

theorem removeTop (h : NavInvAt b s) : NavInvAt b (removeTop s) := by
  unfold Nav.removeTop
  split
  · exact h
  · rename_i r rs hs
    obtain ⟨hbottom, hbuilt, hdrawers, hmounted⟩ := h
    rw [hs] at hbottom hbuilt hdrawers
    have hrest : ∀ calls, (∀ c ∈ calls, c.mounted → b = false ∧ .authPage ∈ rs.map Route.page) →
        NavInvAt b { s with routes := rs, calls := calls } := fun calls hcalls =>
      ⟨(List.pairwise_cons.1 hbottom).2, fun r' hr' => hbuilt r' (List.mem_cons_of_mem _ hr'),
        fun r' hr' => hdrawers r' (List.mem_cons_of_mem _ hr'), hcalls⟩
    split
    · refine hrest _ fun c hc hm => ?_
      obtain ⟨c', _, rfl⟩ := List.mem_map.1 hc
      cases hm
    · rename_i hpage
      refine hrest _ fun c hc hm => ?_
      obtain ⟨hb, hmem⟩ := hmounted c hc hm
      rw [pages, hs, List.map_cons] at hmem
      rcases List.mem_cons.1 hmem with heq | hmem
      · exact absurd heq.symm hpage
      · exact ⟨hb, hmem⟩

/-- A change of the drawers of the top route. -/
theorem mapTop (h : NavInvAt b s) {f : Route → Route} (hpage : ∀ r, (f r).page = r.page)
    (hbuilt : ∀ r, (f r).built = r.built)
    (hdrawers : ∀ r rs, s.routes = r :: rs →
      r.page = .authPage ∧ b = false ∨ r.page.isAuthDialog → (f r).drawers = []) :
    NavInvAt b (mapTop f s) := by
  have hpages := pages_mapTop (s := s) hpage
  unfold Nav.mapTop at hpages ⊢
  split at hpages
  · exact h
  · rename_i r rs hs
    obtain ⟨hbottom, hb, hd, hmounted⟩ := h
    rw [hs] at hbottom hb hd
    obtain ⟨htop, hrest⟩ := List.pairwise_cons.1 hbottom
    refine ⟨List.pairwise_cons.2 ⟨fun r' hr' => ?_, hrest⟩, ?_, ?_, fun c hc hm => ?_⟩
    · rw [hpage]
      exact htop r' hr'
    · intro r' hr' hp
      rcases List.mem_cons.1 hr' with rfl | hr'
      · rw [hpage] at hp
        rw [hbuilt]
        exact hb r List.mem_cons_self hp
      · exact hb r' (List.mem_cons_of_mem _ hr') hp
    · intro r' hr' hcase
      rcases List.mem_cons.1 hr' with rfl | hr'
      · rw [hpage] at hcase
        exact hdrawers r rs hs hcase
      · exact hd r' (List.mem_cons_of_mem _ hr') hcase
    · rw [hpages]
      exact hmounted c hc hm

theorem pop (h : NavInvAt b s) : NavInvAt b (pop s) := by
  have htail : NavInvAt b (Nav.mapTop (fun r => { r with drawers := r.drawers.tail }) s) := by
    refine h.mapTop (fun _ => rfl) (fun _ => rfl) fun r rs hs hcase => ?_
    show r.drawers.tail = []
    rw [h.drawers r (by rw [hs]; exact List.mem_cons_self) hcase]
    rfl
  unfold Nav.pop
  split
  · rename_i p user built d ds rs hs
    simpa only [Nav.mapTop, hs, List.tail_cons] using htail
  · exact h.removeTop

theorem pushReplacement (h : NavInvAt b s) (hp : p ≠ .authPage) :
    NavInvAt b (pushReplacement p s) := h.removeTop.push hp

theorem addCall (h : NavInvAt b s) (hb : b = false) (hmem : .authPage ∈ s.pages)
    (kind : CallKind) : NavInvAt b (addCall kind s) := by
  refine h.of_calls rfl fun c hc _ => ?_
  rcases List.mem_append.1 hc with hc | _
  · exact .inl hc
  · exact .inr ⟨hb, hmem⟩

theorem rebuildAuthPage (h : NavInvAt b s) : NavInv (rebuildAuthPage s) := by
  have hstale : ∀ r, stale s.currentUser r = true ↔
      r.page = .authPage ∧ r.built.isSome ≠ s.currentUser.isSome := by simp [stale]
  unfold NavInv
  rw [currentUser_rebuildAuthPage]
  have hpages := pages_rebuildAuthPage (s := s)
  unfold Nav.rebuildAuthPage at hpages ⊢
  split
  · refine ⟨?_, ?_, ?_, ?_⟩
    · refine (List.pairwise_map.2 (h.bottom.imp fun {r _} hr => ?_))
      show (if stale s.currentUser r then (⟨r.page, _, _, []⟩ : Route) else r).page ≠ _
      split <;> exact hr
    · intro r' hr' hpage
      obtain ⟨r, hr, rfl⟩ := List.mem_map.1 hr'
      split at hpage
      · rename_i hst
        rw [if_pos hst]
      · rename_i hst
        rw [if_neg hst]
        by_contra hne
        exact hst ((hstale r).2 ⟨hpage, hne⟩)
    · intro r' hr' hcase
      obtain ⟨r, hr, rfl⟩ := List.mem_map.1 hr'
      split at hcase
      · rename_i hst
        rw [if_pos hst]
      · rename_i hst
        rw [if_neg hst]
        refine h.drawers r hr ?_
        rcases hcase with ⟨hpage, hnone⟩ | hdialog
        · refine .inl ⟨hpage, ?_⟩
          rw [← h.built r hr hpage, ← hnone]
          by_contra hne
          exact hst ((hstale r).2 ⟨hpage, hne⟩)
        · exact .inr hdialog
    · intro c hc hm
      obtain ⟨c', _, rfl⟩ := List.mem_map.1 hc
      cases hm
  · rename_i hnone
    have hfresh : ∀ r ∈ s.routes, r.page = .authPage → r.built.isSome = s.currentUser.isSome := by
      intro r hr hpage
      by_contra hne
      exact hnone (List.any_eq_true.2 ⟨r, hr, (hstale r).2 ⟨hpage, hne⟩⟩)
    refine ⟨h.bottom, hfresh, ?_, ?_⟩
    · intro r hr hcase
      refine h.drawers r hr ?_
      rcases hcase with ⟨hpage, hfalse⟩ | hdialog
      · exact .inl ⟨hpage, by rw [← h.built r hr hpage, hfresh r hr hpage, hfalse]⟩
      · exact .inr hdialog
    · intro c hc hm
      obtain ⟨hb, hmem⟩ := h.mounted c hc hm
      obtain ⟨r, hr, hpage⟩ := List.mem_map.1 hmem
      exact ⟨by rw [← hfresh r hr hpage, h.built r hr hpage, hb], hmem⟩

theorem resumeWith (h : NavInvAt b s) {i : Nat} {k : CallKind → Nav → Nav}
    (hk : ∀ kind s, NavInvAt b s → NavInvAt b (k kind s)) : NavInvAt b (resumeWith i k s) := by
  unfold Nav.resumeWith
  split
  · exact h
  · rename_i c _
    have herase : NavInvAt b { s with calls := s.calls.eraseIdx i } :=
      h.of_calls rfl fun c' hc' _ => .inl (List.mem_of_mem_eraseIdx hc')
    show NavInvAt b (if c.mounted then k c.kind _ else _)
    split
    · exact hk _ _ herase
    · exact herase

theorem succeeded (kind : CallKind) (s : Nav) (h : NavInvAt b s) :
    NavInvAt b (succeeded kind s) := by
  cases kind with
  | login => exact h.pop
  | register => exact h.pop.pushReplacement (by simp)
  | google => exact h

theorem failed (code : String) (kind : CallKind) (s : Nav) (h : NavInvAt b s) :
    NavInvAt b (failed code kind s) := by
  cases kind with
  | login => exact h.pop.push (by simp)
  | register => exact (h.pop.push (by simp)).pushReplacement (by simp)
  | google => exact h

theorem settle (h : NavInvAt b s) (hb : b = s.currentUser.isSome) (i : Nat) (o : Outcome) :
    NavInv (settle i o s) := by
  cases o with
  | success user resume =>
    cases resume with
    | first => exact ((h.withUser (some user)).resumeWith succeeded).rebuildAuthPage
    | afterRebuild =>
      have hinv := (h.withUser (some user)).rebuildAuthPage.resumeWith (i := i) succeeded
      rw [currentUser_rebuildAuthPage] at hinv
      unfold NavInv
      rwa [currentUser_settle]
  | failure code =>
    have hinv := h.resumeWith (i := i) (failed code)
    unfold NavInv
    rwa [currentUser_settle, ← hb]

end NavInvAt

namespace Nav

/-! ## What is in front -/

variable {s t : Nav} {p : Page}

theorem shown_eq_some {x : Screen} :
    s.shown = some x ↔ ∃ r rs, s.routes = r :: rs ∧ s.shownBy r = x := by
  unfold shown
  cases s.routes with
  | nil => simp
  | cons r rs => simp

/-- The login and register pages are shown by `AuthPage` while nobody is signed in. -/
theorem authPage_of_shown (h : s.shown = some .loginPage ∨ s.shown = some .registerPage) :
    ∃ r rs, s.routes = r :: rs ∧ r.page = .authPage ∧ r.built.isSome = false := by
  rw [shown_eq_some, shown_eq_some] at h
  rcases h with ⟨r, rs, hr, hx⟩ | ⟨r, rs, hr, hx⟩ <;>
  · refine ⟨r, rs, hr, ?_⟩
    unfold shownBy at hx
    split at hx
    · rename_i hpage
      split at hx
      · cases hx
      · rename_i hbuilt
        exact ⟨hpage, by simpa using hbuilt⟩
    · cases hx

/-- Any other page in front is the top route, or a tab of `AuthPage`. -/
theorem page_of_shown (h : s.shown = some (.page p)) :
    ∃ r rs, s.routes = r :: rs ∧
      (r.page = .authPage ∧ r.built.isSome ∧ p = s.selectedIndex.page ∨
        r.page ≠ .authPage ∧ r.page = p) := by
  obtain ⟨r, rs, hr, hx⟩ := shown_eq_some.1 h
  refine ⟨r, rs, hr, ?_⟩
  unfold shownBy at hx
  split at hx
  · rename_i hpage
    split at hx
    · rename_i hbuilt
      cases hx
      exact .inl ⟨hpage, hbuilt, rfl⟩
    · split at hx <;> cases hx
  · rename_i hpage
    cases hx
    exact .inr ⟨hpage, rfl⟩

theorem shown_of_mem_drawerPages (h : p ∈ s.drawerPages) :
    ∃ q, s.shown = some (.page q) ∧ p ∈ q.drawerPages := by
  unfold drawerPages at h
  split at h
  · rename_i q hq
    exact ⟨q, hq, h⟩
  · cases h

/-- A page with a drawer in front is not a dialog, and not the login or register page. -/
theorem top_of_mem_drawerPages (h : p ∈ s.drawerPages) :
    ∃ r rs, s.routes = r :: rs ∧ ¬ r.page.isAuthDialog ∧
      (r.page = .authPage → r.built.isSome) := by
  obtain ⟨q, hq, hp⟩ := shown_of_mem_drawerPages h
  obtain ⟨r, rs, hr, hcase⟩ := page_of_shown hq
  refine ⟨r, rs, hr, ?_⟩
  rcases hcase with ⟨hpage, hbuilt, -⟩ | ⟨hne, rfl⟩
  · rw [hpage]
    exact ⟨by simp [Page.isAuthDialog], fun _ => hbuilt⟩
  · refine ⟨fun hdialog => ?_, fun hpage => absurd hpage hne⟩
    cases hpage : r.page <;> rw [hpage] at hp hdialog <;> simp [Page.isAuthDialog] at hdialog <;>
      cases hp

theorem openDrawers_of_drawerInFront (h : s.drawerInFront) : s.openDrawers ≠ [] := by
  obtain ⟨p, _, hp⟩ := List.any_eq_true.1 h
  exact List.ne_nil_of_mem (of_decide_eq_true hp)

theorem navStep_eq_some {a : Action} : navStep s a = some t ↔ s.enabled a ∧ t = effect a s := by
  unfold navStep
  split
  · rename_i h
    simp [h, eq_comm]
  · rename_i h
    simp [h]

end Nav

open Nav in
theorem authPage_mem_pages {s : Nav}
    (h : ∃ r rs, s.routes = r :: rs ∧ r.page = .authPage ∧ r.built.isSome = false) :
    .authPage ∈ s.pages := by
  obtain ⟨r, rs, hr, hpage, -⟩ := h
  rw [pages, hr, List.map_cons, hpage]
  exact List.mem_cons_self

open Nav in
/-- **Every action keeps the invariant.** -/
theorem navInv_step {s t : Nav} {a : Action} (h : NavInv s) (ht : navStep s a = some t) :
    NavInv t := by
  obtain ⟨hen, rfl⟩ := navStep_eq_some.1 ht
  have hkeep : (effect a s).currentUser = s.currentUser →
      NavInvAt s.currentUser.isSome (effect a s) → NavInv (effect a s) := fun hu hinv => by
    unfold NavInv
    rwa [hu]
  have hfalse : ∀ r rs, s.routes = r :: rs → r.page = .authPage → r.built.isSome = false →
      s.currentUser.isSome = false := fun r rs hr hpage hbuilt => by
    rw [← h.built r (by rw [hr]; exact List.mem_cons_self) hpage, hbuilt]
  have huser := currentUser_effect (s := s) a
  cases a with
  | toggle => exact NavInvAt.of_unmounted h rfl rfl
  | tapLogin =>
    have htop := authPage_of_shown (.inl (by simpa [enabled] using hen))
    obtain ⟨r, rs, hr, hpage, hbuilt⟩ := htop
    exact (NavInvAt.push h (by simp)).addCall (hfalse r rs hr hpage hbuilt)
      (List.mem_cons_of_mem _ (authPage_mem_pages ⟨r, rs, hr, hpage, hbuilt⟩)) _
  | tapRegister passwordsMatch =>
    have htop := authPage_of_shown (.inr (by simpa [enabled] using hen))
    obtain ⟨r, rs, hr, hpage, hbuilt⟩ := htop
    cases passwordsMatch with
    | true =>
      exact (NavInvAt.push h (by simp)).addCall (hfalse r rs hr hpage hbuilt)
        (List.mem_cons_of_mem _ (authPage_mem_pages ⟨r, rs, hr, hpage, hbuilt⟩)) _
    | false => exact hkeep huser ((NavInvAt.push h (by simp)).pop.push (by simp))
  | tapGoogle =>
    have htop := authPage_of_shown (.inl (by simpa [enabled] using hen))
    obtain ⟨r, rs, hr, hpage, hbuilt⟩ := htop
    exact NavInvAt.addCall h (hfalse r rs hr hpage hbuilt)
      (authPage_mem_pages ⟨r, rs, hr, hpage, hbuilt⟩) _
  | settle i o => exact NavInvAt.settle h rfl i o
  | changeTab tab => exact NavInvAt.of_calls h rfl fun c hc _ => .inl hc
  | openDrawer p =>
    simp only [enabled, Bool.and_eq_true, decide_eq_true_eq] at hen
    obtain ⟨r, rs, hr, hdialog, hbuilt⟩ := top_of_mem_drawerPages hen.1
    refine hkeep huser (NavInvAt.mapTop h (fun _ => rfl) (fun _ => rfl) fun r' rs' hr' hcase => ?_)
    rw [hr] at hr'
    cases hr'
    rcases hcase with ⟨hpage, hnone⟩ | hdlg
    · rw [← h.built r (by rw [hr]; exact List.mem_cons_self) hpage, hbuilt hpage] at hnone
      cases hnone
    · exact absurd hdlg hdialog
  | closeDrawer p =>
    refine hkeep huser (NavInvAt.mapTop h (fun _ => rfl) (fun _ => rfl) fun r rs hr hcase => ?_)
    show r.drawers.erase p = []
    rw [h.drawers r (by rw [hr]; exact List.mem_cons_self) hcase]
    rfl
  | drawerItem p =>
    have hp : p ≠ .authPage := by
      rintro rfl
      simp [enabled, MyDrawer.items] at hen
    exact hkeep huser ((NavInvAt.pop h).push hp)
  | logout => exact ((NavInvAt.pop h).withUser none).rebuildAuthPage
  | tapClub club => exact hkeep huser ((NavInvAt.pop h).push (by simp))
  | changeSchool => exact hkeep huser ((NavInvAt.pop h).push (by simp))
  | submitClub | tapPadding | openEventForm => exact NavInvAt.push h (by simp)
  | clubBack | next => exact hkeep huser (NavInvAt.pushReplacement h (by simp))
  | closeEventForm | back => exact hkeep huser (NavInvAt.pop h)

end TheHive
