import TheHive.Navigation

/-!
# The root route

`AuthPage` should stay the bottom route for as long as the app runs.

* `RootKept` — the stack is not empty and `AuthPage` is its bottom route.
* `root_step` — a step keeps the root route exactly when it does not `RemovesRoot`.
* `rootKept_iff_run` — a run keeps the root route exactly when no club tile is tapped on a tab
  of `SideBarPage` without a drawer to close, and no sign-in that settles pops or replaces the
  last route.
* `club_tile_pops_root` — one tap on a tile of the My Clubs tab leaves `ClubOutline` alone on
  the stack.
-/

set_option autoImplicit false

namespace TheHive

open Transition Nav

/-- The bottom route is `AuthPage`; the stack is not empty. -/
def RootKept (s : Nav) : Prop := s.routes.getLast?.map Route.page = some .authPage

instance : DecidablePred RootKept := fun s =>
  inferInstanceAs (Decidable (s.routes.getLast?.map Route.page = some .authPage))

/-- One route is left and it has no drawer to close, so a pop removes it. -/
def Nav.atRoot (s : Nav) : Prop := s.pages.length = 1 ∧ s.openDrawers = []

/-- What the page behind a settled call does to the stack takes the last route away: a pop at
the root, or, after a registration, the replacement of the route below the popped one. -/
def ResumesAtRoot (s : Nav) : CallKind → Outcome → Prop
  | .login, .success _ .first | .login, .failure _ | .register, .failure _ => s.atRoot
  | .register, .success _ .first =>
    s.pages.length = 1 ∨ s.pages.length = 2 ∧ s.openDrawers = []
  | _, _ => False

/-- A club tile that has no drawer to close on a tab of `AuthPage`; a settled call whose page is
mounted and takes the last route away. -/
def RemovesRoot (s : Nav) : Nav.Action → Prop
  | .tapClub _ => s.atRoot
  | .settle i o => ∃ c, s.calls[i]? = some c ∧ c.mounted ∧ ResumesAtRoot s c.kind o
  | _ => False

variable {s t : Nav} {a : Nav.Action}

/-! ## The bottom page -/

theorem rootKept_iff : RootKept s ↔ s.pages.getLast? = some .authPage := by
  unfold RootKept pages
  rw [List.getLast?_map]

theorem getLast?_cons_iff {p : Page} {ps : List Page} (hp : p ≠ .authPage) :
    (p :: ps).getLast? = some .authPage ↔ ps.getLast? = some .authPage := by
  rw [List.getLast?_cons]
  cases h : ps.getLast? with
  | none => simpa using hp
  | some q => simp

/-- The tail keeps the bottom page exactly when it is not empty. -/
theorem getLast?_tail_iff {ps : List Page} (h : ps.getLast? = some .authPage) :
    ps.tail.getLast? = some .authPage ↔ ps.length ≠ 1 := by
  cases ps with
  | nil => cases h
  | cons p ps =>
    cases ps with
    | nil => simp
    | cons q ps => simpa using h

theorem getLast?_tail_of_head {p : Page} {ps : List Page} (hp : p ≠ .authPage)
    (h : ps.getLast? = some .authPage) (hhead : ps.head? = some p) :
    ps.tail.getLast? = some .authPage := by
  cases ps with
  | nil => cases hhead
  | cons q ps =>
    cases hhead
    exact (getLast?_cons_iff hp).1 h

/-- **A pop keeps the bottom page exactly when it is not made at the root.** -/
theorem pop_iff (h : s.pages.getLast? = some .authPage) :
    (pop s).pages.getLast? = some .authPage ↔ ¬ s.atRoot := by
  rw [pages_pop, atRoot]
  split
  · rename_i hnone
    rw [getLast?_tail_iff h]
    simp [hnone]
  · rename_i hopen
    simp [h, hopen]

theorem pop_iff_of_routes (h : s.pages.getLast? = some .authPage) (hroutes : t.routes = s.routes) :
    (pop t).pages.getLast? = some .authPage ↔ ¬ s.atRoot := by
  have hpages : t.pages = s.pages := by rw [pages, hroutes, pages]
  have hat : t.atRoot ↔ s.atRoot := by
    unfold atRoot openDrawers
    rw [hpages, hroutes]
  rw [pop_iff (by rw [hpages]; exact h), hat]

/-- After a pop and a replacement the bottom page is kept exactly when a route was left below
the popped one, or below the top one if the pop closed a drawer. -/
theorem replace_iff_of_routes (h : s.pages.getLast? = some .authPage) (hroutes : t.routes = s.routes)
    {p : Page} (hp : p ≠ .authPage) :
    (pushReplacement p (pop t)).pages.getLast? = some .authPage ↔
      ¬ (s.pages.length = 1 ∨ s.pages.length = 2 ∧ s.openDrawers = []) := by
  have hpages : t.pages = s.pages := by rw [pages, hroutes, pages]
  have hdrawers : t.openDrawers = s.openDrawers := by rw [openDrawers, hroutes, openDrawers]
  rw [pages_pushReplacement, getLast?_cons_iff hp, pages_pop, hdrawers, hpages]
  split
  · rename_i hnone
    cases hs : s.pages with
    | nil => rw [hs] at h; cases h
    | cons q qs =>
      rw [hs] at h
      cases qs with
      | nil => simp
      | cons q' qs =>
        have hlast : (q' :: qs).getLast? = some .authPage := by simpa using h
        rw [List.tail_cons, getLast?_tail_iff hlast]
        simp [hnone]
  · rename_i hopen
    rw [getLast?_tail_iff h]
    simp [hopen]

/-- The page in front is the top one, or a tab. -/
theorem head_of_canTap {p : Page} (hcan : s.canTap p) :
    s.pages.head? = some p ∨ s.pages.head? = some .authPage ∧ p = s.selectedIndex.page := by
  simp only [canTap, Bool.and_eq_true, decide_eq_true_eq] at hcan
  obtain ⟨r, rs, hr, hcase⟩ := page_of_shown hcan.1
  have hhead : s.pages.head? = some r.page := by rw [pages, hr]; rfl
  rw [hhead]
  rcases hcase with ⟨hpage, -, htab⟩ | ⟨-, hpage⟩
  · exact .inr ⟨by rw [hpage], htab⟩
  · exact .inl (by rw [hpage])

/-- A page that is no tab and not `AuthPage` is not the bottom one. -/
theorem tail_of_canTap {p : Page} (hp : p ≠ .authPage) (htab : ∀ tab : Tab, p ≠ tab.page)
    (hcan : s.canTap p) (h : s.pages.getLast? = some .authPage) :
    s.pages.tail.getLast? = some .authPage := by
  rcases head_of_canTap hcan with hhead | ⟨-, heq⟩
  · exact getLast?_tail_of_head hp h hhead
  · exact absurd heq (htab _)

theorem pop_of_canTap {p : Page} (hp : p ≠ .authPage) (htab : ∀ tab : Tab, p ≠ tab.page)
    (hcan : s.canTap p) (h : s.pages.getLast? = some .authPage) :
    (pop s).pages.getLast? = some .authPage := by
  rw [pages_pop]
  split
  · exact tail_of_canTap hp htab hcan h
  · exact h

/-! ## One step -/

/-- What a settled call does to the bottom page is what its page does, if it is mounted. -/
theorem root_resumeWith {i : Nat} {c : Call} {k : CallKind → Nav → Nav} {R : Prop}
    (hroot : s.pages.getLast? = some .authPage) (hc : s.calls[i]? = some c)
    (hk : ∀ s' : Nav, s'.routes = s.routes →
      ((k c.kind s').pages.getLast? = some .authPage ↔ ¬ R)) :
    (resumeWith i k s).pages.getLast? = some .authPage ↔ ¬ (c.mounted ∧ R) := by
  obtain ⟨s', hroutes, hpages⟩ := pages_resumeWith k hc
  rw [hpages]
  split
  · rename_i hm
    simpa [hm] using hk s' hroutes
  · rename_i hm
    simp [hroot, hm]

/-- A settled call keeps the bottom page exactly when its page does not take it away. -/
theorem root_settle (h : NavInv s) (hroot : s.pages.getLast? = some .authPage) {i : Nat}
    (o : Outcome) (hi : i < s.calls.length) :
    (settle i o s).pages.getLast? = some .authPage ↔ ¬ RemovesRoot s (.settle i o) := by
  have hcall : s.calls[i]? = some s.calls[i] := List.getElem?_eq_getElem hi
  have hkept : ∀ s' : Nav, s'.routes = s.routes →
      (s'.pages.getLast? = some .authPage ↔ ¬ False) := fun s' hroutes => by
    rw [pages, hroutes]
    exact iff_of_true hroot id
  simp only [RemovesRoot, hcall, Option.some.injEq, exists_eq_left']
  cases o with
  | success user resume =>
    cases resume with
    | first =>
      rw [settle, pages_rebuildAuthPage]
      refine root_resumeWith (s := withUser (some user) s) hroot hcall fun s' hroutes => ?_
      cases s.calls[i].kind with
      | login => exact pop_iff_of_routes hroot hroutes
      | register => exact replace_iff_of_routes hroot hroutes (by simp)
      | google => exact hkept s' hroutes
    | afterRebuild =>
      -- the rebuilt `AuthPage` has no login or register page that could go on
      have hrebuilt := NavInvAt.rebuildAuthPage (NavInvAt.withUser h (some user))
      have hpages : (rebuildAuthPage (withUser (some user) s)).pages = s.pages := by simp
      have hnone : ∀ c ∈ (rebuildAuthPage (withUser (some user) s)).calls, c.mounted = false := by
        intro c hc
        cases hm : c.mounted with
        | false => rfl
        | true =>
          have hfalse := (hrebuilt.mounted c hc hm).1
          rw [currentUser_rebuildAuthPage] at hfalse
          cases hfalse
      have hsame : (settle i (.success user .afterRebuild) s).pages = s.pages := by
        rw [← hpages]
        exact pages_resumeWith_of_unmounted hnone
      rw [hsame]
      refine iff_of_true hroot ?_
      rintro ⟨-, hresumes⟩
      cases hk : s.calls[i].kind <;> rw [hk] at hresumes <;> exact hresumes
  | failure code =>
    refine root_resumeWith hroot hcall fun s' hroutes => ?_
    cases s.calls[i].kind with
    | login =>
      show (Page.message code :: (pop s').pages).getLast? = _ ↔ ¬ s.atRoot
      rw [getLast?_cons_iff (by simp)]
      exact pop_iff_of_routes hroot hroutes
    | register =>
      show (pushReplacement .chooseSchoolPage (push (.message code) (pop s'))).pages.getLast? = _ ↔
        ¬ s.atRoot
      rw [pages_pushReplacement, getLast?_cons_iff (by simp), pages_push, List.tail_cons]
      exact pop_iff_of_routes hroot hroutes
    | google => exact hkept s' hroutes

/-- **One step keeps the root route exactly when it does not remove it.** -/
theorem root_step (h : NavInv s) (hroot : RootKept s) (ht : navStep s a = some t) :
    RootKept t ↔ ¬ RemovesRoot s a := by
  obtain ⟨hen, rfl⟩ := navStep_eq_some.1 ht
  rw [rootKept_iff] at hroot ⊢
  have hpush : ∀ p : Page, p ≠ .authPage → (p :: s.pages).getLast? = some .authPage :=
    fun p hp => (getLast?_cons_iff hp).2 hroot
  have hopen : s.openDrawers ≠ [] → (pop s).pages = s.pages := fun hne => by
    rw [pages_pop, if_neg hne]
  have hmap : ∀ {f : Route → Route}, (∀ r, (f r).page = r.page) →
      (mapTop f s).pages.getLast? = some .authPage := fun hf => by
    rw [pages_mapTop hf, hroot]
  cases a with
  | toggle | changeTab tab | tapGoogle => exact iff_of_true hroot id
  | tapLogin => exact iff_of_true (hpush .loading (by simp)) id
  | tapRegister passwordsMatch =>
    cases passwordsMatch with
    | true => exact iff_of_true (hpush .loading (by simp)) id
    | false => exact iff_of_true (hpush (.message "Passwords don't match!") (by simp)) id
  | settle i o => exact root_settle h hroot o (of_decide_eq_true hen)
  | openDrawer p => exact iff_of_true (hmap fun _ => rfl) id
  | closeDrawer p => exact iff_of_true (hmap fun _ => rfl) id
  | drawerItem p =>
    simp only [enabled, Bool.and_eq_true, decide_eq_true_eq] at hen
    have hp : p ≠ .authPage := by
      rintro rfl
      simp [MyDrawer.items] at hen
    refine iff_of_true ?_ id
    show (p :: (pop s).pages).getLast? = _
    rw [hopen (openDrawers_of_drawerInFront hen.1)]
    exact hpush p hp
  | logout =>
    refine iff_of_true ?_ id
    show (rebuildAuthPage (withUser none (pop s))).pages.getLast? = _
    rw [pages_rebuildAuthPage, pages_withUser, hopen (openDrawers_of_drawerInFront hen)]
    exact hroot
  | tapClub club =>
    show (Page.clubOutline club :: (pop s).pages).getLast? = _ ↔ ¬ s.atRoot
    rw [getLast?_cons_iff (by simp), pop_iff hroot]
  | submitClub => exact iff_of_true (hpush .homePage (by simp)) id
  | tapPadding => exact iff_of_true (hpush .placeholder (by simp)) id
  | openEventForm => exact iff_of_true (hpush .eventForm (by simp)) id
  | clubBack | next =>
    refine iff_of_true ?_ id
    show (pushReplacement .homePage s).pages.getLast? = _
    rw [pages_pushReplacement, getLast?_cons_iff (by simp)]
    exact tail_of_canTap (by simp) (fun tab => by cases tab <;> simp [Tab.page]) hen hroot
  | changeSchool =>
    refine iff_of_true ?_ id
    show (Page.chooseSchoolPage :: (pop s).pages).getLast? = _
    rw [getLast?_cons_iff (by simp)]
    exact pop_of_canTap (by simp) (fun tab => by cases tab <;> simp [Tab.page]) hen hroot
  | closeEventForm =>
    exact iff_of_true
      (pop_of_canTap (by simp) (fun tab => by cases tab <;> simp [Tab.page]) hen hroot) id
  | back =>
    refine iff_of_true ?_ id
    show (pop s).pages.getLast? = _
    rw [pop_iff hroot]
    rintro ⟨hlen, hnone⟩
    rw [pages, List.length_map] at hlen
    simp [enabled, hnone, hlen] at hen

/-! ## Runs -/

/-- **A run from the start of the app keeps the root route exactly when none of its steps
removes it.** -/
theorem rootKept_iff_run (user : Option User) (as : List Nav.Action) :
    (∀ s ∈ visited navStep (.start user) as, RootKept s) ↔
      ∀ x ∈ taken navStep (.start user) as, ¬ RemovesRoot x.1 x.2 :=
  visited_iff_taken (G := RootKept) (navInv_start user) rfl (fun _ _ _ h ht => navInv_step h ht)
    (fun _ _ _ h hroot ht => root_step h hroot ht) as

/-- A tap on a club tile of the My Clubs tab leaves `ClubOutline` at the bottom. -/
theorem club_tile_pops_root :
    ¬ ∀ s ∈ visited navStep (.start (some ann)) [.tapClub chessClub], RootKept s := by
  decide

end TheHive
