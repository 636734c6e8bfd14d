import Mathlib.Data.List.Forall2
import TheHive.Lib.Transition

/-!
# Effects under way

Requests emit effects on a store.  An effect takes place, or is refused, at any later time and in
any order with the others.

* `step` — a request emits its effects; the `k`-th effect under way settles.
* `landed`, `landings` — the effects that have taken place.
* `emitted_visited` — what every emitted effect preserves holds in every visited state.
* `visited_store_iff` — if an effect keeps the store good exactly when it is `C`, a run keeps it
  good exactly when all its landings are `C`.
* `exec_related` — two systems whose effects correspond stay related on every schedule.
-/

set_option autoImplicit false

namespace InFlight

open Transition List

variable {σ τ ε δ ι : Type*}

structure State (σ ε : Type*) where
  store : σ
  /-- The effects that have not settled. -/
  net : List ε

inductive Action (ι : Type*) where
  | emit (i : ι)
  | settle (k : Nat) (accepted : Bool)

def step (effects : ι → List ε) (app : ε → σ → σ) (s : State σ ε) : Action ι → Option (State σ ε)
  | .emit i => some { s with net := s.net ++ effects i }
  | .settle k accepted =>
    (s.net[k]?).map fun e =>
      ⟨if accepted then app e s.store else s.store, s.net.eraseIdx k⟩

/-- No effect is under way. -/
def State.start (st : σ) : State σ ε := ⟨st, []⟩

/-- The effect that takes place in a step. -/
def landed (s : State σ ε) : Action ι → List ε
  | .settle k true => (s.net[k]?).toList
  | _ => []

/-- The effects that take place in a run, in their order. -/
def landings (h : List (State σ ε × Action ι)) : List ε := h.flatMap fun x => landed x.1 x.2

variable {effects : ι → List ε} {app : ε → σ → σ} {s t : State σ ε} {a : Action ι}

/-! ## One step -/

theorem step_store (ht : step effects app s a = some t) :
    t.store = (landed s a).foldl (fun st e => app e st) s.store := by
  cases a with
  | emit i => cases ht; rfl
  | settle k accepted =>
    obtain ⟨e, he, rfl⟩ := Option.map_eq_some_iff.1 ht
    cases accepted with
    | true => simp [landed, he]
    | false => rfl

theorem mem_net_step (ht : step effects app s a = some t) {e : ε} (he : e ∈ t.net) :
    e ∈ s.net ∨ ∃ i, a = .emit i ∧ e ∈ effects i := by
  cases a with
  | emit i =>
    cases ht
    exact (List.mem_append.1 he).imp id fun he => ⟨i, rfl, he⟩
  | settle k accepted =>
    obtain ⟨e', -, rfl⟩ := Option.map_eq_some_iff.1 ht
    exact .inl (List.mem_of_mem_eraseIdx he)

theorem mem_net_of_landed {e : ε} (he : e ∈ landed s a) : e ∈ s.net := by
  cases a with
  | emit i => cases he
  | settle k accepted =>
    cases accepted with
    | true => exact List.mem_of_getElem? (Option.mem_toList.1 he)
    | false => cases he

/-- At most one effect takes place in a step. -/
theorem landed_cases (s : State σ ε) (a : Action ι) : landed s a = [] ∨ ∃ e, landed s a = [e] := by
  cases a with
  | emit i => exact .inl rfl
  | settle k accepted =>
    cases accepted with
    | true =>
      cases h : s.net[k]? with
      | none => exact .inl (by simp [landed, h])
      | some e => exact .inr ⟨e, by simp [landed, h]⟩
    | false => exact .inl rfl

/-! ## Runs -/

section Invariants

variable {P : ε → Prop} {I : σ → Prop}

/-- What every emitted effect is, and what it preserves. -/
theorem emitted_step (hemit : ∀ i, ∀ e ∈ effects i, P e)
    (happ : ∀ e st, P e → I st → I (app e st)) (hs : (∀ e ∈ s.net, P e) ∧ I s.store)
    (ht : step effects app s a = some t) : (∀ e ∈ t.net, P e) ∧ I t.store := by
  refine ⟨fun e he => ?_, ?_⟩
  · rcases mem_net_step ht he with he | ⟨i, -, he⟩
    · exact hs.1 e he
    · exact hemit i e he
  · rw [step_store ht]
    rcases landed_cases s a with hl | ⟨e, hl⟩
    · rw [hl]
      exact hs.2
    · rw [hl]
      exact happ e s.store (hs.1 e (mem_net_of_landed (by rw [hl]; simp))) hs.2

/-- **What every emitted effect preserves** holds in every visited state. -/
theorem emitted_visited (hemit : ∀ i, ∀ e ∈ effects i, P e)
    (happ : ∀ e st, P e → I st → I (app e st)) (hs : (∀ e ∈ s.net, P e) ∧ I s.store)
    (as : List (Action ι)) :
    ∀ t ∈ visited (step effects app) s as, (∀ e ∈ t.net, P e) ∧ I t.store :=
  visited_invariant (I := fun t => (∀ e ∈ t.net, P e) ∧ I t.store) hs
    (fun _ _ _ hu hv => emitted_step hemit happ hu hv) as

/-- **A run keeps the store good exactly when all its landings are `C`.** -/
theorem visited_store_iff {G : σ → Prop} {C : ε → Prop} (hemit : ∀ i, ∀ e ∈ effects i, P e)
    (happ : ∀ e st, P e → I st → I (app e st))
    (hgood : ∀ e st, P e → I st → G st → (G (app e st) ↔ C e))
    (hs : (∀ e ∈ s.net, P e) ∧ I s.store) (hg : G s.store) (as : List (Action ι)) :
    (∀ t ∈ visited (step effects app) s as, G t.store) ↔
      ∀ e ∈ landings (taken (step effects app) s as), C e := by
  have hone : ∀ u a v, (∀ e ∈ u.net, P e) ∧ I u.store → G u.store →
      step effects app u a = some v → (G v.store ↔ ∀ e ∈ landed u a, C e) := by
    intro u a v hu hgu hv
    rw [step_store hv]
    rcases landed_cases u a with hl | ⟨e, hl⟩
    · rw [hl]
      exact iff_of_true hgu (by simp)
    · rw [hl, List.forall_mem_singleton]
      exact hgood e u.store (hu.1 e (mem_net_of_landed (by rw [hl]; simp))) hu.2 hgu
  have hsteps : (∀ t ∈ visited (step effects app) s as, G t.store) ↔
      ∀ x ∈ taken (step effects app) s as, ∀ e ∈ landed x.1 x.2, C e :=
    visited_iff_taken (I := fun t => (∀ e ∈ t.net, P e) ∧ I t.store) (G := fun t => G t.store)
      (C := fun t a => ∀ e ∈ landed t a, C e) hs hg
      (fun _ _ _ hu hv => emitted_step hemit happ hu hv) hone as
  rw [hsteps, landings]
  simp only [List.mem_flatMap]
  constructor
  · rintro h e ⟨x, hx, he⟩
    exact h x hx e he
  · exact fun h x hx e he => h e ⟨x, hx, he⟩

end Invariants

/-! ## Two systems on one schedule -/

section Lockstep

variable {effects' : ι → List δ} {app' : δ → τ → τ} {R : ε → δ → Prop} {V : σ → τ → Prop}

/-- The stores are related, and the effects under way correspond. -/
structure Related (R : ε → δ → Prop) (V : σ → τ → Prop) (s : State σ ε) (s' : State τ δ) : Prop where
  store : V s.store s'.store
  net : Forall₂ R s.net s'.net

theorem exists_of_forall₂ {l : List ε} {l' : List δ} (h : Forall₂ R l l') : ∀ e ∈ l, ∃ d, R e d := by
  induction h with
  | nil => exact fun _ he => absurd he List.not_mem_nil
  | cons hx _ ih => exact List.forall_mem_cons.2 ⟨⟨_, hx⟩, ih⟩

theorem forall₂_eraseIdx {l : List ε} {l' : List δ} (h : Forall₂ R l l') (k : Nat) :
    Forall₂ R (l.eraseIdx k) (l'.eraseIdx k) := by
  induction h generalizing k with
  | nil => exact .nil
  | cons hx _ ih =>
    cases k with
    | zero => assumption
    | succ k => exact .cons hx (ih k)

theorem forall₂_getElem? {l : List ε} {l' : List δ} (h : Forall₂ R l l') (k : Nat) :
    Option.Rel R (l[k]?) (l'[k]?) := by
  induction h generalizing k with
  | nil => exact .none
  | cons hx _ ih =>
    cases k with
    | zero => exact .some hx
    | succ k => exact ih k

theorem step_related (hemit : ∀ i, Forall₂ R (effects i) (effects' i))
    (happ : ∀ e d st st', R e d → V st st' → V (app e st) (app' d st')) {s' : State τ δ}
    (h : Related R V s s') (a : Action ι) :
    Option.Rel (Related R V) (step effects app s a) (step effects' app' s' a) := by
  cases a with
  | emit i => exact .some ⟨h.store, List.rel_append h.net (hemit i)⟩
  | settle k accepted =>
    simp only [step]
    have hk := forall₂_getElem? h.net k
    revert hk
    generalize s.net[k]? = o
    generalize s'.net[k]? = o'
    intro hk
    cases hk with
    | none => exact .none
    | some hR =>
      refine .some ⟨?_, forall₂_eraseIdx h.net k⟩
      cases accepted with
      | true => exact happ _ _ _ _ hR h.store
      | false => exact h.store

/-- **Two systems whose effects correspond stay related on every schedule.** -/
theorem exec_related (hemit : ∀ i, Forall₂ R (effects i) (effects' i))
    (happ : ∀ e d st st', R e d → V st st' → V (app e st) (app' d st')) :
    ∀ (as : List (Action ι)) {s : State σ ε} {s' : State τ δ}, Related R V s s' →
      Related R V (exec (step effects app) s as) (exec (step effects' app') s' as)
  | [], _, _, h => h
  | a :: as, s, s', h => by
    have hstep := step_related hemit happ h a
    simp only [exec]
    revert hstep
    generalize step effects app s a = o
    generalize step effects' app' s' a = o'
    intro hstep
    cases hstep with
    | none => exact exec_related hemit happ as h
    | some h' => exact exec_related hemit happ as h'

end Lockstep

end InFlight
