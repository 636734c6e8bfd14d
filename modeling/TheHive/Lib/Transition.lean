import Mathlib.Data.List.Basic

/-!
# Runs of a partial step function

A system is a step function `step : σ → α → Option σ`; `none` means that the action is not
available in that state.  A run is a list of actions, and an action that is not available when
its turn comes is skipped.

* `taken` — the steps of a run, each with the state it starts from; `exec` — the last state;
  `visited` — every state the run passes through.
* `history_invariant` — the induction over a run, with the steps taken so far in the motive.
* `visited_invariant` — what every step preserves holds in every visited state;
  `visited_invariant_of_taken` — the same for steps that meet a condition.
* `visited_iff_taken` — if from a good state a step leads to a good state exactly when `C`
  holds of it, then a run stays good exactly when all its steps meet `C`.
* `visited_iff_taken_of_breaks` — the same where `C` is what keeps the invariant, and breaking it shows.
* `Reaches` — some run leads from one state to another; `Reaches.invariant` — what a trap keeps out.
* `Refinement.exists_run` — a run of a refined system is a run of the abstract one, with the
  same steps up to the ones that stutter.
-/

set_option autoImplicit false

namespace Transition

variable {σ α τ β : Type*}

/-- The steps a run takes, each with the state before it. -/
def taken (step : σ → α → Option σ) : σ → List α → List (σ × α)
  | _, [] => []
  | s, a :: as =>
    match step s a with
    | some t => (s, a) :: taken step t as
    | none => taken step s as

/-- The state a run ends in. -/
def exec (step : σ → α → Option σ) : σ → List α → σ
  | s, [] => s
  | s, a :: as =>
    match step s a with
    | some t => exec step t as
    | none => exec step s as

/-- Every state a run passes through, the first and the last included. -/
def visited (step : σ → α → Option σ) (s : σ) (as : List α) : List σ :=
  (taken step s as).map Prod.fst ++ [exec step s as]

section Rules

variable {step : σ → α → Option σ} {s : σ}

theorem mem_visited {as : List α} {t : σ} :
    t ∈ visited step s as ↔ (∃ a, (t, a) ∈ taken step s as) ∨ t = exec step s as := by
  simp [visited]

theorem forall_visited {G : σ → Prop} {as : List α} :
    (∀ t ∈ visited step s as, G t) ↔
      (∀ x ∈ taken step s as, G x.1) ∧ G (exec step s as) := by
  simp only [visited, List.forall_mem_append, List.forall_mem_map, List.forall_mem_singleton]

theorem history_invariant_from {P : List (σ × α) → σ → Prop}
    (hstep : ∀ h u a v, P h u → step u a = some v → P (h ++ [(u, a)]) v) :
    ∀ (as : List α) (h : List (σ × α)) (u : σ), P h u →
      P (h ++ taken step u as) (exec step u as)
  | [], h, u, hu => by simpa [taken, exec] using hu
  | a :: as, h, u, hu => by
    simp only [taken, exec]
    split
    · rename_i v hv
      have := history_invariant_from hstep as (h ++ [(u, a)]) v (hstep h u a v hu hv)
      simpa using this
    · exact history_invariant_from hstep as h u hu

/-- **Induction over a run**, with the steps taken so far. -/
theorem history_invariant {P : List (σ × α) → σ → Prop} (h0 : P [] s)
    (hstep : ∀ h u a v, P h u → step u a = some v → P (h ++ [(u, a)]) v) (as : List α) :
    P (taken step s as) (exec step s as) := by
  simpa using history_invariant_from hstep as [] s h0

/-- **What every step preserves holds in every visited state.** -/
theorem visited_invariant {I : σ → Prop} (h0 : I s)
    (hstep : ∀ u a v, I u → step u a = some v → I v) (as : List α) :
    ∀ t ∈ visited step s as, I t := by
  rw [forall_visited]
  refine history_invariant (P := fun h u => (∀ x ∈ h, I x.1) ∧ I u) ⟨by simp, h0⟩ ?_ as
  rintro h u a v ⟨hh, hu⟩ hv
  refine ⟨?_, hstep u a v hu hv⟩
  simp only [List.forall_mem_append, List.forall_mem_singleton]
  exact ⟨hh, hu⟩

/-- What every step that meets the condition preserves, in a run whose steps all meet it. -/
theorem visited_invariant_of_taken {I : σ → Prop} {C : σ → α → Prop} (h0 : I s)
    (hstep : ∀ u a v, I u → C u a → step u a = some v → I v) (as : List α)
    (hC : ∀ x ∈ taken step s as, C x.1 x.2) : ∀ t ∈ visited step s as, I t := by
  rw [forall_visited]
  refine history_invariant
    (P := fun h u => (∀ x ∈ h, C x.1 x.2) → (∀ x ∈ h, I x.1) ∧ I u) (fun _ => ⟨by simp, h0⟩) ?_ as hC
  intro h u a v hh hv
  simp only [List.forall_mem_append, List.forall_mem_singleton]
  rintro ⟨hCs, hCu⟩
  obtain ⟨hIs, hIu⟩ := hh hCs
  exact ⟨⟨hIs, hIu⟩, hstep u a v hIu hCu hv⟩

theorem exec_invariant {I : σ → Prop} (h0 : I s)
    (hstep : ∀ u a v, I u → step u a = some v → I v) (as : List α) : I (exec step s as) :=
  (forall_visited.1 (visited_invariant h0 hstep as)).2

theorem taken_invariant {I : σ → Prop} (h0 : I s)
    (hstep : ∀ u a v, I u → step u a = some v → I v) (as : List α) :
    ∀ x ∈ taken step s as, I x.1 :=
  (forall_visited.1 (visited_invariant h0 hstep as)).1

/-- A run takes no steps but its own. -/
theorem mem_of_mem_taken (as : List α) : ∀ x ∈ taken step s as, x.2 ∈ as := by
  induction as generalizing s with
  | nil => intro x hx; cases hx
  | cons a as ih =>
    intro x hx
    simp only [taken] at hx
    split at hx
    · rcases List.mem_cons.1 hx with rfl | hx
      · exact List.mem_cons_self
      · exact List.mem_cons_of_mem a (ih x hx)
    · exact List.mem_cons_of_mem a (ih x hx)

/-- Every step of a run was available where it was taken. -/
theorem step_of_mem_taken (as : List α) :
    ∀ x ∈ taken step s as, ∃ t, step x.1 x.2 = some t := by
  refine history_invariant (P := fun h _ => ∀ x ∈ h, ∃ t, step x.1 x.2 = some t) (by simp) ?_ as
  intro h u a v hh hv
  simp only [List.forall_mem_append, List.forall_mem_singleton]
  exact ⟨hh, v, hv⟩

/-- **A run stays good exactly when all its steps meet the condition.**  `I` is what every
step preserves anyway; from a good state a step leads to a good one exactly under `C`. -/
theorem visited_iff_taken {I G : σ → Prop} {C : σ → α → Prop} (h0 : I s) (hg : G s)
    (hinv : ∀ u a v, I u → step u a = some v → I v)
    (hstep : ∀ u a v, I u → G u → step u a = some v → (G v ↔ C u a)) (as : List α) :
    (∀ t ∈ visited step s as, G t) ↔ ∀ x ∈ taken step s as, C x.1 x.2 := by
  rw [forall_visited]
  suffices (((∀ x ∈ taken step s as, G x.1) ∧ G (exec step s as)) ↔
      ∀ x ∈ taken step s as, C x.1 x.2) ∧ I (exec step s as) from this.1
  refine history_invariant
    (P := fun h u => (((∀ x ∈ h, G x.1) ∧ G u) ↔ ∀ x ∈ h, C x.1 x.2) ∧ I u) ⟨by simpa, h0⟩ ?_ as
  rintro h u a v ⟨hh, hu⟩ hv
  refine ⟨?_, hinv u a v hu hv⟩
  simp only [List.forall_mem_append, List.forall_mem_singleton]
  constructor
  · rintro ⟨⟨hgs, hgu⟩, hgv⟩
    exact ⟨hh.1 ⟨hgs, hgu⟩, (hstep u a v hu hgu hv).1 hgv⟩
  · rintro ⟨hcs, hc⟩
    obtain ⟨hgs, hgu⟩ := hh.2 hcs
    exact ⟨⟨hgs, hgu⟩, (hstep u a v hu hgu hv).2 hc⟩

/-- The same where more than `G` is needed to go on: `I` holds as long as all steps meet `C`, and
a step that does not is seen at once.  The actions of the run are `A`. -/
theorem visited_iff_taken_of_breaks {I G : σ → Prop} {A : α → Prop} {C : σ → α → Prop} (h0 : I s)
    (hseen : ∀ u, I u → G u) (hkeeps : ∀ u a v, I u → A a → step u a = some v → C u a → I v)
    (hbreaks : ∀ u a v, I u → A a → step u a = some v → ¬ C u a → ¬ G v) (as : List α)
    (hA : ∀ a ∈ as, A a) :
    (∀ t ∈ visited step s as, G t) ↔ ∀ x ∈ taken step s as, C x.1 x.2 := by
  rw [forall_visited]
  have hrun : (∀ x ∈ taken step s as, A x.2) →
      (((∀ x ∈ taken step s as, G x.1) ∧ G (exec step s as)) ↔
        ∀ x ∈ taken step s as, C x.1 x.2) ∧
      ((∀ x ∈ taken step s as, C x.1 x.2) → I (exec step s as)) := by
    refine history_invariant
      (P := fun h u => (∀ x ∈ h, A x.2) → (((∀ x ∈ h, G x.1) ∧ G u) ↔ ∀ x ∈ h, C x.1 x.2) ∧
        ((∀ x ∈ h, C x.1 x.2) → I u)) (fun _ => ⟨by simpa using hseen s h0, fun _ => h0⟩) ?_ as
    intro h u a v hh hv
    simp only [List.forall_mem_append, List.forall_mem_singleton]
    rintro ⟨hAs, hAa⟩
    obtain ⟨hh, hu⟩ := hh hAs
    refine ⟨⟨?_, ?_⟩, ?_⟩
    · rintro ⟨⟨hgs, hgu⟩, hgv⟩
      have hcs := hh.1 ⟨hgs, hgu⟩
      refine ⟨hcs, ?_⟩
      by_contra hc
      exact hbreaks u a v (hu hcs) hAa hv hc hgv
    · rintro ⟨hcs, hc⟩
      exact ⟨hh.2 hcs, hseen v (hkeeps u a v (hu hcs) hAa hv hc)⟩
    · rintro ⟨hcs, hc⟩
      exact hkeeps u a v (hu hcs) hAa hv hc
  exact (hrun fun x hx => hA x.2 (mem_of_mem_taken as x hx)).1

/-- The same for a property of the steps themselves: if each step has it exactly under `C`, a
run has it throughout exactly when all its steps meet `C`. -/
theorem taken_iff_taken {I : σ → Prop} {G C : σ → α → Prop} (h0 : I s)
    (hinv : ∀ u a v, I u → step u a = some v → I v)
    (hstep : ∀ u a v, I u → step u a = some v → (G u a ↔ C u a)) (as : List α) :
    (∀ x ∈ taken step s as, G x.1 x.2) ↔ ∀ x ∈ taken step s as, C x.1 x.2 := by
  have hi := taken_invariant h0 hinv as
  refine forall₂_congr fun x hx => ?_
  obtain ⟨t, hxt⟩ := step_of_mem_taken as x hx
  exact hstep x.1 x.2 t (hi x hx) hxt

end Rules

/-! ## Reaching a state -/

theorem exec_append (step : σ → α → Option σ) (as bs : List α) (s : σ) :
    exec step s (as ++ bs) = exec step (exec step s as) bs := by
  induction as generalizing s with
  | nil => rfl
  | cons a as ih =>
    simp only [List.cons_append, exec]
    split
    · exact ih _
    · exact ih s

/-- Some run leads from `s` to `t`. -/
def Reaches (step : σ → α → Option σ) (s t : σ) : Prop := ∃ as, exec step s as = t

namespace Reaches

variable {step : σ → α → Option σ} {s t u : σ}

theorem refl (s : σ) : Reaches step s s := ⟨[], rfl⟩

theorem trans (h : Reaches step s t) (h' : Reaches step t u) : Reaches step s u := by
  obtain ⟨as, rfl⟩ := h
  obtain ⟨bs, rfl⟩ := h'
  exact ⟨as ++ bs, exec_append step as bs s⟩

theorem of_step {a : α} (h : step s a = some t) : Reaches step s t :=
  ⟨[a], by simp only [exec, h]⟩

/-- **A trap**: what every step preserves holds in every state that is reached. -/
theorem invariant {I : σ → Prop} (hs : I s) (hstep : ∀ u a v, I u → step u a = some v → I v)
    (h : Reaches step s t) : I t := by
  obtain ⟨as, rfl⟩ := h
  exact exec_invariant hs hstep as

end Reaches

/-- `step` refines `astep`: along `abs`, a step is the abstract action `act` gives for it, or
stutters when `act` gives none. -/
structure Refinement (step : σ → α → Option σ) (astep : τ → β → Option τ) where
  Inv : σ → Prop
  abs : σ → τ
  act : σ → α → Option β
  inv_step : ∀ s a t, Inv s → step s a = some t → Inv t
  sim : ∀ s a t b, Inv s → step s a = some t → act s a = some b → astep (abs s) b = some (abs t)
  stutter : ∀ s a t, Inv s → step s a = some t → act s a = none → abs t = abs s

/-- **A run of the refined system is a run of the abstract one.** -/
theorem Refinement.exists_run {step : σ → α → Option σ} {astep : τ → β → Option τ}
    (R : Refinement step astep) :
    ∀ (as : List α) {s : σ}, R.Inv s →
      ∃ bs, exec astep (R.abs s) bs = R.abs (exec step s as) ∧
        taken astep (R.abs s) bs =
          (taken step s as).filterMap fun x => (R.act x.1 x.2).map (R.abs x.1, ·)
  | [], _, _ => ⟨[], rfl, rfl⟩
  | a :: as, s, hs => by
    simp only [taken, exec]
    split
    · rename_i t ht
      obtain ⟨bs, hexec, htaken⟩ := R.exists_run as (R.inv_step s a t hs ht)
      cases hact : R.act s a with
      | none =>
        rw [R.stutter s a t hs ht hact] at hexec htaken
        exact ⟨bs, hexec, by simpa [hact] using htaken⟩
      | some b =>
        have hb := R.sim s a t b hs ht hact
        exact ⟨b :: bs, by simpa [exec, hb] using hexec, by simp [taken, hb, htaken, hact]⟩
    · exact R.exists_run as hs

end Transition
