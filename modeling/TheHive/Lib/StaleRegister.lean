import Mathlib.Data.Fintype.Card
import Mathlib.Logic.Function.Iterate
import TheHive.Lib.Transition

/-!
# A register updated through stale copies

Clients hold copies of a register and update it by sending `f` of the copy they see, as an
absolute value.  The copies are delivered, and the writes arrive, in any order and with any
delay; a client sends at most one write.

* `step` — delivery of any version the register has held, sending, arrival.
* `run_depth` — every version is `f^[d] v₀` for a depth `d` at most its number.
* `last_eq_iterate_iff` — **once all clients' writes have arrived, the register holds `f`
  applied once for each client exactly when every write was computed from the version that
  was still the newest on its arrival**.
-/

set_option autoImplicit false

namespace StaleRegister

open Transition

variable {ι α : Type}

structure State (ι α : Type) where
  /-- Every value the register has held, oldest first. -/
  log : List α
  /-- The version a client last received. -/
  shown : ι → Option Nat
  /-- The version a client's write was computed from. -/
  sent : ι → Option Nat
  /-- A client's write, while it is under way. -/
  net : ι → Option α

def State.start (v₀ : α) : State ι α := ⟨[v₀], fun _ => none, fun _ => none, fun _ => none⟩

inductive Action (ι : Type) where
  | deliver (i : ι) (v : Nat)
  | submit (i : ι)
  | arrive (i : ι)

def step [DecidableEq ι] (f : α → α) (s : State ι α) : Action ι → Option (State ι α)
  | .deliver i v =>
    if v < s.log.length then some { s with shown := Function.update s.shown i (some v) } else none
  | .submit i =>
    match s.sent i, s.shown i with
    | none, some v =>
      (s.log[v]?).map fun a =>
        { s with
          sent := Function.update s.sent i (some v)
          net := Function.update s.net i (some (f a)) }
    | _, _ => none
  | .arrive i =>
    (s.net i).map fun a =>
      { s with log := s.log ++ [a], net := Function.update s.net i none }

/-- An arriving write was computed from the version that is still the newest. -/
def Fresh (s : State ι α) : Action ι → Prop
  | .arrive i => ∀ v, s.sent i = some v → v + 1 = s.log.length
  | _ => True

variable {f : α → α} {v₀ : α} {s t : State ι α}

/-- The versions and the writes under way, as iterates of `f`: `ds` are the depths. -/
structure Depths (f : α → α) (v₀ : α) (s : State ι α) (ds : List Nat) : Prop where
  log : s.log = ds.map fun d => f^[d] v₀
  ne_nil : ds ≠ []
  le : ∀ (v d : Nat), ds[v]? = some d → d ≤ v
  net : ∀ i a, s.net i = some a →
    ∃ v d : Nat, s.sent i = some v ∧ ds[v]? = some d ∧ a = f^[d + 1] v₀

theorem Depths.length {ds : List Nat} (h : Depths f v₀ s ds) : s.log.length = ds.length := by
  simp [h.log]

section Run

variable [DecidableEq ι]

theorem Depths.deliver {ds : List Nat} (h : Depths f v₀ s ds) {i : ι} {v : Nat}
    (ht : step f s (.deliver i v) = some t) : Depths f v₀ t ds := by
  simp only [step] at ht
  split at ht
  · cases ht; exact ⟨h.log, h.ne_nil, h.le, h.net⟩
  · cases ht

/-- A client sends only once, so what it sends is the only write it has under way. -/
theorem submit_cases {i : ι} (ht : step f s (.submit i) = some t) :
    ∃ v a, s.sent i = none ∧ s.shown i = some v ∧ s.log[v]? = some a ∧
      t = { s with
            sent := Function.update s.sent i (some v)
            net := Function.update s.net i (some (f a)) } := by
  simp only [step] at ht
  split at ht
  · rename_i v hsent hshown
    obtain ⟨a, ha, rfl⟩ := Option.map_eq_some_iff.1 ht
    exact ⟨v, a, hsent, hshown, ha, rfl⟩
  · cases ht

theorem Depths.submit {ds : List Nat} (h : Depths f v₀ s ds) {i : ι}
    (ht : step f s (.submit i) = some t) : Depths f v₀ t ds := by
  obtain ⟨v, a, hsent, -, ha, rfl⟩ := submit_cases ht
  refine ⟨h.log, h.ne_nil, h.le, fun j b hb => ?_⟩
  by_cases hj : j = i
  · subst hj
    simp only [Function.update_self, Option.some.injEq] at hb
    rw [h.log, List.getElem?_map, Option.map_eq_some_iff] at ha
    obtain ⟨d, hd, rfl⟩ := ha
    exact ⟨v, d, Function.update_self .., hd, by rw [← hb, Function.iterate_succ_apply']⟩
  · simp only [Function.update_of_ne hj] at hb ⊢
    exact h.net j b hb

/-- An arrival adds a version one deeper than the version its write was computed from. -/
theorem Depths.arrive {ds : List Nat} (h : Depths f v₀ s ds) {i : ι}
    (ht : step f s (.arrive i) = some t) :
    ∃ v d : Nat, s.sent i = some v ∧ ds[v]? = some d ∧ Depths f v₀ t (ds ++ [d + 1]) := by
  obtain ⟨a, ha, rfl⟩ := Option.map_eq_some_iff.1 ht
  obtain ⟨v, d, hv, hd, rfl⟩ := h.net i a ha
  have hvlt : v < ds.length := (List.getElem?_eq_some_iff.1 hd).1
  have hdv : d ≤ v := h.le v d hd
  refine ⟨v, d, hv, hd, ?_, by simp, ?_, ?_⟩
  · simp [h.log]
  · intro w e he
    rw [List.getElem?_append] at he
    split at he
    · exact h.le w e he
    · rw [List.getElem?_singleton] at he
      split at he
      · cases he; omega
      · cases he
  · intro j b hb
    by_cases hj : j = i
    · subst hj
      simp at hb
    · simp only [Function.update_of_ne hj] at hb
      obtain ⟨w, e, hw, he, rfl⟩ := h.net j b hb
      have hwlt : w < ds.length := (List.getElem?_eq_some_iff.1 he).1
      exact ⟨w, e, hw, by rw [List.getElem?_append_left hwlt, he], rfl⟩

/-- The newest version is as deep as it can be. -/
def Deepest (ds : List Nat) : Prop := ds.getLast? = some (ds.length - 1)

/-- One arrival keeps the newest version deepest exactly when it is fresh. -/
theorem deepest_append_iff {ds : List Nat} (hle : ∀ (v d : Nat), ds[v]? = some d → d ≤ v) {v d : Nat}
    (hd : ds[v]? = some d) : Deepest (ds ++ [d + 1]) ↔ Deepest ds ∧ v + 1 = ds.length := by
  have hvlt : v < ds.length := (List.getElem?_eq_some_iff.1 hd).1
  have hdv : d ≤ v := hle v d hd
  simp only [Deepest, List.getLast?_append, List.getLast?_singleton, Option.some_or,
    Option.some.injEq, List.length_append, List.length_singleton, Nat.add_sub_cancel]
  rw [List.getLast?_eq_getElem?]
  constructor
  · intro hdeep
    have hv : v = ds.length - 1 := by omega
    refine ⟨?_, by omega⟩
    rw [← hv, hd]
    exact congrArg some (by omega)
  · rintro ⟨hdeep, hv⟩
    have hv' : v = ds.length - 1 := by omega
    rw [← hv', hd] at hdeep
    have := Option.some.inj hdeep
    omega

/-- **Every version is an iterate of `f`**, no deeper than its number; the newest is as deep as
its number exactly when all arrivals so far were fresh. -/
theorem run_depth (f : α → α) (v₀ : α) (as : List (Action ι)) :
    ∃ ds, Depths f v₀ (exec (step f) (State.start v₀) as) ds ∧
      (Deepest ds ↔ ∀ x ∈ taken (step f) (State.start v₀) as, Fresh x.1 x.2) := by
  refine history_invariant
    (P := fun h s => ∃ ds, Depths f v₀ s ds ∧ (Deepest ds ↔ ∀ x ∈ h, Fresh x.1 x.2)) ?_ ?_ as
  · refine ⟨[0], ⟨rfl, by simp, fun v d hd => ?_, fun i a ha => by cases ha⟩, by simp [Deepest]⟩
    rw [List.getElem?_singleton] at hd
    split at hd
    · cases hd; omega
    · cases hd
  · rintro h u a v ⟨ds, hds, hiff⟩ hv
    simp only [List.forall_mem_append, List.forall_mem_singleton]
    cases a with
    | deliver i w => exact ⟨ds, hds.deliver hv, by simpa [Fresh] using hiff⟩
    | submit i => exact ⟨ds, hds.submit hv, by simpa [Fresh] using hiff⟩
    | arrive i =>
      obtain ⟨w, d, hw, hd, hds'⟩ := hds.arrive hv
      refine ⟨_, hds', ?_⟩
      rw [deepest_append_iff hds.le hd, hiff]
      simp [Fresh, hw, hds.length]

end Run

/-! ## Counting the arrivals -/

section Count

variable [Fintype ι]

/-- The clients whose write has arrived. -/
def arrived (s : State ι α) : Finset ι :=
  Finset.univ.filter fun i => (s.sent i).isSome ∧ s.net i = none

/-- One version for each arrival, and every write under way was sent. -/
def Counted (s : State ι α) : Prop :=
  s.log.length = (arrived s).card + 1 ∧ ∀ i, (s.net i).isSome → (s.sent i).isSome

theorem counted_start (v₀ : α) : Counted (State.start v₀ : State ι α) := by
  have : arrived (State.start v₀ : State ι α) = ∅ := by simp [arrived, State.start]
  refine ⟨?_, fun i h => by simp [State.start] at h⟩
  rw [this, Finset.card_empty]
  rfl

variable [DecidableEq ι]

theorem counted_step {a : Action ι} (hs : Counted s) (ht : step f s a = some t) : Counted t := by
  obtain ⟨hlen, hsent⟩ := hs
  cases a with
  | deliver i v =>
    simp only [step] at ht
    split at ht
    · cases ht; exact ⟨hlen, hsent⟩
    · cases ht
  | submit i =>
    obtain ⟨v, a, hi, -, -, rfl⟩ := submit_cases ht
    refine ⟨?_, fun j hj => ?_⟩
    · rw [hlen]
      congr 2
      ext j
      by_cases hj : j = i
      · subst hj; simp [arrived, hi]
      · simp [arrived, hj]
    · by_cases hji : j = i
      · subst hji; simp
      · simp only [Function.update_of_ne hji] at hj ⊢
        exact hsent j hj
  | arrive i =>
    obtain ⟨a, ha, rfl⟩ := Option.map_eq_some_iff.1 ht
    have hi : (s.sent i).isSome := hsent i (by simp [ha])
    have harr : arrived { s with log := s.log ++ [a], net := Function.update s.net i none } =
        insert i (arrived s) := by
      ext j
      by_cases hj : j = i
      · subst hj; simp [arrived, hi]
      · simp [arrived, hj]
    refine ⟨?_, fun j hj => ?_⟩
    · rw [harr, Finset.card_insert_of_notMem (by simp [arrived, ha])]
      simp [hlen]
    · by_cases hji : j = i
      · subst hji; simp at hj
      · simp only [Function.update_of_ne hji] at hj
        exact hsent j hj

/-- All clients have sent their write, and all writes have arrived. -/
def Complete (s : State ι α) : Prop := ∀ i, (s.sent i).isSome ∧ s.net i = none

/-- **All updates count exactly when each was computed from the newest version.** -/
theorem last_eq_iterate_iff (hf : Function.Injective fun d => f^[d] v₀) (as : List (Action ι))
    (hdone : Complete (exec (step f) (State.start v₀) as)) :
    (exec (step f) (State.start v₀) as).log.getLast? = some (f^[Fintype.card ι] v₀) ↔
      ∀ x ∈ taken (step f) (State.start v₀) as, Fresh x.1 x.2 := by
  obtain ⟨ds, hds, hiff⟩ := run_depth f v₀ as
  have hcounted : Counted (exec (step f) (State.start v₀) as) :=
    exec_invariant (counted_start v₀) (fun _ _ _ => counted_step) as
  have hlen := hcounted.1
  have hall : arrived (exec (step f) (State.start v₀) as) = Finset.univ :=
    Finset.filter_true_of_mem fun i _ => hdone i
  rw [hall, Finset.card_univ, hds.length] at hlen
  rw [← hiff, Deepest, hds.log, List.getLast?_map, hlen, Nat.add_sub_cancel]
  constructor
  · intro h
    obtain ⟨d, hd, heq⟩ := Option.map_eq_some_iff.1 h
    rw [hd, hf heq]
  · intro h
    rw [h, Option.map_some]

end Count

end StaleRegister
