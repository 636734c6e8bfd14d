import Mathlib.Data.List.FinRange
import Mathlib.Data.List.Pairwise
import Mathlib.Data.List.Sort
import Mathlib.Data.Prod.Lex

/-!
# Comparison sorts whose comparator may raise

A sort that looks at its entries only through a comparator is a program that asks comparisons
of two different positions and ends with an arrangement of the positions.

* `Prog`, `Prog.run` — such programs, and a run against a comparator that may raise (`none`).
* `Algorithm` — a program for every length that sorts under every comparator keeping the
  contract `IsOrder`; `Algorithm.sort` runs it on a list.  `insertionSort` is one.
* `nodup_of_sort` — **a comparator that raises exactly on ties makes every algorithm raise on a
  list with a tie**: an algorithm that never asked for the tie would have to give the same
  answer to both ways of breaking it.
* `sort_of_nodup` — without a tie the algorithm sorts.
-/

set_option autoImplicit false

namespace ComparisonSort

/-- A program that asks for comparisons of two different positions. -/
inductive Prog (ι β : Type) where
  | ret (b : β)
  | ask (i j : ι) (hij : i ≠ j) (next : Int → Prog ι β)

namespace Prog

variable {ι β γ : Type}

/-- Run against a comparator; a comparison that raises ends the run. -/
def run (cmp : ι → ι → Option Int) : Prog ι β → Option β
  | ret b => some b
  | ask i j _ next =>
    match cmp i j with
    | some r => (next r).run cmp
    | none => none

def bind (p : Prog ι β) (f : β → Prog ι γ) : Prog ι γ :=
  match p with
  | ret b => f b
  | ask i j hij next => ask i j hij fun r => (next r).bind f

theorem run_bind (cmp : ι → ι → Option Int) (p : Prog ι β) (f : β → Prog ι γ) :
    (p.bind f).run cmp = (p.run cmp).bind fun b => (f b).run cmp := by
  induction p with
  | ret b => rfl
  | ask i j hij next ih =>
    simp only [bind, run]
    split
    · rename_i r _
      exact ih r
    · rfl

/-- A comparator that gives the same answers wherever the first one answers leads to the same
result. -/
theorem run_mono {cmp cmp' : ι → ι → Option Int}
    (h : ∀ i j r, i ≠ j → cmp i j = some r → cmp' i j = some r) {b : β} :
    ∀ {p : Prog ι β}, p.run cmp = some b → p.run cmp' = some b
  | ret _, hp => hp
  | ask i j hij next, hp => by
    simp only [run] at hp ⊢
    split at hp
    · rename_i r hr
      rw [h i j r hij hr]
      exact run_mono h hp
    · cases hp

end Prog

/-- The contract of a comparator: a total preorder, read off the sign. -/
structure IsOrder {ι : Type} (cmp : ι → ι → Int) : Prop where
  swap : ∀ i j, cmp i j ≤ 0 ↔ 0 ≤ cmp j i
  trans : ∀ i j k, cmp i j ≤ 0 → cmp j k ≤ 0 → cmp i k ≤ 0

/-- A comparison sort. -/
structure Algorithm where
  prog : (n : Nat) → Prog (Fin n) (List (Fin n))
  sorts : ∀ (n : Nat) (cmp : Fin n → Fin n → Int), IsOrder cmp →
    ∃ out, (prog n).run (fun i j => some (cmp i j)) = some out ∧
      out.Perm (List.finRange n) ∧ out.Pairwise fun i j => cmp i j ≤ 0

/-- Sort a list; `none` when a comparison raises. -/
def Algorithm.sort {α : Type} (A : Algorithm) (cmp : α → α → Option Int) (l : List α) :
    Option (List α) :=
  ((A.prog l.length).run fun i j => cmp (l.get i) (l.get j)).map (List.map l.get)

/-! ## Ties -/

/-- The comparator orders by `key` and raises exactly on ties. -/
structure RaisesOnTies {α κ : Type} [LinearOrder κ] (cmp : α → α → Option Int) (key : α → κ)
    (l : List α) : Prop where
  lt : ∀ a ∈ l, ∀ b ∈ l, key a < key b → ∃ r, cmp a b = some r ∧ r < 0
  gt : ∀ a ∈ l, ∀ b ∈ l, key b < key a → ∃ r, cmp a b = some r ∧ 0 < r
  tie : ∀ a ∈ l, ∀ b ∈ l, key a = key b → cmp a b = none

section Ties

variable {α κ : Type} [LinearOrder κ] {cmp : α → α → Option Int} {key : α → κ} {l : List α}

/-- The comparator with its ties broken by a rank of the positions. -/
def breakTies (cmp : α → α → Option Int) (l : List α) (rank : Fin l.length → Int)
    (i j : Fin l.length) : Int :=
  (cmp (l.get i) (l.get j)).getD (rank i - rank j)

theorem breakTies_le_iff (h : RaisesOnTies cmp key l) (rank : Fin l.length → Int)
    (i j : Fin l.length) :
    breakTies cmp l rank i j ≤ 0 ↔ toLex (key (l.get i), rank i) ≤ toLex (key (l.get j), rank j) := by
  rw [Prod.Lex.toLex_le_toLex]
  have hi := l.get_mem i
  have hj := l.get_mem j
  rcases lt_trichotomy (key (l.get i)) (key (l.get j)) with hk | hk | hk
  · obtain ⟨r, hr, hneg⟩ := h.lt _ hi _ hj hk
    simp only [breakTies, hr, Option.getD_some, hk, true_or, iff_true]
    exact le_of_lt hneg
  · simp only [breakTies, h.tie _ hi _ hj hk, Option.getD_none, hk, lt_irrefl, false_or, true_and]
    omega
  · obtain ⟨r, hr, hpos⟩ := h.gt _ hi _ hj hk
    simp only [breakTies, hr, Option.getD_some, not_lt_of_gt hk, ne_of_gt hk, false_and, or_false,
      iff_false]
    omega

theorem breakTies_ge_iff (h : RaisesOnTies cmp key l) (rank : Fin l.length → Int)
    (i j : Fin l.length) :
    0 ≤ breakTies cmp l rank j i ↔ toLex (key (l.get i), rank i) ≤ toLex (key (l.get j), rank j) := by
  rw [Prod.Lex.toLex_le_toLex]
  have hi := l.get_mem i
  have hj := l.get_mem j
  rcases lt_trichotomy (key (l.get i)) (key (l.get j)) with hk | hk | hk
  · obtain ⟨r, hr, hpos⟩ := h.gt _ hj _ hi hk
    simp only [breakTies, hr, Option.getD_some, hk, true_or, iff_true]
    exact le_of_lt hpos
  · simp only [breakTies, h.tie _ hj _ hi hk.symm, Option.getD_none, hk, lt_irrefl, false_or,
      true_and]
    omega
  · obtain ⟨r, hr, hneg⟩ := h.lt _ hj _ hi hk
    simp only [breakTies, hr, Option.getD_some, not_lt_of_gt hk, ne_of_gt hk, false_and, or_false,
      iff_false]
    omega

theorem isOrder_breakTies (h : RaisesOnTies cmp key l) (rank : Fin l.length → Int) :
    IsOrder (breakTies cmp l rank) where
  swap i j := by rw [breakTies_le_iff h, breakTies_ge_iff h]
  trans i j k hij hjk := by
    rw [breakTies_le_iff h] at *
    exact hij.trans hjk

/-- The sorted arrangement under the comparator with its ties broken by `rank`. -/
theorem exists_run_breakTies (A : Algorithm) (h : RaisesOnTies cmp key l)
    (rank : Fin l.length → Int) :
    ∃ out, (A.prog l.length).run (fun i j => some (breakTies cmp l rank i j)) = some out ∧
      out.Perm (List.finRange l.length) ∧
      out.Pairwise fun i j => toLex (key (l.get i), rank i) ≤ toLex (key (l.get j), rank j) := by
  obtain ⟨out, hrun, hperm, hsorted⟩ := A.sorts _ _ (isOrder_breakTies h rank)
  exact ⟨out, hrun, hperm, hsorted.imp fun {i j} hij => (breakTies_le_iff h rank i j).1 hij⟩

/-- Breaking ties does not change a run that met none. -/
theorem run_breakTies (A : Algorithm) (rank : Fin l.length → Int) {out : List (Fin l.length)}
    (hrun : (A.prog l.length).run (fun i j => cmp (l.get i) (l.get j)) = some out) :
    (A.prog l.length).run (fun i j => some (breakTies cmp l rank i j)) = some out :=
  Prog.run_mono (fun i j r _ hr => by simp only [breakTies, hr, Option.getD_some]) hrun

/-- **A list that is sorted without a raise has no tie.** -/
theorem nodup_of_sort (A : Algorithm) (h : RaisesOnTies cmp key l) {sorted : List α}
    (hs : A.sort cmp l = some sorted) : (l.map key).Nodup := by
  obtain ⟨out, hrun, -⟩ := Option.map_eq_some_iff.1 hs
  -- the same arrangement is sorted for ties broken upwards and for ties broken downwards
  obtain ⟨up, hup, hperm, hsup⟩ := exists_run_breakTies A h fun i => (i : Int)
  obtain ⟨down, hdown, -, hsdown⟩ := exists_run_breakTies A h fun i => -(i : Int)
  rw [run_breakTies A _ hrun] at hup hdown
  cases hup
  cases hdown
  have hties : out.Pairwise fun i j => key (l.get i) = key (l.get j) → i = j := by
    refine (hsup.and hsdown).imp ?_
    rintro i j ⟨h₁, h₂⟩ hk
    rw [Prod.Lex.toLex_le_toLex] at h₁ h₂
    simp only [hk, lt_irrefl, false_or, true_and] at h₁ h₂
    exact Fin.ext (by omega)
  have hsymm : Std.Symm fun i j : Fin l.length => key (l.get i) = key (l.get j) → i = j :=
    ⟨fun i j hij hk => (hij hk.symm).symm⟩
  have hinj : Function.Injective fun i => key (l.get i) := by
    intro i j hk
    by_contra hne
    have hmem : ∀ k, k ∈ out := fun k => hperm.mem_iff.2 (List.mem_finRange k)
    exact hne (hties.forall (hmem i) (hmem j) hne hk)
  rw [← List.ofFn_get l, List.map_ofFn]
  exact List.nodup_ofFn.2 hinj

/-- **A list without a tie is sorted.** -/
theorem sort_of_nodup (A : Algorithm) (h : RaisesOnTies cmp key l) (hl : (l.map key).Nodup) :
    ∃ sorted, A.sort cmp l = some sorted ∧ sorted.Perm l ∧
      sorted.Pairwise fun a b => key a ≤ key b := by
  obtain ⟨out, hrun, hperm, hsorted⟩ := exists_run_breakTies A h fun _ => 0
  have hinj : Function.Injective fun i => key (l.get i) := by
    rw [← List.nodup_ofFn]
    rwa [← List.ofFn_get l, List.map_ofFn] at hl
  have hrun' : (A.prog l.length).run (fun i j => cmp (l.get i) (l.get j)) = some out := by
    refine Prog.run_mono (fun i j r hij hr => ?_) hrun
    have hne : key (l.get i) ≠ key (l.get j) := fun hk => hij (hinj hk)
    rcases lt_or_gt_of_ne hne with hk | hk
    · obtain ⟨r', hr', -⟩ := h.lt _ (l.get_mem i) _ (l.get_mem j) hk
      simp_all [breakTies]
    · obtain ⟨r', hr', -⟩ := h.gt _ (l.get_mem i) _ (l.get_mem j) hk
      simp_all [breakTies]
  refine ⟨out.map l.get, by rw [Algorithm.sort, hrun', Option.map_some], ?_, ?_⟩
  · have := hperm.map l.get
    rwa [← List.ofFn_eq_map, List.ofFn_get] at this
  · rw [List.pairwise_map]
    refine hsorted.imp fun {i j} hij => ?_
    rw [Prod.Lex.toLex_le_toLex] at hij
    exact hij.elim le_of_lt fun hk => le_of_eq hk.1

end Ties

/-! ## Insertion sort -/

section Insertion

variable {n : Nat}

def orderedInsert (i : Fin n) : List (Fin n) → Prog (Fin n) (List (Fin n))
  | [] => .ret [i]
  | j :: js =>
    if h : i = j then .ret (i :: j :: js)
    else .ask i j h fun r =>
      if r ≤ 0 then .ret (i :: j :: js) else (orderedInsert i js).bind fun l => .ret (j :: l)

def insertAll : List (Fin n) → Prog (Fin n) (List (Fin n))
  | [] => .ret []
  | i :: is => (insertAll is).bind (orderedInsert i)

variable {cmp : Fin n → Fin n → Int}

theorem run_orderedInsert (h : IsOrder cmp) (i : Fin n) :
    ∀ l, (orderedInsert i l).run (fun i j => some (cmp i j)) =
      some (l.orderedInsert (fun i j => cmp i j ≤ 0) i)
  | [] => rfl
  | j :: js => by
    unfold orderedInsert
    split
    · rename_i hij
      have hle : cmp i j ≤ 0 := by
        subst hij
        have := h.swap i i
        omega
      simp [Prog.run, hle]
    · simp only [Prog.run, List.orderedInsert]
      split
      · rfl
      · rw [Prog.run_bind, run_orderedInsert h i js]
        rfl

theorem run_insertAll (h : IsOrder cmp) :
    ∀ l, (insertAll l).run (fun i j => some (cmp i j)) =
      some (l.insertionSort fun i j => cmp i j ≤ 0)
  | [] => rfl
  | i :: is => by
    rw [insertAll, Prog.run_bind, run_insertAll h is]
    exact run_orderedInsert h i _

/-- Insertion sort is a comparison sort. -/
def insertionSort : Algorithm where
  prog n := insertAll (List.finRange n)
  sorts n cmp h := by
    have : Std.Total fun i j => cmp i j ≤ 0 := ⟨fun i j => by have := h.swap j i; omega⟩
    have : IsTrans (Fin n) fun i j => cmp i j ≤ 0 := ⟨h.trans⟩
    exact ⟨_, run_insertAll h _, List.perm_insertionSort _ _, List.pairwise_insertionSort _ _⟩

end Insertion

end ComparisonSort
