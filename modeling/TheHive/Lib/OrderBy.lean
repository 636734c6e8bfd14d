import Mathlib.Data.List.Sort

/-!
# Listings ordered by a key

A query that orders its elements by a key, the largest first.

* `descending` — the listing; `mem_descending` — it lists what it is given;
  `pairwise_lt_descending` — strictly, where the keys differ.
* `pair_sublist` — two elements of a list come in one order or the other.
* `sublist_descending_iff` — **of two elements with different keys, the one with the larger key is
  listed first**.
-/

set_option autoImplicit false

namespace OrderBy

variable {α β : Type*} [LinearOrder β] {key : α → β} {l : List α} {p q : α}

/-- The elements of `l` by descending keys. -/
def descending (key : α → β) (l : List α) : List α := l.insertionSort fun a b => key b ≤ key a

theorem perm_descending : (descending key l).Perm l := List.perm_insertionSort _ l

theorem mem_descending : p ∈ descending key l ↔ p ∈ l := perm_descending.mem_iff

theorem pairwise_descending : (descending key l).Pairwise fun a b => key b ≤ key a := by
  have : Std.Total fun a b : α => key b ≤ key a := ⟨fun a b => le_total (key b) (key a)⟩
  have : IsTrans α fun a b => key b ≤ key a := ⟨fun a b c hab hbc => le_trans hbc hab⟩
  exact List.pairwise_insertionSort _ l

/-- Different keys descend strictly. -/
theorem pairwise_lt_descending (h : (l.map key).Nodup) :
    (descending key l).Pairwise fun a b => key b < key a := by
  have hne : (descending key l).Pairwise fun a b => key a ≠ key b :=
    List.pairwise_map.1 ((perm_descending.map key).nodup_iff.2 h)
  refine (pairwise_descending.and hne).imp ?_
  rintro a b ⟨hle, hab⟩
  exact lt_of_le_of_ne hle (Ne.symm hab)

/-- Two elements of a list come in one order or the other. -/
theorem pair_sublist (hp : p ∈ l) (hq : q ∈ l) (hne : p ≠ q) :
    [q, p].Sublist l ∨ [p, q].Sublist l := by
  obtain ⟨l₁, l₂, rfl⟩ := List.append_of_mem hp
  rcases List.mem_append.1 hq with hq | hq
  · left
    exact (List.singleton_sublist.2 hq).append (List.singleton_sublist.2 List.mem_cons_self)
  · right
    rcases List.mem_cons.1 hq with rfl | hq
    · exact absurd rfl hne
    · exact ((List.singleton_sublist.2 hq).cons_cons p).trans (List.sublist_append_right l₁ _)

/-- **The larger key is listed first.** -/
theorem sublist_descending_iff (hp : p ∈ l) (hq : q ∈ l) (hne : key p ≠ key q) :
    [q, p].Sublist (descending key l) ↔ key p < key q := by
  -- what is listed first has the larger key
  have hle : ∀ a b : α, [a, b].Sublist (descending key l) → key b ≤ key a := by
    intro a b hsub
    simpa using pairwise_descending.sublist hsub
  constructor
  · exact fun hsub => lt_of_le_of_ne (hle q p hsub) hne
  · intro hlt
    have hpq : p ≠ q := fun heq => hne (congrArg key heq)
    have hmem : ∀ r ∈ l, r ∈ descending key l := fun r hr => mem_descending.2 hr
    rcases pair_sublist (hmem p hp) (hmem q hq) hpq with hsub | hsub
    · exact hsub
    · exact absurd (hle p q hsub) (not_le.2 hlt)

end OrderBy
