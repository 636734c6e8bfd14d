import Mathlib.Logic.Function.Basic
import TheHive.Lib.DocStore

/-!
# Typed contents of a document store

A schema says where each typed reference is stored and how the document there is read; the typed
contents of a store are what can be read.

* `Schema`, `view` — the contents of a store; a document that is not in the schema is not seen.
* `Sound` — every document of the schema can be read, but for the litter the schema allows.
* `Op` — what a write does to the contents; `Denotes` — the writes that do it.
* `Denotes.view_settle`, `Denotes.sound_settle` — **a write acts on the contents as the operation
  it denotes**, and keeps the store sound.
* `view_commit` — so do writes in a row; `foldl_run_congr` — each reference for itself.
-/

set_option autoImplicit false

namespace TypedStore

open DocStore

variable {ρ φ ν : Type*} {κ : ρ → Type*}

/-- The typed documents of a store: references, and a content type for each. -/
structure Schema (ρ : Type*) (κ : ρ → Type*) (φ ν : Type*) where
  path : ρ → Path
  path_injective : Function.Injective path
  read : ∀ r, Doc φ ν → Option (κ r)
  /-- Unreadable documents that may be stored at a reference all the same. -/
  litter : ρ → Doc φ ν → Prop

/-- The content of each reference. -/
abbrev Contents (κ : ρ → Type*) := ∀ r, Option (κ r)

variable (S : Schema ρ κ φ ν)

/-- **The contents of a store.** -/
def Schema.view (db : Db φ ν) : Contents κ := fun r => (db.lookup (S.path r)).bind (S.read r)

/-- Every document of the schema can be read, but for the litter. -/
def Schema.Sound (db : Db φ ν) : Prop :=
  ∀ r d, db.lookup (S.path r) = some d → (S.read r d).isSome ∨ S.read r d = none ∧ S.litter r d

/-- What a write does to the contents. -/
inductive Op (κ : ρ → Type*) where
  | put (r : ρ) (c : κ r)
  /-- On a reference that has a content. -/
  | modify (r : ρ) (f : κ r → κ r)
  /-- On the content, or on `c` where there is none. -/
  | merge (r : ρ) (c : κ r) (f : κ r → κ r)
  | remove (r : ρ)
  /-- Outside the schema. -/
  | elsewhere

def Op.run [DecidableEq ρ] : Op κ → Contents κ → Contents κ
  | .put r c, m => Function.update m r (some c)
  | .modify r f, m => Function.update m r ((m r).map f)
  | .merge r c f, m => Function.update m r (some (f ((m r).getD c)))
  | .remove r, m => Function.update m r none
  | .elsewhere, m => m

/-- The write does to the store what the operation does to the contents. -/
inductive Denotes : Write φ ν → Op κ → Prop where
  | put (r : ρ) (c : κ r) {d : Doc φ ν} (h : S.read r d = some c) :
      Denotes (.set (S.path r) d) (.put r c)
  | litter (r : ρ) {d : Doc φ ν} (h : S.read r d = none) (hd : S.litter r d) :
      Denotes (.set (S.path r) d) (.remove r)
  | modify (r : ρ) (f : κ r → κ r) {d : Doc φ ν} (hfirm : ∀ e, ¬ S.litter r e)
      (h : ∀ e c, S.read r e = some c → S.read r (e.overwrite d) = some (f c)) :
      Denotes (.update (S.path r) d) (.modify r f)
  | merge (r : ρ) (c : κ r) (f : κ r → κ r) {d : Doc φ ν} (hfirm : ∀ e, ¬ S.litter r e)
      (hempty : S.read r (fun _ => none) = some c)
      (h : ∀ e c, S.read r e = some c → S.read r (e.overwrite d) = some (f c)) :
      Denotes (.setMerge (S.path r) d) (.merge r c f)
  | remove (r : ρ) : Denotes (.delete (S.path r)) (.remove r)
  | elsewhere {w : Write φ ν} (h : ∀ r, w.path ≠ S.path r) : Denotes w .elsewhere

variable {S} {db db' : Db φ ν} {w : Write φ ν} {op : Op κ}

theorem view_of_lookup {r : ρ} {d : Doc φ ν} (h : db.lookup (S.path r) = some d) :
    S.view db r = S.read r d := by
  rw [Schema.view, h, Option.bind_some]

/-- The content of a document that has just been written. -/
theorem view_insert {r : ρ} {d : Doc φ ν} : S.view (db.insert (S.path r) d) r = S.read r d :=
  view_of_lookup (AList.lookup_insert _)

theorem view_of_not_stored {r : ρ} (h : db.lookup (S.path r) = none) : S.view db r = none := by
  rw [Schema.view, h, Option.bind_none]

theorem view_congr {r : ρ} (h : db'.lookup (S.path r) = db.lookup (S.path r)) :
    S.view db' r = S.view db r := by
  rw [Schema.view, Schema.view, h]

theorem view_eq_some_iff {r : ρ} {c : κ r} :
    S.view db r = some c ↔ ∃ d, db.lookup (S.path r) = some d ∧ S.read r d = some c := by
  rw [Schema.view, Option.bind_eq_some_iff]

/-- A document at a reference without litter can be read. -/
theorem Schema.Sound.read (hdb : S.Sound db) {r : ρ} {d : Doc φ ν} (hfirm : ∀ e, ¬ S.litter r e)
    (hd : db.lookup (S.path r) = some d) : ∃ c, S.read r d = some c := by
  rcases hdb r d hd with h | ⟨-, h⟩
  · exact Option.isSome_iff_exists.1 h
  · exact absurd h (hfirm d)

/-- Other references are at other paths. -/
theorem path_ne {r q : ρ} (h : q ≠ r) : S.path q ≠ S.path r := fun heq => h (S.path_injective heq)

/-- A write at a reference changes the contents there only. -/
theorem view_settle_ne {r q : ρ} (hw : w.path = S.path r) (hq : q ≠ r) :
    S.view (w.settle db) q = S.view db q :=
  view_congr (Write.settle_frame (by rw [hw]; exact path_ne hq))

theorem view_settle_eq [DecidableEq ρ] {r : ρ} {o : Option (κ r)} (hw : w.path = S.path r)
    (hr : S.view (w.settle db) r = o) : S.view (w.settle db) = Function.update (S.view db) r o := by
  funext q
  by_cases hq : q = r
  · subst hq
    rw [Function.update_self, hr]
  · rw [Function.update_of_ne hq, view_settle_ne hw hq]

/-- **A write acts on the contents as the operation it denotes.** -/
theorem Denotes.view_settle [DecidableEq ρ] (h : Denotes S w op) (hdb : S.Sound db) :
    S.view (w.settle db) = op.run (S.view db) := by
  cases h with
  | put r c h => exact view_settle_eq rfl (view_insert.trans h)
  | litter r h hd => exact view_settle_eq rfl (view_insert.trans h)
  | modify r f hfirm h =>
    refine view_settle_eq rfl ?_
    cases hold : db.lookup (S.path r) with
    | none =>
      rw [view_of_not_stored hold, Write.settle, Write.apply, hold]
      exact view_of_not_stored hold
    | some e =>
      obtain ⟨c, hc⟩ := hdb.read hfirm hold
      rw [view_of_lookup hold, hc, Write.settle, Write.apply_update hold]
      exact view_insert.trans (h e c hc)
  | merge r c f hfirm hempty h =>
    refine view_settle_eq rfl (view_insert.trans ?_)
    cases hold : db.lookup (S.path r) with
    | none =>
      rw [view_of_not_stored hold]
      exact h _ _ hempty
    | some e =>
      obtain ⟨c', hc'⟩ := hdb.read hfirm hold
      rw [view_of_lookup hold, hc']
      exact h e c' hc'
  | remove r =>
    refine view_settle_eq rfl ?_
    exact view_of_not_stored (AList.lookup_erase _ _)
  | elsewhere h =>
    funext r
    exact view_congr (Write.settle_frame (Ne.symm (h r)))

/-- A write at a reference keeps the store sound if what it leaves there is. -/
theorem sound_settle_at {r : ρ} (hdb : S.Sound db) (hw : w.path = S.path r)
    (hr : ∀ d, (w.settle db).lookup (S.path r) = some d →
      (S.read r d).isSome ∨ S.read r d = none ∧ S.litter r d) : S.Sound (w.settle db) := by
  intro q d hd
  by_cases hq : q = r
  · subst hq
    exact hr d hd
  · rw [Write.settle_frame (by rw [hw]; exact path_ne hq)] at hd
    exact hdb q d hd

/-- A document that has just been written. -/
theorem eq_of_lookup_insert {p : Path} {d e : Doc φ ν} (h : (db.insert p d).lookup p = some e) :
    e = d := by
  rw [AList.lookup_insert] at h
  exact (Option.some.inj h).symm

/-- **A write that denotes an operation keeps the store sound.** -/
theorem Denotes.sound_settle (h : Denotes S w op) (hdb : S.Sound db) : S.Sound (w.settle db) := by
  cases h with
  | put r c h =>
    refine sound_settle_at hdb rfl fun d hd => .inl ?_
    rw [eq_of_lookup_insert hd, h]
    rfl
  | litter r h hlitter =>
    refine sound_settle_at hdb rfl fun d hd => .inr ?_
    rw [eq_of_lookup_insert hd]
    exact ⟨h, hlitter⟩
  | modify r f hfirm h =>
    refine sound_settle_at hdb rfl fun d hd => .inl ?_
    cases hold : db.lookup (S.path r) with
    | none =>
      rw [Write.settle, Write.apply, hold] at hd
      exact absurd (hold.symm.trans hd) (by simp)
    | some e =>
      obtain ⟨c, hc⟩ := hdb.read hfirm hold
      rw [Write.settle, Write.apply_update hold] at hd
      rw [eq_of_lookup_insert hd, h e c hc]
      rfl
  | merge r c f hfirm hempty h =>
    refine sound_settle_at hdb rfl fun d hd => .inl ?_
    rw [eq_of_lookup_insert hd]
    cases hold : db.lookup (S.path r) with
    | none => exact Option.isSome_of_mem (h _ _ hempty)
    | some e =>
      obtain ⟨c', hc'⟩ := hdb.read hfirm hold
      exact Option.isSome_of_mem (h e c' hc')
  | remove r =>
    refine sound_settle_at hdb rfl fun d hd => ?_
    exact absurd ((AList.lookup_erase (S.path r) db).symm.trans hd) (by simp)
  | elsewhere h =>
    intro r d hd
    rw [Write.settle_frame (Ne.symm (h r))] at hd
    exact hdb r d hd

/-! ## Writes in a row -/

/-- **Writes that denote operations act on the contents as these, one after the other.** -/
theorem view_commit [DecidableEq ρ] {ws : List (Write φ ν)} {ops : List (Op κ)}
    (h : List.Forall₂ (Denotes S) ws ops) (hdb : S.Sound db) :
    S.view (commit ws db) = ops.foldl (fun m op => op.run m) (S.view db) := by
  induction h generalizing db with
  | nil => rfl
  | cons hw _ ih => rw [commit_cons, ih (hw.sound_settle hdb), List.foldl_cons, hw.view_settle hdb]

/-- What an operation leaves at a reference depends on what was there. -/
theorem Op.run_congr [DecidableEq ρ] {m m' : Contents κ} {r : ρ} (h : m' r = m r) (op : Op κ) :
    op.run m' r = op.run m r := by
  cases op with
  | elsewhere => exact h
  | put q | modify q | merge q | remove q =>
    simp only [Op.run]
    by_cases hq : r = q
    · subst hq
      simp only [Function.update_self, h]
    · rw [Function.update_of_ne hq, Function.update_of_ne hq, h]

theorem foldl_run_congr [DecidableEq ρ] {m m' : Contents κ} {r : ρ} (h : m' r = m r)
    (ops : List (Op κ)) :
    ops.foldl (fun m op => op.run m) m' r = ops.foldl (fun m op => op.run m) m r := by
  induction ops generalizing m m' with
  | nil => exact h
  | cons op ops ih => exact ih (op.run_congr h)

end TypedStore
