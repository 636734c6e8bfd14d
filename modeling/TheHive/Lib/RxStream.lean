import Mathlib.Data.List.Basic

/-!
# Streams with latest values

A system receives deliveries one after the other.  A stream says which event it has, if any, at
the latest delivery of a history; the empty history is the moment of subscription.  Histories list
the deliveries with the latest one first.

* `source`, `value`, `map`, `handleError`, `combineLatestList`, `combineLatest2` — the streams and
  operators.  A combination emits what its inputs emitted last, at every data event of an input
  once all have emitted; errors pass through it.
* `latest` — the last data of a stream; `lastEvent` — its last event.
* `latest_source`, `latest_map`, `latest_handleError`, `latest_combineLatestList` — **the last data
  of each operator, from the last data of its inputs**; `data_combineLatestList`,
  `combineLatest2_of_data` — what a combination emits now.
-/

set_option autoImplicit false

namespace RxStream

inductive Event (α : Type*) where
  | data (a : α)
  | error
  deriving DecidableEq

namespace Event

variable {α β : Type*}

def map (f : α → β) : Event α → Event β
  | data a => data (f a)
  | error => error

def toOption : Event α → Option α
  | data a => some a
  | error => none

end Event

/-- What a stream has at the latest delivery of a history. -/
abbrev EventStream (ι α : Type*) := List ι → Option (Event α)

variable {ι α β γ : Type*}

namespace EventStream

/-- The data of a stream at the latest delivery. -/
def data (s : EventStream ι α) (h : List ι) : Option α := (s h).bind Event.toOption

/-- The last data of a stream. -/
def latest (s : EventStream ι α) : List ι → Option α
  | [] => s.data []
  | d :: h => (s.data (d :: h)).or (latest s h)

/-- The last event of a stream. -/
def lastEvent (s : EventStream ι α) : List ι → Option (Event α)
  | [] => s []
  | d :: h => (s (d :: h)).or (lastEvent s h)

/-- The events that deliveries are for. -/
def source (sel : ι → Option (Event α)) : EventStream ι α
  | [] => none
  | d :: _ => sel d

/-- `Stream.value`: one event, before any delivery. -/
def value (a : α) : EventStream ι α
  | [] => some (.data a)
  | _ :: _ => none

def map (f : α → β) (s : EventStream ι α) : EventStream ι β := fun h => (s h).map (Event.map f)

/-- The error events are taken out; what the callback returns is not used. -/
def handleError (s : EventStream ι α) : EventStream ι α := fun h => (s.data h).map .data

/-- The latest data of all inputs, at a data event of one of them; an error passes through. -/
def combineLatestList (ss : List (EventStream ι α)) : EventStream ι (List α) := fun h =>
  if ss.any fun s => (s.data h).isSome then (ss.mapM fun s : EventStream ι α => s.latest h).map .data
  else if ss.any fun s => (s h).isSome then some .error
  else none

/-- The same for two inputs. -/
def combineLatest2 (f : α → β → γ) (s : EventStream ι α) (t : EventStream ι β) : EventStream ι γ := fun h =>
  if (s.data h).isSome || (t.data h).isSome then
    (s.latest h).bind fun a => (t.latest h).map fun b => .data (f a b)
  else if (s h).isSome || (t h).isSome then some .error
  else none

/-! ## The last data of each operator -/

variable {s : EventStream ι α} {h : List ι} {d : ι}

theorem latest_cons_of_no_data (hnone : s.data (d :: h) = none) : s.latest (d :: h) = s.latest h := by
  rw [latest, hnone, Option.none_or]

/-- The data that were there stay there. -/
theorem latest_isSome_cons (d : ι) (hs : (s.latest h).isSome) : (s.latest (d :: h)).isSome := by
  rw [latest, Option.isSome_or, hs, Bool.or_true]

/-- **The last data of a source** are those of the last delivery for it. -/
theorem latest_source (sel : ι → Option (Event α)) (h : List ι) :
    (source sel).latest h = h.findSome? fun d => (sel d).bind Event.toOption := by
  induction h with
  | nil => rfl
  | cons d h ih =>
    rw [latest, ih, List.findSome?_cons]
    show ((sel d).bind Event.toOption).or _ = _
    cases (sel d).bind Event.toOption <;> rfl

theorem latest_value (a : α) (h : List ι) : (value a : EventStream ι α).latest h = some a := by
  induction h with
  | nil => rfl
  | cons d h ih => rw [latest_cons_of_no_data rfl, ih]

theorem data_map (f : α → β) (s : EventStream ι α) (h : List ι) : (s.map f).data h = (s.data h).map f := by
  unfold data map
  cases s h with
  | none => rfl
  | some e => cases e <;> rfl

theorem latest_map (f : α → β) (s : EventStream ι α) (h : List ι) :
    (s.map f).latest h = (s.latest h).map f := by
  induction h with
  | nil => exact data_map f s []
  | cons d h ih =>
    rw [latest, latest, ih, data_map]
    cases s.data (d :: h) <;> rfl

/-- What is left of a stream without its errors. -/
theorem handleError_eq_none {s : EventStream ι α} (hdata : s.data h = none) : s.handleError h = none := by
  rw [handleError, hdata]
  rfl

theorem data_handleError (s : EventStream ι α) (h : List ι) : s.handleError.data h = s.data h := by
  show ((s.data h).map Event.data).bind Event.toOption = s.data h
  cases s.data h <;> rfl

theorem latest_handleError (s : EventStream ι α) (h : List ι) : s.handleError.latest h = s.latest h := by
  induction h with
  | nil => exact data_handleError s []
  | cons d h ih => rw [latest, latest, ih, data_handleError]

/-! ## Combinations -/

/-- All of a list of values are there exactly when each is. -/
theorem isSome_mapM (f : α → Option β) (l : List α) : (l.mapM f).isSome ↔ ∀ a ∈ l, (f a).isSome := by
  induction l with
  | nil => simp
  | cons a l ih =>
    rw [List.forall_mem_cons, ← ih, List.mapM_cons]
    cases f a with
    | none => simp
    | some b => cases l.mapM f <;> simp

theorem mapM_congr_mem {f g : α → Option β} {l : List α} (hfg : ∀ a ∈ l, f a = g a) :
    l.mapM f = l.mapM g := by
  induction l with
  | nil => rfl
  | cons a l ih =>
    rw [List.mapM_cons, List.mapM_cons, hfg a List.mem_cons_self,
      ih fun b hb => hfg b (List.mem_cons_of_mem a hb)]

variable {ss : List (EventStream ι α)}

/-- The data of a combination: the latest of all inputs, at a data event of one. -/
theorem data_combineLatestList (ss : List (EventStream ι α)) (h : List ι) :
    (combineLatestList ss).data h =
      if ∃ s ∈ ss, (s.data h).isSome then ss.mapM fun s : EventStream ι α => s.latest h else none := by
  unfold combineLatestList
  show Option.bind (ite _ _ _) Event.toOption = _
  by_cases hdata : ∃ s ∈ ss, (s.data h).isSome
  · rw [if_pos (List.any_eq_true.2 hdata), if_pos hdata]
    cases ss.mapM fun s : EventStream ι α => s.latest h <;> rfl
  · rw [if_neg fun hany => hdata (List.any_eq_true.1 hany), if_neg hdata]
    split <;> rfl

/-- **The last data of a combination** of some inputs are the last data of all of them. -/
theorem latest_combineLatestList (hne : ss ≠ []) (h : List ι) :
    (combineLatestList ss).latest h = ss.mapM fun s : EventStream ι α => s.latest h := by
  induction h with
  | nil =>
    show (combineLatestList ss).data [] = _
    rw [data_combineLatestList]
    split
    · rfl
    · rename_i hnone
      obtain ⟨s, hs⟩ := List.exists_mem_of_ne_nil ss hne
      symm
      rw [← Option.not_isSome_iff_eq_none, isSome_mapM]
      intro hall
      exact hnone ⟨s, hs, hall s hs⟩
  | cons d h ih =>
    rw [latest, ih, data_combineLatestList]
    by_cases hdata : ∃ s ∈ ss, (s.data (d :: h)).isSome
    · rw [if_pos hdata]
      cases hnow : ss.mapM fun s : EventStream ι α => s.latest (d :: h) with
      | some l => rfl
      | none =>
        -- what is missing now was missing before
        rw [Option.none_or, ← Option.not_isSome_iff_eq_none, isSome_mapM]
        intro hall
        have hthen : (ss.mapM fun s : EventStream ι α => s.latest (d :: h)).isSome :=
          (isSome_mapM _ _).2 fun s hs => latest_isSome_cons d (hall s hs)
        rw [hnow] at hthen
        cases hthen
    · rw [if_neg hdata, Option.none_or]
      refine mapM_congr_mem fun s hs => (latest_cons_of_no_data ?_).symm
      rw [← Option.not_isSome_iff_eq_none]
      exact fun hsome => hdata ⟨s, hs, hsome⟩

/-- A combination of two streams, at a data event of one. -/
theorem combineLatest2_of_data (f : α → β → γ) {s : EventStream ι α} {t : EventStream ι β} {h : List ι}
    (hdata : (s.data h).isSome ∨ (t.data h).isSome) :
    combineLatest2 f s t h = ((s.latest h).bind fun a => (t.latest h).map (f a)).map .data := by
  have hany : ((s.data h).isSome || (t.data h).isSome) = true := Bool.or_eq_true_iff.2 hdata
  rw [combineLatest2, if_pos hany]
  cases s.latest h with
  | none => rfl
  | some a => cases t.latest h <;> rfl

/-- While neither input has an event, there is none. -/
theorem combineLatest2_of_none (f : α → β → γ) {s : EventStream ι α} {t : EventStream ι β} {h : List ι}
    (hs : s h = none) (ht : t h = none) : combineLatest2 f s t h = none := by
  simp [combineLatest2, data, hs, ht]

end EventStream

end RxStream
