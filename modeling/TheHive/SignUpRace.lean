import TheHive.Lib.StaleRegister
import TheHive.SeatAccounting

/-!
# Concurrent sign-ups for one event

`k` users on `k` devices.  A device receives snapshots of the event, late and in any order, and
builds its tile from the one it received last; the user taps once, while the tile shows a
positive count; the writes of a tap arrive at the store in any order.

* `signUpStep` — the three kinds of steps.  `versions` are the documents the event has had,
  oldest first; a snapshot is one of them.
* `signUpRefinement` — the race refines a register updated through stale copies: the shown
  count is the copy, `numberOfPeople - 1` the update; arrivals of entries stutter.
* `signUps_counted_iff` — once all taps are made and no update is under way, the stored count is
  `n - k` exactly when every update was computed from the version still stored on its arrival.
* `two_signUps_one_counted` — two users who both see two seats leave one seat behind.
-/

set_option autoImplicit false

namespace TheHive

open DocStore Transition

variable {k : Nat}

structure SignUpState (k : Nat) where
  db : Db
  /-- The documents the event has had, oldest first. -/
  versions : List Doc
  /-- The tile a device shows, with the version it was built from. -/
  tiles : Fin k → Option (Nat × VolunteerEventTile)
  /-- The version of the tile the user tapped. -/
  tapped : Fin k → Option Nat
  /-- The writes of a tap that have not arrived yet. -/
  net : Fin k → List Write

inductive SignUpAction (k : Nat) where
  | deliver (i : Fin k) (v : Nat)
  | tap (i : Fin k)
  | arrive (i : Fin k) (j : Nat)

def SignUpState.start (db : Db) (event : DocId) : SignUpState k :=
  ⟨db, (db.lookup (volunteerPath event)).toList, fun _ => none, fun _ => none, fun _ => []⟩

def signUpStep (intl : Intl) (event : DocId) (users : Fin k → User) (s : SignUpState k) :
    SignUpAction k → Option (SignUpState k)
  | .deliver i v => do
    let d ← s.versions[v]?
    let t ← VolunteerPage.tile intl (some (users i)) d
    return { s with tiles := Function.update s.tiles i (some (v, t)) }
  | .tap i =>
    match s.tapped i, s.tiles i with
    | none, some (v, t) =>
      if 0 < t.numberOfPeople then
        some { s with
          tapped := Function.update s.tapped i (some v)
          net := Function.update s.net i (t.onTap intl) }
      else
        none
    | _, _ => none
  | .arrive i j => do
    let w ← (s.net i)[j]?
    let db := w.settle s.db
    let versions :=
      if w.path = volunteerPath event then
        s.versions ++ (db.lookup (volunteerPath event)).toList
      else
        s.versions
    return { s with db, versions, net := Function.update s.net i ((s.net i).eraseIdx j) }

/-- Everyone has tapped, and no update of the count is under way. -/
def AllSignedUp (event : DocId) (s : SignUpState k) : Prop :=
  ∀ i, (s.tapped i).isSome ∧ ∀ w ∈ s.net i, w.path ≠ volunteerPath event

/-- If the step is the arrival of an update of the count, then the update was computed from the
version that is still stored. -/
def FromNewest (event : DocId) (s : SignUpState k) : SignUpAction k → Prop
  | .arrive i j => ∀ w v, (s.net i)[j]? = some w → w.path = volunteerPath event →
      s.tapped i = some v → v + 1 = s.versions.length
  | _ => True

/-! ## The race as a stale register -/

/-- The count in a document of the event. -/
def seats (d : Doc) : Int := (Doc.int d .numberOfPeople).getD 0

theorem seats_doc (e : VolunteerEvent) (c : Int) : seats (e.withCount c).doc = c := rfl

/-- The count a write sends, if it updates the event. -/
def sentCount (event : DocId) (w : Write) : Option Int :=
  match w with
  | .update p d => if p = volunteerPath event then Doc.int d .numberOfPeople else none
  | _ => none

@[simp] theorem sentCount_countUpdate (event : DocId) (c : Int) :
    sentCount event (countUpdate event c) = some (c - 1) := by
  show (if volunteerPath event = volunteerPath event then some (c - 1) else none) = some (c - 1)
  rw [if_pos rfl]

@[simp] theorem sentCount_set (event : DocId) (p : Path) (d : Doc) :
    sentCount event (.set p d) = none := rfl

/-- The count a tap sends for the count it sees. -/
def takeSeat (c : Int) : Int := c - 1

theorem iterate_takeSeat (n : Int) (d : Nat) : takeSeat^[d] n = n - d := by
  induction d with
  | zero => simp
  | succ d ih =>
    rw [Function.iterate_succ_apply', ih, takeSeat]
    omega

/-- What of a tap's two writes is still under way. -/
inductive UnderWay (event : DocId) (u : User) : List Write → Prop where
  | both (d : Doc) (c : Int) : UnderWay event u [.set (entryPath u event) d, countUpdate event c]
  | entry (d : Doc) : UnderWay event u [.set (entryPath u event) d]
  | update (c : Int) : UnderWay event u [countUpdate event c]
  | done : UnderWay event u []

/-- What the arrival of one of the writes under way is: the entry, or the update. -/
theorem UnderWay.arrive {event : DocId} {u : User} {ws : List Write} (h : UnderWay event u ws)
    {j : Nat} {w : Write} (hw : ws[j]? = some w) :
    UnderWay event u (ws.eraseIdx j) ∧
      ((∃ d, w = .set (entryPath u event) d ∧
          (ws.eraseIdx j).findSome? (sentCount event) = ws.findSome? (sentCount event)) ∨
        ∃ c, w = countUpdate event c ∧ ws.findSome? (sentCount event) = some (c - 1) ∧
          (ws.eraseIdx j).findSome? (sentCount event) = none) := by
  have hj : j < ws.length := (List.getElem?_eq_some_iff.1 hw).1
  cases h with
  | both d c =>
    rcases (show j = 0 ∨ j = 1 by simp at hj; omega) with rfl | rfl
    · cases hw
      exact ⟨.update c, .inl ⟨d, rfl, by simp [List.findSome?_cons]⟩⟩
    · cases hw
      exact ⟨.entry d, .inr ⟨c, rfl, by simp [List.findSome?_cons], by simp⟩⟩
  | entry d =>
    obtain rfl : j = 0 := by simpa using hj
    cases hw
    exact ⟨.done, .inl ⟨d, rfl, by simp⟩⟩
  | update c =>
    obtain rfl : j = 0 := by simpa using hj
    cases hw
    exact ⟨.done, .inr ⟨c, rfl, by simp, by simp⟩⟩
  | done => simp at hj

theorem UnderWay.findSome?_eq_none {event : DocId} {u : User} {ws : List Write}
    (h : UnderWay event u ws) (hws : ∀ w ∈ ws, w.path ≠ volunteerPath event) :
    ws.findSome? (sentCount event) = none := by
  cases h with
  | both d c => exact absurd rfl (hws (countUpdate event c) (by simp))
  | entry d => simp
  | update c => exact absurd rfl (hws (countUpdate event c) (by simp))
  | done => rfl

theorem UnderWay.update_net {event : DocId} {users : Fin k → User} {net : Fin k → List Write}
    (h : ∀ i, UnderWay event (users i) (net i)) {i : Fin k} {ws : List Write}
    (hws : UnderWay event (users i) ws) (i' : Fin k) :
    UnderWay event (users i') (Function.update net i ws i') := by
  revert i'
  rw [Function.forall_update_iff net (p := fun i' ws => UnderWay event (users i') ws)]
  exact ⟨hws, fun i' _ => h i'⟩

theorem findSome?_update (event : DocId) (net : Fin k → List Write) (i : Fin k) (ws : List Write) :
    (fun i' => (Function.update net i ws i').findSome? (sentCount event)) =
      Function.update (fun i' => (net i').findSome? (sentCount event)) i
        (ws.findSome? (sentCount event)) :=
  Function.comp_update (List.findSome? (sentCount event)) net i ws

/-- The store holds the newest version, every version is the event with some count, and every
tile shows the version it was built from. -/
structure RaceInv (intl : Intl) (event : DocId) (e : VolunteerEvent) (users : Fin k → User)
    (s : SignUpState k) : Prop where
  stored : s.db.lookup (volunteerPath event) = s.versions.getLast?
  ne_nil : s.versions ≠ []
  versions : ∀ d ∈ s.versions, ∃ c, d = (e.withCount c).doc
  tiles : ∀ i v t, s.tiles i = some (v, t) → ∃ c, s.versions[v]? = some (e.withCount c).doc ∧
    VolunteerPage.tile intl (some (users i)) (e.withCount c).doc = some t
  net : ∀ i, UnderWay event (users i) (s.net i)

/-- The register behind a state of the race. -/
def SignUpState.register (event : DocId) (s : SignUpState k) :
    StaleRegister.State (Fin k) Int where
  log := s.versions.map seats
  shown i := (s.tiles i).map Prod.fst
  sent := s.tapped
  net i := (s.net i).findSome? (sentCount event)

/-- The step of the register behind a step of the race. -/
def registerAction (event : DocId) (s : SignUpState k) :
    SignUpAction k → Option (StaleRegister.Action (Fin k))
  | .deliver i v => some (.deliver i v)
  | .tap i => some (.submit i)
  | .arrive i j =>
    match (s.net i)[j]? with
    | some w => if w.path = volunteerPath event then some (.arrive i) else none
    | none => none

variable {intl : Intl} {event : DocId} {e : VolunteerEvent} {users : Fin k → User}
  {s t : SignUpState k}

section Steps

theorem deliver_cases (h : RaceInv intl event e users s) {i : Fin k} {v : Nat}
    (ht : signUpStep intl event users s (.deliver i v) = some t) :
    ∃ c tile, s.versions[v]? = some (e.withCount c).doc ∧
      VolunteerPage.tile intl (some (users i)) (e.withCount c).doc = some tile ∧
      t = { s with tiles := Function.update s.tiles i (some (v, tile)) } := by
  simp only [signUpStep, Option.bind_eq_bind, Option.bind_eq_some_iff, Option.pure_def,
    Option.some.injEq] at ht
  obtain ⟨d, hd, tile, htile, heq⟩ := ht
  obtain ⟨c, rfl⟩ := h.versions d (List.mem_of_getElem? hd)
  exact ⟨c, tile, hd, htile, heq.symm⟩

/-- A tap sends the entry and the shown count less one. -/
theorem tap_cases (hintl : intl.Lenient) (he : e.eventName = event.val)
    (h : RaceInv intl event e users s) {i : Fin k}
    (ht : signUpStep intl event users s (.tap i) = some t) :
    ∃ v tile c d, s.tapped i = none ∧ s.tiles i = some (v, tile) ∧
      s.versions[v]? = some (e.withCount c).doc ∧
      t = { s with
            tapped := Function.update s.tapped i (some v)
            net := Function.update s.net i
              [.set (entryPath (users i) event) d, countUpdate event c] } := by
  simp only [signUpStep] at ht
  split at ht
  · rename_i v tile htapped htiles
    obtain ⟨c, hv, htile⟩ := h.tiles i v tile htiles
    obtain ⟨date, hdate⟩ := Option.isSome_iff_exists.1 (hintl (e.withCount c).eventDate)
    have hcount : tile.numberOfPeople = c := by
      rw [tile_doc, Option.some.injEq] at htile
      rw [← htile]
      rfl
    split at ht
    · rename_i hpos
      rw [hcount] at hpos
      rw [onTap_eq htile he hdate, if_pos (show 0 < (e.withCount c).numberOfPeople from hpos)] at ht
      cases ht
      exact ⟨v, tile, c, _, htapped, htiles, hv, rfl⟩
    · cases ht
  · cases ht

/-- An arrival delivers the entry of the user, or adds a version with the count that was
sent. -/
theorem arrive_cases (h : RaceInv intl event e users s) {i : Fin k} {j : Nat}
    (ht : signUpStep intl event users s (.arrive i j) = some t) :
    ∃ w, (s.net i)[j]? = some w ∧
      t.tiles = s.tiles ∧ t.tapped = s.tapped ∧
      t.net = Function.update s.net i ((s.net i).eraseIdx j) ∧
      ((∃ d, w = .set (entryPath (users i) event) d ∧ t.versions = s.versions ∧
          t.db.lookup (volunteerPath event) = s.db.lookup (volunteerPath event)) ∨
        ∃ c, w = countUpdate event c ∧
          t.versions = s.versions ++ [(e.withCount (c - 1)).doc] ∧
          t.db.lookup (volunteerPath event) = some (e.withCount (c - 1)).doc) := by
  obtain ⟨w, hw, ht⟩ := Option.bind_eq_some_iff.1 ht
  cases ht
  refine ⟨w, hw, rfl, rfl, rfl, ?_⟩
  rcases ((h.net i).arrive hw).2 with ⟨d, rfl, -⟩ | ⟨c, rfl, -⟩
  · have hne : (Write.set (entryPath (users i) event) d : Write).path ≠ volunteerPath event :=
      entryPath_ne_volunteerPath _ _ _
    refine .inl ⟨d, rfl, ?_, Write.settle_frame hne.symm⟩
    simp only [if_neg hne]
  · obtain ⟨b, hb⟩ : ∃ b, s.versions.getLast? = some b := by
      cases hlast : s.versions.getLast? with
      | none => exact absurd (List.getLast?_eq_none_iff.1 hlast) h.ne_nil
      | some b => exact ⟨b, rfl⟩
    obtain ⟨c₀, rfl⟩ := h.versions b (List.mem_of_getLast? hb)
    have hsettle : (countUpdate event c).settle s.db =
        s.db.insert (volunteerPath event) (e.withCount (c - 1)).doc := by
      rw [Write.settle, countUpdate, Write.apply_update (by rw [h.stored, hb]), e.doc_overwrite]
      rfl
    have hlookup : ((countUpdate event c).settle s.db).lookup (volunteerPath event) =
        some (e.withCount (c - 1)).doc := by
      rw [hsettle, AList.lookup_insert]
    refine .inr ⟨c, rfl, ?_, hlookup⟩
    show (if (countUpdate event c).path = volunteerPath event then _ else _) = _
    rw [if_pos (show (countUpdate event c).path = volunteerPath event from rfl), hlookup]
    rfl

theorem raceInv_start (he : e.eventName = event.val) (db : Db) :
    RaceInv intl event e users (SignUpState.start (created db e) event) := by
  have hlookup : (created db e).lookup (volunteerPath event) =
      some (e.withCount e.numberOfPeople).doc := by
    rw [created_eq he]
    exact AList.lookup_insert _
  have hversions : (SignUpState.start (created db e) event : SignUpState k).versions =
      [(e.withCount e.numberOfPeople).doc] := by
    show ((created db e).lookup (volunteerPath event)).toList = _
    rw [hlookup]
    rfl
  refine ⟨?_, by simp [hversions], ?_, fun i v t h => (by cases h), fun i => .done⟩
  · rw [hversions]
    exact hlookup
  · intro d hd
    rw [hversions, List.mem_singleton] at hd
    exact ⟨_, hd⟩

theorem raceInv_step (hintl : intl.Lenient) (he : e.eventName = event.val) {a : SignUpAction k}
    (h : RaceInv intl event e users s) (ht : signUpStep intl event users s a = some t) :
    RaceInv intl event e users t := by
  cases a with
  | deliver i v =>
    obtain ⟨c, tile, hv, htile, rfl⟩ := deliver_cases h ht
    refine ⟨h.stored, h.ne_nil, h.versions, fun i' v' t' heq => ?_, h.net⟩
    by_cases hi : i' = i
    · subst hi
      simp only [Function.update_self, Option.some.injEq] at heq
      cases heq
      exact ⟨c, hv, htile⟩
    · simp only [Function.update_of_ne hi] at heq
      exact h.tiles i' v' t' heq
  | tap i =>
    obtain ⟨v, tile, c, d, -, -, -, rfl⟩ := tap_cases hintl he h ht
    exact ⟨h.stored, h.ne_nil, h.versions, h.tiles, UnderWay.update_net h.net (.both d c)⟩
  | arrive i j =>
    obtain ⟨w, hw, htiles, -, hnet, hcases⟩ := arrive_cases h ht
    have hnet' : ∀ i', UnderWay event (users i') (t.net i') := by
      rw [hnet]
      exact UnderWay.update_net h.net ((h.net i).arrive hw).1
    rcases hcases with ⟨d, -, hversions, hdb⟩ | ⟨c, -, hversions, hdb⟩
    · refine ⟨by rw [hdb, hversions, h.stored], by rw [hversions]; exact h.ne_nil,
        by rw [hversions]; exact h.versions, ?_, hnet'⟩
      rw [htiles, hversions]
      exact h.tiles
    · refine ⟨by rw [hdb, hversions, List.getLast?_concat], by simp [hversions], ?_, ?_, hnet'⟩
      · intro d hd
        rw [hversions, List.mem_append, List.mem_singleton] at hd
        rcases hd with hd | rfl
        · exact h.versions d hd
        · exact ⟨_, rfl⟩
      · -- versions are only added, so the tiles still show theirs
        intro i' v' t' heq
        rw [htiles] at heq
        obtain ⟨c', hv', htile'⟩ := h.tiles i' v' t' heq
        have hlt : v' < s.versions.length := (List.getElem?_eq_some_iff.1 hv').1
        exact ⟨c', by rw [hversions, List.getElem?_append_left hlt, hv'], htile'⟩

end Steps

/-! ## The refinement -/

/-- A count that arrives is one that arrives at the register. -/
theorem register_arrive (h : RaceInv intl event e users s) {i : Fin k} {j : Nat} {c : Int}
    (hw : (s.net i)[j]? = some (countUpdate event c)) (htiles : t.tiles = s.tiles)
    (htapped : t.tapped = s.tapped)
    (hnet : t.net = Function.update s.net i ((s.net i).eraseIdx j))
    (hversions : t.versions = s.versions ++ [(e.withCount (c - 1)).doc]) :
    StaleRegister.step takeSeat (s.register event) (.arrive i) = some (t.register event) := by
  rcases ((h.net i).arrive hw).2 with ⟨d, hd, -⟩ | ⟨c', hc', hfind, herase⟩
  · cases hd
  · have hsent : (s.register event).net i = some (c - 1) := by
      have hcount := congrArg (sentCount event) hc'
      simp only [sentCount_countUpdate] at hcount
      rw [hcount]
      exact hfind
    have hlog : t.versions.map seats = s.versions.map seats ++ [c - 1] := by
      rw [hversions, List.map_append]
      rfl
    have hnet' : (fun i' => (t.net i').findSome? (sentCount event)) =
        Function.update (s.register event).net i none := by
      rw [hnet, findSome?_update, herase]
      rfl
    have hreg : t.register event = { s.register event with
        log := (s.register event).log ++ [c - 1]
        net := Function.update (s.register event).net i none } := by
      simp only [SignUpState.register, hlog, htiles, htapped] at hnet' ⊢
      rw [hnet']
    simp only [StaleRegister.step, hsent, Option.map_some, hreg]

theorem register_sim (hintl : intl.Lenient) (he : e.eventName = event.val) {a : SignUpAction k}
    {b : StaleRegister.Action (Fin k)} (h : RaceInv intl event e users s)
    (ht : signUpStep intl event users s a = some t) (hb : registerAction event s a = some b) :
    StaleRegister.step takeSeat (s.register event) b = some (t.register event) := by
  cases a with
  | deliver i v =>
    cases hb
    obtain ⟨c, tile, hv, -, rfl⟩ := deliver_cases h ht
    have hlt : v < (s.register event).log.length := by
      show v < (s.versions.map seats).length
      rw [List.length_map]
      exact (List.getElem?_eq_some_iff.1 hv).1
    have hshown : Function.update (s.register event).shown i (some v) =
        fun i' => (Function.update s.tiles i (some (v, tile)) i').map Prod.fst :=
      (Function.comp_update (Option.map Prod.fst) s.tiles i (some (v, tile))).symm
    simp only [StaleRegister.step, if_pos hlt, hshown]
    rfl
  | tap i =>
    cases hb
    obtain ⟨v, tile, c, d, htapped, htiles, hv, rfl⟩ := tap_cases hintl he h ht
    have hsent : (s.register event).sent i = none := htapped
    have hshown : (s.register event).shown i = some v := by
      show (s.tiles i).map Prod.fst = some v
      rw [htiles]
      rfl
    have hlog : (s.register event).log[v]? = some c := by
      show (s.versions.map seats)[v]? = some c
      rw [List.getElem?_map, hv, Option.map_some, seats_doc]
    have hnet : Function.update (s.register event).net i (some (c - 1)) =
        fun i' => (Function.update s.net i
          [.set (entryPath (users i) event) d, countUpdate event c] i').findSome?
            (sentCount event) := by
      rw [findSome?_update]
      simp [List.findSome?_cons, SignUpState.register]
    simp only [StaleRegister.step, hsent, hshown, hlog, Option.map_some, takeSeat, hnet]
    rfl
  | arrive i j =>
    obtain ⟨w, hw, htiles, htapped, hnet, hcases⟩ := arrive_cases h ht
    simp only [registerAction, hw] at hb
    split at hb
    · rename_i hpath
      cases hb
      rcases hcases with ⟨d, rfl, -, -⟩ | ⟨c, rfl, hversions, -⟩
      · exact absurd hpath (entryPath_ne_volunteerPath _ _ _)
      · exact register_arrive h hw htiles htapped hnet hversions
    · cases hb

theorem register_stutter {a : SignUpAction k} (h : RaceInv intl event e users s)
    (ht : signUpStep intl event users s a = some t) (hb : registerAction event s a = none) :
    t.register event = s.register event := by
  cases a with
  | deliver i v => cases hb
  | tap i => cases hb
  | arrive i j =>
    obtain ⟨w, hw, htiles, htapped, hnet, hcases⟩ := arrive_cases h ht
    simp only [registerAction, hw] at hb
    split at hb
    · cases hb
    · rename_i hpath
      rcases hcases with ⟨d, rfl, hversions, -⟩ | ⟨c, rfl, -, -⟩
      · rcases ((h.net i).arrive hw).2 with ⟨-, -, herase⟩ | ⟨c, hc, -, -⟩
        · have hnet' : (fun i' => (t.net i').findSome? (sentCount event)) =
              fun i' => (s.net i').findSome? (sentCount event) := by
            rw [hnet, findSome?_update, herase]
            exact Function.update_eq_self _ _
          simp only [SignUpState.register, hversions, htiles, htapped, hnet']
        · cases hc
      · exact absurd rfl hpath

/-- **The race refines a register updated through stale copies.** -/
def signUpRefinement (hintl : intl.Lenient) (he : e.eventName = event.val) :
    Refinement (signUpStep intl event users) (StaleRegister.step (ι := Fin k) takeSeat) where
  Inv := RaceInv intl event e users
  abs := SignUpState.register event
  act := registerAction event
  inv_step _ _ _ h ht := raceInv_step hintl he h ht
  sim _ _ _ _ h ht hb := register_sim hintl he h ht hb
  stutter _ _ _ h ht hb := register_stutter h ht hb

/-! ## Lost sign-ups -/

theorem register_start (he : e.eventName = event.val) (db : Db) :
    (SignUpState.start (created db e) event : SignUpState k).register event =
      StaleRegister.State.start e.numberOfPeople := by
  have hlookup : (created db e).lookup (volunteerPath event) = some e.doc := by
    rw [created_eq he, AList.lookup_insert]
  simp only [SignUpState.register, SignUpState.start, hlookup, StaleRegister.State.start]
  rfl

theorem fresh_iff {a : SignUpAction k} :
    (∀ b, registerAction event s a = some b → StaleRegister.Fresh (s.register event) b) ↔
      FromNewest event s a := by
  cases a with
  | deliver i v => simp [registerAction, StaleRegister.Fresh, FromNewest]
  | tap i => simp [registerAction, StaleRegister.Fresh, FromNewest]
  | arrive i j =>
    have hlen : (s.register event).log.length = s.versions.length := List.length_map _
    cases hw : (s.net i)[j]? with
    | none => simp [registerAction, FromNewest, hw]
    | some w =>
      by_cases hpath : w.path = volunteerPath event
      · simp only [registerAction, hw, hpath, if_true, Option.some.injEq, forall_eq',
          StaleRegister.Fresh, hlen, FromNewest]
        constructor
        · intro hfresh w' v hw' _ hv
          exact hfresh v hv
        · intro hnew v hv
          exact hnew w v rfl hpath hv
      · simp only [registerAction, hw, hpath, if_false, reduceCtorEq, false_imp_iff,
          implies_true, FromNewest, Option.some.injEq, true_iff]
        intro w' v hw' hpath'
        subst hw'
        exact absurd hpath' hpath

/-- **No sign-up is lost exactly when** every update was computed from the version that is
still stored when it arrives. -/
theorem signUps_counted_iff (hintl : intl.Lenient) (he : e.eventName = event.val) (db : Db)
    (as : List (SignUpAction k))
    (hdone : AllSignedUp event
      (exec (signUpStep intl event users) (.start (created db e) event) as)) :
    storedCount (exec (signUpStep intl event users) (.start (created db e) event) as).db event =
        some (e.numberOfPeople - k) ↔
      ∀ x ∈ taken (signUpStep intl event users) (.start (created db e) event) as,
        FromNewest event x.1 x.2 := by
  have hstart : RaceInv intl event e users (SignUpState.start (created db e) event) :=
    raceInv_start he db
  have hstep : ∀ u a v, RaceInv intl event e users u → signUpStep intl event users u a = some v →
      RaceInv intl event e users v := fun _ _ _ h ht => raceInv_step hintl he h ht
  have hlast := exec_invariant hstart hstep as
  let R : Refinement (signUpStep intl event users) (StaleRegister.step takeSeat) :=
    signUpRefinement hintl he
  obtain ⟨bs, hexec, hbs⟩ := R.exists_run as (show R.Inv _ from hstart)
  change exec (StaleRegister.step takeSeat) (SignUpState.register event _) bs =
    SignUpState.register event _ at hexec
  change taken (StaleRegister.step takeSeat) (SignUpState.register event _) bs = _ at hbs
  rw [register_start he db] at hexec hbs
  have hcomplete : StaleRegister.Complete
      (exec (StaleRegister.step takeSeat) (StaleRegister.State.start e.numberOfPeople) bs) := by
    rw [hexec]
    intro i
    exact ⟨(hdone i).1, (hlast.net i).findSome?_eq_none (hdone i).2⟩
  have hinj : Function.Injective fun d : Nat => takeSeat^[d] e.numberOfPeople := by
    intro c d hcd
    simp only [iterate_takeSeat] at hcd
    omega
  have hcount : ∀ n : Int,
      storedCount (exec (signUpStep intl event users) (.start (created db e) event) as).db event =
        some n ↔
      (exec (StaleRegister.step takeSeat) (StaleRegister.State.start e.numberOfPeople) bs
        ).log.getLast? = some n := by
    intro n
    rw [hexec]
    show _ ↔ (List.map seats _).getLast? = some n
    rw [List.getLast?_map, storedCount, hlast.stored]
    cases hv : List.getLast? _ with
    | none => simp
    | some d =>
      obtain ⟨c, rfl⟩ := hlast.versions d (List.mem_of_getLast? hv)
      rfl
  have hall := StaleRegister.last_eq_iterate_iff hinj bs hcomplete
  rw [Fintype.card_fin, iterate_takeSeat] at hall
  rw [hcount, hall, hbs]
  constructor
  · intro hfresh x hx
    refine fresh_iff.1 fun b hb => ?_
    exact hfresh (_, b) (List.mem_filterMap.2 ⟨x, hx, by
      show Option.map _ (registerAction event x.1 x.2) = _
      rw [hb]
      rfl⟩)
  · intro hnew y hy
    obtain ⟨x, hx, hxy⟩ := List.mem_filterMap.1 hy
    obtain ⟨b, hb, rfl⟩ := Option.map_eq_some_iff.1 hxy
    exact fresh_iff.2 (hnew x hx) b hb

/-- Ann and Bob, each on a device of their own. -/
def annAndBob : Fin 2 → User
  | 0 => ann
  | 1 => bob

/-- Bob's tile is refreshed after Ann's sign-up has arrived. -/
def oneAfterTheOther : List (SignUpAction 2) :=
  [.deliver 0 0, .tap 0, .arrive 0 1, .deliver 1 1, .tap 1, .arrive 1 1]

/-- Both tap on the tile of the first snapshot. -/
def bothOnFirstSnapshot : List (SignUpAction 2) :=
  [.deliver 0 0, .deliver 1 0, .tap 0, .tap 1, .arrive 0 1, .arrive 1 1]

theorem signUps_counted_iff_oneAfterTheOther :
    storedCount (exec (signUpStep marchThird foodDriveId annAndBob)
        (.start (created ∅ foodDrive) foodDriveId) oneAfterTheOther).db foodDriveId =
        some (2 - 2) ↔
      ∀ x ∈ taken (signUpStep marchThird foodDriveId annAndBob)
          (.start (created ∅ foodDrive) foodDriveId) oneAfterTheOther,
        FromNewest foodDriveId x.1 x.2 :=
  have hintl : marchThird.Lenient := Intl.lenient_only _ _
  have he : foodDrive.eventName = foodDriveId.val := rfl
  have hdone : AllSignedUp foodDriveId (exec (signUpStep marchThird foodDriveId annAndBob)
      (.start (created ∅ foodDrive) foodDriveId) oneAfterTheOther) := by
    unfold AllSignedUp
    decide
  signUps_counted_iff hintl he ∅ oneAfterTheOther hdone

/-- Two users take the two seats of an event, and one seat is left. -/
theorem two_signUps_one_counted :
    ¬ (AllSignedUp foodDriveId (exec (signUpStep marchThird foodDriveId annAndBob)
          (.start (created ∅ foodDrive) foodDriveId) bothOnFirstSnapshot) →
        storedCount (exec (signUpStep marchThird foodDriveId annAndBob)
          (.start (created ∅ foodDrive) foodDriveId) bothOnFirstSnapshot).db foodDriveId =
          some (2 - 2)) := by
  unfold AllSignedUp
  decide

end TheHive
