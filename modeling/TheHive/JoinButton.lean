import TheHive.Lib.Transition
import TheHive.Clubs

/-!
# The join button

The icon of the club page shows the flag `isJoined` of the page's state, which every opening
sets to `false` and every press flips; the membership is a document of `joinedClubs`.

* `joinStep` — openings and presses, one after the other, on any store.
* `joinClub_nonmember`, `joinClub_member` — a press adds the document of a non-member, and
  changes nothing for a member.
* `icon_step` — one step keeps the icon right exactly when the user is not a member before it.
* `joinButton_iff` — **in a run of openings and presses the icon shows the membership, and each
  press adds or removes it, exactly when every opening and every press is made by a
  non-member**.
* `reopened_page_shows_add` — a member opens the page again.
-/

set_option autoImplicit false

namespace TheHive

open DocStore Transition

structure JoinPage where
  db : Db
  /-- The flag behind the icon, once the page is open. -/
  isJoined : Option Bool

inductive JoinAction where
  | openPage
  | press (auto : AutoId)

def joinStep (u : User) (club : ClubTile) (s : JoinPage) : JoinAction → Option JoinPage
  | .openPage => some { s with isJoined := some false }
  | .press auto =>
    s.isJoined.map fun isJoined =>
      ⟨commit (ClubOutline.joinClub (some u) auto club s.db).toList s.db, some !isJoined⟩

/-- Where the membership of a user is stored. -/
def memberPath (u : User) (club : ClubTile) : Path :=
  ["Users", u.email, "joinedClubs", club.clubName.val]

def IsMember (u : User) (club : ClubTile) (db : Db) : Prop :=
  (db.lookup (memberPath u club)).isSome

/-- The icon shows joined if and only if the user is a member. -/
def IconAgrees (u : User) (club : ClubTile) (s : JoinPage) : Prop :=
  ∀ isJoined, s.isJoined = some isJoined → (isJoined = true ↔ IsMember u club s.db)

instance (u : User) (club : ClubTile) (db : Db) : Decidable (IsMember u club db) :=
  inferInstanceAs (Decidable (db.lookup (memberPath u club)).isSome)

/-- A press takes a member's document away and gives a non-member one; it changes nothing
else. -/
def PressExact (u : User) (club : ClubTile) (s t : JoinPage) : Prop :=
  ∀ q, t.db.lookup q =
    if q = memberPath u club then
      if IsMember u club s.db then none else some (ClubOutline.joinedDoc club)
    else s.db.lookup q

/-- The law of the button over a whole run. -/
structure JoinButton (u : User) (club : ClubTile) (db : Db) (as : List JoinAction) : Prop where
  icon : ∀ s ∈ visited (joinStep u club) ⟨db, none⟩ as, IconAgrees u club s
  press : ∀ x ∈ taken (joinStep u club) ⟨db, none⟩ as, ∀ auto, x.2 = .press auto →
    ∀ t, joinStep u club x.1 x.2 = some t → PressExact u club x.1 t

variable {u : User} {club : ClubTile} {db : Db} {auto : AutoId} {s t : JoinPage} {a : JoinAction}

/-! ## One step -/

/-- **A press of a non-member** adds the document. -/
theorem joinClub_nonmember (h : ¬ IsMember u club db) :
    ClubOutline.joinClub (some u) auto club db =
      some (.set (memberPath u club) (ClubOutline.joinedDoc club)) := by
  unfold ClubOutline.joinClub
  exact if_neg h

/-- **A press of a member** writes nothing. -/
theorem joinClub_member (h : IsMember u club db) :
    ClubOutline.joinClub (some u) auto club db = none := by
  unfold ClubOutline.joinClub
  exact if_pos h

theorem press_cases (ht : joinStep u club s (.press auto) = some t) :
    ∃ isJoined, s.isJoined = some isJoined ∧ t.isJoined = some !isJoined ∧
      IsMember u club t.db ∧
      (¬ IsMember u club s.db → PressExact u club s t) := by
  obtain ⟨isJoined, hflag, rfl⟩ := Option.map_eq_some_iff.1 ht
  refine ⟨isJoined, hflag, rfl, ?_⟩
  by_cases h : IsMember u club s.db
  · rw [joinClub_member h]
    exact ⟨h, fun hnot => absurd h hnot⟩
  · rw [joinClub_nonmember h]
    refine ⟨?_, fun _ q => ?_⟩
    · show ((s.db.insert (memberPath u club) _).lookup (memberPath u club)).isSome
      rw [AList.lookup_insert]
      rfl
    · show (s.db.insert (memberPath u club) _).lookup q = _
      rw [if_neg h]
      split
      · rename_i hq
        rw [hq, AList.lookup_insert]
      · rename_i hq
        exact AList.lookup_insert_ne hq

/-- **One step keeps the icon right exactly when the user is not a member before it.** -/
theorem icon_step (hs : IconAgrees u club s) (ht : joinStep u club s a = some t) :
    IconAgrees u club t ↔ ¬ IsMember u club s.db := by
  cases a with
  | openPage =>
    cases ht
    constructor
    · intro h hmember
      cases (h false rfl).2 hmember
    · intro hnot isJoined hflag
      cases hflag
      exact ⟨fun h => (by cases h), fun h => absurd h hnot⟩
  | press auto =>
    obtain ⟨isJoined, hflag, hflip, hmember, -⟩ := press_cases ht
    -- a press leaves a member, so the icon is right if it showed a non-member before
    have hbefore := hs isJoined hflag
    constructor
    · intro h hnow
      have hshown := (h _ hflip).2 hmember
      rw [hbefore.2 hnow] at hshown
      cases hshown
    · intro hnot isJoined' hflag'
      rw [hflip] at hflag'
      cases hflag'
      cases hj : isJoined with
      | false => exact ⟨fun _ => hmember, fun _ => rfl⟩
      | true => exact absurd (hbefore.1 hj) hnot

/-! ## Runs -/

/-- **The button keeps its law over a run exactly when** every opening and every press is made
by a non-member. -/
theorem joinButton_iff (u : User) (club : ClubTile) (db : Db) (as : List JoinAction) :
    JoinButton u club db as ↔
      ∀ x ∈ taken (joinStep u club) ⟨db, none⟩ as, ¬ IsMember u club x.1.db := by
  have hicon : (∀ s ∈ visited (joinStep u club) ⟨db, none⟩ as, IconAgrees u club s) ↔
      ∀ x ∈ taken (joinStep u club) ⟨db, none⟩ as, ¬ IsMember u club x.1.db :=
    visited_iff_taken (I := fun _ => True) (G := IconAgrees u club)
      (C := fun s _ => ¬ IsMember u club s.db) trivial
      (fun isJoined h => by cases h) (fun _ _ _ _ _ => trivial)
      (fun _ _ _ _ hs ht => icon_step hs ht) as
  constructor
  · intro h
    exact hicon.1 h.icon
  · intro h
    refine ⟨hicon.2 h, fun x hx auto hpress t ht => ?_⟩
    rw [hpress] at ht
    obtain ⟨-, -, -, -, hexact⟩ := press_cases ht
    exact hexact (h x hx)

/-- A member who opens the page of the club again sees the icon of a non-member. -/
theorem reopened_page_shows_add :
    ¬ JoinButton ann chessClub ∅ [.openPage, .press sampleAutoId, .openPage] := by
  intro h
  have hicon := h.icon _ (mem_visited.2 (.inr rfl)) false rfl
  have hmember : IsMember ann chessClub (exec (joinStep ann chessClub) ⟨∅, none⟩
      [.openPage, .press sampleAutoId, .openPage]).db := by
    decide
  cases hicon.2 hmember

end TheHive
