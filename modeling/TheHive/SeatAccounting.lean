import Mathlib.Data.Finset.Card
import TheHive.Lib.Transition
import TheHive.Volunteer

/-!
# Seats of a volunteer event

Taps on one event, one after the other: every tile is rebuilt from the store before the next
tap, and both writes of a tap are applied.  The remaining seats are counted by
`numberOfPeople`, the taken ones by the users who hold an entry for the event.

* `tap_spec` — what a tap does: the user holds the event afterwards, and the count drops by one
  while it is positive, whoever taps.
* `seatTap_iff` — one tap keeps `count + holders = n` exactly when it takes a free seat for a
  user without one, or changes nothing (a holder on a full event).
* `seatAccounting_iff` — a run keeps the account exactly when nobody held the event when it was
  created and every tap of the run is of one of these two kinds.
* `second_tap_takes_a_seat` — a second tap of one user breaks it.
-/

set_option autoImplicit false

namespace TheHive

open DocStore Transition

/-- The count stored for an event. -/
def storedCount (db : Db) (event : DocId) : Option Int :=
  (db.lookup (volunteerPath event)).bind fun d => Doc.int d .numberOfPeople

/-- The user whose entry for the event has the path `p`. -/
def holderAt (event : DocId) (p : Path) : Option String :=
  match p with
  | [users, email, entries, name] =>
    if users = "Users" ∧ entries = "myVolunteerEvents" ∧ name = event.val then some email else none
  | _ => none

theorem holderAt_eq_some {event : DocId} {p : Path} {email : String} :
    holderAt event p = some email ↔ p = ["Users", email, "myVolunteerEvents", event.val] := by
  constructor
  · intro h
    unfold holderAt at h
    split at h
    · split at h
      · rename_i heq
        cases h
        rw [heq.1, heq.2.1, heq.2.2]
      · cases h
    · cases h
  · rintro rfl
    simp [holderAt]

/-- The users whose `myVolunteerEvents` holds the event. -/
def holders (db : Db) (event : DocId) : Finset String :=
  (db.keys.filterMap (holderAt event)).toFinset

theorem mem_holders {db : Db} {event : DocId} {email : String} :
    email ∈ holders db event ↔
      (db.lookup ["Users", email, "myVolunteerEvents", event.val]).isSome := by
  rw [AList.lookup_isSome, AList.mem_keys, holders, List.mem_toFinset, List.mem_filterMap]
  simp only [holderAt_eq_some]
  constructor
  · rintro ⟨p, hp, rfl⟩
    exact hp
  · intro h
    exact ⟨_, h, rfl⟩

theorem holders_insert_entry (db : Db) (event : DocId) (u : User) (d : Doc) :
    holders (db.insert (entryPath u event) d) event = insert u.email (holders db event) := by
  ext email
  rw [Finset.mem_insert, mem_holders, mem_holders]
  by_cases h : email = u.email
  · subst h
    simp [entryPath]
  · rw [AList.lookup_insert_ne (by simpa [entryPath] using h)]
    simp [h]

theorem holders_insert_volunteer (db : Db) (event : DocId) (d : Doc) :
    holders (db.insert (volunteerPath event) d) event = holders db event := by
  ext email
  rw [mem_holders, mem_holders, AList.lookup_insert_ne (by simp [volunteerPath])]

/-! ## A tap -/

/-- A tap on a tile built from the store as it is; both writes succeed. -/
def tap (intl : Intl) (event : DocId) (db : Db) (u : User) : Option Db := do
  let d ← db.lookup (volunteerPath event)
  let t ← VolunteerPage.tile intl (some u) d
  (t.onTap intl).foldlM (fun db w => w.apply db) db

/-- The store after `e` is created. -/
def created (db : Db) (e : VolunteerEvent) : Db :=
  commit (VolunteerPage.saveEventToFirestore e).toList db

variable {intl : Intl} {event : DocId} {e : VolunteerEvent} {db db' : Db} {u : User}

theorem created_eq (he : e.eventName = event.val) :
    created db e = db.insert (volunteerPath event) e.doc := by
  rw [created, saveEventToFirestore_eq he]
  rfl

theorem storedCount_of_lookup {k : Int}
    (h : db.lookup (volunteerPath event) = some (e.withCount k).doc) :
    storedCount db event = some k := by
  simp only [storedCount, h]
  rfl

/-- **What a tap does.** -/
theorem tap_spec {k : Int} (hintl : intl.Lenient) (he : e.eventName = event.val)
    (hdb : db.lookup (volunteerPath event) = some (e.withCount k).doc) :
    ∃ db', tap intl event db u = some db' ∧
      db'.lookup (volunteerPath event) = some (e.withCount (if 0 < k then k - 1 else k)).doc ∧
      holders db' event = insert u.email (holders db event) := by
  obtain ⟨date, hdate⟩ := Option.isSome_iff_exists.1 (hintl (e.withCount k).eventDate)
  have htap : tap intl event db u =
      (Write.set (entryPath u event) (entry (e.withCount k) date).doc ::
        if 0 < k then [countUpdate event k] else []).foldlM (fun db w => w.apply db) db := by
    rw [tap, hdb, Option.bind_eq_bind, Option.bind_some, tile_doc, Option.bind_eq_bind,
      Option.bind_some, onTap_eq (tile_doc intl (some u) (e.withCount k)) he hdate]
    rfl
  have hdb₁ : (db.insert (entryPath u event) (entry (e.withCount k) date).doc).lookup
      (volunteerPath event) = some (e.withCount k).doc := by
    rw [AList.lookup_insert_ne (entryPath_ne_volunteerPath u event event).symm, hdb]
  have hholders := holders_insert_entry db event u (entry (e.withCount k) date).doc
  rw [htap]
  split
  · refine ⟨(db.insert (entryPath u event) (entry (e.withCount k) date).doc).insert
      (volunteerPath event) (e.withCount (k - 1)).doc, ?_, AList.lookup_insert _, ?_⟩
    · rw [← e.doc_overwrite k (k - 1), List.foldlM_cons, Write.apply, Option.bind_eq_bind,
        Option.bind_some, List.foldlM_cons, countUpdate, Write.apply_update hdb₁]
      rfl
    · rw [holders_insert_volunteer, hholders]
  · exact ⟨_, rfl, hdb₁, hholders⟩

/-! ## The account -/

/-- Remaining and taken seats add up to the capacity. -/
def SeatsAccounted (event : DocId) (n : Int) (db : Db) : Prop :=
  ∃ k, storedCount db event = some k ∧ k + (holders db event).card = n

/-- A tap that takes a free seat for a user without one, or that a holder makes on a full
event. -/
def SeatTap (event : DocId) (db : Db) (u : User) : Prop :=
  ∃ k, storedCount db event = some k ∧
    (0 < k ∧ u.email ∉ holders db event ∨ k ≤ 0 ∧ u.email ∈ holders db event)

/-- The event is stored as it was created, but for the count. -/
def Listed (event : DocId) (e : VolunteerEvent) (db : Db) : Prop :=
  ∃ k, 0 ≤ k ∧ db.lookup (volunteerPath event) = some (e.withCount k).doc

theorem listed_tap (hintl : intl.Lenient) (he : e.eventName = event.val) (hl : Listed event e db)
    (ht : tap intl event db u = some db') : Listed event e db' := by
  obtain ⟨k, hk, hdb⟩ := hl
  obtain ⟨db₁, htap, hdb₁, -⟩ := tap_spec (u := u) hintl he hdb
  rw [ht] at htap
  cases htap
  refine ⟨_, ?_, hdb₁⟩
  split <;> omega

/-- **One tap keeps the account exactly when it is a `SeatTap`.** -/
theorem seatTap_iff {n : Int} (hintl : intl.Lenient) (he : e.eventName = event.val)
    (hl : Listed event e db) (hs : SeatsAccounted event n db)
    (ht : tap intl event db u = some db') : SeatsAccounted event n db' ↔ SeatTap event db u := by
  obtain ⟨k, hk, hdb⟩ := hl
  obtain ⟨db₁, htap, hdb₁, hholders⟩ := tap_spec (u := u) hintl he hdb
  rw [ht] at htap
  cases htap
  have hcount := storedCount_of_lookup hdb
  have hcount' := storedCount_of_lookup hdb₁
  obtain ⟨k', hk', hsum⟩ := hs
  rw [hcount] at hk'
  cases hk'
  simp only [SeatsAccounted, SeatTap, hcount, hcount', hholders, Option.some.injEq,
    exists_eq_left']
  by_cases hmem : u.email ∈ holders db event
  · -- a holder: no new entry, so the count has to stay
    rw [Finset.insert_eq_of_mem hmem]
    simp only [hmem, not_true_eq_false, and_false, and_true, false_or]
    split <;> omega
  · -- a new holder: the count has to drop
    rw [Finset.card_insert_of_notMem hmem]
    simp only [hmem, not_false_eq_true, and_true, and_false, or_false]
    push_cast
    split <;> omega

/-- The account over a whole run: it adds up in every state, never more users hold the event
than it has seats, and a user who taps again takes no second seat. -/
structure SeatAccounting (intl : Intl) (event : DocId) (n : Int) (db : Db) (taps : List User) :
    Prop where
  accounted : ∀ db' ∈ visited (tap intl event) db taps, SeatsAccounted event n db'
  capacity : ∀ db' ∈ visited (tap intl event) db taps, ((holders db' event).card : Int) ≤ n
  no_second : ∀ x ∈ taken (tap intl event) db taps, x.2.email ∈ holders x.1 event →
    ∀ db', tap intl event x.1 x.2 = some db' → storedCount db' event = storedCount x.1 event

/-- **A run keeps the seat account exactly when** nobody held the event when it was created and
every tap is a `SeatTap` where it happens. -/
theorem seatAccounting_iff (hintl : intl.Lenient) (he : e.eventName = event.val)
    (hn : 0 ≤ e.numberOfPeople) (db : Db) (taps : List User) :
    SeatAccounting intl event e.numberOfPeople (created db e) taps ↔
      holders db event = ∅ ∧
        ∀ x ∈ taken (tap intl event) (created db e) taps, SeatTap event x.1 x.2 := by
  have hlookup : (created db e).lookup (volunteerPath event) =
      some (e.withCount e.numberOfPeople).doc := by
    rw [created_eq he]
    exact AList.lookup_insert _
  have hlisted : Listed event e (created db e) := ⟨e.numberOfPeople, hn, hlookup⟩
  have hholders : holders (created db e) event = holders db event := by
    rw [created_eq he, holders_insert_volunteer]
  have hstart : SeatsAccounted event e.numberOfPeople (created db e) ↔ holders db event = ∅ := by
    simp only [SeatsAccounted, storedCount_of_lookup hlookup, hholders, Option.some.injEq,
      exists_eq_left', ← Finset.card_eq_zero]
    omega
  have hinv : ∀ db u db', Listed event e db → tap intl event db u = some db' → Listed event e db' :=
    fun _ _ _ => listed_tap hintl he
  have hrun := fun hg : SeatsAccounted event e.numberOfPeople (created db e) =>
    visited_iff_taken hlisted hg hinv
      (fun _ _ _ hl hs ht => seatTap_iff hintl he hl hs ht) taps
  constructor
  · rintro ⟨hacc, -, -⟩
    have hg : SeatsAccounted event e.numberOfPeople (created db e) := by
      cases taps with
      | nil => exact hacc _ (by simp [visited, taken, exec])
      | cons u taps => exact hacc _ (by
          obtain ⟨db', htap, -⟩ := tap_spec (u := u) hintl he hlookup
          simp [visited, taken, htap])
    exact ⟨hstart.1 hg, (hrun hg).1 hacc⟩
  · rintro ⟨hempty, htaps⟩
    have hacc := (hrun (hstart.2 hempty)).2 htaps
    have hinvs := visited_invariant hlisted hinv taps
    refine ⟨hacc, fun db' hdb' => ?_, fun x hx hmem db' ht => ?_⟩
    · obtain ⟨k, hk, hsum⟩ := hacc db' hdb'
      obtain ⟨k', hk', hl⟩ := hinvs db' hdb'
      rw [storedCount_of_lookup hl] at hk
      cases hk
      omega
    · obtain ⟨k, hk, hseat⟩ := htaps x hx
      obtain ⟨k', -, hl⟩ := taken_invariant hlisted hinv taps x hx
      obtain ⟨db₁, htap, hdb₁, -⟩ := tap_spec (u := x.2) hintl he hl
      rw [ht] at htap
      cases htap
      have hcount := storedCount_of_lookup hl
      rw [hcount] at hk
      cases hk
      have hfull : ¬ 0 < k := by
        rcases hseat with ⟨-, hnot⟩ | ⟨hle, -⟩
        · exact absurd hmem hnot
        · omega
      rw [storedCount_of_lookup hdb₁, hcount, if_neg hfull]

theorem seatAccounting_iff_two_users :
    SeatAccounting marchThird foodDriveId 2 (created ∅ foodDrive) [ann, bob] ↔
      holders ∅ foodDriveId = ∅ ∧
        ∀ x ∈ taken (tap marchThird foodDriveId) (created ∅ foodDrive) [ann, bob],
          SeatTap foodDriveId x.1 x.2 :=
  have hintl : marchThird.Lenient := Intl.lenient_only _ _
  have he : foodDrive.eventName = foodDriveId.val := rfl
  have hn : 0 ≤ foodDrive.numberOfPeople := by decide
  seatAccounting_iff hintl he hn ∅ [ann, bob]

/-- One user taps twice on an event with two seats: no seat is left, and one user holds it. -/
theorem second_tap_takes_a_seat :
    ¬ SeatAccounting marchThird foodDriveId 2 (created ∅ foodDrive) [ann, ann] := by
  intro h
  obtain ⟨k, hk, hsum⟩ := h.accounted (exec (tap marchThird foodDriveId) (created ∅ foodDrive)
    [ann, ann]) (mem_visited.2 (.inr rfl))
  have hcount : storedCount (exec (tap marchThird foodDriveId) (created ∅ foodDrive) [ann, ann])
      foodDriveId = some 0 := by decide
  have hcard : (holders (exec (tap marchThird foodDriveId) (created ∅ foodDrive) [ann, ann])
      foodDriveId).card = 1 := by decide
  rw [hcount] at hk
  cases hk
  rw [hcard] at hsum
  exact absurd hsum (by decide)

end TheHive
