import TheHive.Lib.Transition
import TheHive.SeatAccounting

/-!
# How a sign-up settles

The two writes of a tap are independent: they arrive one by one, each may be rejected by the
store, and each swallows its own error.  Taps are made on tiles that show the stored count, while
it is positive, by users who sign up for the event for the first time; between a tap and the
arrival of its writes there may be other taps, arrivals, creations and deletions.

* `settleStep` — creations, deletions, taps, and arrivals of single writes, accepted or not.
* `Arrives` — a write has arrived in a step of a run.
* `TapsSettle` — what the taps of a run issue, and what each write does when it arrives.
* `SettleInv` — an entry under way is the only one of its user and event, and none is stored.
* `tapSettles_run` — **in every run the entry is gained exactly when its own write is accepted, and
  the count drops by one exactly when the update is accepted and finds the displayed count; both
  happen or neither document changes exactly when the two writes fare alike in this sense**.
* `deleted_meanwhile` — the event is deleted before the update arrives.
-/

set_option autoImplicit false

namespace TheHive

open DocStore Transition

/-- The store after a write that is accepted or not. -/
def attempt (db : Db) (x : Write × Bool) : Db := if x.2 then x.1.settle db else db

/-- A write of a tap, with the user, the event and the count its tile displayed. -/
structure SentWrite where
  user : User
  event : DocId
  displayed : Int
  write : Write

structure SettleRun where
  db : Db
  /-- The writes that have not arrived. -/
  net : List SentWrite
  /-- Who has tapped on what. -/
  tapped : List (User × DocId)

inductive SettleAction where
  | create (e : VolunteerEvent)
  | delete (eventName : String)
  /-- A first tap on a tile that is built from the event as it is now. -/
  | tap (intl : Intl) (u : User) (event : DocId)
  | arrive (n : Nat) (accepted : Bool)

def settleStep (s : SettleRun) : SettleAction → Option SettleRun
  | .create e => (VolunteerPage.saveEventToFirestore e).map fun w => { s with db := w.settle s.db }
  | .delete eventName =>
    (VolunteerPage.deleteTask eventName).map fun w => { s with db := w.settle s.db }
  | .tap intl u event => do
    let d ← s.db.lookup (volunteerPath event)
    let t ← VolunteerPage.tile intl (some u) d
    if 0 < t.numberOfPeople ∧ (u, event) ∉ s.tapped ∧ s.db.lookup (entryPath u event) = none then
      some { s with
        net := s.net ++ (t.onTap intl).map (SentWrite.mk u event t.numberOfPeople)
        tapped := (u, event) :: s.tapped }
    else
      none
  | .arrive n accepted =>
    (s.net[n]?).map fun x =>
      { s with db := attempt s.db (x.write, accepted), net := s.net.eraseIdx n }

def SettleRun.start (db : Db) : SettleRun := ⟨db, [], []⟩

/-- The steps taken so far. -/
abbrev SettleHistory := List (SettleRun × SettleAction)

/-- The tap can read the date of its tile back; else it throws before it writes. -/
def ReadsDate (intl : Intl) (event : DocId) (db : Db) : Prop :=
  ∃ d date, db.lookup (volunteerPath event) = some d ∧ Doc.timestamp d .eventDate = some date ∧
    (intl.parse .MMddyyyy (intl.format .ddMMyyyy date)).isSome

namespace SentWrite

/-- The write of the entry. -/
def IsEntry (x : SentWrite) : Prop := ∃ d, x.write = .set (entryPath x.user x.event) d

/-- The update of the count. -/
def IsUpdate (x : SentWrite) : Prop := x.write = countUpdate x.event x.displayed

end SentWrite

/-- In a step of the run the write arrives, and takes the store from `db` to `db'`. -/
def Arrives (h : SettleHistory) (x : SentWrite) (accepted : Bool) (db db' : Db) : Prop :=
  ∃ s n t, (s, .arrive n accepted) ∈ h ∧ s.net[n]? = some x ∧
    settleStep s (.arrive n accepted) = some t ∧ s.db = db ∧ t.db = db'

def EntryGained (u : User) (event : DocId) (db db' : Db) : Prop :=
  db.lookup (entryPath u event) = none ∧ (db'.lookup (entryPath u event)).isSome

def CountDropped (event : DocId) (db db' : Db) : Prop :=
  ∃ k, storedCount db event = some k ∧ storedCount db' event = some (k - 1)

/-- The document at the path is the same in both stores. -/
def Unchanged (p : Path) (db db' : Db) : Prop := db'.lookup p = db.lookup p

/-- The tap, whose writes arrive between `db₁` and `db₁'` and between `db₂` and `db₂'`, has added
the entry and taken a seat, or has changed neither document. -/
def AllOrNothing (u : User) (event : DocId) (db₁ db₁' db₂ db₂' : Db) : Prop :=
  EntryGained u event db₁ db₁' ∧ CountDropped event db₂ db₂' ∨
    Unchanged (entryPath u event) db₁ db₁' ∧ Unchanged (volunteerPath event) db₂ db₂'

/-- What a tap does: it writes nothing itself, and issues the two writes unless it throws. -/
structure TapIssues (intl : Intl) (u : User) (event : DocId) (s t : SettleRun) : Prop where
  db : t.db = s.db
  writes : ReadsDate intl event s.db → ∃ x y, t.net = s.net ++ [x, y] ∧
    x.IsEntry ∧ x.user = u ∧ x.event = event ∧
      y.IsUpdate ∧ y.user = u ∧ y.event = event ∧ storedCount s.db event = some y.displayed
  throws : ¬ ReadsDate intl event s.db → t.net = s.net

/-- What the write of an entry does when it arrives. -/
structure EntryArrives (x : SentWrite) (accepted : Bool) (db db' : Db) : Prop where
  gained : accepted = true → EntryGained x.user x.event db db'
  rejected : accepted = false → Unchanged (entryPath x.user x.event) db db'
  frame : ∀ q, q ≠ entryPath x.user x.event → Unchanged q db db'

/-- What the update of a count does when it arrives. -/
structure UpdateArrives (y : SentWrite) (accepted : Bool) (db db' : Db) : Prop where
  dropped : CountDropped y.event db db' ↔ accepted = true ∧ storedCount db y.event = some y.displayed
  unchanged : Unchanged (volunteerPath y.event) db db' ↔
    (accepted = true → ∀ k, storedCount db y.event = some k → k = y.displayed - 1)
  frame : ∀ q, q ≠ volunteerPath y.event → Unchanged q db db'

/-- How the taps of a run have settled after the steps `h`. -/
structure TapsSettle (h : SettleHistory) (s : SettleRun) : Prop where
  taps : ∀ s₀ intl u event, (s₀, .tap intl u event) ∈ h →
    ∀ t, settleStep s₀ (.tap intl u event) = some t → TapIssues intl u event s₀ t
  entries : ∀ x accepted db db', Arrives h x accepted db db' → x.IsEntry →
    EntryArrives x accepted db db'
  updates : ∀ y accepted db db', Arrives h y accepted db db' → y.IsUpdate →
    UpdateArrives y accepted db db'
  /-- The entry is there from the arrival of an accepted write on, and not without one. -/
  held : ∀ s₀ intl u event, (s₀, .tap intl u event) ∈ h →
    ((s.db.lookup (entryPath u event)).isSome ↔
      ∃ x db db', Arrives h x true db db' ∧ x.IsEntry ∧ x.user = u ∧ x.event = event)
  together : ∀ x y entryOk updateOk db₁ db₁' db₂ db₂', Arrives h x entryOk db₁ db₁' → x.IsEntry →
    Arrives h y updateOk db₂ db₂' → y.IsUpdate → y.event = x.event →
      (AllOrNothing x.user x.event db₁ db₁' db₂ db₂' ↔
        entryOk = true ∧ updateOk = true ∧ storedCount db₂ y.event = some y.displayed ∨
          entryOk = false ∧
            (updateOk = true → ∀ k, storedCount db₂ y.event = some k → k = y.displayed - 1))

/-- The listed events are stored under their names. -/
def ListedByName (db : Db) : Prop :=
  ∀ event d, db.lookup (volunteerPath event) = some d →
    ∃ e : VolunteerEvent, d = e.doc ∧ e.eventName = event.val

variable {db db' : Db} {intl : Intl} {u : User} {event : DocId} {e : VolunteerEvent}
  {a : SettleAction} {accepted : Bool} {s t : SettleRun} {h : SettleHistory} {x y : SentWrite}

/-! ## One write -/

/-- An attempt changes its own document only. -/
theorem attempt_frame {z : Write × Bool} {q : Path} (hq : q ≠ z.1.path) :
    (attempt db z).lookup q = db.lookup q := by
  unfold attempt
  split
  · exact Write.settle_frame hq
  · rfl

theorem entryArrives_attempt (hx : x.IsEntry) (hnone : db.lookup (entryPath x.user x.event) = none) :
    EntryArrives x accepted db (attempt db (x.write, accepted)) := by
  obtain ⟨d, hd⟩ := hx
  refine ⟨fun hok => ⟨hnone, ?_⟩, fun hno => ?_, fun q hq => ?_⟩
  · rw [attempt, if_pos hok, hd]
    show ((db.insert (entryPath x.user x.event) d).lookup _).isSome
    rw [AList.lookup_insert]
    rfl
  · rw [Unchanged, attempt, hno]
    rfl
  · exact attempt_frame (by rw [hd]; exact hq)

/-- An update that is rejected. -/
theorem updateArrives_rejected (y : SentWrite) (db : Db) : UpdateArrives y false db db := by
  refine ⟨iff_of_false ?_ fun h => Bool.noConfusion h.1, iff_of_true rfl fun h => Bool.noConfusion h,
    fun q _ => rfl⟩
  rintro ⟨k, hk, hk'⟩
  rw [hk, Option.some.injEq] at hk'
  omega

/-- An accepted update of an event that is gone. -/
theorem updateArrives_gone (hd : db.lookup (volunteerPath y.event) = none) :
    UpdateArrives y true db ((countUpdate y.event y.displayed).settle db) := by
  have hsame : (countUpdate y.event y.displayed).settle db = db := by
    rw [Write.settle, countUpdate, Write.apply, hd]
    rfl
  have hcount : storedCount db y.event = none := by rw [storedCount, hd]; rfl
  rw [hsame]
  refine ⟨iff_of_false ?_ ?_, iff_of_true rfl fun _ k hk => ?_, fun q _ => rfl⟩
  · rintro ⟨k, hk, -⟩
    rw [hcount] at hk
    cases hk
  · rintro ⟨-, hk⟩
    rw [hcount] at hk
    cases hk
  · rw [hcount] at hk
    cases hk

/-- An accepted update of an event that is stored. -/
theorem updateArrives_stored (hd : db.lookup (volunteerPath y.event) = some e.doc) :
    UpdateArrives y true db ((countUpdate y.event y.displayed).settle db) := by
  have hcount : storedCount db y.event = some e.numberOfPeople := storedCount_of_lookup (e := e) hd
  have hnew : ((countUpdate y.event y.displayed).settle db).lookup (volunteerPath y.event) =
      some (e.withCount (y.displayed - 1)).doc := by
    rw [Write.settle, countUpdate, Write.apply_update hd, Option.getD_some, AList.lookup_insert,
      show e.doc = (e.withCount e.numberOfPeople).doc from rfl, e.doc_overwrite]
  refine ⟨?_, ?_, fun q hq => Write.settle_frame hq⟩
  · rw [CountDropped, hcount, storedCount_of_lookup hnew]
    simp only [Option.some.injEq, exists_eq_left', true_and]
    omega
  · rw [Unchanged, hnew, hd, hcount]
    simp only [Option.some.injEq, forall_eq', true_implies]
    constructor
    · intro heq
      have hfield : (some (Value.int (y.displayed - 1)) : Option Value) =
        some (Value.int e.numberOfPeople) := congrFun heq .numberOfPeople
      exact (Value.int.inj (Option.some.inj hfield)).symm
    · intro heq
      rw [← heq]
      rfl

/-- The update on the document of an event. -/
theorem updateArrives_attempt (hl : ListedByName db) (hy : y.IsUpdate) :
    UpdateArrives y accepted db (attempt db (y.write, accepted)) := by
  cases accepted with
  | false => exact updateArrives_rejected y db
  | true =>
    have hafter : attempt db (y.write, true) = (countUpdate y.event y.displayed).settle db := by
      rw [attempt, if_pos rfl, hy]
    rw [hafter]
    cases hd : db.lookup (volunteerPath y.event) with
    | none => exact updateArrives_gone hd
    | some d =>
      obtain ⟨e, rfl, -⟩ := hl y.event d hd
      exact updateArrives_stored hd

/-- **From what the two writes have done to what they have done together.** -/
theorem allOrNothing_iff {entryOk updateOk : Bool} {db₁ db₁' db₂ db₂' : Db}
    (hx : EntryArrives x entryOk db₁ db₁') (hy : UpdateArrives y updateOk db₂ db₂')
    (hevent : y.event = x.event) :
    AllOrNothing x.user x.event db₁ db₁' db₂ db₂' ↔
      entryOk = true ∧ updateOk = true ∧ storedCount db₂ y.event = some y.displayed ∨
        entryOk = false ∧
          (updateOk = true → ∀ k, storedCount db₂ y.event = some k → k = y.displayed - 1) := by
  rw [AllOrNothing, ← hevent, hy.dropped, hy.unchanged, hevent]
  cases entryOk with
  | true =>
    -- an entry that is gained is a change
    have hgained := hx.gained rfl
    have hchanged : ¬ Unchanged (entryPath x.user x.event) db₁ db₁' := by
      intro hsame
      have hsome := hgained.2
      rw [hsame, hgained.1] at hsome
      cases hsome
    simp [hgained, hchanged]
  | false =>
    have hsame := hx.rejected rfl
    have hnot : ¬ EntryGained x.user x.event db₁ db₁' := by
      rintro ⟨hnone, hsome⟩
      rw [hsame, hnone] at hsome
      cases hsome
    simp [hsame, hnot]

/-! ## What is listed -/

theorem listedByName_insert {p : Path} (hl : ListedByName db)
    (hp : doc ["volunteer"] e.eventName = some p) : ListedByName (db.insert p e.doc) := by
  intro event d hd
  by_cases hpath : volunteerPath event = p
  · subst hpath
    rw [AList.lookup_insert, Option.some.injEq] at hd
    exact ⟨e, hd.symm, doc_injective hp (doc_docId ["volunteer"] rfl event)⟩
  · rw [AList.lookup_insert_ne hpath] at hd
    exact hl event d hd

theorem listedByName_erase {p : Path} (hl : ListedByName db) : ListedByName (db.erase p) := by
  intro event d hd
  by_cases hpath : volunteerPath event = p
  · rw [hpath, AList.lookup_erase] at hd
    cases hd
  · rw [AList.lookup_erase_ne hpath] at hd
    exact hl event d hd

/-- Neither write of a tap renames an event. -/
theorem listedByName_attempt (hl : ListedByName db) (hx : x.IsEntry ∨ x.IsUpdate) :
    ListedByName (attempt db (x.write, accepted)) := by
  unfold attempt
  split
  · rcases hx with ⟨d, hw⟩ | hw
    · intro event' d' hd'
      rw [hw, Write.settle_frame (entryPath_ne_volunteerPath x.user x.event event').symm] at hd'
      exact hl event' d' hd'
    · rw [SentWrite.IsUpdate] at hw
      cases hold : db.lookup (volunteerPath x.event) with
      | none =>
        rw [hw, Write.settle, countUpdate, Write.apply, hold]
        exact hl
      | some d =>
        obtain ⟨e, rfl, hname⟩ := hl x.event d hold
        rw [hw, Write.settle, countUpdate, Write.apply_update hold, Option.getD_some,
          show e.doc = (e.withCount e.numberOfPeople).doc from rfl, e.doc_overwrite]
        refine listedByName_insert hl ?_
        rw [show (e.withCount (x.displayed - 1)).eventName = x.event.val from hname]
        exact doc_docId ["volunteer"] rfl x.event
  · exact hl

/-! ## One tap -/

theorem entryPath_injective {u' : User} {event' : DocId} (h : entryPath u event = entryPath u' event') :
    u = u' ∧ event = event' := by
  simp only [entryPath, List.cons.injEq, true_and, and_true] at h
  exact ⟨User.email_injective h.1, DocId.val_injective h.2⟩

/-- Only its own write changes an entry. -/
theorem lookup_entryPath_attempt (hkind : y.IsEntry ∨ y.IsUpdate)
    (hne : ¬ (y.IsEntry ∧ y.user = u ∧ y.event = event)) :
    (attempt db (y.write, accepted)).lookup (entryPath u event) = db.lookup (entryPath u event) := by
  rcases hkind with ⟨d, hd⟩ | hd
  · refine attempt_frame fun heq => hne ⟨⟨d, hd⟩, ?_⟩
    rw [hd] at heq
    obtain ⟨hu, hevent⟩ := entryPath_injective heq
    exact ⟨hu.symm, hevent.symm⟩
  · refine attempt_frame ?_
    rw [hd]
    exact entryPath_ne_volunteerPath u event y.event

/-- What a tap sends is of this user and event, and one of it at most is an entry. -/
structure SentBy (u : User) (event : DocId) (ws : List SentWrite) : Prop where
  of : ∀ x ∈ ws, x.user = u ∧ x.event = event ∧ (x.IsEntry ∨ x.IsUpdate)
  once : ws.Pairwise fun x y => x.IsEntry → y.IsEntry → ¬ (x.user = y.user ∧ x.event = y.event)

theorem sentBy_nil : SentBy u event [] := ⟨fun _ hx => (by cases hx), .nil⟩

theorem sentBy_pair (d : Doc) (k : Int) :
    SentBy u event [⟨u, event, k, .set (entryPath u event) d⟩, ⟨u, event, k, countUpdate event k⟩] := by
  constructor
  · intro x hx
    rcases List.mem_cons.1 hx with rfl | hx
    · exact ⟨rfl, rfl, .inl ⟨d, rfl⟩⟩
    · cases List.mem_singleton.1 hx
      exact ⟨rfl, rfl, .inr rfl⟩
  · rw [List.pairwise_pair]
    rintro - ⟨d', hd'⟩
    cases hd'

/-- **What a tap sends**: both writes, or none where it throws. -/
theorem tapStep_cases (hl : ListedByName s.db) (ht : settleStep s (.tap intl u event) = some t) :
    ∃ k ws, t = { s with net := s.net ++ ws, tapped := (u, event) :: s.tapped } ∧
      (u, event) ∉ s.tapped ∧ s.db.lookup (entryPath u event) = none ∧
      storedCount s.db event = some k ∧
      (ReadsDate intl event s.db ∧ (∃ d, ws =
          [⟨u, event, k, .set (entryPath u event) d⟩, ⟨u, event, k, countUpdate event k⟩]) ∨
        ¬ ReadsDate intl event s.db ∧ ws = []) := by
  simp only [settleStep, Option.bind_eq_bind, Option.bind_eq_some_iff] at ht
  obtain ⟨d, hd, tile, htile, ht⟩ := ht
  obtain ⟨⟨hpos, hfirst, hnone⟩, ht⟩ := Option.ite_none_right_eq_some.1 ht
  cases ht
  obtain ⟨e, rfl, hname⟩ := hl event d hd
  have hcount : tile.numberOfPeople = e.numberOfPeople := by
    cases htile
    rfl
  refine ⟨e.numberOfPeople, _, rfl, hfirst, hnone, storedCount_of_lookup (e := e) hd, ?_⟩
  have hreads : ReadsDate intl event s.db ↔
      (intl.parse .MMddyyyy (intl.format .ddMMyyyy e.eventDate)).isSome := by
    constructor
    · rintro ⟨d', date, hd', hdate, hparse⟩
      rw [hd] at hd'
      cases hd'
      cases hdate
      exact hparse
    · exact fun hparse => ⟨e.doc, e.eventDate, hd, rfl, hparse⟩
  rw [hreads]
  cases hparse : intl.parse .MMddyyyy (intl.format .ddMMyyyy e.eventDate) with
  | none =>
    cases htile
    exact .inr ⟨by simp, by simp [VolunteerEventTile.onTap, hparse]⟩
  | some date =>
    rw [hcount] at hpos ⊢
    refine .inl ⟨rfl, (entry e date).doc, ?_⟩
    rw [onTap_eq htile hname hparse, if_pos hpos]
    rfl

theorem tapIssues_step (hl : ListedByName s.db) (ht : settleStep s (.tap intl u event) = some t) :
    TapIssues intl u event s t := by
  obtain ⟨k, ws, rfl, -, -, hk, hws⟩ := tapStep_cases hl ht
  refine ⟨rfl, fun hreads => ?_, fun hthrows => ?_⟩
  · obtain ⟨d, rfl⟩ := (hws.resolve_right fun h => h.1 hreads).2
    exact ⟨_, _, rfl, ⟨d, rfl⟩, rfl, rfl, rfl, rfl, rfl, hk⟩
  · obtain ⟨-, rfl⟩ := hws.resolve_left fun h => hthrows h.1
    exact List.append_nil s.net

/-! ## The invariant -/

/-- After the steps `h`. -/
structure SettleInv (h : SettleHistory) (s : SettleRun) : Prop where
  listed : ListedByName s.db
  tapped : ∀ u event, (u, event) ∈ s.tapped ↔ ∃ s₀ intl, (s₀, .tap intl u event) ∈ h
  net : ∀ x ∈ s.net, (x.user, x.event) ∈ s.tapped ∧ (x.IsEntry ∨ x.IsUpdate)
  /-- An entry under way is the only one of its user and event. -/
  once : s.net.Pairwise fun x y => x.IsEntry → y.IsEntry → ¬ (x.user = y.user ∧ x.event = y.event)
  missing : ∀ x ∈ s.net, x.IsEntry → s.db.lookup (entryPath x.user x.event) = none
  arrived : ∀ x accepted db db', Arrives h x accepted db db' → (x.user, x.event) ∈ s.tapped ∧
    (x.IsEntry → EntryArrives x accepted db db') ∧ (x.IsUpdate → UpdateArrives x accepted db db')
  held : ∀ u event, (u, event) ∈ s.tapped → ((s.db.lookup (entryPath u event)).isSome ↔
    ∃ x db db', Arrives h x true db db' ∧ x.IsEntry ∧ x.user = u ∧ x.event = event)

/-- What arrives in a run with one more step: what arrived before, or in that step. -/
theorem arrives_append_iff {z : SettleRun × SettleAction} :
    Arrives (h ++ [z]) x accepted db db' ↔
      Arrives h x accepted db db' ∨ Arrives [z] x accepted db db' := by
  unfold Arrives
  constructor
  · rintro ⟨s', n, t, hmem, hrest⟩
    exact (List.mem_append.1 hmem).imp (fun hm => ⟨s', n, t, hm, hrest⟩) fun hm => ⟨s', n, t, hm, hrest⟩
  · rintro (⟨s', n, t, hmem, hrest⟩ | ⟨s', n, t, hmem, hrest⟩)
    · exact ⟨s', n, t, List.mem_append_left _ hmem, hrest⟩
    · exact ⟨s', n, t, List.mem_append_right _ hmem, hrest⟩

/-- Nothing arrives in a step of another kind. -/
theorem arrives_append_of_ne (ha : ∀ n accepted, a ≠ .arrive n accepted) :
    Arrives (h ++ [(s, a)]) x accepted db db' ↔ Arrives h x accepted db db' := by
  rw [arrives_append_iff, or_iff_left]
  rintro ⟨s', n, t, hmem, -⟩
  cases List.mem_singleton.1 hmem
  exact ha n accepted rfl

/-- In an arrival, the write at that place. -/
theorem arrives_arrive_iff {n : Nat} {accepted' : Bool} (hy : s.net[n]? = some y) :
    Arrives [(s, .arrive n accepted')] x accepted db db' ↔
      x = y ∧ accepted = accepted' ∧ db = s.db ∧ db' = attempt s.db (y.write, accepted') := by
  constructor
  · rintro ⟨s', m, t, hmem, hx, ht, rfl, rfl⟩
    cases List.mem_singleton.1 hmem
    rw [hy] at hx
    cases hx
    rw [settleStep, hy] at ht
    cases ht
    exact ⟨rfl, rfl, rfl, rfl⟩
  · rintro ⟨rfl, rfl, rfl, rfl⟩
    exact ⟨s, n, _, List.mem_singleton.2 rfl, hy, by rw [settleStep, hy]; rfl, rfl, rfl⟩

namespace SettleInv

theorem start (hdb : ListedByName db) : SettleInv [] (.start db) := by
  refine ⟨hdb, fun u event => ⟨fun h => (by cases h), fun ⟨_, _, h⟩ => (by cases h)⟩,
    fun x hx => (by cases hx), .nil, fun x hx => (by cases hx), ?_, fun u event h => (by cases h)⟩
  rintro x accepted db db' ⟨s, n, t, hmem, -⟩
  cases hmem

/-- The taps, one step of another kind later. -/
theorem tapped_append (hi : SettleInv h s) (ha : ∀ intl u event, a ≠ .tap intl u event) (u : User)
    (event : DocId) : (u, event) ∈ s.tapped ↔ ∃ s₀ intl, (s₀, .tap intl u event) ∈ h ++ [(s, a)] := by
  rw [hi.tapped]
  constructor
  · rintro ⟨s₀, intl, hmem⟩
    exact ⟨s₀, intl, List.mem_append_left _ hmem⟩
  · rintro ⟨s₀, intl, hmem⟩
    rcases List.mem_append.1 hmem with hmem | hmem
    · exact ⟨s₀, intl, hmem⟩
    · cases List.mem_singleton.1 hmem
      exact absurd rfl (ha intl u event)

/-- A step that writes a volunteer event. -/
theorem of_volunteer (hi : SettleInv h s) (hl : ListedByName db)
    (htap : ∀ intl u event, a ≠ .tap intl u event) (harrive : ∀ n accepted, a ≠ .arrive n accepted)
    (hentries : ∀ u event, db.lookup (entryPath u event) = s.db.lookup (entryPath u event)) :
    SettleInv (h ++ [(s, a)]) { s with db := db } := by
  refine ⟨hl, hi.tapped_append htap, hi.net, hi.once,
    fun x hx hentry => (hentries _ _).trans (hi.missing x hx hentry),
    fun x accepted db db' hx => hi.arrived x accepted db db' ((arrives_append_of_ne harrive).1 hx),
    fun u event hu => ?_⟩
  show (db.lookup _).isSome ↔ _
  rw [hentries, hi.held u event hu]
  simp only [arrives_append_of_ne harrive]

theorem tap (hi : SettleInv h s) (ht : settleStep s (.tap intl u event) = some t) :
    SettleInv (h ++ [(s, .tap intl u event)]) t := by
  obtain ⟨k, ws, rfl, hfirst, hnone, -, hws⟩ := tapStep_cases hi.listed ht
  have harrive : ∀ n accepted, SettleAction.tap intl u event ≠ .arrive n accepted :=
    fun _ _ h => by cases h
  obtain ⟨hnew, hpair⟩ : SentBy u event ws := by
    rcases hws with ⟨-, d, rfl⟩ | ⟨-, rfl⟩
    · exact sentBy_pair d k
    · exact sentBy_nil
  refine ⟨hi.listed, fun u' event' => ?_, fun x hx => ?_, ?_, fun x hx hentry => ?_,
    fun x accepted db db' hx => ?_, fun u' event' hu => ?_⟩
  · rw [List.mem_cons, hi.tapped]
    constructor
    · rintro (heq | ⟨s₀, intl', hmem⟩)
      · cases heq
        exact ⟨s, intl, by simp⟩
      · exact ⟨s₀, intl', List.mem_append_left _ hmem⟩
    · rintro ⟨s₀, intl', hmem⟩
      rcases List.mem_append.1 hmem with hmem | hmem
      · exact .inr ⟨s₀, intl', hmem⟩
      · cases List.mem_singleton.1 hmem
        exact .inl rfl
  · rcases List.mem_append.1 hx with hx | hx
    · exact ⟨List.mem_cons_of_mem _ (hi.net x hx).1, (hi.net x hx).2⟩
    · obtain ⟨rfl, rfl, hkind⟩ := hnew x hx
      exact ⟨List.mem_cons_self, hkind⟩
  · refine List.pairwise_append.2 ⟨hi.once, hpair, fun x hx y hy _ _ heq => ?_⟩
    obtain ⟨rfl, rfl, -⟩ := hnew y hy
    have hx := (hi.net x hx).1
    rw [heq.1, heq.2] at hx
    exact hfirst hx
  · rcases List.mem_append.1 hx with hx | hx
    · exact hi.missing x hx hentry
    · obtain ⟨rfl, rfl, -⟩ := hnew x hx
      exact hnone
  · obtain ⟨hmem, hrest⟩ := hi.arrived x accepted db db' ((arrives_append_of_ne harrive).1 hx)
    exact ⟨List.mem_cons_of_mem _ hmem, hrest⟩
  · simp only [arrives_append_of_ne harrive]
    rcases List.mem_cons.1 hu with heq | hu
    · -- nothing of this tap has arrived
      cases heq
      refine iff_of_false (by simp [hnone]) ?_
      rintro ⟨x, db, db', hx, -, rfl, rfl⟩
      exact hfirst (hi.arrived x true db db' hx).1
    · exact hi.held u' event' hu

theorem arrive {n : Nat} (hi : SettleInv h s) (ht : settleStep s (.arrive n accepted) = some t) :
    SettleInv (h ++ [(s, .arrive n accepted)]) t := by
  obtain ⟨y, hy, rfl⟩ := Option.map_eq_some_iff.1 ht
  obtain ⟨htapped, hkind⟩ := hi.net y (List.mem_of_getElem? hy)
  have hsub : (s.net.eraseIdx n).Sublist s.net := List.eraseIdx_sublist s.net n
  -- what the write does
  have hentry : y.IsEntry → EntryArrives y accepted s.db (attempt s.db (y.write, accepted)) :=
    fun hy' => entryArrives_attempt hy' (hi.missing y (List.mem_of_getElem? hy) hy')
  have hupdate : y.IsUpdate → UpdateArrives y accepted s.db (attempt s.db (y.write, accepted)) :=
    updateArrives_attempt hi.listed
  have hother : ∀ x ∈ s.net.eraseIdx n, y.IsEntry → x.IsEntry →
      ¬ (y.user = x.user ∧ y.event = x.event) := by
    obtain ⟨hn, rfl⟩ := List.getElem?_eq_some_iff.1 hy
    have hperm := (List.getElem_cons_eraseIdx_perm hn).symm
    have honce := (hperm.pairwise_iff fun {x y} hxy hy hx heq => hxy hx hy ⟨heq.1.symm, heq.2.symm⟩).1
      hi.once
    exact (List.pairwise_cons.1 honce).1
  refine ⟨listedByName_attempt hi.listed hkind, hi.tapped_append (fun _ _ _ h => by cases h),
    fun x hx => hi.net x (hsub.subset hx), hi.once.sublist hsub, fun x hx hx' => ?_,
    fun x accepted' db db' hx => ?_, fun u event hu => ?_⟩
  · refine (lookup_entryPath_attempt hkind fun h => ?_).trans (hi.missing x (hsub.subset hx) hx')
    exact hother x hx h.1 hx' h.2
  · rcases arrives_append_iff.1 hx with hx | hx
    · exact hi.arrived x accepted' db db' hx
    · obtain ⟨rfl, rfl, rfl, rfl⟩ := (arrives_arrive_iff hy).1 hx
      exact ⟨htapped, hentry, hupdate⟩
  · show ((attempt s.db (y.write, accepted)).lookup _).isSome ↔ _
    simp only [arrives_append_iff, arrives_arrive_iff hy]
    by_cases hne : y.IsEntry ∧ y.user = u ∧ y.event = event
    · obtain ⟨hy', rfl, rfl⟩ := hne
      cases accepted with
      | true =>
        exact iff_of_true ((hentry hy').gained rfl).2
          ⟨y, s.db, _, .inr ⟨rfl, rfl, rfl, rfl⟩, hy', rfl, rfl⟩
      | false =>
        rw [(hentry hy').rejected rfl, hi.held _ _ hu]
        simp
    · rw [lookup_entryPath_attempt hkind hne, hi.held u event hu]
      constructor
      · rintro ⟨x, db, db', hx, hrest⟩
        exact ⟨x, db, db', .inl hx, hrest⟩
      · rintro ⟨x, db, db', hx | ⟨rfl, -⟩, hrest⟩
        · exact ⟨x, db, db', hx, hrest⟩
        · exact absurd hrest hne

/-- **Every step keeps the invariant.** -/
theorem step (hi : SettleInv h s) (ht : settleStep s a = some t) : SettleInv (h ++ [(s, a)]) t := by
  cases a with
  | create e =>
    obtain ⟨w, hw, rfl⟩ := Option.map_eq_some_iff.1 ht
    obtain ⟨p, hp, rfl⟩ := VolunteerPage.saveEventToFirestore_cases hw
    refine hi.of_volunteer (listedByName_insert hi.listed hp) (fun _ _ _ h => by cases h)
      (fun _ _ h => by cases h) fun u event => AList.lookup_insert_ne ?_
    rw [prefix_of_doc hp]
    simp [entryPath]
  | delete eventName =>
    obtain ⟨w, hw, rfl⟩ := Option.map_eq_some_iff.1 ht
    obtain ⟨p, hp, rfl⟩ := VolunteerPage.deleteTask_cases hw
    refine hi.of_volunteer (listedByName_erase hi.listed) (fun _ _ _ h => by cases h)
      (fun _ _ h => by cases h) fun u event => AList.lookup_erase_ne ?_
    rw [prefix_of_doc hp]
    simp [entryPath]
  | tap intl u event => exact hi.tap ht
  | arrive n accepted => exact hi.arrive ht

end SettleInv

/-! ## Runs -/

/-- **How the taps of every run settle.** -/
theorem tapSettles_run (hdb : ListedByName db) (as : List SettleAction) :
    TapsSettle (taken settleStep (.start db) as) (exec settleStep (.start db) as) := by
  have hrun : (∀ x ∈ taken settleStep (.start db) as, ListedByName x.1.db) ∧
      SettleInv (taken settleStep (.start db) as) (exec settleStep (.start db) as) := by
    refine history_invariant (P := fun h s => (∀ x ∈ h, ListedByName x.1.db) ∧ SettleInv h s)
      ⟨by simp, .start hdb⟩ (fun h s a t hi ht => ⟨?_, hi.2.step ht⟩) as
    simp only [List.forall_mem_append, List.forall_mem_singleton]
    exact ⟨hi.1, hi.2.listed⟩
  obtain ⟨hlisted, hi⟩ := hrun
  refine ⟨fun s₀ intl u event hmem t ht => tapIssues_step (hlisted _ hmem) ht,
    fun x accepted db db' hx => (hi.arrived x accepted db db' hx).2.1,
    fun y accepted db db' hy => (hi.arrived y accepted db db' hy).2.2,
    fun s₀ intl u event hmem => hi.held u event ((hi.tapped u event).2 ⟨s₀, intl, hmem⟩), ?_⟩
  intro x y entryOk updateOk db₁ db₁' db₂ db₂' hx hentry hy hupdate hevent
  exact allOrNothing_iff ((hi.arrived x entryOk db₁ db₁' hx).2.1 hentry)
    ((hi.arrived y updateOk db₂ db₂' hy).2.2 hupdate) hevent

theorem listedByName_empty : ListedByName ∅ := fun _ _ hd => (by cases hd)

/-- Ann signs up, her entry arrives, and the event is deleted before the update does. -/
def deletedMeanwhile : List SettleAction :=
  [.create foodDrive, .tap marchThird ann foodDriveId, .arrive 0 true, .delete "Food Drive",
   .arrive 0 true]

theorem tapSettles_run_deletedMeanwhile :
    TapsSettle (taken settleStep (.start ∅) deletedMeanwhile)
      (exec settleStep (.start ∅) deletedMeanwhile) :=
  tapSettles_run listedByName_empty deletedMeanwhile

/-- Ann's writes, and the stores before and after they arrive. -/
def annsEntry : SentWrite := ⟨ann, foodDriveId, 2, .set (entryPath ann foodDriveId) foodDrive.doc⟩

def annsUpdate : SentWrite := ⟨ann, foodDriveId, 2, countUpdate foodDriveId 2⟩

def afterSteps (n : Nat) : Db := (exec settleStep (.start ∅) (deletedMeanwhile.take n)).db

theorem annsEntry_arrives :
    Arrives (taken settleStep (.start ∅) deletedMeanwhile) annsEntry true (afterSteps 2)
      (afterSteps 3) :=
  ⟨exec settleStep (.start ∅) (deletedMeanwhile.take 2), 0, _, .tail _ (.tail _ (.head _)), rfl, rfl,
    rfl, rfl⟩

theorem annsUpdate_arrives :
    Arrives (taken settleStep (.start ∅) deletedMeanwhile) annsUpdate true (afterSteps 4)
      (afterSteps 5) :=
  ⟨exec settleStep (.start ∅) (deletedMeanwhile.take 4), 0, _,
    .tail _ (.tail _ (.tail _ (.tail _ (.head _)))), rfl, rfl, rfl, rfl⟩

/-- Her entry is written, and no seat is taken. -/
theorem deleted_meanwhile :
    ¬ ∀ x y entryOk updateOk db₁ db₁' db₂ db₂',
      Arrives (taken settleStep (.start ∅) deletedMeanwhile) x entryOk db₁ db₁' → x.IsEntry →
      Arrives (taken settleStep (.start ∅) deletedMeanwhile) y updateOk db₂ db₂' → y.IsUpdate →
        y.user = x.user → y.event = x.event → AllOrNothing x.user x.event db₁ db₁' db₂ db₂' := by
  intro hlaw
  rcases hlaw annsEntry annsUpdate true true _ _ _ _ annsEntry_arrives ⟨_, rfl⟩ annsUpdate_arrives rfl
    rfl rfl with ⟨-, k, hk, -⟩ | ⟨hsame, -⟩
  · have hgone : storedCount (afterSteps 4) foodDriveId = none := by decide
    rw [show annsEntry.event = foodDriveId from rfl, hgone] at hk
    cases hk
  · have hnone : ((afterSteps 2).lookup (entryPath ann foodDriveId)).isSome = false := by decide
    have hsome : ((afterSteps 3).lookup (entryPath ann foodDriveId)).isSome = true := by decide
    have hsame' : (afterSteps 3).lookup (entryPath ann foodDriveId) =
      (afterSteps 2).lookup (entryPath ann foodDriveId) := hsame
    rw [hsame', hnone] at hsome
    cases hsome

end TheHive
