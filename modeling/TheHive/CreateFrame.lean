import TheHive.Lib.Transition
import TheHive.CalendarDelete

/-!
# Creating never destroys

Creates, sign-ups, joins and deletes of any users on any store, one after the other.

* `storeWrites`, `storeStep` — the writes of an action on the store as it is.
* `StepLaw` — a create leaves every document as it was; a document below `club` or `volunteer`
  loses a field only through a delete of it, its count also through a sign-up.  `CreateFrame` —
  the same at every step of a run, and from its start to its end.
* `create_law`, `signUp_law`, `joinClub_law`, `delete_law` — when one kind of action keeps the
  law.
* `kept_of_stepLaw` — what a run may do to a document when each of its steps keeps the law.
* `createFrame_iff` — **a run keeps the law exactly when every create finds its path unused, or
  holding the same document, and every delete from My Calendar hits the document of its tile**.
* `second_create_overwrites` — a second club of the same name.
-/

set_option autoImplicit false

namespace TheHive

open DocStore Transition

inductive StoreAction where
  | submitClub (clubName clubDes clubAdvisor : String)
  | addClubEvent (clubName : DocId) (e : ClubEvent)
  | addVolunteerEvent (e : VolunteerEvent)
  | signUp (t : VolunteerEventTile)
  | joinClub (currentUser : Option User) (auto : AutoId) (club : ClubTile)
  | deleteVolunteerEvent (eventName : String)
  | deleteClubEvent (eventName : String)
  /-- On the tile of My Calendar rendered from the document at `p`. -/
  | deleteFromCalendar (mode : BareId) (p : Path) (eventName : String)

def storeWrites (intl : Intl) (db : Db) : StoreAction → List Write
  | .submitClub clubName clubDes clubAdvisor =>
    (CreateAClub.submit clubName clubDes clubAdvisor).toList
  | .addClubEvent clubName e => (ClubCalendarPage.saveEventToFirestore clubName e).toList
  | .addVolunteerEvent e => (VolunteerPage.saveEventToFirestore e).toList
  | .signUp t => t.onTap intl
  | .joinClub currentUser auto club => (ClubOutline.joinClub currentUser auto club db).toList
  | .deleteVolunteerEvent eventName => (VolunteerPage.deleteTask eventName).toList
  | .deleteClubEvent eventName => (ClubCalendarPage.deleteTask eventName).toList
  | .deleteFromCalendar mode _ eventName => (CalendarPage.deleteTask mode eventName db).toList

def storeStep (intl : Intl) (db : Db) (a : StoreAction) : Option Db :=
  some (commit (storeWrites intl db a) db)

/-! ## The law of a step -/

namespace StoreAction

def IsCreate : StoreAction → Prop
  | submitClub _ _ _ | addClubEvent _ _ | addVolunteerEvent _ => True
  | _ => False

def IsSignUp : StoreAction → Prop
  | signUp _ => True
  | _ => False

/-- The action is a delete of the document at `p`. -/
def Deletes (p : Path) : StoreAction → Prop
  | deleteVolunteerEvent eventName => doc ["volunteer"] eventName = some p
  | deleteClubEvent eventName => doc ["events"] eventName = some p
  | deleteFromCalendar _ q _ => q = p
  | _ => False

end StoreAction

/-- A document below `club` or `volunteer`: a club, a post or an event of a club, a volunteer
event. -/
def InApp (p : Path) : Prop := p.head? = some "club" ∨ p.head? = some "volunteer"

/-- Every document is still there, with the same fields. -/
def Preserves (db db' : Db) : Prop := ∀ p d, db.lookup p = some d → db'.lookup p = some d

/-- What one action may do to the documents that were there. -/
structure StepLaw (db : Db) (a : StoreAction) (db' : Db) : Prop where
  create : a.IsCreate → Preserves db db'
  lose : ∀ p d, InApp p → db.lookup p = some d → ¬ a.Deletes p →
    ∃ d', db'.lookup p = some d' ∧ ∀ f, d' f ≠ d f → a.IsSignUp ∧ f = .numberOfPeople

/-- The law of a run: every step keeps the law, and from the start of the run to its end a
document below `club` or `volunteer` loses a field only if a step deletes it, its count also if
a step is a sign-up. -/
structure CreateFrame (intl : Intl) (db : Db) (as : List StoreAction) : Prop where
  step : ∀ x ∈ taken (storeStep intl) db as,
    StepLaw x.1 x.2 (commit (storeWrites intl x.1 x.2) x.1)
  run : ∀ p d, InApp p → db.lookup p = some d →
    (∀ x ∈ taken (storeStep intl) db as, ¬ x.2.Deletes p) →
      ∃ d', (exec (storeStep intl) db as).lookup p = some d' ∧
        ∀ f, d' f ≠ d f →
          f = .numberOfPeople ∧ ∃ x ∈ taken (storeStep intl) db as, x.2.IsSignUp

/-- The path of a set is unused, or holds the document that is written. -/
def FreePath (db : Db) (w : Write) : Prop :=
  match w with
  | .set p d => ∀ old, db.lookup p = some old → old = d
  | _ => True

/-- The condition on an action. -/
def Harmless (intl : Intl) (db : Db) (a : StoreAction) : Prop :=
  match a with
  | .submitClub _ _ _ | .addClubEvent _ _ | .addVolunteerEvent _ =>
    ∀ w ∈ storeWrites intl db a, FreePath db w
  | .deleteFromCalendar mode p eventName =>
    ∀ q, IsHit mode eventName q → (db.lookup q).isSome →
      (∀ q', IsHit mode eventName q' → (db.lookup q').isSome → q ≤ q') → InApp q → q = p
  | _ => True

variable {intl : Intl} {db db' : Db} {a : StoreAction}

theorem Preserves.refl (db : Db) : Preserves db db := fun _ _ h => h

/-- What keeps every document keeps the law. -/
theorem Preserves.law (h : Preserves db db') : StepLaw db a db' :=
  ⟨fun _ => h, fun p d _ hd _ => ⟨d, h p d hd, fun _ hne => absurd rfl hne⟩⟩

/-- **A set keeps every document exactly when its path is free.** -/
theorem preserves_set_iff {p : Path} {d : Doc} :
    Preserves db (commit [.set p d] db) ↔ FreePath db (.set p d) := by
  constructor
  · intro h old hold
    have hset := h p old hold
    change (db.insert p d).lookup p = some old at hset
    rw [AList.lookup_insert] at hset
    exact (Option.some.inj hset).symm
  · intro h q d' hq
    show (db.insert p d).lookup q = some d'
    by_cases hqp : q = p
    · subst hqp
      rw [AList.lookup_insert, h d' hq]
    · rw [AList.lookup_insert_ne hqp, hq]

/-! ## The kinds of actions -/

/-- A create is one set, if its name gives a path. -/
theorem create_cases (intl : Intl) (db : Db) (ha : a.IsCreate) :
    storeWrites intl db a = [] ∨ ∃ p d, storeWrites intl db a = [.set p d] := by
  have hcases : ∀ o : Option Write, (∀ w, o = some w → ∃ p d, w = .set p d) →
      o.toList = [] ∨ ∃ p d, o.toList = [.set p d] := by
    intro o ho
    cases o with
    | none => exact .inl rfl
    | some w =>
      obtain ⟨p, d, rfl⟩ := ho w rfl
      exact .inr ⟨p, d, rfl⟩
  cases a with
  | submitClub clubName clubDes clubAdvisor =>
    refine hcases _ fun w hw => ?_
    obtain ⟨p, -, rfl⟩ := CreateAClub.submit_cases hw
    exact ⟨p, _, rfl⟩
  | addVolunteerEvent e =>
    refine hcases _ fun w hw => ?_
    obtain ⟨p, -, rfl⟩ := VolunteerPage.saveEventToFirestore_cases hw
    exact ⟨p, _, rfl⟩
  | addClubEvent clubName e =>
    refine hcases _ fun w hw => ?_
    obtain ⟨p, -, rfl⟩ := ClubCalendarPage.saveEventToFirestore_cases hw
    exact ⟨p, _, rfl⟩
  | _ => cases ha

/-- **A create keeps the law exactly when its path is free.** -/
theorem create_law (ha : a.IsCreate) :
    StepLaw db a (commit (storeWrites intl db a) db) ↔
      ∀ w ∈ storeWrites intl db a, FreePath db w := by
  rcases create_cases intl db ha with hw | ⟨p, d, hw⟩
  · rw [hw]
    exact iff_of_true (Preserves.refl db).law fun w hw => by cases hw
  · rw [hw, List.forall_mem_singleton, ← preserves_set_iff]
    exact ⟨fun h => h.create ha, fun h => h.law⟩

/-- The writes of a sign-up: an entry below `Users`, then an update of a count. -/
theorem onTap_cases (intl : Intl) (t : VolunteerEventTile) :
    t.onTap intl = [] ∨ ∃ (p : Path) (d : Doc) (ws : List Write), p.head? = some "Users" ∧
      t.onTap intl = .set p d :: ws ∧
      (ws = [] ∨ ∃ q c, ws = [.update q (Doc.ofList [(.numberOfPeople, .int c)])]) := by
  unfold VolunteerEventTile.onTap
  split
  · exact .inl rfl
  · split
    · exact .inl rfl
    · rename_i add hadd
      simp only [VolunteerEventTile.addEventToMyCalendar, Option.bind_eq_bind,
        Option.bind_eq_some_iff, Option.pure_def, Option.some.injEq] at hadd
      obtain ⟨u, _, user, huser, p, hp, rfl⟩ := hadd
      rw [doc_users, Option.some.injEq] at huser
      refine .inr ⟨p, _, _, ?_, rfl, ?_⟩
      · rw [prefix_of_doc hp, ← huser]
        rfl
      · unfold VolunteerEventTile.decrementNumberOfPeople
        split
        · cases doc ["volunteer"] t.eventName with
          | none => exact .inl rfl
          | some q => exact .inr ⟨q, _, rfl⟩
        · exact .inl rfl

/-- **A sign-up keeps the law**: it changes nothing below `club` and `volunteer` but a count. -/
theorem signUp_law (t : VolunteerEventTile) :
    StepLaw db (.signUp t) (commit (t.onTap intl) db) := by
  refine ⟨fun h => (by cases h), fun p d hp hd _ => ?_⟩
  rcases onTap_cases intl t with hw | ⟨q, e, ws, hq, hw, hws⟩
  · rw [hw]
    exact ⟨d, hd, fun _ hne => absurd rfl hne⟩
  · have hpq : p ≠ q := by
      rintro rfl
      unfold InApp at hp
      rw [hq] at hp
      simp at hp
    have hd₁ : (db.insert q e).lookup p = some d := by
      rw [AList.lookup_insert_ne hpq, hd]
    rw [hw]
    rcases hws with rfl | ⟨r, c, rfl⟩
    · exact ⟨d, hd₁, fun _ hne => absurd rfl hne⟩
    · by_cases hpr : p = r
      · subst hpr
        refine ⟨d.overwrite (Doc.ofList [(.numberOfPeople, .int c)]), ?_, fun f hf => ⟨trivial, ?_⟩⟩
        · show ((Write.update p _).settle (db.insert q e)).lookup p = _
          rw [Write.settle, Write.apply_update hd₁]
          exact AList.lookup_insert _
        · by_contra hne
          refine hf ?_
          show ((Doc.ofList [(Field.numberOfPeople, Value.int c)]) f).or (d f) = d f
          rw [Doc.ofList_cons_ne hne]
          rfl
      · refine ⟨d, ?_, fun _ hne => absurd rfl hne⟩
        show ((Write.update r _).settle (db.insert q e)).lookup p = _
        rw [Write.settle_frame hpr, hd₁]

/-- **A join keeps the law**: it only writes a document that is not there. -/
theorem joinClub_law (currentUser : Option User) (auto : AutoId) (club : ClubTile) :
    StepLaw db (.joinClub currentUser auto club)
      (commit (ClubOutline.joinClub currentUser auto club db).toList db) := by
  simp only [ClubOutline.joinClub]
  split
  · exact (Preserves.refl db).law
  · rename_i hnot
    refine Preserves.law (preserves_set_iff.2 fun old hold => ?_)
    rw [hold] at hnot
    exact absurd rfl hnot

/-- **A delete keeps the law exactly when** it deletes nothing below `club` and `volunteer` but
what it is a delete of. -/
theorem delete_law {w : Option Write} (ha : ¬ a.IsCreate)
    (hw : ∀ v, w = some v → ∃ q, v = .delete q) :
    StepLaw db a (commit w.toList db) ↔
      ∀ q, w = some (.delete q) → (db.lookup q).isSome → InApp q → a.Deletes q := by
  cases w with
  | none => exact iff_of_true (Preserves.refl db).law fun q hq => by cases hq
  | some v =>
    obtain ⟨q, rfl⟩ := hw v rfl
    constructor
    · rintro h q' hq' hstored happ
      cases hq'
      by_contra hnot
      obtain ⟨d, hd⟩ := Option.isSome_iff_exists.1 hstored
      obtain ⟨d', hd', -⟩ := h.lose q d happ hd hnot
      change (db.erase q).lookup q = some d' at hd'
      rw [AList.lookup_erase] at hd'
      cases hd'
    · intro h
      refine ⟨fun hc => absurd hc ha, fun p d happ hd hnot => ⟨d, ?_, fun _ hne => absurd rfl hne⟩⟩
      show (db.erase q).lookup p = some d
      have hpq : p ≠ q := by
        rintro rfl
        exact hnot (h p rfl (by rw [hd]; rfl) happ)
      rw [AList.lookup_erase_ne hpq, hd]

/-- A delete that names its document keeps the law. -/
theorem deleteNamed_law {w : Option Write} (ha : ¬ a.IsCreate)
    (hw : ∀ v, w = some v → ∃ p, a.Deletes p ∧ v = .delete p) :
    StepLaw db a (commit w.toList db) := by
  refine (delete_law ha fun v hv => ?_).2 fun q hq _ _ => ?_
  · obtain ⟨p, -, rfl⟩ := hw v hv
    exact ⟨p, rfl⟩
  · obtain ⟨p, hp, heq⟩ := hw _ hq
    cases heq
    exact hp

/-- **One step keeps the law exactly when it is harmless.** -/
theorem stepLaw_iff : StepLaw db a (commit (storeWrites intl db a) db) ↔ Harmless intl db a := by
  cases a with
  | submitClub clubName clubDes clubAdvisor => exact create_law trivial
  | addClubEvent clubName e => exact create_law trivial
  | addVolunteerEvent e => exact create_law trivial
  | signUp t => exact iff_of_true (signUp_law t) trivial
  | joinClub currentUser auto club => exact iff_of_true (joinClub_law currentUser auto club) trivial
  | deleteVolunteerEvent eventName =>
    exact iff_of_true (deleteNamed_law id fun _ h => VolunteerPage.deleteTask_cases h) trivial
  | deleteClubEvent eventName =>
    exact iff_of_true (deleteNamed_law id fun _ h => ClubCalendarPage.deleteTask_cases h) trivial
  | deleteFromCalendar mode p eventName =>
    have hdelete : ∀ v, CalendarPage.deleteTask mode eventName db = some v → ∃ q, v = .delete q :=
      fun v hv => by
        obtain ⟨q, hq, -⟩ := deleteTask_eq_some_iff.1 hv
        exact ⟨q, hq⟩
    refine (delete_law id hdelete).trans ?_
    constructor
    · intro h q hhit hstored hleast happ
      exact (h q (deleteTask_eq_some_iff.2 ⟨q, rfl, ⟨hhit, hstored⟩, hleast⟩) hstored happ).symm
    · intro h q hq hstored happ
      obtain ⟨q', hqq', ⟨hhit, -⟩, hleast⟩ := deleteTask_eq_some_iff.1 hq
      cases hqq'
      exact (h q hhit hstored hleast happ).symm

/-! ## Runs -/

/-- **A document outlives a run of lawful steps that does not delete it**, with all its fields
but for a count that sign-ups may have changed. -/
theorem kept_of_stepLaw {p : Path} {d : Doc} (happ : InApp p) (hd : db.lookup p = some d)
    (as : List StoreAction) :
    (∀ x ∈ taken (storeStep intl) db as,
        StepLaw x.1 x.2 (commit (storeWrites intl x.1 x.2) x.1) ∧ ¬ x.2.Deletes p) →
      ∃ d', (exec (storeStep intl) db as).lookup p = some d' ∧
        ∀ f, d' f ≠ d f →
          f = .numberOfPeople ∧ ∃ x ∈ taken (storeStep intl) db as, x.2.IsSignUp := by
  induction as generalizing db d with
  | nil =>
    intro _
    exact ⟨d, hd, fun _ hne => absurd rfl hne⟩
  | cons a as ih =>
    intro h
    change ∀ x ∈ (db, a) :: taken (storeStep intl) (commit (storeWrites intl db a) db) as, _ at h
    obtain ⟨⟨hlaw, hnot⟩, hrest⟩ := List.forall_mem_cons.1 h
    obtain ⟨d₁, hd₁, hstep⟩ := hlaw.lose p d happ hd hnot
    obtain ⟨d', hd', hrun⟩ := ih hd₁ hrest
    refine ⟨d', hd', fun f hne => ?_⟩
    by_cases hf : d' f = d₁ f
    · -- the field was changed by the first step
      rw [hf] at hne
      exact ⟨(hstep f hne).2, _, List.mem_cons_self, (hstep f hne).1⟩
    · obtain ⟨hcount, x, hx, hsignUp⟩ := hrun f hf
      exact ⟨hcount, x, List.mem_cons_of_mem _ hx, hsignUp⟩

/-- **A run keeps the law exactly when all its steps are harmless.** -/
theorem createFrame_iff (intl : Intl) (db : Db) (as : List StoreAction) :
    CreateFrame intl db as ↔ ∀ x ∈ taken (storeStep intl) db as, Harmless intl x.1 x.2 := by
  have hsteps : (∀ x ∈ taken (storeStep intl) db as,
      StepLaw x.1 x.2 (commit (storeWrites intl x.1 x.2) x.1)) ↔
        ∀ x ∈ taken (storeStep intl) db as, Harmless intl x.1 x.2 :=
    taken_iff_taken (I := fun _ => True)
      (G := fun db a => StepLaw db a (commit (storeWrites intl db a) db)) trivial
      (fun _ _ _ _ _ => trivial) (fun _ _ _ _ _ => stepLaw_iff) as
  constructor
  · intro h
    exact hsteps.1 h.step
  · intro h
    have hlaw := hsteps.2 h
    refine ⟨hlaw, fun p d happ hd hnot => ?_⟩
    exact kept_of_stepLaw happ hd as fun x hx => ⟨hlaw x hx, hnot x hx⟩

/-- Two clubs submitted under one name. -/
def secondChess : List StoreAction :=
  [.submitClub "Chess" "Chess on Fridays" "Ms. King",
    .submitClub "Chess" "Chess on Mondays" "Mr. Rook"]

/-- The second submission overwrites the first club. -/
theorem second_create_overwrites : ¬ CreateFrame marchThird ∅ secondChess := by
  intro h
  have hsecond := h.step _ (List.mem_cons_of_mem _ List.mem_cons_self)
  have hfirst := hsecond.create trivial ["club", "Chess"]
    (CreateAClub.clubDoc "Chess" "Chess on Fridays" "Ms. King") rfl
  have hdes := congrArg (Option.map fun d : Doc => d .clubDes) hfirst
  exact absurd hdes (by decide)

end TheHive
