import TheHive.CapturedUser

/-!
# The profile of a registered user

The registration writes the profile document without being awaited, and the school page merges
the choice into it.  The user may choose schools on any number of devices; each device sends its
writes in order, and the devices are not in step with each other.

* `RegisterPage.createUserDocument` — the write of the registration; it replaces the document.
* `profileStep` — a choice joins the queue of its device, the head of a queue arrives.
* `BeforeRegistration`, `AfterRegistration` — the registration is the head of its queue, or the
  document holds the registered texts and the last school that arrived since.
* `profileKept_iff` — **once all writes have arrived, the profile holds the registered e-mail and
  name and the last school exactly when the registration was not the last write to arrive**.
* `late_registration_loses_school` — a second phone is faster than the one that registered.
-/

set_option autoImplicit false

namespace TheHive

open DocStore Transition

namespace RegisterPage

/-- A full write of the two fields. -/
def profileDoc (user : User) (username : String) : Doc :=
  Doc.ofList [(.email, .str user.email), (.username, .str username)]

/-- Nothing is written without a user in the credential. -/
def createUserDocument (user : Option User) (username : String) : Option Write := do
  let user ← user
  let users ← doc ["Users"] user.email
  return .set users (profileDoc user username)

end RegisterPage

/-! ## Devices and their queues -/

variable {ι : Type*} [DecidableEq ι]

structure ProfileRun (ι : Type*) where
  db : Db
  /-- The writes each device has issued and the server has not seen, in order. -/
  net : ι → List Write
  /-- The writes that have arrived, in order. -/
  arrived : List Write

inductive ProfileAction (ι : Type*) where
  | chooseSchool (i : ι) (school : String) (now : Timestamp)
  | arrive (i : ι)

/-- The device `registering` has just created the account. -/
def ProfileRun.start (u : User) (username : String) (registering : ι) (db : Db) : ProfileRun ι :=
  ⟨db, Function.update (fun _ => []) registering
    (RegisterPage.createUserDocument (some u) username).toList, []⟩

def profileStep (u : User) (s : ProfileRun ι) : ProfileAction ι → Option (ProfileRun ι)
  | .chooseSchool i school now =>
    (ChooseSchoolPage.saveSchoolToFirestore (some u) school now).map fun w =>
      { s with net := Function.update s.net i (s.net i ++ [w]) }
  | .arrive i =>
    match s.net i with
    | [] => none
    | w :: ws => some ⟨w.settle s.db, Function.update s.net i ws, s.arrived ++ [w]⟩

/-- The write of the registration. -/
def registration (u : User) (username : String) : Write :=
  .set ["Users", u.email] (RegisterPage.profileDoc u username)

/-- The school a write brings. -/
def schoolOf : Write → Option String
  | .setMerge _ d => Doc.str d .selectedSchool
  | _ => none

/-- The school of the last choice among the writes. -/
def lastSchool (ws : List Write) : Option String := (ws.filterMap schoolOf).getLast?

def AllArrived (s : ProfileRun ι) : Prop := ∀ i, s.net i = []

/-- The document holds what the user registered with, and the school that arrived last. -/
def ProfileKept (u : User) (username : String) (s : ProfileRun ι) : Prop :=
  ∃ d school, s.db.lookup ["Users", u.email] = some d ∧ lastSchool s.arrived = some school ∧
    Doc.str d .email = some u.email ∧ Doc.str d .username = some username ∧
      Doc.str d .selectedSchool = some school

variable {u : User} {username : String} {registering : ι} {db : Db} {s t : ProfileRun ι}
  {a : ProfileAction ι} {w : Write}

/-! ## The writes -/

theorem createUserDocument_eq :
    RegisterPage.createUserDocument (some u) username = some (registration u username) := by
  simp [RegisterPage.createUserDocument, registration]

/-- The write of a choice of this user. -/
def IsChoice (u : User) (w : Write) : Prop :=
  ∃ school now, w = .setMerge ["Users", u.email]
    (Doc.ofList [(.selectedSchool, .str school), (.timestamp, .timestamp now)])

theorem isChoice_of_saveSchool {school : String} {now : Timestamp}
    (hw : ChooseSchoolPage.saveSchoolToFirestore (some u) school now = some w) : IsChoice u w := by
  refine ⟨school, now, ?_⟩
  simpa [ChooseSchoolPage.saveSchoolToFirestore, eq_comm] using hw

theorem not_isChoice_registration : ¬ IsChoice u (registration u username) := by
  rintro ⟨school, now, h⟩
  cases h

theorem lastSchool_append (ws : List Write) (w : Write) :
    lastSchool (ws ++ [w]) = (schoolOf w).or (lastSchool ws) := by
  unfold lastSchool
  rw [List.filterMap_append]
  cases h : schoolOf w with
  | none => simp [h]
  | some school => simp [h]

/-- The last of a nonempty list of choices decides. -/
theorem lastSchool_append_choices (ws : List Write) {vs : List Write} (hne : vs ≠ [])
    (hvs : ∀ w ∈ vs, IsChoice u w) :
    lastSchool (ws ++ vs) = lastSchool vs ∧ ∃ school, lastSchool vs = some school := by
  obtain ⟨vs, w, rfl⟩ := (List.eq_nil_or_concat vs).resolve_left hne
  obtain ⟨school, now, rfl⟩ := hvs w (by simp)
  rw [List.concat_eq_append, ← List.append_assoc, lastSchool_append, lastSchool_append]
  exact ⟨rfl, school, rfl⟩

/-- The document after the registration and some choices. -/
structure HoldsProfile (u : User) (username : String) (school : Option String) (d : Doc) : Prop where
  email : Doc.str d .email = some u.email
  username : Doc.str d .username = some username
  school : Doc.str d .selectedSchool = school

/-- A choice merges the school into the document and leaves the other two fields. -/
theorem HoldsProfile.settle {old : Option String} {d : Doc} (h : HoldsProfile u username old d)
    (hd : db.lookup ["Users", u.email] = some d) (hw : IsChoice u w) :
    ∃ d', (w.settle db).lookup ["Users", u.email] = some d' ∧
      HoldsProfile u username (schoolOf w) d' := by
  obtain ⟨school, now, rfl⟩ := hw
  refine ⟨_, AList.lookup_insert _, ?_⟩
  rw [hd]
  exact ⟨h.email, h.username, rfl⟩

/-! ## Before and after the registration has arrived -/

/-- The registration has not arrived. -/
structure BeforeRegistration (u : User) (username : String) (registering : ι) (s : ProfileRun ι) :
    Prop where
  head : ∃ ws, s.net registering = registration u username :: ws ∧ ∀ w ∈ ws, IsChoice u w
  others : ∀ i, i ≠ registering → ∀ w ∈ s.net i, IsChoice u w

/-- The registration has arrived, and the choices `post` after it. -/
structure AfterRegistration (u : User) (username : String) (s : ProfileRun ι) : Prop where
  net : ∀ i, ∀ w ∈ s.net i, IsChoice u w
  stored : ∃ pre post d, s.arrived = pre ++ registration u username :: post ∧
    (∀ w ∈ post, IsChoice u w) ∧ s.db.lookup ["Users", u.email] = some d ∧
      HoldsProfile u username (lastSchool post) d

theorem before_start (db : Db) :
    BeforeRegistration u username registering (.start u username registering db) := by
  refine ⟨⟨[], ?_, by simp⟩, fun i hne w hw => ?_⟩
  · rw [ProfileRun.start, createUserDocument_eq]
    show Function.update (fun _ => []) registering [registration u username] registering = _
    rw [Function.update_self]
  · change w ∈ Function.update (fun _ => []) registering _ i at hw
    rw [Function.update_of_ne hne] at hw
    cases hw

/-- One queue has changed. -/
theorem forall_mem_update {P : Write → Prop} {net : ι → List Write} {i j : ι} {ws : List Write}
    (hj : j ≠ i → ∀ v ∈ net j, P v) (hi : j = i → ∀ v ∈ ws, P v) :
    ∀ v ∈ Function.update net i ws j, P v := by
  by_cases hij : j = i
  · subst hij
    rw [Function.update_self]
    exact hi rfl
  · rw [Function.update_of_ne hij]
    exact hj hij

/-- A choice joins the end of a queue. -/
theorem forall_mem_chooseSchool {i j : ι} (hs : ∀ v ∈ s.net j, IsChoice u v) (hw : IsChoice u w) :
    ∀ v ∈ Function.update s.net i (s.net i ++ [w]) j, IsChoice u v := by
  refine forall_mem_update (fun _ => hs) ?_
  rintro rfl v hv
  rcases List.mem_append.1 hv with hv | hv
  · exact hs v hv
  · rw [List.mem_singleton.1 hv]
    exact hw

/-- The head of a queue leaves it. -/
theorem forall_mem_arrive {i j : ι} {ws : List Write} (hs : ∀ v ∈ s.net j, IsChoice u v)
    (hi : s.net i = w :: ws) : ∀ v ∈ Function.update s.net i ws j, IsChoice u v := by
  refine forall_mem_update (fun _ => hs) ?_
  rintro rfl v hv
  exact hs v (by rw [hi]; exact List.mem_cons_of_mem w hv)

theorem before_chooseSchool {i : ι} (h : BeforeRegistration u username registering s)
    (hw : IsChoice u w) :
    BeforeRegistration u username registering
      { s with net := Function.update s.net i (s.net i ++ [w]) } := by
  obtain ⟨ws, hhead, hws⟩ := h.head
  refine ⟨?_, fun j hj => forall_mem_chooseSchool (h.others j hj) hw⟩
  by_cases hi : registering = i
  · subst hi
    refine ⟨ws ++ [w], ?_, fun v hv => ?_⟩
    · show Function.update s.net registering _ registering = _
      rw [Function.update_self, hhead, List.cons_append]
    · rcases List.mem_append.1 hv with hv | hv
      · exact hws v hv
      · rw [List.mem_singleton.1 hv]
        exact hw
  · exact ⟨ws, (Function.update_of_ne hi ..).trans hhead, hws⟩

/-- **An arrival before the registration is in**: the registration, or a choice from another
device. -/
theorem before_arrive {i : ι} {ws : List Write} (h : BeforeRegistration u username registering s)
    (hi : s.net i = w :: ws) :
    BeforeRegistration u username registering
        ⟨w.settle s.db, Function.update s.net i ws, s.arrived ++ [w]⟩ ∨
      AfterRegistration u username
        ⟨w.settle s.db, Function.update s.net i ws, s.arrived ++ [w]⟩ := by
  obtain ⟨vs, hhead, hvs⟩ := h.head
  by_cases hreg : i = registering
  · subst hreg
    rw [hi] at hhead
    cases hhead
    exact .inr ⟨fun j => forall_mem_update (h.others j) fun _ => hvs,
      s.arrived, [], _, rfl, by simp, AList.lookup_insert _, rfl, rfl, rfl⟩
  · exact .inl ⟨⟨vs, (Function.update_of_ne (Ne.symm hreg) ..).trans hhead, hvs⟩,
      fun j hj => forall_mem_arrive (h.others j hj) hi⟩

/-- **An arrival after the registration is in** is a choice, and its school is stored. -/
theorem after_arrive {i : ι} {ws : List Write} (h : AfterRegistration u username s)
    (hi : s.net i = w :: ws) :
    AfterRegistration u username
      ⟨w.settle s.db, Function.update s.net i ws, s.arrived ++ [w]⟩ := by
  have hw : IsChoice u w := h.net i w (by rw [hi]; exact List.mem_cons_self)
  obtain ⟨pre, post, d, harrived, hpost, hd, hholds⟩ := h.stored
  refine ⟨fun j => forall_mem_arrive (h.net j) hi, ?_⟩
  obtain ⟨d', hd', hholds'⟩ := hholds.settle hd hw
  refine ⟨pre, post ++ [w], d', ?_, fun v hv => ?_, hd', ?_⟩
  · show s.arrived ++ [w] = _
    rw [harrived, List.append_assoc, List.cons_append]
  · rcases List.mem_append.1 hv with hv | hv
    · exact hpost v hv
    · rw [List.mem_singleton.1 hv]
      exact hw
  · obtain ⟨school, now, rfl⟩ := hw
    rw [lastSchool_append]
    exact hholds'

theorem profile_step
    (h : BeforeRegistration u username registering s ∨ AfterRegistration u username s)
    (ht : profileStep u s a = some t) :
    BeforeRegistration u username registering t ∨ AfterRegistration u username t := by
  cases a with
  | chooseSchool i school now =>
    obtain ⟨w, hw, rfl⟩ := Option.map_eq_some_iff.1 ht
    have hchoice := isChoice_of_saveSchool hw
    rcases h with h | h
    · exact .inl (before_chooseSchool h hchoice)
    · exact .inr ⟨fun j => forall_mem_chooseSchool (h.net j) hchoice, h.stored⟩
  | arrive i =>
    simp only [profileStep] at ht
    split at ht
    · cases ht
    · rename_i w ws hi
      cases ht
      rcases h with h | h
      · exact before_arrive h hi
      · exact .inr (after_arrive h hi)

/-! ## Runs -/

/-- **Once all writes have arrived**, the profile is kept exactly when the registration was not
the last write to arrive. -/
theorem profileKept_iff (u : User) (username : String) (registering : ι) (db : Db)
    (as : List (ProfileAction ι))
    (hall : AllArrived (exec (profileStep u) (.start u username registering db) as)) :
    ProfileKept u username (exec (profileStep u) (.start u username registering db) as) ↔
      (exec (profileStep u) (.start u username registering db) as).arrived.getLast? ≠
        some (registration u username) := by
  have hrun : BeforeRegistration u username registering
        (exec (profileStep u) (.start u username registering db) as) ∨
      AfterRegistration u username (exec (profileStep u) (.start u username registering db) as) :=
    exec_invariant
      (I := fun s => BeforeRegistration u username registering s ∨ AfterRegistration u username s)
      (.inl (before_start db)) (fun _ _ _ h ht => profile_step h ht) as
  generalize exec (profileStep u) (.start u username registering db) as = s at hall hrun
  rcases hrun with hbefore | hafter
  · obtain ⟨ws, hhead, -⟩ := hbefore.head
    rw [hall registering] at hhead
    cases hhead
  · obtain ⟨pre, post, d, harrived, hpost, hd, hholds⟩ := hafter.stored
    rw [harrived, ProfileKept, harrived]
    by_cases hnil : post = []
    · -- the registration came last: no school is stored
      subst hnil
      refine iff_of_false ?_ (by simp)
      rintro ⟨d', school, hd', -, -, -, hschool⟩
      rw [hd] at hd'
      cases hd'
      rw [hholds.school] at hschool
      cases hschool
    · -- a choice came last
      obtain ⟨hlast, school, hschool⟩ :=
        lastSchool_append_choices (pre ++ [registration u username]) hnil hpost
      rw [List.append_assoc, List.singleton_append] at hlast
      refine iff_of_true ?_ fun heq => ?_
      · exact ⟨d, school, hd, hlast.trans hschool, hholds.email, hholds.username,
          hholds.school.trans hschool⟩
      · have hmem : registration u username ∈ post := by
          rw [List.getLast?_append_cons, List.getLast?_cons] at heq
          have hsome := Option.some.inj heq
          cases hp : post.getLast? with
          | none => exact absurd (List.getLast?_eq_none_iff.1 hp) hnil
          | some v =>
            rw [hp, Option.getD_some] at hsome
            rw [← hsome]
            exact List.mem_of_getLast? hp
        exact not_isChoice_registration (hpost _ hmem)

/-- Ann registers on the first phone (`false`) and chooses her school on the second one, whose
write is faster. -/
def fasterPhone : List (ProfileAction Bool) :=
  [.chooseSchool true "Lynbrook" 0, .arrive true, .arrive false]

theorem allArrived_fasterPhone :
    AllArrived (exec (profileStep ann) (.start ann "Ann" false ∅) fasterPhone) := by
  intro i
  cases i <;> rfl

theorem profileKept_iff_fasterPhone :
    ProfileKept ann "Ann" (exec (profileStep ann) (.start ann "Ann" false ∅) fasterPhone) ↔
      (exec (profileStep ann) (.start ann "Ann" false ∅) fasterPhone).arrived.getLast? ≠
        some (registration ann "Ann") :=
  profileKept_iff ann "Ann" false ∅ fasterPhone allArrived_fasterPhone

/-- The late registration replaces the document with the school. -/
theorem late_registration_loses_school :
    AllArrived (exec (profileStep ann) (.start ann "Ann" false ∅) fasterPhone) ∧
      ¬ ProfileKept ann "Ann" (exec (profileStep ann) (.start ann "Ann" false ∅) fasterPhone) := by
  refine ⟨allArrived_fasterPhone, ?_⟩
  rintro ⟨d, school, hd, -, -, -, hschool⟩
  have hlast : (exec (profileStep ann) (.start ann "Ann" false ∅) fasterPhone).db.lookup
      ["Users", ann.email] = some (RegisterPage.profileDoc ann "Ann") := AList.lookup_insert _
  rw [hlast] at hd
  cases hd
  cases hschool

end TheHive
