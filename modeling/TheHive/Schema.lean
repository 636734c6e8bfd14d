import TheHive.Lib.DocStore

/-!
# Documents, users and dates

* `Field`, `Value` — the field names the app writes or reads, and the values it stores in them.
* `Doc.str`, `Doc.int`, `Doc.timestamp` — reading a field of a `Map<String, dynamic>` at the
  type the code needs; a missing or differently typed field raises (`none`).
* `User` — the account `FirebaseAuth.instance.currentUser` stands for.
* `Intl` — the date formats of the `intl` package on one device.
-/

set_option autoImplicit false

namespace TheHive

open DocStore

/-- Field names. -/
inductive Field where
  | eventName | eventDes | eventDate | eventTime | startTime | endTime | numberOfPeople
  | eventLocation
  | clubName | clubDes | clubDescription | clubAdvisor | clubEmail
  | email | username | selectedSchool | timestamp
  | userEmail | postMessage | timeStamp
  deriving DecidableEq, Repr

/-- An instant, in microseconds since the epoch. -/
abbrev Timestamp := Int

inductive Value where
  | str (s : String)
  | int (n : Int)
  | timestamp (t : Timestamp)
  deriving DecidableEq, Repr

abbrev Doc := DocStore.Doc Field Value
abbrev Db := DocStore.Db Field Value
abbrev Write := DocStore.Write Field Value

def Doc.str (d : Doc) (f : Field) : Option String :=
  match d f with
  | some (.str s) => some s
  | _ => none

def Doc.int (d : Doc) (f : Field) : Option Int :=
  match d f with
  | some (.int n) => some n
  | _ => none

def Doc.timestamp (d : Doc) (f : Field) : Option Timestamp :=
  match d f with
  | some (.timestamp t) => some t
  | _ => none

/-- A signed-in user.  Accounts are keyed by an e-mail address that is one path segment. -/
structure User where
  email : String
  email_ok : IsDocId email
  email_at : '@' ∈ email.toList

theorem User.email_injective {u v : User} (h : u.email = v.email) : u = v := by
  cases u; cases v; cases h; rfl

instance : DecidableEq User := fun u v =>
  decidable_of_iff (u.email = v.email) ⟨User.email_injective, congrArg User.email⟩

/-- An id that `add`, or `doc` without a path, generates: letters and digits. -/
structure AutoId where
  val : String
  ok : IsDocId val
  no_at : '@' ∉ val.toList

instance : DecidableEq AutoId := fun i j =>
  decidable_of_iff (i.val = j.val) ⟨fun h => by cases i; cases j; cases h; rfl, congrArg AutoId.val⟩

theorem AutoId.val_injective {i j : AutoId} (h : i.val = j.val) : i = j := by
  cases i; cases j; cases h; rfl

theorem User.email_ne_autoId (u : User) (auto : AutoId) : u.email ≠ auto.val := by
  intro h
  have hat := u.email_at
  rw [h] at hat
  exact auto.no_at hat

@[simp] theorem doc_users (u : User) : doc ["Users"] u.email = some ["Users", u.email] :=
  doc_of_isDocId u.email_ok rfl

/-! Two sample users and a generated id. -/

def ann : User := ⟨"ann@school.org", by decide, by decide⟩
def bob : User := ⟨"bob@school.org", by decide, by decide⟩

def sampleAutoId : AutoId := ⟨"Zk3vTq8LwXb1RnYc5HfM", by decide, by decide⟩

inductive DatePattern where
  | ddMMyyyy
  | MMddyyyy
  deriving DecidableEq, Repr

/-- `DateFormat(pattern).format(timestamp.toDate())` and `DateFormat(pattern).parse(text)` in
the time zone of one device; `parse` throws (`none`) on a text it cannot read. -/
structure Intl where
  format : DatePattern → Timestamp → String
  parse : DatePattern → String → Option Timestamp

/-- `parse` reads the fields in pattern order and accepts values that are not strictly valid, so
it does not throw on a date printed with the day and the month the other way round. -/
def Intl.Lenient (intl : Intl) : Prop :=
  ∀ t, (intl.parse .MMddyyyy (intl.format .ddMMyyyy t)).isSome

/-- A device whose formats are known at one date only. -/
def Intl.only (text : String) (t : Timestamp) : Intl := ⟨fun _ _ => text, fun _ _ => some t⟩

theorem Intl.lenient_only (text : String) (t : Timestamp) : (Intl.only text t).Lenient :=
  fun _ => rfl

end TheHive
