import TheHive.Lib.ClockText
import TheHive.Clubs
import TheHive.Volunteer

/-!
# The forms of the two kinds of events

Add Event in the dialog of the Volunteer page and in that of a club's calendar: a chain of checks
on the typed texts, then the save.

* `intTryParse` — `int.tryParse`.
* `VolunteerPage.addEvent`, `ClubCalendarPage.addEvent` — the two handlers, on any content of the
  fields.
* `Passes`, `ClubPasses` — what the checks let through; `addEvent_saves_iff`,
  `clubAddEvent_saves_iff` — **a form is saved exactly when it passes**.
* `ValidForm` — what the Volunteer form is meant to accept on a device.
* `savesExactlyValid_iff` — **the form saves exactly the valid contents exactly when** what passes
  has at least one person and times as the device prints them, and what is valid comes from a
  12-hour device under a name that `doc` accepts; `Misjudged` — by the fields, the four kinds of
  forms where it does not (`checksFit_iff`).
* `formsAgree_iff` — **the two forms agree exactly when** the club's form refuses or the times can
  be read with the start first.
* `zero_people_saved`, `reversed_times_saved` — a sample of each disagreement.
-/

set_option autoImplicit false

namespace TheHive

open DocStore ClockText

/-! ## Integers -/

/-- The characters `trim` takes off. -/
def isDartSpace (c : Char) : Bool :=
  (0x09 ≤ c.toNat && c.toNat ≤ 0x0D) || (0x2000 ≤ c.toNat && c.toNat ≤ 0x200A) ||
    [0x20, 0x85, 0xA0, 0x1680, 0x2028, 0x2029, 0x202F, 0x205F, 0x3000, 0xFEFF].contains c.toNat

def trim (text : List Char) : List Char :=
  ((text.dropWhile isDartSpace).reverse.dropWhile isDartSpace).reverse

def digitValue (c : Char) : Option Nat :=
  if c.isDigit then some (c.toNat - '0'.toNat)
  else if 'a' ≤ c ∧ c ≤ 'f' then some (c.toNat - 'a'.toNat + 10)
  else if 'A' ≤ c ∧ c ≤ 'F' then some (c.toNat - 'A'.toNat + 10)
  else none

/-- The number a nonempty text of digits stands for. -/
def readRadix (radix : Nat) (text : List Char) : Option Nat :=
  if text.isEmpty then none
  else text.foldlM (fun n c => (digitValue c).bind fun d => if d < radix then some (radix * n + d) else none) 0

/-- The digits after the sign, in 64 bits; a hexadecimal literal without a minus wraps. -/
def readMagnitude (negative : Bool) (text : List Char) : Option Int :=
  let hex : Bool := match text with
    | '0' :: x :: _ => x == 'x' || x == 'X'
    | _ => false
  let magnitude := if hex then readRadix 16 (text.drop 2) else readRadix 10 text
  magnitude.bind fun n =>
    if negative then if n ≤ 0x8000000000000000 then some (-(n : Int)) else none
    else if n < 0x8000000000000000 then some n
    else if hex && decide (n < 0x10000000000000000) then some ((n : Int) - 0x10000000000000000)
    else none

/-- `int.tryParse`: white space around, a sign, decimal digits or `0x` and hexadecimal ones. -/
def intTryParse (source : String) : Option Int :=
  match trim source.toList with
  | '+' :: text => readMagnitude false text
  | '-' :: text => readMagnitude true text
  | text => readMagnitude false text

/-! ## The handlers -/

/-- What a press of Add Event does. -/
inductive Pressed where
  /-- A message; the dialog stays open. -/
  | snackBar (text : String)
  /-- The write is sent and the dialog closed. -/
  | saved (w : Write)
  /-- An exception leaves the handler, with the dialog open. -/
  | thrown

namespace Pressed

def write : Pressed → Option Write
  | saved w => some w
  | _ => none

def dialogOpen : Pressed → Bool
  | saved _ => false
  | _ => true

end Pressed

/-- The fields of the club calendar's dialog. -/
structure EventForm where
  eventName : String
  selectedDate : Option Timestamp
  startTime : String
  endTime : String
  location : String

/-- The fields of the Volunteer page's dialog. -/
structure VolunteerForm extends EventForm where
  eventDes : String
  numberOfPeople : String

/-- The values handed to the save; `selectedDate!` throws without a date. -/
def VolunteerForm.event (f : VolunteerForm) (numberOfPeople : Int) : Option VolunteerEvent :=
  f.selectedDate.map fun selectedDate =>
    ⟨f.eventName, f.eventDes, selectedDate, f.startTime, f.endTime, numberOfPeople, f.location⟩

def EventForm.event (f : EventForm) : Option ClubEvent :=
  f.selectedDate.map fun selectedDate =>
    ⟨f.eventName, selectedDate, f.startTime, f.endTime, f.location⟩

def VolunteerPage.addEvent (f : VolunteerForm) : Pressed :=
  if f.eventName = "" ∨ f.eventDes = "" ∨ f.selectedDate.isNone ∨ f.startTime = "" ∨ f.endTime = "" ∨
      f.numberOfPeople = "" ∨ f.location = "" then
    .snackBar "All fields are required!"
  else
    match intTryParse f.numberOfPeople with
    | none => .snackBar "Number of people must be a valid number!"
    | some numberOfPeople =>
      if f.startTime = "" ∨ f.endTime = "" then
        .snackBar "Start time and End time cannot be empty!"
      else
        match parse f.startTime, parse f.endTime with
        | some startTime, some endTime =>
          if startTime.hour > endTime.hour ∨
              startTime.hour = endTime.hour ∧ startTime.minute ≥ endTime.minute then
            .snackBar "Start time must be earlier than end time!"
          else
            match (f.event numberOfPeople).bind VolunteerPage.saveEventToFirestore with
            | some w => .saved w
            -- what `doc` throws is caught with the errors of `parse`
            | none => .snackBar "Invalid time format. Please use HH:mm a format!"
        | _, _ => .snackBar "Invalid time format. Please use HH:mm a format!"

def ClubCalendarPage.addEvent (clubName : DocId) (f : EventForm) : Pressed :=
  if f.eventName = "" ∨ f.selectedDate.isNone ∨ f.startTime = "" ∨ f.location = "" then
    .snackBar "All fields are required!"
  else
    match f.event.bind (ClubCalendarPage.saveEventToFirestore clubName) with
    | some w => .saved w
    | none => .thrown

/-! ## What the checks let through -/

/-- Both texts can be read, with the start first. -/
def TimesInOrder (startTime endTime : String) : Prop :=
  ∃ s e, parse startTime = some s ∧ parse endTime = some e ∧ s.Before e

/-- The checks of the club's form, and the name. -/
structure ClubPasses (f : EventForm) : Prop where
  selectedDate : f.selectedDate.isSome
  startTime : f.startTime ≠ ""
  location : f.location ≠ ""
  eventName : (doc ["volunteer"] f.eventName).isSome

/-- The checks of the Volunteer page's form, and the name. -/
structure Passes (f : VolunteerForm) : Prop where
  selectedDate : f.selectedDate.isSome
  eventDes : f.eventDes ≠ ""
  location : f.location ≠ ""
  eventName : (doc ["volunteer"] f.eventName).isSome
  numberOfPeople : (intTryParse f.numberOfPeople).isSome
  times : TimesInOrder f.startTime f.endTime

variable {f : VolunteerForm} {g : EventForm} {clubName : DocId}

/-- The comparison of the handler, on times of one day. -/
theorem not_late_iff (s e : TimeOfDay) :
    ¬ (s.hour > e.hour ∨ s.hour = e.hour ∧ s.minute ≥ e.minute) ↔ s.Before e := by
  have hs := s.minute_lt
  have he := e.minute_lt
  unfold TimeOfDay.Before
  omega

theorem name_ne_empty {c : Path} {name : String} (h : (doc c name).isSome) : name ≠ "" := by
  rintro rfl
  simp [doc, segments] at h

theorem time_ne_empty {text : String} {t : TimeOfDay} (h : parse text = some t) : text ≠ "" := by
  rintro rfl
  cases h

theorem number_ne_empty {text : String} (h : (intTryParse text).isSome) : text ≠ "" := by
  rintro rfl
  cases h

/-- The collections of the two forms accept the same names. -/
theorem doc_clubEvents_isSome (clubName : DocId) (name : String) :
    (doc ["club", clubName.val, "clubEvents"] name).isSome ↔ (doc ["volunteer"] name).isSome := by
  unfold doc
  have hparity : (["club", clubName.val, "clubEvents"] ++ segments name).length % 2 = 0 ↔
      (["volunteer"] ++ segments name).length % 2 = 0 := by
    simp only [List.length_append, List.length_cons, List.length_nil]
    omega
  simp only [hparity]
  split <;> simp

theorem saveEvent_isSome (e : VolunteerEvent) :
    (VolunteerPage.saveEventToFirestore e).isSome ↔ (doc ["volunteer"] e.eventName).isSome := by
  unfold VolunteerPage.saveEventToFirestore
  cases doc ["volunteer"] e.eventName <;> simp

theorem saveClubEvent_isSome (clubName : DocId) (e : ClubEvent) :
    (ClubCalendarPage.saveEventToFirestore clubName e).isSome ↔
      (doc ["volunteer"] e.eventName).isSome := by
  rw [← doc_clubEvents_isSome clubName]
  unfold ClubCalendarPage.saveEventToFirestore
  rw [doc_docId ["club"] rfl clubName]
  show (Option.bind (doc ["club", clubName.val, "clubEvents"] e.eventName) _).isSome ↔ _
  cases doc ["club", clubName.val, "clubEvents"] e.eventName <;> simp

/-- **The Volunteer form is saved exactly when it passes.** -/
theorem addEvent_saves_iff : (VolunteerPage.addEvent f).write.isSome ↔ Passes f := by
  constructor
  · intro h
    unfold VolunteerPage.addEvent at h
    split at h
    · cases h
    · rename_i hfilled
      simp only [not_or] at hfilled
      obtain ⟨-, hdes, hdate, -, -, -, hlocation⟩ := hfilled
      split at h
      · cases h
      · rename_i n hn
        split at h
        · cases h
        · split at h
          · rename_i s e hs he
            split at h
            · cases h
            · rename_i hlate
              split at h
              · -- the last check is passed: the write is sent
                rename_i w hw
                obtain ⟨event, hevent, hw⟩ := Option.bind_eq_some_iff.1 hw
                obtain ⟨date, -, rfl⟩ := Option.map_eq_some_iff.1 hevent
                have hname := (saveEvent_isSome _).1 (Option.isSome_of_eq_some hw)
                exact ⟨Option.isSome_iff_ne_none.2 fun hnone => hdate (by rw [hnone]; rfl), hdes,
                  hlocation, hname, Option.isSome_of_eq_some hn, s, e, hs, he, (not_late_iff s e).1 hlate⟩
              · cases h
          · cases h
  · rintro ⟨hdate, hdes, hlocation, hname, hnumber, s, e, hs, he, hbefore⟩
    obtain ⟨date, hdate⟩ := Option.isSome_iff_exists.1 hdate
    obtain ⟨n, hn⟩ := Option.isSome_iff_exists.1 hnumber
    have hstart := time_ne_empty hs
    have hend := time_ne_empty he
    have hfilled : ¬ (f.eventName = "" ∨ f.eventDes = "" ∨ f.selectedDate.isNone ∨ f.startTime = "" ∨
        f.endTime = "" ∨ f.numberOfPeople = "" ∨ f.location = "") := by
      simp [name_ne_empty hname, hdes, hdate, hstart, hend, number_ne_empty hnumber, hlocation]
    obtain ⟨w, hw⟩ := Option.isSome_iff_exists.1 ((saveEvent_isSome
      ⟨f.eventName, f.eventDes, date, f.startTime, f.endTime, n, f.location⟩).2 hname)
    have hsave : (f.event n).bind VolunteerPage.saveEventToFirestore = some w := by
      rw [VolunteerForm.event, hdate]
      exact hw
    simp only [VolunteerPage.addEvent, if_neg hfilled, hn, hs, he, hsave,
      if_neg ((not_late_iff s e).2 hbefore), if_neg (not_or.2 ⟨hstart, hend⟩)]
    rfl

/-- **The club's form is saved exactly when it passes.** -/
theorem clubAddEvent_saves_iff :
    (ClubCalendarPage.addEvent clubName g).write.isSome ↔ ClubPasses g := by
  constructor
  · intro h
    unfold ClubCalendarPage.addEvent at h
    split at h
    · cases h
    · rename_i hfilled
      simp only [not_or] at hfilled
      obtain ⟨-, hdate, hstart, hlocation⟩ := hfilled
      split at h
      · rename_i w hw
        obtain ⟨event, hevent, hw⟩ := Option.bind_eq_some_iff.1 hw
        obtain ⟨date, -, rfl⟩ := Option.map_eq_some_iff.1 hevent
        have hname := (saveClubEvent_isSome clubName _).1 (Option.isSome_of_eq_some hw)
        exact ⟨Option.isSome_iff_ne_none.2 fun hnone => hdate (by rw [hnone]; rfl), hstart, hlocation,
          hname⟩
      · cases h
  · rintro ⟨hdate, hstart, hlocation, hname⟩
    obtain ⟨date, hdate⟩ := Option.isSome_iff_exists.1 hdate
    have hfilled : ¬ (g.eventName = "" ∨ g.selectedDate.isNone ∨ g.startTime = "" ∨ g.location = "") := by
      simp [name_ne_empty hname, hdate, hstart, hlocation]
    obtain ⟨w, hw⟩ := Option.isSome_iff_exists.1 ((saveClubEvent_isSome clubName
      ⟨g.eventName, date, g.startTime, g.endTime, g.location⟩).2 hname)
    have hsave : g.event.bind (ClubCalendarPage.saveEventToFirestore clubName) = some w := by
      rw [EventForm.event, hdate]
      exact hw
    simp only [ClubCalendarPage.addEvent, if_neg hfilled, hsave]
    rfl

/-! ## What the Volunteer form is meant to accept -/

/-- The text is a time as the device prints it. -/
def Printed (alwaysUse24HourFormat : Bool) (text : String) : Prop :=
  ∃ t : TimeOfDay, t.format alwaysUse24HourFormat = text

/-- Every field is filled in, at least one person is needed, and both texts are times as the
device prints them, with the start first. -/
structure ValidForm (alwaysUse24HourFormat : Bool) (f : VolunteerForm) : Prop where
  eventName : f.eventName ≠ ""
  eventDes : f.eventDes ≠ ""
  selectedDate : f.selectedDate.isSome
  location : f.location ≠ ""
  numberOfPeople : ∃ n, intTryParse f.numberOfPeople = some n ∧ 1 ≤ n
  times : ∃ s e : TimeOfDay, s.format alwaysUse24HourFormat = f.startTime ∧
    e.format alwaysUse24HourFormat = f.endTime ∧ s.Before e

/-- A press saves an event exactly from a valid form, and otherwise leaves the dialog open. -/
def SavesExactlyValid (alwaysUse24HourFormat : Bool) (f : VolunteerForm) : Prop :=
  ((VolunteerPage.addEvent f).write.isSome ↔ ValidForm alwaysUse24HourFormat f) ∧
    ((VolunteerPage.addEvent f).write = none → (VolunteerPage.addEvent f).dialogOpen)

/-- Where the checks of the form are right about it. -/
structure ChecksFit (alwaysUse24HourFormat : Bool) (f : VolunteerForm) : Prop where
  people : Passes f → ∀ n, intTryParse f.numberOfPeople = some n → 1 ≤ n
  printed : Passes f → Printed alwaysUse24HourFormat f.startTime ∧ Printed alwaysUse24HourFormat f.endTime
  device : ValidForm alwaysUse24HourFormat f → alwaysUse24HourFormat = false
  name : ValidForm alwaysUse24HourFormat f → (doc ["volunteer"] f.eventName).isSome

/-- Printed times that can be read have the order they were printed in. -/
theorem timesInOrder_format {s e : TimeOfDay} :
    TimesInOrder (s.format false) (e.format false) ↔ s.Before e := by
  constructor
  · rintro ⟨s', e', hs, he, hbefore⟩
    rw [ClockText.parse_format, Option.some.injEq] at hs he
    rw [hs, he]
    exact hbefore
  · exact fun hbefore => ⟨s, e, ClockText.parse_format s, ClockText.parse_format e, hbefore⟩

/-- No text of a 24-hour device can be read. -/
theorem not_timesInOrder_format24 {s : TimeOfDay} {endTime : String} :
    ¬ TimesInOrder (s.format true) endTime := by
  rintro ⟨s', e, hs, -, -⟩
  rw [ClockText.parse_format24] at hs
  cases hs

/-- A press that sends no write leaves the dialog open. -/
theorem dialogOpen_of_no_write {o : Pressed} (h : o.write = none) : o.dialogOpen := by
  cases o with
  | saved w => cases h
  | snackBar text => rfl
  | thrown => rfl

/-- **When the Volunteer form saves exactly the valid contents.** -/
theorem savesExactlyValid_iff (alwaysUse24HourFormat : Bool) (f : VolunteerForm) :
    SavesExactlyValid alwaysUse24HourFormat f ↔ ChecksFit alwaysUse24HourFormat f := by
  constructor
  · rintro ⟨hexact, -⟩
    rw [addEvent_saves_iff] at hexact
    refine ⟨fun hpass n hn => ?_, fun hpass => ?_, fun hvalid => ?_, fun hvalid => ?_⟩
    · obtain ⟨n', hn', hpos⟩ := (hexact.1 hpass).numberOfPeople
      rw [hn, Option.some.injEq] at hn'
      rw [hn']
      exact hpos
    · obtain ⟨s, e, hs, he, -⟩ := (hexact.1 hpass).times
      exact ⟨⟨s, hs⟩, ⟨e, he⟩⟩
    · -- the start of a valid form has been read
      obtain ⟨s, e, hs, -, -⟩ := hvalid.times
      have htimes := (hexact.2 hvalid).times
      cases alwaysUse24HourFormat with
      | false => rfl
      | true =>
        rw [← hs] at htimes
        exact absurd htimes not_timesInOrder_format24
    · exact (hexact.2 hvalid).eventName
  · rintro ⟨hpeople, hprinted, hdevice, hname⟩
    refine ⟨?_, dialogOpen_of_no_write⟩
    rw [addEvent_saves_iff]
    constructor
    · intro hpass
      obtain ⟨n, hn⟩ := Option.isSome_iff_exists.1 hpass.numberOfPeople
      obtain ⟨⟨s, hs⟩, ⟨e, he⟩⟩ := hprinted hpass
      refine ⟨name_ne_empty hpass.eventName, hpass.eventDes, hpass.selectedDate, hpass.location,
        ⟨n, hn, hpeople hpass n hn⟩, s, e, hs, he, ?_⟩
      have htimes := hpass.times
      rw [← hs, ← he] at htimes
      cases alwaysUse24HourFormat with
      | false => exact timesInOrder_format.1 htimes
      | true => exact absurd htimes not_timesInOrder_format24
    · intro hvalid
      obtain ⟨n, hn, -⟩ := hvalid.numberOfPeople
      obtain ⟨s, e, hs, he, hbefore⟩ := hvalid.times
      refine ⟨hvalid.selectedDate, hvalid.eventDes, hvalid.location, hname hvalid,
        Option.isSome_of_eq_some hn, ?_⟩
      rw [← hs, ← he, hdevice hvalid]
      exact timesInOrder_format.2 hbefore

/-- The fields that only have to be filled in. -/
def VolunteerForm.Filled (f : VolunteerForm) : Prop :=
  f.selectedDate.isSome ∧ f.eventDes ≠ "" ∧ f.location ≠ ""

/-- The two texts are times as the device prints them, with the start first. -/
def PrintedInOrder (alwaysUse24HourFormat : Bool) (startTime endTime : String) : Prop :=
  ∃ s e : TimeOfDay, s.format alwaysUse24HourFormat = startTime ∧
    e.format alwaysUse24HourFormat = endTime ∧ s.Before e

/-- What the form is wrong about, by the fields and the device. -/
inductive Misjudged (alwaysUse24HourFormat : Bool) (f : VolunteerForm) : Prop where
  /-- Saved with a number below one. -/
  | people {n : Int} (hfilled : f.Filled) (hname : (doc ["volunteer"] f.eventName).isSome)
      (hn : intTryParse f.numberOfPeople = some n) (hlow : n < 1)
      (htimes : TimesInOrder f.startTime f.endTime)
  /-- Saved with a time that the device does not print. -/
  | printed (hfilled : f.Filled) (hname : (doc ["volunteer"] f.eventName).isSome)
      (hn : (intTryParse f.numberOfPeople).isSome) (htimes : TimesInOrder f.startTime f.endTime)
      (hodd : ¬ (Printed alwaysUse24HourFormat f.startTime ∧ Printed alwaysUse24HourFormat f.endTime))
  /-- Refused on a 24-hour device. -/
  | device {n : Int} (h24 : alwaysUse24HourFormat = true) (hfilled : f.Filled)
      (hname : f.eventName ≠ "") (hn : intTryParse f.numberOfPeople = some n) (hpos : 1 ≤ n)
      (htimes : PrintedInOrder alwaysUse24HourFormat f.startTime f.endTime)
  /-- Refused for a name that names no document. -/
  | name {n : Int} (hfilled : f.Filled) (hname : f.eventName ≠ "")
      (hrefused : doc ["volunteer"] f.eventName = none)
      (hn : intTryParse f.numberOfPeople = some n) (hpos : 1 ≤ n)
      (htimes : PrintedInOrder alwaysUse24HourFormat f.startTime f.endTime)

/-- **The checks fit every form but four kinds.** -/
theorem checksFit_iff {alwaysUse24HourFormat : Bool} {f : VolunteerForm} :
    ChecksFit alwaysUse24HourFormat f ↔ ¬ Misjudged alwaysUse24HourFormat f := by
  constructor
  · rintro ⟨hpeople, hprinted, hdevice, hname⟩ h
    cases h with
    | people hfilled hdoc hn hlow htimes =>
      obtain ⟨hdate, hdes, hlocation⟩ := hfilled
      have hpass : Passes f := ⟨hdate, hdes, hlocation, hdoc, Option.isSome_of_eq_some hn, htimes⟩
      exact absurd (hpeople hpass _ hn) (not_le.2 hlow)
    | printed hfilled hdoc hn htimes hodd =>
      obtain ⟨hdate, hdes, hlocation⟩ := hfilled
      exact hodd (hprinted ⟨hdate, hdes, hlocation, hdoc, hn, htimes⟩)
    | device h24 hfilled hne hn hpos htimes =>
      obtain ⟨hdate, hdes, hlocation⟩ := hfilled
      have h12 := hdevice ⟨hne, hdes, hdate, hlocation, ⟨_, hn, hpos⟩, htimes⟩
      exact Bool.false_ne_true (h12.symm.trans h24)
    | name hfilled hne hrefused hn hpos htimes =>
      obtain ⟨hdate, hdes, hlocation⟩ := hfilled
      have hsome := hname ⟨hne, hdes, hdate, hlocation, ⟨_, hn, hpos⟩, htimes⟩
      rw [hrefused] at hsome
      cases hsome
  · intro h
    refine ⟨fun hpass n hn => ?_, fun hpass => ?_, fun hvalid => ?_, fun hvalid => ?_⟩
    · by_contra hlow
      exact h (.people ⟨hpass.selectedDate, hpass.eventDes, hpass.location⟩ hpass.eventName hn
        (not_le.1 hlow) hpass.times)
    · by_contra hodd
      exact h (.printed ⟨hpass.selectedDate, hpass.eventDes, hpass.location⟩ hpass.eventName
        hpass.numberOfPeople hpass.times hodd)
    · obtain ⟨n, hn, hpos⟩ := hvalid.numberOfPeople
      by_contra h12
      exact h (.device (Bool.eq_true_of_not_eq_false h12)
        ⟨hvalid.selectedDate, hvalid.eventDes, hvalid.location⟩ hvalid.eventName hn hpos hvalid.times)
    · obtain ⟨n, hn, hpos⟩ := hvalid.numberOfPeople
      by_contra hrefused
      exact h (.name ⟨hvalid.selectedDate, hvalid.eventDes, hvalid.location⟩ hvalid.eventName
        (Option.not_isSome_iff_eq_none.1 hrefused) hn hpos hvalid.times)

/-- A food drive that needs nobody, from nine to ten. -/
def nobodyNeeded : VolunteerForm where
  eventName := "Food Drive"
  selectedDate := some 0
  startTime := "9:00 AM"
  endTime := "10:00 AM"
  location := "Gym"
  eventDes := "Sorting cans"
  numberOfPeople := "0"

/-- The same for five people, as a 24-hour device prints the times. -/
def on24HourDevice : VolunteerForm :=
  { nobodyNeeded with startTime := "09:00", endTime := "10:00", numberOfPeople := "5" }

/-- The event without people is saved, and the 24-hour device refuses the times of its own
picker. -/
theorem zero_people_saved :
    ¬ SavesExactlyValid false nobodyNeeded ∧ ¬ SavesExactlyValid true on24HourDevice := by
  constructor
  · rintro ⟨hexact, -⟩
    obtain ⟨n, hn, hpos⟩ := (hexact.1 (by decide)).numberOfPeople
    have hzero : intTryParse nobodyNeeded.numberOfPeople = some 0 := by decide
    rw [hzero, Option.some.injEq] at hn
    omega
  · rintro ⟨hexact, -⟩
    have hvalid : ValidForm true on24HourDevice :=
      ⟨by decide, by decide, rfl, by decide, ⟨5, by decide, by decide⟩,
        ⟨9, 0, by decide, by decide⟩, ⟨10, 0, by decide, by decide⟩, by decide, by decide,
        by unfold TimeOfDay.Before; decide⟩
    exact absurd (hexact.2 hvalid) (by decide)

/-! ## The two forms together -/

/-- The same five values in the Volunteer page's dialog. -/
def EventForm.asVolunteer (g : EventForm) (eventDes numberOfPeople : String) : VolunteerForm :=
  { g with eventDes, numberOfPeople }

/-- One form saves if and only if the other does. -/
def FormsAgree (clubName : DocId) (g : EventForm) (eventDes numberOfPeople : String) : Prop :=
  (ClubCalendarPage.addEvent clubName g).write.isSome ↔
    (VolunteerPage.addEvent (g.asVolunteer eventDes numberOfPeople)).write.isSome

/-- **When the two forms agree** on values with a description and a number of people. -/
theorem formsAgree_iff (clubName : DocId) (g : EventForm) {eventDes numberOfPeople : String}
    (hdes : eventDes ≠ "") (hnumber : (intTryParse numberOfPeople).isSome) :
    FormsAgree clubName g eventDes numberOfPeople ↔
      ¬ ClubPasses g ∨ TimesInOrder g.startTime g.endTime := by
  have hpasses : Passes (g.asVolunteer eventDes numberOfPeople) ↔
      ClubPasses g ∧ TimesInOrder g.startTime g.endTime := by
    constructor
    · intro h
      obtain ⟨s, e, hs, he, hbefore⟩ := h.times
      exact ⟨⟨h.selectedDate, time_ne_empty hs, h.location, h.eventName⟩, s, e, hs, he, hbefore⟩
    · rintro ⟨h, htimes⟩
      exact ⟨h.selectedDate, hdes, h.location, h.eventName, hnumber, htimes⟩
  rw [FormsAgree, clubAddEvent_saves_iff, addEvent_saves_iff, hpasses]
  tauto

/-- A meeting that ends before it starts. -/
def reversedMeeting : EventForm where
  eventName := "Meeting"
  selectedDate := some 0
  startTime := "4:00 PM"
  endTime := "3:00 PM"
  location := "Room 12"

theorem formsAgree_iff_reversedMeeting :
    FormsAgree chessClub.clubName reversedMeeting "Weekly" "5" ↔
      ¬ ClubPasses reversedMeeting ∨ TimesInOrder reversedMeeting.startTime reversedMeeting.endTime :=
  formsAgree_iff chessClub.clubName reversedMeeting (by decide) (by decide)

/-- The club's form saves it, the other one does not. -/
theorem reversed_times_saved : ¬ FormsAgree chessClub.clubName reversedMeeting "Weekly" "5" := by
  unfold FormsAgree
  decide

end TheHive
