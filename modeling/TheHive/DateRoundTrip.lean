import TheHive.Lib.Civil
import TheHive.CalendarDelete

/-!
# The date of a sign-up

The Volunteer page prints the date of an event as `dd/MM/yyyy`; a tap on the tile reads that text
back as `MM/dd/yyyy` and stores the result in the user's own entry, which My Calendar prints as
`dd/MM/yyyy` again.

* `Zone` — the viewer's time zone.  `civilIntl` — the date formats in that zone, for both ways a
  month beyond December may be read.
* `parse_format` — what a printed date is read back as.
* `DateKept` — the entry has the calendar date of the event, and the two pages show it alike.
* `dateKept_iff` — **the date is kept exactly when its day is the number of its month**.
* `fourth_of_march` — a sign-up for 4 March is stored for 3 April.
-/

set_option autoImplicit false

namespace TheHive

open DocStore Civil

/-! ## The formats of a device -/

/-- A time zone: the day an instant lies in, and the instant `DateTime(y, m, d)` stands for. -/
structure Zone where
  dayOf : Timestamp → Int
  midnight : Int → Timestamp
  dayOf_midnight : ∀ n, dayOf (midnight n) = n

/-- The zone without an offset. -/
def utc : Zone := ⟨fun t => t / 86400000000, fun n => n * 86400000000, fun n => by omega⟩

/-- What `parse` does with a month beyond December. -/
inductive MonthOverflow where
  | rollsOver | rejected
  deriving DecidableEq

/-- The calendar date of an instant. -/
def Zone.dateAt (z : Zone) (t : Timestamp) : Civil.Date := Civil.dateOf (z.dayOf t)

/-- `DateFormat` in the zone `z`: zero-padded fields in pattern order.  A year is printed by its
absolute value. -/
def civilIntl (z : Zone) (mode : MonthOverflow) : Intl where
  format pattern t :=
    let date := z.dateAt t
    match pattern with
    | .ddMMyyyy => printFields date.day date.month date.year.natAbs
    | .MMddyyyy => printFields date.month date.day date.year.natAbs
  parse pattern text := do
    let (a, b, year) ← readFields text
    let (month, day) := match pattern with
      | .ddMMyyyy => (b, a)
      | .MMddyyyy => (a, b)
    if mode = .rejected ∧ ¬ (1 ≤ month ∧ month ≤ 12) then none
    else some (z.midnight (toDays year month day))

/-- The tap stores an entry with the calendar date of the event, and My Calendar prints it as the
Volunteer page does. -/
def DateKept (z : Zone) (mode : MonthOverflow) (u : User) (event : DocId) (e : VolunteerEvent) : Prop :=
  ∀ t, VolunteerPage.tile (civilIntl z mode) (some u) e.doc = some t →
    ∃ d date, .set (entryPath u event) d ∈ t.onTap (civilIntl z mode) ∧
      Doc.timestamp d .eventDate = some date ∧ z.dayOf date = z.dayOf e.eventDate ∧
        ∃ shown, CalendarPage.tile (civilIntl z mode) d = some shown ∧ shown.eventDate = t.eventDate

variable {z : Zone} {mode : MonthOverflow} {u : User} {event : DocId} {e : VolunteerEvent}

/-! ## From the page to the entry -/

/-- **What a printed date is read back as**: the date with day and month exchanged. -/
theorem parse_format (mode : MonthOverflow) (t : Timestamp) :
    (civilIntl z mode).parse .MMddyyyy ((civilIntl z mode).format .ddMMyyyy t) =
      if mode = .rejected ∧ 12 < (z.dateAt t).day then none
      else some (z.midnight
        (toDays (z.dateAt t).year.natAbs (z.dateAt t).day (z.dateAt t).month)) := by
  have hpos := (z.dateAt t).day_pos
  have hrange : ¬ (1 ≤ (z.dateAt t).day ∧ (z.dateAt t).day ≤ 12) ↔ 12 < (z.dateAt t).day := by omega
  simp only [civilIntl, readFields_printFields, Option.bind_eq_bind, Option.bind_some, hrange]

/-- The text depends on the calendar date only. -/
theorem format_congr (mode : MonthOverflow) {t t' : Timestamp} (h : z.dayOf t = z.dayOf t') :
    (civilIntl z mode).format .ddMMyyyy t = (civilIntl z mode).format .ddMMyyyy t' := by
  simp only [civilIntl, Zone.dateAt, h]

/-- **The date of the entry** a tap writes. -/
theorem entry_date {t : VolunteerEventTile}
    (ht : VolunteerPage.tile (civilIntl z mode) (some u) e.doc = some t)
    (he : e.eventName = event.val) {d : Doc} {date : Timestamp}
    (hw : .set (entryPath u event) d ∈ t.onTap (civilIntl z mode))
    (hd : Doc.timestamp d .eventDate = some date) :
    date = z.midnight (toDays (z.dateAt e.eventDate).year.natAbs (z.dateAt e.eventDate).day
      (z.dateAt e.eventDate).month) := by
  cases hparse : (civilIntl z mode).parse .MMddyyyy ((civilIntl z mode).format .ddMMyyyy e.eventDate) with
  | none =>
    -- the tap throws before it writes
    cases ht
    simp [VolunteerEventTile.onTap, hparse] at hw
  | some read =>
    rw [onTap_eq ht he hparse, List.mem_cons] at hw
    rcases hw with hw | hw
    · cases hw
      cases hd
      rw [parse_format] at hparse
      split at hparse
      · cases hparse
      · exact (Option.some.inj hparse).symm
    · split at hw
      · cases List.mem_singleton.1 hw
      · cases hw

/-- **The date of a sign-up is kept exactly when** the day is the number of the month; Firestore
holds no date before year 0. -/
theorem dateKept_iff (z : Zone) (mode : MonthOverflow) (u : User) (he : e.eventName = event.val) :
    DateKept z mode u event e ↔
      (z.dateAt e.eventDate).day = (z.dateAt e.eventDate).month ∧ 0 ≤ (z.dateAt e.eventDate).year := by
  have hday : toDays (z.dateAt e.eventDate).year (z.dateAt e.eventDate).month
      (z.dateAt e.eventDate).day = z.dayOf e.eventDate := toDays_dateOf _
  rw [← toDays_swap_iff, hday]
  constructor
  · intro h
    obtain ⟨d, date, hw, hd, hkept, -⟩ := h _ (tile_doc (civilIntl z mode) (some u) e)
    rw [entry_date (tile_doc (civilIntl z mode) (some u) e) he hw hd, z.dayOf_midnight] at hkept
    exact hkept
  · intro hswap t ht
    -- the month read back is one of the twelve
    have hmonth : (z.dateAt e.eventDate).day = (z.dateAt e.eventDate).month :=
      ((toDays_swap_iff _).1 (hswap.trans hday.symm)).1
    have hle := (z.dateAt e.eventDate).month_le
    have hparse := parse_format (z := z) mode e.eventDate
    rw [if_neg (by omega), hswap] at hparse
    have hkept : z.dayOf (z.midnight (z.dayOf e.eventDate)) = z.dayOf e.eventDate :=
      z.dayOf_midnight _
    refine ⟨(entry e (z.midnight (z.dayOf e.eventDate))).doc, z.midnight (z.dayOf e.eventDate),
      ?_, rfl, hkept, _, rfl, ?_⟩
    · rw [onTap_eq ht he hparse]
      exact List.mem_cons_self
    · cases ht
      exact format_congr mode hkept

/-- The food drive, held on 4 March 2025. -/
def marchDrive : VolunteerEvent := { foodDrive with eventDate := 1741046400000000 }

theorem dateKept_iff_foodDrive :
    DateKept utc .rollsOver ann foodDriveId foodDrive ↔
      (utc.dateAt foodDrive.eventDate).day = (utc.dateAt foodDrive.eventDate).month ∧
        0 ≤ (utc.dateAt foodDrive.eventDate).year :=
  dateKept_iff utc .rollsOver ann rfl

/-- Whatever `parse` does with other months, 4 March is stored as 3 April. -/
theorem fourth_of_march :
    ¬ (DateKept utc .rollsOver ann foodDriveId marchDrive ∨
      DateKept utc .rejected ann foodDriveId marchDrive) := by
  have hmode : ∀ mode, ¬ DateKept utc mode ann foodDriveId marchDrive := by
    intro mode h
    have htile := tile_doc (civilIntl utc mode) (some ann) marchDrive
    obtain ⟨d, date, hw, hd, hkept, -⟩ := h _ htile
    rw [entry_date htile rfl hw hd] at hkept
    exact absurd hkept (by decide)
  rintro (h | h)
  · exact hmode _ h
  · exact hmode _ h

end TheHive
