import TheHive.DateRoundTrip
import TheHive.ClubCalendar

/-!
# The date of an event on another device

The picker hands over local midnight of the picked day, and the instant is what is stored.  The
club calendar, the Volunteer page and My Calendar print the day the instant lies in on the device
of the viewer.

* `UtcOffset` — the offset of a device.  `PickedDate` — a date the picker offers.
* `dateText_injective` — the text of a date tells it from every other date after year 0.
* `format_selectDate_iff` — when the text a viewer sees is that of the picked date.
* `dateShown_iff` — **the three pages show the picked date exactly when the viewer's offset is not
  less than the organiser's, and less than a day ahead of it**.
* `shown_a_day_early` — an event picked in London and looked at in Los Angeles.
-/

set_option autoImplicit false

namespace TheHive

open DocStore Civil

/-! ## Offsets and dates -/

/-- A difference from UTC in microseconds, which is shorter than a day. -/
structure UtcOffset where
  micros : Int
  gt : -86400000000 < micros
  lt : micros < 86400000000

/-- The time zone of a device with a fixed offset. -/
def UtcOffset.zone (o : UtcOffset) : Zone :=
  ⟨fun t => (t + o.micros) / 86400000000, fun n => n * 86400000000 - o.micros, fun n => by omega⟩

/-- The number of a date's day. -/
def dayNumber (d : Civil.Date) : Int := toDays d.year d.month d.day

namespace DatePicker

/-- `DateTime(2024)`. -/
def firstDate : Int := toDays 2024 1 1

/-- `DateTime(2026)`. -/
def lastDate : Int := toDays 2026 1 1

end DatePicker

/-- A date the picker offers. -/
structure PickedDate where
  date : Civil.Date
  first : DatePicker.firstDate ≤ dayNumber date
  last : dayNumber date ≤ DatePicker.lastDate

/-- What `_selectDate` hands to the form on a device. -/
def DatePicker.selectDate (o : UtcOffset) (d : PickedDate) : Timestamp :=
  o.zone.midnight (dayNumber d.date)

/-- The text `dd/MM/yyyy` of a date. -/
def dateText (d : Civil.Date) : String := printFields d.day d.month d.year.natAbs

/-- An event saved with the date an organiser picked has that date on each of a viewer's
pages. -/
structure DateShown (mode : MonthOverflow) (organiser viewer : UtcOffset) (d : PickedDate) :
    Prop where
  clubCalendar : ∀ clubName (e : ClubEvent) p doc, e.eventDate = DatePicker.selectDate organiser d →
    ClubCalendarPage.saveEventToFirestore clubName e = some (.set p doc) →
      ∃ t, ClubCalendarPage.tile (civilIntl viewer.zone mode) doc = some t ∧
        t.eventDate = dateText d.date
  volunteer : ∀ currentUser (e : VolunteerEvent) p doc,
    e.eventDate = DatePicker.selectDate organiser d →
    VolunteerPage.saveEventToFirestore e = some (.set p doc) →
      ∃ t, VolunteerPage.tile (civilIntl viewer.zone mode) currentUser doc = some t ∧
        t.eventDate = dateText d.date
  myCalendar : ∀ clubName (e : ClubEvent) p doc, e.eventDate = DatePicker.selectDate organiser d →
    ClubCalendarPage.saveEventToFirestore clubName e = some (.set p doc) →
      ∃ t, CalendarPage.tile (civilIntl viewer.zone mode) doc = some t ∧
        t.eventDate = dateText d.date

variable {mode : MonthOverflow} {organiser viewer : UtcOffset} {d : PickedDate}

/-! ## The text of a date -/

/-- **The text of a date** tells it from every other date after year 0. -/
theorem dateText_injective {d d' : Civil.Date} (hd : 0 < d.year) (hd' : 0 < d'.year)
    (h : dateText d = dateText d') : d = d' := by
  have hread := congrArg readFields h
  rw [dateText, dateText, readFields_printFields, readFields_printFields, Option.some.injEq,
    Prod.mk.injEq, Prod.mk.injEq] at hread
  obtain ⟨hday, hmonth, hyear⟩ := hread
  exact Date.ext_fields (by omega) hmonth hday

theorem dateOf_dayNumber (d : Civil.Date) : Civil.dateOf (dayNumber d) = d := dateOf_toDays d

theorem firstDate_eq : DatePicker.firstDate = 19723 := by decide

/-- A day near the picker's first one lies after year 0. -/
theorem year_pos {n : Int} (h : 19721 ≤ n) : 0 < (Civil.dateOf n).year := by
  have hfirst : firstDay 12 = -719162 := by decide
  exact year_pos_of_firstDay_le (by omega)

/-! ## One text -/

/-- The day of the picked instant on the device of the viewer. -/
theorem dayOf_selectDate :
    viewer.zone.dayOf (DatePicker.selectDate organiser d) =
      dayNumber d.date + (viewer.micros - organiser.micros) / 86400000000 := by
  show (dayNumber d.date * 86400000000 - organiser.micros + viewer.micros) / 86400000000 = _
  omega

/-- **The viewer sees the text of the picked date exactly when** the viewer's offset is at most a
day ahead. -/
theorem format_selectDate_iff (mode : MonthOverflow) (organiser viewer : UtcOffset) (d : PickedDate) :
    (civilIntl viewer.zone mode).format .ddMMyyyy (DatePicker.selectDate organiser d) =
        dateText d.date ↔
      organiser.micros ≤ viewer.micros ∧ viewer.micros < organiser.micros + 86400000000 := by
  have hshown : (civilIntl viewer.zone mode).format .ddMMyyyy (DatePicker.selectDate organiser d) =
      dateText (Civil.dateOf (dayNumber d.date + (viewer.micros - organiser.micros) / 86400000000)) := by
    rw [← dayOf_selectDate]
    rfl
  -- the two devices are less than two days apart
  have hnear : -2 ≤ (viewer.micros - organiser.micros) / 86400000000 := by
    have := viewer.gt
    have := organiser.lt
    omega
  have hfirst := d.first
  rw [firstDate_eq] at hfirst
  rw [hshown]
  constructor
  · intro h
    have hpicked : 0 < d.date.year := by
      rw [← dateOf_dayNumber d.date]
      exact year_pos (by omega)
    have hdate := dateText_injective (year_pos (by omega)) hpicked h
    have hday : dayNumber d.date + (viewer.micros - organiser.micros) / 86400000000 =
        dayNumber d.date := by
      calc dayNumber d.date + (viewer.micros - organiser.micros) / 86400000000
          = dayNumber (Civil.dateOf (dayNumber d.date +
              (viewer.micros - organiser.micros) / 86400000000)) := (toDays_dateOf _).symm
        _ = dayNumber d.date := by rw [hdate]
    omega
  · rintro ⟨hle, hlt⟩
    have hsame : (viewer.micros - organiser.micros) / 86400000000 = 0 := by omega
    rw [hsame, Int.add_zero, dateOf_dayNumber]

/-! ## The pages -/

/-- A saved event of a club, and a tile of it. -/
theorem clubTile_saved {clubName : DocId} {e : ClubEvent} {p : Path} {doc : Doc}
    (hw : ClubCalendarPage.saveEventToFirestore clubName e = some (.set p doc)) (intl : Intl) :
    ∃ t, CalendarPage.tile intl doc = some t ∧ t.eventDate = intl.format .ddMMyyyy e.eventDate := by
  obtain ⟨q, -, heq⟩ := ClubCalendarPage.saveEventToFirestore_cases hw
  cases heq
  exact ⟨_, rfl, rfl⟩

theorem volunteerTile_saved {e : VolunteerEvent} {p : Path} {doc : Doc}
    (hw : VolunteerPage.saveEventToFirestore e = some (.set p doc)) (intl : Intl)
    (currentUser : Option User) :
    ∃ t, VolunteerPage.tile intl currentUser doc = some t ∧
      t.eventDate = intl.format .ddMMyyyy e.eventDate := by
  obtain ⟨q, -, heq⟩ := VolunteerPage.saveEventToFirestore_cases hw
  cases heq
  exact ⟨_, rfl, rfl⟩

/-- The match of the chess club, held on a date its organiser picked. -/
def matchOn (organiser : UtcOffset) (d : PickedDate) : ClubEvent :=
  { chessMatch with eventDate := DatePicker.selectDate organiser d }

theorem matchOn_saved (organiser : UtcOffset) (d : PickedDate) :
    ClubCalendarPage.saveEventToFirestore chessClub.clubName (matchOn organiser d) =
      some (.set (clubEventsOf "Chess" ++ ["Match"]) (matchOn organiser d).doc) := by
  have hclub : doc ["club"] chessClub.clubName.val = some ["club", "Chess"] :=
    doc_docId ["club"] rfl chessClub.clubName
  have hname : doc (["club", "Chess"] ++ ["clubEvents"]) (matchOn organiser d).eventName =
      some (clubEventsOf "Chess" ++ ["Match"]) :=
    doc_of_isDocId (show IsDocId "Match" by decide) rfl
  simp only [ClubCalendarPage.saveEventToFirestore, hclub, hname, Option.bind_eq_bind,
    Option.bind_some, pure]

/-- **The three pages show the picked date exactly when** the viewer's offset is not less than
the organiser's, and less than a day ahead of it. -/
theorem dateShown_iff (mode : MonthOverflow) (organiser viewer : UtcOffset) (d : PickedDate) :
    DateShown mode organiser viewer d ↔
      organiser.micros ≤ viewer.micros ∧ viewer.micros < organiser.micros + 86400000000 := by
  rw [← format_selectDate_iff mode organiser viewer d]
  constructor
  · intro h
    obtain ⟨t, ht, hdate⟩ := h.clubCalendar _ _ _ _ rfl (matchOn_saved organiser d)
    cases ht
    exact hdate
  · intro h
    refine ⟨fun clubName e p doc he hw => ?_, fun currentUser e p doc he hw => ?_,
      fun clubName e p doc he hw => ?_⟩
    · obtain ⟨t, ht, hdate⟩ := clubTile_saved hw (civilIntl viewer.zone mode)
      exact ⟨t, ht, hdate.trans (by rw [he, h])⟩
    · obtain ⟨t, ht, hdate⟩ := volunteerTile_saved hw (civilIntl viewer.zone mode) currentUser
      exact ⟨t, ht, hdate.trans (by rw [he, h])⟩
    · obtain ⟨t, ht, hdate⟩ := clubTile_saved hw (civilIntl viewer.zone mode)
      exact ⟨t, ht, hdate.trans (by rw [he, h])⟩

/-- London in March, before summer time. -/
def london : UtcOffset := ⟨0, by decide, by decide⟩

/-- Los Angeles in late March, in summer time. -/
def losAngeles : UtcOffset := ⟨-25200000000, by decide, by decide⟩

/-- 25 March 2025, which the picker opens on. -/
def initialDate : PickedDate :=
  ⟨⟨2025, 3, 25, by decide, by decide, by decide, by decide⟩, by decide, by decide⟩

/-- The match is on the day before. -/
theorem shown_a_day_early : ¬ DateShown .rollsOver london losAngeles initialDate := by
  intro h
  obtain ⟨t, ht, hdate⟩ := h.clubCalendar _ _ _ _ rfl (matchOn_saved london initialDate)
  cases ht
  have hoffsets := (format_selectDate_iff .rollsOver _ _ _).1 hdate
  exact absurd hoffsets.1 (by decide)

end TheHive
