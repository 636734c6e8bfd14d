import TheHive.Lib.Civil

/-!
# Times of day as text

A time of day is printed as `h:mm AM` or `h:mm PM`, and as `HH:mm` on a device with the 24-hour
format.  The reader of the pattern `hh:mm a` takes the fields one after the other and is lenient:
a field may have any number of digits and any value, and text after the last field is ignored.

* `TimeOfDay` — an hour and a minute of a day; `TimeOfDay.format` prints one.
* `nextInteger`, `literal`, `amPm` — the fields of the pattern; `parse` — the reader.
* `parse_format` — **a time printed with its half of the day is read back**.
* `parse_format24` — **a time printed in the 24-hour format is refused**.
-/

set_option autoImplicit false

namespace ClockText

open Civil

structure TimeOfDay where
  hour : Nat
  minute : Nat
  hour_lt : hour < 24
  minute_lt : minute < 60

/-- Strictly earlier on the same day. -/
def TimeOfDay.Before (s e : TimeOfDay) : Prop := 60 * s.hour + s.minute < 60 * e.hour + e.minute

/-- The hour on the dial, 1 to 12. -/
def TimeOfDay.hourOfPeriod (t : TimeOfDay) : Nat :=
  if t.hour = 0 ∨ t.hour = 12 then 12 else if t.hour < 12 then t.hour else t.hour - 12

/-- `AM` or `PM`. -/
def TimeOfDay.period (t : TimeOfDay) : List Char := if t.hour < 12 then ['A', 'M'] else ['P', 'M']

def TimeOfDay.format (alwaysUse24HourFormat : Bool) (t : TimeOfDay) : String :=
  if alwaysUse24HourFormat then
    String.ofList (printNat 2 t.hour ++ ':' :: printNat 2 t.minute)
  else
    String.ofList (printNat 1 t.hourOfPeriod ++ ':' :: (printNat 2 t.minute ++ ' ' :: t.period))

/-! ## The reader -/

/-- The digits at the head of the input as a number, and the rest; refused without a digit. -/
def nextInteger (input : List Char) : Option (Nat × List Char) :=
  if (input.takeWhile Char.isDigit).isEmpty then none
  else some (Nat.ofDigitChars 10 (input.takeWhile Char.isDigit) 0, input.dropWhile Char.isDigit)

def literal (c : Char) : List Char → Option (List Char)
  | [] => none
  | x :: rest => if x = c then some rest else none

/-- Whether it is the second half of the day. -/
def amPm : List Char → Option Bool
  | x :: 'M' :: _ => if x = 'A' then some false else if x = 'P' then some true else none
  | _ => none

/-- The time of day of a number of minutes, which may lie beyond the day. -/
def ofMinutes (n : Nat) : TimeOfDay where
  hour := n / 60 % 24
  minute := n % 60
  hour_lt := Nat.mod_lt _ (by decide)
  minute_lt := Nat.mod_lt _ (by decide)

/-- The reader of `hh:mm a`.  The numbers are unbounded; a reader with machine integers and a calendar
of bounded range fails on numbers of many digits, which no time of a day is printed with. -/
def parse (text : String) : Option TimeOfDay := do
  let (hour, rest) ← nextInteger text.toList
  let rest ← literal ':' rest
  let (minute, rest) ← nextInteger rest
  let rest ← literal ' ' rest
  let pm ← amPm rest
  return ofMinutes (60 * ((if hour = 12 then 0 else hour) + if pm then 12 else 0) + minute)

/-! ## Reading what was printed -/

/-- The digits of a printed number, up to a character that is none. -/
theorem nextInteger_printNat (width n : Nat) {rest : List Char}
    (hrest : rest.takeWhile Char.isDigit = []) :
    nextInteger (printNat width n ++ rest) = some (n, rest) := by
  have hdigits : ∀ c ∈ printNat width n, c.isDigit := fun c hc => isDigit_of_mem_printNat hc
  have htake : (printNat width n ++ rest).takeWhile Char.isDigit = printNat width n := by
    rw [List.takeWhile_append_of_pos hdigits, hrest, List.append_nil]
  have hdrop : (printNat width n ++ rest).dropWhile Char.isDigit = rest := by
    have hsplit := List.takeWhile_append_dropWhile (p := Char.isDigit) (l := rest)
    rw [hrest, List.nil_append] at hsplit
    rw [List.dropWhile_append_of_pos hdigits, hsplit]
  have hne : (printNat width n).isEmpty = false := by
    simp [printNat_ne_nil]
  rw [nextInteger, htake, hdrop, ofDigitChars_printNat, hne]
  rfl

theorem TimeOfDay.ext_fields {s e : TimeOfDay} (hh : s.hour = e.hour) (hm : s.minute = e.minute) :
    s = e := by
  cases s; cases e; cases hh; cases hm; rfl

theorem TimeOfDay.amPm_period (t : TimeOfDay) : amPm t.period = some (decide (12 ≤ t.hour)) := by
  unfold period
  by_cases h : t.hour < 12
  · have hnot : ¬ 12 ≤ t.hour := by omega
    rw [if_pos h, decide_eq_false hnot]
    rfl
  · have hle : 12 ≤ t.hour := by omega
    rw [if_neg h, decide_eq_true hle]
    rfl

/-- **A time printed with its half of the day is read back.** -/
theorem parse_format (t : TimeOfDay) : parse (t.format false) = some t := by
  have hhour := t.hour_lt
  have hminute := t.minute_lt
  have htext : (t.format false).toList =
      printNat 1 t.hourOfPeriod ++ ':' :: (printNat 2 t.minute ++ ' ' :: t.period) := by
    simp [TimeOfDay.format]
  have hcolon : (':' :: (printNat 2 t.minute ++ ' ' :: t.period)).takeWhile Char.isDigit = [] := rfl
  have hblank : (' ' :: t.period).takeWhile Char.isDigit = [] := rfl
  simp only [parse, htext, nextInteger_printNat 1 t.hourOfPeriod hcolon,
    nextInteger_printNat 2 t.minute hblank, literal, t.amPm_period, Option.bind_eq_bind,
    Option.bind_some, if_true, Option.pure_def, Option.some.injEq]
  -- the hour of the day, from the dial and the half
  have hdial : (if t.hourOfPeriod = 12 then 0 else t.hourOfPeriod) +
      (if decide (12 ≤ t.hour) = true then 12 else 0) = t.hour := by
    unfold TimeOfDay.hourOfPeriod
    simp only [decide_eq_true_eq]
    split_ifs <;> omega
  rw [hdial]
  apply TimeOfDay.ext_fields
  · show (60 * t.hour + t.minute) / 60 % 24 = t.hour
    omega
  · show (60 * t.hour + t.minute) % 60 = t.minute
    omega

/-- **A time printed in the 24-hour format is refused.** -/
theorem parse_format24 (t : TimeOfDay) : parse (t.format true) = none := by
  have htext : (t.format true).toList = printNat 2 t.hour ++ ':' :: (printNat 2 t.minute ++ []) := by
    simp [TimeOfDay.format]
  have hcolon : (':' :: (printNat 2 t.minute ++ [])).takeWhile Char.isDigit = [] := rfl
  have hend : ([] : List Char).takeWhile Char.isDigit = [] := rfl
  simp only [parse, htext, nextInteger_printNat 2 t.hour hcolon,
    nextInteger_printNat 2 t.minute hend, literal, Option.bind_eq_bind, Option.bind_some, if_true,
    Option.bind_none]

end ClockText
