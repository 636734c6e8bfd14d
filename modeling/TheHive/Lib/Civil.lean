import Mathlib.Data.List.Basic
import Mathlib.Data.String.Basic
import Mathlib.Order.Monotone.Basic

/-!
# The civil calendar, and dates as text

Days are numbered from 1 January 1970, months from January of year 0; the calendar is the
proleptic Gregorian one.

* `firstDay` — the number of the first day of a month; `firstDay_succ` — a month has 28 to 31
  days.
* `toDays` — the day a year, a month and a day of the month name, where a month beyond December
  rolls over into the next year and a day beyond the end of its month into the next month.
* `dateOf` — the date of a day; `toDays_dateOf`, `dateOf_toDays` — **it is the one date that names
  that day**.
* `toDays_swap_iff` — day and month may be exchanged exactly where they are equal.
* `printFields`, `readFields` — three zero-padded numbers with slashes between them;
  `readFields_printFields` — **what was printed is read back**.
-/

set_option autoImplicit false

namespace Civil

/-! ## Months -/

/-- The day before which the months of a year that starts in March are counted. -/
def marchFirst (y : Int) : Int := 365 * y + y / 4 - y / 100 + y / 400

/-- The first day of month `k`.  The year is taken to start in March, so that the leap day is
its last one. -/
def firstDay (k : Int) : Int := marchFirst ((k - 2) / 12) + (153 * ((k - 2) % 12) + 2) / 5 - 719468

theorem marchFirst_succ (y : Int) :
    marchFirst y + 365 ≤ marchFirst (y + 1) ∧ marchFirst (y + 1) ≤ marchFirst y + 366 := by
  unfold marchFirst
  omega

/-- **A month has 28 to 31 days.** -/
theorem firstDay_succ (k : Int) :
    firstDay k + 28 ≤ firstDay (k + 1) ∧ firstDay (k + 1) ≤ firstDay k + 31 := by
  unfold firstDay
  by_cases hfeb : (k - 2) % 12 = 11
  · -- from February to March
    have hyear : (k + 1 - 2) / 12 = (k - 2) / 12 + 1 := by omega
    have hmonth : (k + 1 - 2) % 12 = 0 := by omega
    rw [hyear, hmonth, hfeb]
    have hlength := marchFirst_succ ((k - 2) / 12)
    omega
  · have hyear : (k + 1 - 2) / 12 = (k - 2) / 12 := by omega
    have hmonth : (k + 1 - 2) % 12 = (k - 2) % 12 + 1 := by omega
    rw [hyear, hmonth]
    omega

theorem firstDay_add (k : Int) (j : Nat) : firstDay k + 28 * j ≤ firstDay (k + j) := by
  induction j with
  | zero => simp
  | succ j ih =>
    have hstep := (firstDay_succ (k + j)).1
    have hassoc : k + (j + 1 : Nat) = k + j + 1 := by push_cast; omega
    rw [hassoc]
    push_cast
    omega

/-! ## Dates -/

/-- The day that is day `day` of month `month` of `year`. -/
def toDays (year month day : Int) : Int := firstDay (12 * year + month - 1) + day - 1

/-- A date of the calendar. -/
structure Date where
  year : Int
  month : Nat
  day : Nat
  month_pos : 1 ≤ month
  month_le : month ≤ 12
  day_pos : 1 ≤ day
  /-- The month is long enough. -/
  day_le : firstDay (12 * year + month - 1) + day ≤ firstDay (12 * year + month)

/-- The year from March on that day `z`, counted from 1 March of year 0, lies in: a guess by the
mean length of a year, off by at most one. -/
def marchYear (z : Int) : Int :=
  let y := 400 * z / 146097
  if z < marchFirst y then y - 1 else if marchFirst (y + 1) ≤ z then y + 1 else y

theorem marchYear_spec (z : Int) : marchFirst (marchYear z) ≤ z ∧ z < marchFirst (marchYear z + 1) := by
  unfold marchYear marchFirst
  dsimp only
  split
  · omega
  · split <;> omega

/-- The month a day lies in. -/
def monthOf (n : Int) : Int :=
  let z := n + 719468
  12 * marchYear z + (5 * (z - marchFirst (marchYear z)) + 2) / 153 + 2

theorem monthOf_spec (n : Int) : firstDay (monthOf n) ≤ n ∧ n < firstDay (monthOf n + 1) := by
  obtain ⟨hle, hlt⟩ := marchYear_spec (n + 719468)
  have hlength := (marchFirst_succ (marchYear (n + 719468))).2
  unfold monthOf firstDay
  dsimp only
  generalize marchYear (n + 719468) = y at hle hlt hlength ⊢
  -- the day of the year that starts in March
  generalize hd : n + 719468 - marchFirst y = d
  have hd₀ : 0 ≤ d := by omega
  have hd₁ : d ≤ 365 := by omega
  have hy : (12 * y + (5 * d + 2) / 153 + 2 - 2) / 12 = y := by omega
  have hm : (12 * y + (5 * d + 2) / 153 + 2 - 2) % 12 = (5 * d + 2) / 153 := by omega
  rw [hy, hm]
  refine ⟨by omega, ?_⟩
  by_cases hfeb : (5 * d + 2) / 153 = 11
  · have hy' : (12 * y + (5 * d + 2) / 153 + 2 + 1 - 2) / 12 = y + 1 := by omega
    have hm' : (12 * y + (5 * d + 2) / 153 + 2 + 1 - 2) % 12 = 0 := by omega
    rw [hy', hm']
    omega
  · have hy' : (12 * y + (5 * d + 2) / 153 + 2 + 1 - 2) / 12 = y := by omega
    have hm' : (12 * y + (5 * d + 2) / 153 + 2 + 1 - 2) % 12 = (5 * d + 2) / 153 + 1 := by omega
    rw [hy', hm']
    omega

/-- The year and the month of `monthOf`, from its number. -/
theorem monthIndex (k : Int) : 12 * (k / 12) + ((k % 12 + 1).toNat : Int) = k + 1 := by
  omega

/-- The date of a day. -/
def dateOf (n : Int) : Date where
  year := monthOf n / 12
  month := (monthOf n % 12 + 1).toNat
  day := (n - firstDay (monthOf n) + 1).toNat
  month_pos := by omega
  month_le := by omega
  day_pos := by have := monthOf_spec n; omega
  day_le := by
    have hspec := monthOf_spec n
    have hindex : monthOf n + 1 - 1 = monthOf n := by omega
    rw [monthIndex, hindex]
    omega

/-- **The date of a day names that day.** -/
theorem toDays_dateOf (n : Int) :
    toDays (dateOf n).year (dateOf n).month (dateOf n).day = n := by
  have hspec := monthOf_spec n
  have hindex : monthOf n + 1 - 1 = monthOf n := by omega
  show firstDay (12 * (monthOf n / 12) + ((monthOf n % 12 + 1).toNat : Int) - 1) +
    ((n - firstDay (monthOf n) + 1).toNat : Int) - 1 = n
  rw [monthIndex, hindex]
  omega

theorem firstDay_mono {j k : Int} (h : j ≤ k) : firstDay j ≤ firstDay k := by
  have hgrow := firstDay_add j (k - j).toNat
  have hindex : j + ((k - j).toNat : Int) = k := by omega
  rw [hindex] at hgrow
  omega

/-- A day is in month `k` or later if it does not lie before that month. -/
theorem le_monthOf {k n : Int} (h : firstDay k ≤ n) : k ≤ monthOf n := by
  by_contra hlt
  have hmono := firstDay_mono (j := monthOf n + 1) (k := k) (by omega)
  have hspec := (monthOf_spec n).2
  omega

theorem year_pos_of_firstDay_le {n : Int} (h : firstDay 12 ≤ n) : 0 < (dateOf n).year := by
  have hmonth := le_monthOf h
  show 0 < monthOf n / 12
  omega

/-- A day lies in one month only. -/
theorem monthOf_eq {k n : Int} (hle : firstDay k ≤ n) (hlt : n < firstDay (k + 1)) : monthOf n = k := by
  have hge := le_monthOf hle
  by_contra hne
  have hmono := firstDay_mono (j := k + 1) (k := monthOf n) (by omega)
  have hspec := (monthOf_spec n).1
  omega

theorem Date.ext_fields {d d' : Date} (hy : d.year = d'.year) (hm : d.month = d'.month)
    (hd : d.day = d'.day) : d = d' := by
  cases d; cases d'; cases hy; cases hm; cases hd; rfl

/-- **Every date is the date of the day it names.** -/
theorem dateOf_toDays (d : Date) : dateOf (toDays d.year d.month d.day) = d := by
  have h₁ := d.month_pos
  have h₂ := d.month_le
  have h₃ := d.day_pos
  have h₄ := d.day_le
  have hnext : 12 * d.year + d.month - 1 + 1 = 12 * d.year + d.month := by omega
  have hmonth : monthOf (toDays d.year d.month d.day) = 12 * d.year + d.month - 1 := by
    apply monthOf_eq
    · unfold toDays
      omega
    · rw [hnext]
      unfold toDays
      omega
  apply Date.ext_fields
  · show monthOf (toDays d.year d.month d.day) / 12 = d.year
    rw [hmonth]
    omega
  · show (monthOf (toDays d.year d.month d.day) % 12 + 1).toNat = d.month
    rw [hmonth]
    omega
  · show (toDays d.year d.month d.day - firstDay (monthOf (toDays d.year d.month d.day)) + 1).toNat = d.day
    rw [hmonth]
    unfold toDays
    omega

theorem Date.day_le_31 (d : Date) : d.day ≤ 31 := by
  have hle := d.day_le
  have hlength := (firstDay_succ (12 * d.year + d.month - 1)).2
  have hindex : 12 * d.year + d.month - 1 + 1 = 12 * d.year + d.month := by omega
  rw [hindex] at hlength
  omega

/-- **Day and month may be exchanged exactly where they are equal**, also under the absolute
value of the year. -/
theorem toDays_swap_iff (d : Date) :
    toDays d.year.natAbs d.day d.month = toDays d.year d.month d.day ↔
      d.day = d.month ∧ 0 ≤ d.year := by
  have h₁ := d.month_pos
  have h₂ := d.month_le
  have h₃ := d.day_pos
  have h₄ := d.day_le_31
  unfold toDays
  rcases lt_or_ge d.year 0 with hneg | hpos
  · -- the year after the exchange is a later one
    have hgrow := firstDay_add (12 * d.year + d.month - 1)
      (12 * (-2 * d.year) + d.day - d.month : Int).toNat
    have hindex : 12 * d.year + d.month - 1 + ((12 * (-2 * d.year) + d.day - d.month : Int).toNat : Int) =
        12 * (d.year.natAbs : Int) + d.day - 1 := by omega
    rw [hindex] at hgrow
    omega
  · have habs : (d.year.natAbs : Int) = d.year := by omega
    rw [habs]
    rcases lt_trichotomy d.day d.month with hlt | heq | hgt
    · have hgrow := firstDay_add (12 * d.year + d.day - 1) (d.month - d.day)
      have hindex : 12 * d.year + d.day - 1 + ((d.month - d.day : Nat) : Int) =
          12 * d.year + d.month - 1 := by omega
      rw [hindex] at hgrow
      omega
    · rw [heq]
      simp [hpos]
    · have hgrow := firstDay_add (12 * d.year + d.month - 1) (d.day - d.month)
      have hindex : 12 * d.year + d.month - 1 + ((d.day - d.month : Nat) : Int) =
          12 * d.year + d.day - 1 := by omega
      rw [hindex] at hgrow
      omega

/-! ## Numbers and dates as text -/

/-- A number in decimal, padded with zeros to `width` digits. -/
def printNat (width n : Nat) : List Char :=
  List.replicate (width - (Nat.toDigits 10 n).length) '0' ++ Nat.toDigits 10 n

/-- The number a text of digits stands for. -/
def readNat (text : List Char) : Option Nat :=
  if !text.isEmpty && text.all Char.isDigit then some (Nat.ofDigitChars 10 text 0) else none

theorem isDigit_of_mem_printNat {width n : Nat} {c : Char} (hc : c ∈ printNat width n) : c.isDigit := by
  rcases List.mem_append.1 hc with hc | hc
  · rw [List.eq_of_mem_replicate hc]
    rfl
  · exact Nat.isDigit_of_mem_toDigits (by decide) (by decide) hc

theorem printNat_ne_nil (width n : Nat) : printNat width n ≠ [] := by
  intro h
  exact Nat.toDigits_ne_nil (List.append_eq_nil_iff.1 h).2

theorem ofDigitChars_printNat (width n : Nat) : Nat.ofDigitChars 10 (printNat width n) 0 = n := by
  rw [printNat, Nat.ofDigitChars_append, Nat.ofDigitChars_replicate_zero, Nat.mul_zero,
    Nat.ofDigitChars_ten_toDigits]

theorem readNat_printNat (width n : Nat) : readNat (printNat width n) = some n := by
  have hdigits : (printNat width n).all Char.isDigit :=
    List.all_eq_true.2 fun c hc => isDigit_of_mem_printNat hc
  have hread : (!(printNat width n).isEmpty && (printNat width n).all Char.isDigit) = true := by
    simp [printNat_ne_nil, hdigits]
  rw [readNat, if_pos hread, ofDigitChars_printNat]

/-- `aa/bb/cccc`. -/
def printFields (a b c : Nat) : String :=
  String.ofList (printNat 2 a ++ '/' :: (printNat 2 b ++ '/' :: printNat 4 c))

/-- The three numbers of a text `a/b/c`. -/
def readFields (text : String) : Option (Nat × Nat × Nat) :=
  match text.toList.splitOn '/' with
  | [a, b, c] => do return (← readNat a, ← readNat b, ← readNat c)
  | _ => none

theorem slash_not_mem_printNat (width n : Nat) : '/' ∉ printNat width n := by
  intro h
  have hdigit := isDigit_of_mem_printNat h
  simp at hdigit

/-- **What was printed is read back.** -/
theorem readFields_printFields (a b c : Nat) : readFields (printFields a b c) = some (a, b, c) := by
  have hsplit : (printFields a b c).toList.splitOn '/' = [printNat 2 a, printNat 2 b, printNat 4 c] := by
    rw [printFields, String.toList_ofList,
      List.splitOn_append_cons_self_of_not_mem (slash_not_mem_printNat 2 a),
      List.splitOn_append_cons_self_of_not_mem (slash_not_mem_printNat 2 b),
      List.splitOn_eq_singleton (slash_not_mem_printNat 4 c)]
  rw [readFields, hsplit]
  simp only [readNat_printNat]
  rfl

end Civil
