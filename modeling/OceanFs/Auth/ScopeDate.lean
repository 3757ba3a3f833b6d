import Mathlib.Algebra.BigOperators.Group.List.Basic
import Mathlib.Data.List.GetD
import Mathlib.Data.Nat.Digits.Defs

/-!
The date that a request is checked against.

`epoch_to_date` counts years and months off a number of seconds, and counts them right. Its caller
divides by the seconds of a day once before the call, and `epoch_to_date` divides again.
-/

namespace OceanFs.Auth

open List

/-! ### The code -/

variable (year : ℕ)

def isLeap : Bool := (year % 4 = 0 && year % 100 ≠ 0) || year % 400 = 0

/-- The loop over the years; every round takes at least a day, so `days` rounds are enough. -/
def yearLoop : ℕ → ℕ → ℕ → ℕ × ℕ
  | 0, year, remainingDays => (year, remainingDays)
  | rounds + 1, year, remainingDays =>
    let daysInYear := if isLeap year then 366 else 365
    if remainingDays < daysInYear then (year, remainingDays)
    else yearLoop rounds (year + 1) (remainingDays - daysInYear)

def monthLoop : List ℕ → ℕ → ℕ → ℕ × ℕ
  | [], month, remainingDays => (month, remainingDays)
  | md :: rest, month, remainingDays =>
    if remainingDays < md then (month, remainingDays)
    else monthLoop rest (month + 1) (remainingDays - md)

def epochToDate (seconds : ℕ) : ℕ × ℕ × ℕ :=
  let days := seconds / 86400
  let (year, remainingDays) := yearLoop days 1970 days
  let monthsDays :=
    if isLeap year then [31, 29, 31, 30, 31, 30, 31, 31, 30, 31, 30, 31]
    else [31, 28, 31, 30, 31, 30, 31, 31, 30, 31, 30, 31]
  let (month, remainingDays) := monthLoop monthsDays 1 remainingDays
  (year, month, remainingDays + 1)

/-- `{:04}` and `{:02}`. -/
def padded (width n : ℕ) : List Char := (Nat.toDigits 10 n).leftpad width '0'

def formatDate (date : ℕ × ℕ × ℕ) : List Char :=
  padded 4 date.1 ++ padded 2 date.2.1 ++ padded 2 date.2.2

/-- `current_utc_time` at `now` seconds since the epoch. -/
def currentUtcTime (now : ℕ) : List Char :=
  let daysSinceEpoch := now / 86400
  formatDate (epochToDate daysSinceEpoch)

def validDateRange (requestDate nowDate : List Char) (_maxSkewSeconds : ℕ) : Bool :=
  requestDate = nowDate

/-! ### The proleptic Gregorian calendar -/

def Leap (year : ℕ) : Prop := 4 ∣ year ∧ (100 ∣ year → 400 ∣ year)

instance (year : ℕ) : Decidable (Leap year) := inferInstanceAs (Decidable (_ ∧ _))

/-- The leap years before `year`, from the year 1 on. -/
def leapYearsBefore : ℕ := (year - 1) / 4 - (year - 1) / 100 + (year - 1) / 400

/-- The number of the first of January. -/
def yearStart : ℕ :=
  365 * (year - 1970) + (leapYearsBefore year - leapYearsBefore 1970)

def monthLengths : List ℕ :=
  [31, if Leap year then 29 else 28, 31, 30, 31, 30, 31, 31, 30, 31, 30, 31]

/-- A date since the epoch. -/
@[ext] structure Date where
  year : ℕ
  month : ℕ
  day : ℕ
  since_epoch : 1970 ≤ year
  month_pos : 1 ≤ month
  month_le : month ≤ 12
  day_pos : 1 ≤ day
  day_le : day ≤ (monthLengths year).getD (month - 1) 0

variable (date : Date)

/-- The days of the year before a date. -/
def Date.yearDay : ℕ :=
  ((monthLengths date.year).take (date.month - 1)).sum + (date.day - 1)

/-- The days since the epoch. -/
def Date.number : ℕ := yearStart date.year + date.yearDay

def Date.text : List Char := formatDate (date.year, date.month, date.day)

def yearLength : ℕ := if Leap year then 366 else 365

lemma yearStart_succ {year : ℕ} (h : 1970 ≤ year) :
    yearStart (year + 1) = yearStart year + yearLength year := by
  by_cases hleap : Leap year
  all_goals
    simp only [yearStart, yearLength, leapYearsBefore, hleap, if_true, if_false]
    unfold Leap at hleap
    omega

lemma yearStart_le_add {year : ℕ} (h : 1970 ≤ year) (n : ℕ) :
    yearStart year ≤ yearStart (year + n) := by
  induction n with
  | zero => exact Nat.le_refl _
  | succ n ih =>
    rw [← Nat.add_assoc, yearStart_succ (by omega)]
    omega

lemma sum_monthLengths : (monthLengths year).sum = yearLength year := by
  unfold monthLengths yearLength
  split_ifs <;> rfl

/-! ### The loops count right -/

lemma isLeap_iff : isLeap year = true ↔ Leap year := by
  simp only [isLeap, Leap, Bool.or_eq_true, Bool.and_eq_true, decide_eq_true_eq]
  omega

lemma yearLoop_succ (rounds year r : ℕ) :
    yearLoop (rounds + 1) year r =
      if r < yearLength year then (year, r)
      else yearLoop rounds (year + 1) (r - yearLength year) := by
  have hlength : (if isLeap year = true then 366 else 365) = yearLength year :=
    if_congr (isLeap_iff year) rfl rfl
  rw [yearLoop, hlength]

lemma yearLoop_eq {year r : ℕ} (hyear : 1970 ≤ year) (n : ℕ) (hr : r < yearLength (year + n))
    {rounds : ℕ} (hrounds : n ≤ rounds) :
    yearLoop rounds year (yearStart (year + n) - yearStart year + r) = (year + n, r) := by
  induction n generalizing year rounds with
  | zero =>
    rw [Nat.add_zero] at hr ⊢
    rw [Nat.sub_self, Nat.zero_add]
    cases rounds with
    | zero => rfl
    | succ rounds => rw [yearLoop_succ, if_pos hr]
  | succ n ih =>
    obtain ⟨rounds, rfl⟩ := Nat.exists_eq_add_one_of_ne_zero (by omega : rounds ≠ 0)
    have hnext := yearStart_succ hyear
    have hmore := yearStart_le_add (by omega : 1970 ≤ year + 1) n
    rw [← Nat.add_assoc, Nat.add_right_comm] at hr ⊢
    have hrest : yearStart (year + 1 + n) - yearStart year + r - yearLength year =
        yearStart (year + 1 + n) - yearStart (year + 1) + r := by omega
    rw [yearLoop_succ, if_neg (by omega), hrest]
    exact ih (by omega) hr (by omega)

lemma monthLoop_eq {lengths : List ℕ} {i r : ℕ} (hr : r < lengths.getD i 0) (month : ℕ) :
    monthLoop lengths month ((lengths.take i).sum + r) = (month + i, r) := by
  induction lengths generalizing i month with
  | nil => simp at hr
  | cons md rest ih =>
    cases i with
    | zero =>
      rw [take_zero, sum_nil, Nat.zero_add, monthLoop, if_pos (by simpa using hr), Nat.add_zero]
    | succ i =>
      rw [take_succ_cons, sum_cons, monthLoop, if_neg (by omega),
        show md + (rest.take i).sum + r - md = (rest.take i).sum + r by omega,
        ih (by simpa using hr), show month + 1 + i = month + (i + 1) by omega]

lemma Date.month_lt : date.month - 1 < (monthLengths date.year).length := by
  have hpos := date.month_pos
  have hle := date.month_le
  simp only [monthLengths, length_cons, length_nil]
  omega

lemma Date.yearDay_lt : date.yearDay < yearLength date.year := by
  have hday := date.day_le
  have hpos := date.day_pos
  have hsum := sum_take_add_sum_drop (monthLengths date.year) (date.month - 1)
  rw [drop_eq_getElem_cons date.month_lt, sum_cons, sum_monthLengths] at hsum
  rw [getD_eq_getElem _ _ date.month_lt] at hday
  rw [yearDay]
  omega

lemma epochToDate_eq {seconds : ℕ} {date : Date} (h : date.number = seconds / 86400) :
    epochToDate seconds = (date.year, date.month, date.day) := by
  have hyears : yearLoop (seconds / 86400) 1970 (seconds / 86400) = (date.year, date.yearDay) := by
    obtain ⟨n, hn⟩ := Nat.exists_eq_add_of_le date.since_epoch
    have hn' : n ≤ date.number := by
      rw [Date.number, hn, yearStart]
      omega
    have hloop := yearLoop_eq (Nat.le_refl 1970) n (hn ▸ date.yearDay_lt) (h ▸ hn')
    rw [← hn] at hloop
    rw [← hloop, ← h, Date.number]
    rfl
  have hmonths : (if isLeap date.year then [31, 29, 31, 30, 31, 30, 31, 31, 30, 31, 30, 31]
      else [31, 28, 31, 30, 31, 30, 31, 31, 30, 31, 30, 31]) = monthLengths date.year := by
    rw [if_congr (isLeap_iff _) rfl rfl, monthLengths]
    split_ifs <;> rfl
  have hday := date.day_pos
  have hmonth := date.month_pos
  have hdays := @monthLoop_eq (monthLengths date.year) (date.month - 1) (date.day - 1)
    (by have := date.day_le; omega) 1
  simp only [epochToDate, hyears, hmonths, Date.yearDay, hdays]
  rw [Nat.sub_add_cancel hday, Nat.add_sub_cancel' hmonth]

/-! ### Numbers and texts of dates -/

lemma exists_year (n : ℕ) :
    ∃ year, 1970 ≤ year ∧ yearStart year ≤ n ∧ n < yearStart (year + 1) := by
  induction n with
  | zero => exact ⟨1970, by decide⟩
  | succ n ih =>
    obtain ⟨year, hyear, hle, hlt⟩ := ih
    rcases Nat.lt_or_ge (n + 1) (yearStart (year + 1)) with h | h
    · exact ⟨year, hyear, by omega, h⟩
    · refine ⟨year + 1, by omega, h, ?_⟩
      have hnext := yearStart_succ (by omega : 1970 ≤ year + 1)
      have hpos : 0 < yearLength (year + 1) := by unfold yearLength; split_ifs <;> decide
      omega

lemma exists_month {lengths : List ℕ} {r : ℕ} (h : r < lengths.sum) :
    ∃ i < lengths.length, (lengths.take i).sum ≤ r ∧
      r < (lengths.take i).sum + lengths.getD i 0 := by
  induction lengths generalizing r with
  | nil => simp at h
  | cons md rest ih =>
    rcases Nat.lt_or_ge r md with hlt | hge
    · exact ⟨0, by simp, by simp, by simpa using hlt⟩
    · rw [sum_cons] at h
      obtain ⟨i, hi, hle, hlt⟩ := @ih (r - md) (by omega)
      refine ⟨i + 1, by simpa using hi, ?_, ?_⟩
      · rw [take_succ_cons, sum_cons]
        omega
      · rw [take_succ_cons, sum_cons, getD_cons_succ]
        omega

lemma Date.exists_number_eq (n : ℕ) : ∃ date : Date, date.number = n := by
  obtain ⟨year, hyear, hle, hlt⟩ := exists_year n
  rw [yearStart_succ hyear, ← sum_monthLengths] at hlt
  obtain ⟨i, hi, hle', hlt'⟩ := @exists_month (monthLengths year) (n - yearStart year) (by omega)
  have hi12 : i < 12 := hi
  refine ⟨⟨year, i + 1, n - yearStart year - ((monthLengths year).take i).sum + 1, hyear, by omega,
    by omega, by omega, ?_⟩, ?_⟩
  · rw [Nat.add_sub_cancel]
    omega
  · simp only [number, yearDay, Nat.add_sub_cancel]
    omega

lemma Date.number_inj {a b : Date} (h : a.number = b.number) : a = b := by
  have ha := @epochToDate_eq (a.number * 86400) a (by omega)
  have hb := @epochToDate_eq (a.number * 86400) b (by omega)
  have heq := ha.symm.trans hb
  simp only [Prod.mk.injEq] at heq
  exact Date.ext heq.1 heq.2.1 heq.2.2

lemma padded_inj {width a b : ℕ} (h : padded width a = padded width b) : a = b := by
  have hvalue (n : ℕ) : Nat.ofDigitChars 10 (padded width n) 0 = n := by
    rw [padded, List.leftpad, Nat.ofDigitChars_append, Nat.ofDigitChars_replicate_zero,
      Nat.mul_zero, Nat.ofDigitChars_toDigits (by decide) (by decide)]
  rw [← hvalue a, h, hvalue b]

lemma length_padded {n : ℕ} (h : n < 100) : (padded 2 n).length = 2 := by
  rw [padded, length_leftpad]
  exact max_eq_left ((Nat.length_toDigits_le_iff (by decide) (by decide)).mpr h)

lemma Date.text_inj {a b : Date} (h : a.text = b.text) : a = b := by
  have hday (date : Date) : date.day < 100 := by
    have hle := date.day_le
    have hall : ∀ l ∈ monthLengths date.year, l ≤ 31 := by
      unfold monthLengths
      split_ifs <;> decide
    rw [getD_eq_getElem _ _ date.month_lt] at hle
    have hlength := hall _ (getElem_mem date.month_lt)
    omega
  have ha := a.month_le
  have hb := b.month_le
  obtain ⟨hfront, hd⟩ := append_inj' h (by
    rw [length_padded (hday a), length_padded (hday b)])
  obtain ⟨hy, hm⟩ := append_inj' hfront (by
    rw [length_padded (by simp only; omega), length_padded (by simp only; omega)])
  exact Date.ext (padded_inj hy) (padded_inj hm) (padded_inj hd)

/-! ### The check -/

/-- At `now`, the date that is computed is the date of the day, and only a request that is scoped to
it passes the check. -/
def ChecksDate (now : ℕ) : Prop :=
  ∀ date : Date, date.number = now / 86400 →
    currentUtcTime now = date.text ∧
      ∀ scope : Date, validDateRange scope.text (currentUtcTime now) 300 = true ↔ scope = date

lemma currentUtcTime_eq {now : ℕ} {date : Date} (h : date.number = now / 86400 / 86400) :
    currentUtcTime now = date.text := by
  rw [currentUtcTime, epochToDate_eq h, Date.text]

/-- **Requests are checked against the date on the first day of the epoch only.** -/
theorem date_checked_iff (now : ℕ) : ChecksDate now ↔ now < 86400 := by
  constructor
  · intro h
    obtain ⟨date, hdate⟩ := Date.exists_number_eq (now / 86400)
    obtain ⟨computed, hcomputed⟩ := Date.exists_number_eq (now / 86400 / 86400)
    have htext := (h date hdate).1
    rw [currentUtcTime_eq hcomputed] at htext
    have hnumber := congrArg Date.number (Date.text_inj htext)
    omega
  · intro hnow date hdate
    have htext := @currentUtcTime_eq now date (by omega)
    refine ⟨htext, fun scope => ?_⟩
    rw [validDateRange, htext, decide_eq_true_eq]
    exact ⟨Date.text_inj, congrArg Date.text⟩

/-- On the first of August 2026, a request of that day is refused. -/
theorem todays_request_refused : ¬ ChecksDate (20666 * 86400) := by
  intro h
  have hdate := h ⟨2026, 8, 1, by decide, by decide, by decide, by decide, by decide⟩ (by decide)
  exact absurd hdate.1 (by decide)

end OceanFs.Auth
