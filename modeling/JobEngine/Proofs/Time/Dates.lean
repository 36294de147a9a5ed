import JobEngine.Time.Calendar
import Mathlib.Tactic.IntervalCases

/-!
# Days and dates

The date of a day exists, and its day is the one it was made from.  A cycle of 400 years has four
centuries, a century has 25 terms of four years, and only the last term of a cycle that is cut short
by the year 100, 200 or 300 lacks its leap day.

* `Calendar.Parts`     a day of a cycle by century, term and day of the term;
* `Calendar.InYear`    a day by year and day of the year;
* `Calendar.march`     a date by the month, counted from March;
* `valid_ofDayNumber`  the date of a day exists;
* `dayNumber_ofDayNumber`   and stands for that day.
-/

namespace JobEngine.Calendar

/-! ## years -/

/-- A day of a cycle of 400 years: the centuries and the terms of four years that are over, and the
day of the term. -/
structure Parts (day centuries terms rest : Int) : Prop where
  eq : day = 36524 * centuries + 1461 * terms + rest
  centuries_nonneg : 0 ≤ centuries
  centuries_le : centuries ≤ 3
  terms_nonneg : 0 ≤ terms
  terms_le : terms ≤ 24
  rest_nonneg : 0 ≤ rest
  rest_le : rest ≤ 1460
  /-- The last term of a century has its leap day only in the last century. -/
  leap : rest = 1460 → terms = 24 → centuries = 3

theorem exists_parts {d : Int} (h0 : 0 ≤ d) (h : d < 146097) : ∃ i q s, Parts d i q s := by
  by_cases hlast : d = 146096
  · exact ⟨3, 24, 1460, by constructor <;> omega⟩
  · exact ⟨d / 36524, d % 36524 / 1461, d % 36524 % 1461, by constructor <;> omega⟩

theorem Parts.centuries_eq {d i q s : Int} (h : Parts d i q s) :
    d / 36524 - d / 146096 = i := by
  obtain ⟨hd, hi, hi', hq, hq', hs, hs', hleap⟩ := h
  obtain rfl | rfl | rfl | rfl : i = 0 ∨ i = 1 ∨ i = 2 ∨ i = 3 := by omega
  all_goals omega

/-- The year that the day is in; the leap day is in the last year of its term. -/
theorem Parts.year_eq {d i q s : Int} (h : Parts d i q s) :
    (d - d / 1460 + d / 36524 - d / 146096) / 365 = 100 * i + 4 * q + min (s / 365) 3 := by
  have hcenturies := h.centuries_eq
  obtain ⟨hd, hi, hi', hq, hq', hs, hs', -⟩ := h
  have hterms : d / 1460 = 25 * i + q + (24 * i + q + s) / 1460 := by omega
  have hyear : (s - (24 * i + q + s) / 1460) / 365 = min (s / 365) 3 := by omega
  omega

/-- A day of a cycle by the year of the cycle and the day of the year. -/
structure InYear (year day : Int) : Prop where
  year_nonneg : 0 ≤ year
  year_lt : year < 400
  day_nonneg : 0 ≤ day
  day_le : day ≤ 365
  /-- Years begin in March, so that the leap day belongs to the year that begins behind it. -/
  leap : day = 365 → isLeap (year + 1) = true

theorem inYear {d : Int} (h0 : 0 ≤ d) (h : d < 146097) :
    let year := (d - d / 1460 + d / 36524 - d / 146096) / 365
    InYear year (d - (365 * year + year / 4 - year / 100)) := by
  obtain ⟨i, q, s, hparts⟩ := exists_parts h0 h
  intro y
  have hy : y = 100 * i + 4 * q + min (s / 365) 3 := hparts.year_eq
  clear_value y
  obtain ⟨rfl, hi, hi', hq, hq', hs, hs', hleap⟩ := hparts
  have h4 : y / 4 = 25 * i + q := by omega
  have h100 : y / 100 = i := by omega
  rw [h4, h100]
  refine ⟨by omega, by omega, by omega, by omega, fun hday => ?_⟩
  have hnext : y + 1 = 100 * i + 4 * q + 4 := by omega
  have hmod4 : (y + 1) % 4 = 0 := by omega
  have hmod400 : (y + 1) % 100 = 0 → (y + 1) % 400 = 0 := by omega
  unfold isLeap
  by_cases hmod100 : (y + 1) % 100 = 0
  · simp [hmod4, hmod400 hmod100]
  · simp [hmod4, hmod100]

theorem isLeap_add_cycles (y c : Int) : isLeap (y + c * 400) = isLeap y := by
  have h4 : (y + c * 400) % 4 = y % 4 := by omega
  have h100 : (y + c * 400) % 100 = y % 100 := by omega
  have h400 : (y + c * 400) % 400 = y % 400 := by omega
  unfold isLeap
  rw [h4, h100, h400]

/-! ## months -/

/-- The date of a day in the month `m` behind March of a year. -/
def march (year m : Int) (day : Nat) : Date :=
  let month := if m < 10 then m + 3 else m - 9
  ⟨year + (if month ≤ 2 then 1 else 0), month.toNat, day⟩

variable {year m : Int} {day : Nat}

theorem march_of_lt (h0 : 0 ≤ m) (h : m < 10) :
    march year m day = ⟨year, (m + 3).toNat, day⟩ := by
  have hlate : ¬ m + 3 ≤ 2 := by omega
  simp [march, h, hlate]

theorem march_of_ge (h10 : 10 ≤ m) (h : m ≤ 11) :
    march year m day = ⟨year + 1, (m - 9).toNat, day⟩ := by
  have hearly : m - 9 ≤ 2 := by omega
  simp [march, Int.not_lt.mpr h10, hearly]

theorem dayNumber_march {y c : Int} (hy : 0 ≤ y) (hy' : y < 400) (h0 : 0 ≤ m) (h : m ≤ 11) :
    dayNumber (march (y + c * 400) m day) =
      c * 146097 + (y * 365 + y / 4 - y / 100 + ((153 * m + 2) / 5 + day - 1)) - 719468 := by
  have hcycle : (y + c * 400) / 400 = c := by omega
  have hyear : (y + c * 400) % 400 = y := by omega
  by_cases h10 : m < 10
  · have hmonth : (((m + 3).toNat : Int) + 9) % 12 = m := by omega
    have hlate : ¬ (m + 3).toNat ≤ 2 := by omega
    rw [march_of_lt h0 h10, dayNumber]
    simp only [hlate, if_false, hcycle, hyear, hmonth]
  · have hmonth : (((m - 9).toNat : Int) + 9) % 12 = m := by omega
    have hearly : (m - 9).toNat ≤ 2 := by omega
    rw [march_of_ge (Int.not_lt.mp h10) h, dayNumber]
    simp only [hearly, if_true, Int.add_sub_cancel, hcycle, hyear, hmonth]

/-- From March to January the months are as long as the days between their beginnings. -/
theorem daysInMonth_march (year : Int) (day : Nat) (h0 : 0 ≤ m) (h : m < 11) :
    (daysInMonth (march year m day).year (march year m day).month : Int) =
      (153 * (m + 1) + 2) / 5 - (153 * m + 2) / 5 := by
  interval_cases m <;> rfl

theorem valid_march (h0 : 0 ≤ m) (h : m ≤ 11) (hfirst : 1 ≤ day)
    (hlast : day ≤ daysInMonth (march year m day).year (march year m day).month) :
    (march year m day).Valid := by
  refine ⟨?_, ?_, hfirst, hlast⟩
  all_goals
    unfold march
    dsimp only
    split <;> omega

/-! ## days -/

theorem ofDayNumber_eq (n : Int) :
    let c := (n + 719468) / 146097
    let d := (n + 719468) % 146097
    let y := (d - d / 1460 + d / 36524 - d / 146096) / 365
    let e := d - (365 * y + y / 4 - y / 100)
    let m := (5 * e + 2) / 153
    ofDayNumber n = march (y + c * 400) m (e - (153 * m + 2) / 5 + 1).toNat := rfl

/-- A day of a year is in one of its months. -/
theorem InYear.valid {y e m : Int} (h : InYear y e) (c : Int) (hm : m = (5 * e + 2) / 153) :
    (march (y + c * 400) m (e - (153 * m + 2) / 5 + 1).toNat).Valid := by
  obtain ⟨-, -, he, he', hleap⟩ := h
  have h0 : 0 ≤ m := by omega
  have h11 : m ≤ 11 := by omega
  refine valid_march h0 h11 (by omega) ?_
  by_cases hlast : m < 11
  · have hlength := daysInMonth_march (y + c * 400) (e - (153 * m + 2) / 5 + 1).toNat h0 hlast
    omega
  · -- February, which may have its leap day
    obtain rfl : m = 11 := by omega
    show _ ≤ if isLeap (y + c * 400 + 1) then 29 else 28
    rw [Int.add_right_comm, isLeap_add_cycles]
    by_cases h365 : e = 365
    · rw [hleap h365, if_pos rfl]
      omega
    · split <;> omega

theorem valid_ofDayNumber (n : Int) : (ofDayNumber n).Valid := by
  have h0 : 0 ≤ (n + 719468) % 146097 := by omega
  have h : (n + 719468) % 146097 < 146097 := by omega
  rw [ofDayNumber_eq]
  exact (inYear h0 h).valid _ rfl

/-- The date of a day stands for that day. -/
theorem dayNumber_ofDayNumber (n : Int) : dayNumber (ofDayNumber n) = n := by
  have h0 : 0 ≤ (n + 719468) % 146097 := by omega
  have h : (n + 719468) % 146097 < 146097 := by omega
  have hin := inYear h0 h
  have hday := hin.day_nonneg
  have hday' := hin.day_le
  rw [ofDayNumber_eq, dayNumber_march hin.year_nonneg hin.year_lt (by omega) (by omega)]
  omega

end JobEngine.Calendar
