import JobEngine.Proofs.Time.Dates
import JobEngine.Time.Parser
import JobEngine.Time.Printer

/-!
# Instants are read as they are written

Digits are read back as their number, a date as the date and a time of day as the second and its
fraction, whatever may follow.

* `natural_append`        digits at the front of a text;
* `yearField_yearText`, `dateField_dateText`, `clockField_clockText`   the parts of an instant;
* `Instant.parse?_text`   the whole of it, for every instant.
-/

namespace JobEngine.Instant

open Text

variable {cs ds : List Char} {c : Char} {acc count width n : Nat}

/-! ## digits -/

theorem isSpace_of_isDigit (h : c.isDigit = true) : isSpace c = false := by
  simp only [Char.isDigit, Bool.and_eq_true, decide_eq_true_eq] at h
  have h0 : 48 ≤ c.toNat := h.1
  have h9 : c.toNat ≤ 57 := h.2
  unfold isSpace
  simp only [Bool.or_eq_false_iff, Bool.and_eq_false_iff, decide_eq_false_iff_not,
    beq_eq_false_iff_ne]
  omega

theorem skipSpace_cons (h : isSpace c = false) : skipSpace (c :: cs) = c :: cs := by
  rw [skipSpace, h]
  rfl

/-- Digits in front of a text make a number. -/
theorem figures_append (hds : ∀ c ∈ ds, c.isDigit = true) :
    figures acc count (ds.length + width) (ds ++ cs) =
      figures (Nat.ofDigitChars 10 ds acc) (count + ds.length) width cs := by
  induction ds generalizing acc count with
  | nil => rw [List.length_nil, Nat.zero_add]; rfl
  | cons d ds ih =>
    obtain ⟨hd, hds⟩ := List.forall_mem_cons.mp hds
    rw [List.length_cons, Nat.add_right_comm, List.cons_append, figures, if_pos hd, ih hds,
      Nat.add_assoc count, Nat.add_comm 1]
    rfl

/-- No digit follows. -/
def Stops (cs : List Char) : Prop := ∀ c ∈ cs.head?, c.isDigit = false

theorem stops_cons (h : c.isDigit = false) : Stops (c :: cs) := by
  rintro _ ⟨⟩
  exact h

theorem figures_stop (h : Stops cs) : figures acc count width cs = (acc, count, cs) := by
  cases width with
  | zero => rfl
  | succ width =>
    cases cs with
    | nil => rfl
    | cons c cs =>
      rw [figures, h c rfl]
      rfl

theorem natural_append (hds : ∀ c ∈ ds, c.isDigit = true) (hne : ds ≠ [])
    (hwidth : ds.length ≤ width) (hstop : ds.length = width ∨ Stops cs) :
    natural width (ds ++ cs) = some (Nat.ofDigitChars 10 ds 0, cs) := by
  obtain ⟨k, rfl⟩ := Nat.exists_eq_add_of_le hwidth
  have hrest : figures (Nat.ofDigitChars 10 ds 0) (0 + ds.length) k cs =
      (Nat.ofDigitChars 10 ds 0, 0 + ds.length, cs) := by
    rcases hstop with hk | hstop
    · obtain rfl : k = 0 := by omega
      rfl
    · exact figures_stop hstop
  have hpos : ¬ 0 + ds.length = 0 := by
    rw [Nat.zero_add, List.length_eq_zero_iff]
    exact hne
  unfold natural
  rw [figures_append hds, hrest]
  exact if_neg hpos

theorem length_padded (width n : Nat) : (padded width n).length = width := by
  induction width generalizing n with
  | zero => rfl
  | succ width ih => rw [padded, List.length_append, ih, List.length_singleton]

theorem isDigit_of_mem_padded : c ∈ padded width n → c.isDigit = true := by
  induction width generalizing n with
  | zero => nofun
  | succ width ih =>
    intro h
    rcases List.mem_append.mp h with h | h
    · exact ih h
    · rw [List.mem_singleton.mp h, Nat.isDigit_digitChar]
      exact decide_eq_true (Nat.mod_lt n (by decide))

theorem ofDigitChars_padded (h : n < 10 ^ width) : Nat.ofDigitChars 10 (padded width n) 0 = n := by
  induction width generalizing n with
  | zero =>
    obtain rfl : n = 0 := Nat.lt_one_iff.mp h
    rfl
  | succ width ih =>
    have hlast : n % 10 < 10 := Nat.mod_lt n (by decide)
    rw [padded, Nat.ofDigitChars_append, ih (by rw [Nat.pow_succ] at h; omega)]
    show 10 * (n / 10) + ((Nat.digitChar (n % 10)).toNat - '0'.toNat) = n
    rw [Nat.toNat_digitChar_of_lt_ten hlast]
    show 10 * (n / 10) + (48 + n % 10 - 48) = n
    omega

theorem padded_ne_nil (width n : Nat) : padded (width + 1) n ≠ [] := by
  intro h
  have := length_padded (width + 1) n
  rw [h] at this
  cases this

/-- A number that is filled up to its width is read back. -/
theorem natural_padded (h : n < 10 ^ (width + 1)) :
    natural (width + 1) (padded (width + 1) n ++ cs) = some (n, cs) := by
  have hlength := length_padded (width + 1) n
  rw [natural_append (fun _ => isDigit_of_mem_padded) (padded_ne_nil width n)
    (Nat.le_of_eq hlength) (Or.inl hlength), ofDigitChars_padded h]

theorem skipSpace_digits (hds : ∀ c ∈ ds, c.isDigit = true) (hne : ds ≠ []) :
    skipSpace (ds ++ cs) = ds ++ cs := by
  cases ds with
  | nil => exact absurd rfl hne
  | cons d ds => exact skipSpace_cons (isSpace_of_isDigit (hds d (List.mem_cons_self ..)))

theorem field_padded (h : n < 10 ^ (width + 1)) :
    field (width + 1) (padded (width + 1) n ++ cs) = some (n, cs) := by
  unfold field
  rw [skipSpace_digits (fun _ => isDigit_of_mem_padded) (padded_ne_nil width n), natural_padded h]

theorem mark_cons (h : isSpace c = false) : mark c (c :: cs) = some cs := by
  unfold mark
  rw [skipSpace_cons h]
  exact if_pos rfl

/-! ## dates -/

/-- A number behind a sign is read up to the hyphen behind it. -/
theorem natural_signed (hds : ∀ c ∈ ds, c.isDigit = true) (hne : ds ≠ []) (cs : List Char) :
    natural (ds ++ '-' :: cs).length (ds ++ '-' :: cs) =
      some (Nat.ofDigitChars 10 ds 0, '-' :: cs) := by
  refine natural_append hds hne ?_ (Or.inr (stops_cons rfl))
  rw [List.length_append]
  exact Nat.le_add_right _ _

/-- The figures of a year, which has at least four. -/
def yearFigures (n : Nat) : List Char := if n < 10000 then padded 4 n else Nat.toDigits 10 n

theorem yearText_eq (year : Int) :
    yearText year =
      if year < 0 then '-' :: yearFigures year.natAbs
      else if year < 10000 then yearFigures year.natAbs
      else '+' :: yearFigures year.natAbs := rfl

theorem isDigit_of_mem_yearFigures (h : c ∈ yearFigures n) : c.isDigit = true := by
  unfold yearFigures at h
  split at h
  · exact isDigit_of_mem_padded h
  · exact Nat.isDigit_of_mem_toDigits (by decide) (by decide) h

theorem yearFigures_ne_nil (n : Nat) : yearFigures n ≠ [] := by
  unfold yearFigures
  split
  · exact padded_ne_nil 3 n
  · exact Nat.toDigits_ne_nil

theorem ofDigitChars_yearFigures (n : Nat) : Nat.ofDigitChars 10 (yearFigures n) 0 = n := by
  unfold yearFigures
  split
  · next h => exact ofDigitChars_padded h
  · exact Nat.ofDigitChars_toDigits (by decide) (by decide)

theorem yearField_minus (cs : List Char) :
    yearField ('-' :: cs) = (natural cs.length cs).map fun (n, rest) => (-(n : Int), rest) := rfl

theorem yearField_plus (cs : List Char) :
    yearField ('+' :: cs) = (natural cs.length cs).map fun (n, rest) => ((n : Int), rest) := rfl

/-- A year without a sign has four figures. -/
theorem yearField_digits (hds : ∀ c ∈ ds, c.isDigit = true) (hne : ds ≠ []) :
    yearField (ds ++ cs) = (natural 4 (ds ++ cs)).map fun (n, rest) => ((n : Int), rest) := by
  unfold yearField
  rw [skipSpace_digits hds hne]
  cases ds with
  | nil => exact absurd rfl hne
  | cons d ds =>
    have hd := hds d (List.mem_cons_self ..)
    split
    · next h => exact absurd ((List.cons.inj h).1 ▸ hd) (by decide)
    · next h => exact absurd ((List.cons.inj h).1 ▸ hd) (by decide)
    · rfl

theorem yearField_yearText (year : Int) (cs : List Char) :
    yearField (yearText year ++ '-' :: cs) = some (year, '-' :: cs) := by
  have hsigned := natural_signed (fun _ => isDigit_of_mem_yearFigures)
    (yearFigures_ne_nil year.natAbs) cs
  rw [ofDigitChars_yearFigures] at hsigned
  rw [yearText_eq]
  split
  · have hyear : -(year.natAbs : Int) = year := by omega
    rw [List.cons_append, yearField_minus, hsigned]
    exact congrArg (fun y => some (y, '-' :: cs)) hyear
  · have hyear : (year.natAbs : Int) = year := by omega
    split
    · next h =>
      have hfour : yearFigures year.natAbs = padded 4 year.natAbs := if_pos (by omega)
      rw [hfour, yearField_digits (fun _ => isDigit_of_mem_padded) (padded_ne_nil 3 _),
        natural_padded (by omega)]
      exact congrArg (fun y => some (y, '-' :: cs)) hyear
    · rw [List.cons_append, yearField_plus, hsigned]
      exact congrArg (fun y => some (y, '-' :: cs)) hyear

theorem dateField_dateText {d : Calendar.Date} (h : d.Valid) (cs : List Char) :
    dateField (dateText d ++ cs) = some (d, cs) := by
  have hmonth : d.month ≤ 12 := h.2.1
  have hday : d.day ≤ Calendar.daysInMonth d.year d.month := h.2.2.2
  have hlong : Calendar.daysInMonth d.year d.month ≤ 31 := by
    unfold Calendar.daysInMonth
    split
    · split <;> decide
    all_goals decide
  have hhyphen : isSpace '-' = false := by decide
  unfold dateText dateField
  simp only [List.append_assoc, List.cons_append, yearField_yearText, Option.bind_eq_bind,
    Option.bind_some, mark_cons hhyphen]
  rw [field_padded (by omega)]
  simp only [Option.bind_some, mark_cons hhyphen]
  rw [field_padded (by omega)]
  exact if_pos h

/-! ## times of day -/

theorem dropDigits_stop (h : Stops cs) : dropDigits cs = cs := by
  cases cs with
  | nil => rfl
  | cons c cs =>
    rw [dropDigits, h c rfl]
    rfl

/-- Of a fraction up to nine digits are read as nanoseconds. -/
theorem fraction_padded (hwidth : width + 1 ≤ 9) (h : n < 10 ^ (width + 1)) (hstop : Stops cs) :
    fraction ('.' :: padded (width + 1) n ++ cs) = some (n * 10 ^ (9 - (width + 1)), cs) := by
  obtain ⟨k, hk⟩ := Nat.exists_eq_add_of_le hwidth
  have hread : figures 0 0 9 (padded (width + 1) n ++ cs) = (n, width + 1, cs) := by
    have hlength : 9 = (padded (width + 1) n).length + k := by rw [length_padded, hk]
    rw [hlength, figures_append fun _ => isDigit_of_mem_padded, ofDigitChars_padded h,
      figures_stop hstop, Nat.zero_add, length_padded]
  rw [List.cons_append]
  unfold fraction
  simp only [hread, Nat.succ_ne_zero, if_false, dropDigits_stop hstop]
  rfl

theorem fraction_none (h : ∀ c ∈ cs.head?, c ≠ '.') : fraction cs = some (0, cs) := by
  unfold fraction
  split
  · exact absurd rfl (h '.' rfl)
  · rfl

theorem fraction_fractionText (h : n < 1000000000) (cs : List Char) :
    fraction (fractionText n ++ 'Z' :: cs) = some (n, 'Z' :: cs) := by
  have hstop : Stops ('Z' :: cs) := stops_cons (by decide)
  unfold fractionText
  split
  · next h0 =>
    rw [h0]
    exact fraction_none (by rintro _ ⟨⟩; decide)
  · split
    · next hmillis =>
      rw [fraction_padded (by decide) (by omega) hstop]
      congr 2
      omega
    · split
      · next hmicros =>
        rw [fraction_padded (by decide) (by omega) hstop]
        congr 2
        omega
      · rw [fraction_padded (by decide) (by omega) hstop]
        congr 2
        omega

/-- A second of the day with its nanoseconds, of which a billion more make a leap second at the end
of a minute. -/
theorem clockField_clockText {second nanos : Nat} (hday : second < 86400)
    (hnanos : nanos < 2000000000) (hleap : 1000000000 ≤ nanos → second % 60 = 59) (cs : List Char) :
    clockField (clockText second nanos ++ 'Z' :: cs) = some (second, nanos, 'Z' :: cs) := by
  have hcolon : isSpace ':' = false := by decide
  have hfraction := fraction_fractionText (Nat.mod_lt nanos (by decide : 0 < 1000000000)) cs
  unfold clockText clockField
  simp only [List.append_assoc, List.cons_append]
  rw [field_padded (by omega)]
  simp only [Option.bind_eq_bind, Option.bind_some, mark_cons hcolon]
  rw [field_padded (by omega)]
  simp only [Option.bind_some, mark_cons hcolon]
  rw [field_padded (by omega)]
  simp only [Option.bind_some, hfraction]
  by_cases hn : nanos < 1000000000
  · have hshown : nanos / 1000000000 = 0 := Nat.div_eq_of_lt hn
    have hsecond : second / 3600 * 3600 + second / 60 % 60 * 60 + second % 60 = second := by omega
    rw [if_pos (by omega), hshown, Nat.add_zero, hsecond, Nat.mod_eq_of_lt hn]
  · have hlast := hleap (Nat.not_lt.mp hn)
    have hshown : second % 60 + nanos / 1000000000 = 60 := by omega
    have hsecond : second / 3600 * 3600 + second / 60 % 60 * 60 + 59 = second := by omega
    have hrest : nanos % 1000000000 + 1000000000 = nanos := by omega
    rw [hshown, if_neg (by omega), if_pos (by omega), hsecond, hrest]

/-! ## instants -/

theorem ofLocal?_utc (t : Instant) :
    ofLocal? t.date t.secondOfDay t.nanos 0 = some t := by
  have hhere : Calendar.dayNumber t.date * 86400 + t.secondOfDay = t.secs := by
    unfold date secondOfDay
    rw [Calendar.dayNumber_ofDayNumber]
    omega
  unfold ofLocal?
  dsimp only
  rw [hhere, Int.sub_zero, of?_parts]
  exact if_pos ⟨t.secs_ge, t.secs_le, by decide⟩

/-- **An instant is read as it is written.** -/
theorem parse?_text (t : Instant) : parse? t.text = some t := by
  have hdate := dateField_dateText (Calendar.valid_ofDayNumber (t.secs / 86400))
  have hday : t.secondOfDay < 86400 := by
    unfold secondOfDay
    omega
  have hleap : 1000000000 ≤ t.nanos → t.secondOfDay % 60 = 59 := by
    intro h
    have hlast := t.leap h
    unfold secondOfDay
    omega
  have hclock := clockField_clockText hday t.nanos_lt hleap []
  unfold parse? text
  rw [String.toList_ofList, List.append_assoc, date, hdate]
  simp only [Option.bind_eq_bind, Option.bind_some, List.cons_append, hclock]
  exact ofLocal?_utc t

end JobEngine.Instant
