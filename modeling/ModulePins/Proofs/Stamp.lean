import ModulePins.Proofs.Text.Digits
import ModulePins.Stamp

/-!
# Time stamps are read back

The text of a stamp is a date of ten characters, a time of day, and behind them what may be missing:
the fraction of a second and the offset. The reader finds the parts by position, so the work lies in
the last two. `zone` is the text of an offset with `Z` for universal time; it starts with no digit
and with no point, which is what ends the fraction.

## Main results

* `Stamp.readDateTime?_text` — reading the parts of a date-time in range
* `Stamp.ofText?_text` — reading undoes writing
-/

namespace ModulePins

namespace Stamp

variable {n : ℕ} {o : ℤ} {t : DateTime} {rest : List Char}

/-! ### Ranges -/

theorem daysIn_le (year month : ℕ) : Date.daysIn year month ≤ 31 := by
  rw [Date.daysIn]
  split
  · split <;> decide
  · split <;> decide

/-- The fields fit into the places that are written. -/
structure Fits (t : DateTime) : Prop where
  year : t.date.year < 10 ^ 4
  month : t.date.month < 100
  day : t.date.day < 100
  hour : t.hour < 100
  minute : t.minute < 100
  second : t.second < 100
  microsecond : t.microsecond < 10 ^ 6
  offset : ∀ o ∈ t.offset, o.natAbs < 1440

theorem date_ranges {d : Date} (h : d.check = none) :
    d.year < 10 ^ 4 ∧ d.month < 100 ∧ d.day < 100 := by
  have hdays := daysIn_le d.year d.month
  rw [Date.check] at h
  split_ifs at h
  simp_all
  omega

theorem time_ranges {h m s : ℕ}
    (hcheck : (if 23 < h then some CalendarFault.hour else if 59 < m then some .minute
      else if 59 < s then some .second else none) = none) : h < 100 ∧ m < 100 ∧ s < 100 := by
  split_ifs at hcheck
  omega

theorem fits_of_isSound (h : t.isSound = true) : Fits t := by
  rw [DateTime.isSound, Bool.and_eq_true, Option.isNone_iff_eq_none, decide_eq_true_eq,
    DateTime.check] at h
  obtain ⟨hcheck, hmicro⟩ := h
  simp only [Option.orElse_eq_orElse, Option.orElse_eq_or, Option.or_eq_none_iff] at hcheck
  obtain ⟨hoffset, hdate, htime⟩ := hcheck
  obtain ⟨hyear, hmonth, hday⟩ := date_ranges hdate
  obtain ⟨hhour, hminute, hsecond⟩ := time_ranges htime
  refine ⟨hyear, hmonth, hday, hhour, hminute, hsecond, hmicro, fun o ho => ?_⟩
  rw [Option.mem_def.mp ho, Option.bind_some] at hoffset
  split_ifs at hoffset
  omega

/-! ### The fraction -/

/-- The text of a fraction of a second: nothing, or a point and six digits. -/
def fraction (n : ℕ) : List Char :=
  if n = 0 then [] else '.' :: (Text.natDigits 10 6 n).toList

/-- The offset as it is written, with `Z` for universal time. -/
def zone : Option ℤ → List Char
  | none => []
  | some o => if o = 0 then ['Z'] else (DateTime.offsetText o).toList

theorem readFraction?_fraction (hn : n < 10 ^ 6)
    (hrest : ∀ c ∈ rest.head?, c.isDigit = false ∧ c ≠ '.' ∧ c ≠ ',') :
    readFraction? (fraction n ++ rest) = some (n, rest) := by
  rw [fraction]
  split
  · rename_i hzero
    cases rest with
    | nil => rw [hzero]; rfl
    | cons c s =>
      obtain ⟨-, hpoint, hcomma⟩ := hrest c rfl
      rw [List.nil_append, readFraction?, if_neg (by simp [hpoint, hcomma]), hzero]
  · have hlen := Text.length_natDigits (b := 10) (by decide) (by decide) hn
    have hdigits : ∀ c ∈ (Text.natDigits 10 6 n).toList, c.isDigit = true :=
      fun _ => Text.isDigit_of_mem_natDigits
    have hhead : ∀ c ∈ rest.head?, c.isDigit = false := fun c hc => (hrest c hc).1
    have hread := Text.readNat?_natDigits (b := 10) (by decide) (by decide) 6 n
    have hne : (Text.natDigits 10 6 n).toList.isEmpty = false := by
      rw [List.isEmpty_eq_false_iff, ne_eq, ← List.length_eq_zero_iff, hlen]
      decide
    rw [List.cons_append, readFraction?, if_pos (by decide),
      Text.takeWhile_isDigit_append hdigits hhead, Text.dropWhile_isDigit_append hdigits hhead,
      microseconds?, if_neg (by simp [hne])]
    have htake : (Text.natDigits 10 6 n).toList.take 6 = (Text.natDigits 10 6 n).toList :=
      List.take_of_length_le (Nat.le_of_eq hlen)
    simp only [htake, hread, hlen]
    exact congrArg some (by simp [Double.tenPow])

/-! ### The offset -/

theorem toList_offsetText (ho : o.natAbs < 1440) :
    ∃ h₁ h₂ m₁ m₂, (DateTime.offsetText o).toList =
        [if o < 0 then '-' else '+', h₁, h₂, ':', m₁, m₂] ∧
      two? h₁ h₂ = some (o.natAbs / 60) ∧ two? m₁ m₂ = some (o.natAbs % 60) := by
  obtain ⟨h₁, h₂, hhours, hreadHours⟩ := Text.natDigits_two (n := o.natAbs / 60) (by omega)
  obtain ⟨m₁, m₂, hminutes, hreadMinutes⟩ := Text.natDigits_two (n := o.natAbs % 60) (by omega)
  refine ⟨h₁, h₂, m₁, m₂, ?_, hreadHours, hreadMinutes⟩
  rw [DateTime.offsetText]
  simp only [String.toList_append, hhours, hminutes]
  split <;> rfl

/-- What follows a fraction cannot go on with it. -/
theorem head?_zone {offset : Option ℤ} (h : ∀ o ∈ offset, o.natAbs < 1440) :
    ∀ c ∈ (zone offset).head?, c.isDigit = false ∧ c ≠ '.' ∧ c ≠ ',' := by
  intro c hc
  cases offset with
  | none => cases hc
  | some o =>
    rw [zone] at hc
    split at hc
    · cases hc
      decide
    · obtain ⟨h₁, h₂, m₁, m₂, htext, -, -⟩ := toList_offsetText (h o rfl)
      rw [htext] at hc
      cases hc
      split <;> decide

theorem readOffset?_zone {offset : Option ℤ} (h : ∀ o ∈ offset, o.natAbs < 1440) :
    readOffset? (zone offset) = some offset := by
  cases offset with
  | none => rfl
  | some o =>
    rw [zone]
    split
    · rename_i hzero
      rw [hzero]
      rfl
    · obtain ⟨h₁, h₂, m₁, m₂, htext, hhours, hminutes⟩ := toList_offsetText (h o rfl)
      generalize hk : o.natAbs = k at hhours hminutes
      have hsmall : ¬ 59 < k % 60 := by omega
      rw [htext]
      split
      · simp [readOffset?, hhours, hminutes, hsmall]
        omega
      · simp [readOffset?, hhours, hminutes, hsmall]
        omega

/-! ### The whole stamp -/

/-- The text of a date-time without its offset. -/
theorem toList_iso (h : Fits t) :
    ∃ y₁ y₂ y₃ y₄ m₁ m₂ d₁ d₂ h₁ h₂ n₁ n₂ s₁ s₂,
      (DateTime.iso { t with offset := none }).toList =
        y₁ :: y₂ :: y₃ :: y₄ :: '-' :: m₁ :: m₂ :: '-' :: d₁ :: d₂ :: 'T' :: h₁ :: h₂ :: ':' ::
          n₁ :: n₂ :: ':' :: s₁ :: s₂ :: fraction t.microsecond ∧
      Text.readNat? 10 [y₁, y₂, y₃, y₄] = some t.date.year ∧ two? m₁ m₂ = some t.date.month ∧
      two? d₁ d₂ = some t.date.day ∧ two? h₁ h₂ = some t.hour ∧ two? n₁ n₂ = some t.minute ∧
      two? s₁ s₂ = some t.second := by
  obtain ⟨y₁, y₂, y₃, y₄, hyear, hreadYear⟩ :=
    Text.natDigits_four (b := 10) (by decide) (by decide) h.year
  obtain ⟨m₁, m₂, hmonth, hreadMonth⟩ := Text.natDigits_two h.month
  obtain ⟨d₁, d₂, hday, hreadDay⟩ := Text.natDigits_two h.day
  obtain ⟨h₁, h₂, hhour, hreadHour⟩ := Text.natDigits_two h.hour
  obtain ⟨n₁, n₂, hminute, hreadMinute⟩ := Text.natDigits_two h.minute
  obtain ⟨s₁, s₂, hsecond, hreadSecond⟩ := Text.natDigits_two h.second
  refine ⟨y₁, y₂, y₃, y₄, m₁, m₂, d₁, d₂, h₁, h₂, n₁, n₂, s₁, s₂, ?_, hreadYear, hreadMonth,
    hreadDay, hreadHour, hreadMinute, hreadSecond⟩
  have hfraction : (if t.microsecond = 0 then "" else "." ++ Text.natDigits 10 6 t.microsecond).toList
      = fraction t.microsecond := by
    rw [fraction]
    split
    · rfl
    · rw [String.toList_append]
      rfl
  simp only [DateTime.iso, Date.iso, String.toList_append, hyear, hmonth, hday, hhour, hminute,
    hsecond, hfraction]
  simp

theorem readDateTime?_text (h : Fits t) :
    readDateTime? ((DateTime.iso { t with offset := none }).toList ++ zone t.offset) = some t := by
  obtain ⟨y₁, y₂, y₃, y₄, m₁, m₂, d₁, d₂, h₁, h₂, n₁, n₂, s₁, s₂, htext, hyear, hmonth, hday, hhour,
    hminute, hsecond⟩ := toList_iso h
  have hfraction := readFraction?_fraction h.microsecond (head?_zone h.offset)
  rw [htext]
  simp [readDateTime?, readDate?, readSeconds?, hyear, hmonth, hday, hhour, hminute, hsecond,
    hfraction, readOffset?_zone h.offset]

theorem iso_eq_append (t : DateTime) :
    t.iso = DateTime.iso { t with offset := none } ++ (t.offset.map DateTime.offsetText).getD "" := by
  simp [DateTime.iso]

theorem toList_text (t : Stamp) :
    (text t).toList =
      (DateTime.iso { t.val with offset := none }).toList ++ zone t.val.offset := by
  rw [text]
  cases hoffset : t.val.offset with
  | none => simp [iso_eq_append t.val, hoffset, zone]
  | some o =>
    by_cases ho : o = 0
    · simp [ho, zone]
    · simp [iso_eq_append t.val, hoffset, ho, zone]

/-- **Reading undoes writing.** -/
theorem ofText?_text (t : Stamp) : ofText? (text t) = some t := by
  rw [ofText?, toList_text, readDateTime?_text (fits_of_isSound t.property)]
  simp [of?, t.property]

end Stamp

end ModulePins
