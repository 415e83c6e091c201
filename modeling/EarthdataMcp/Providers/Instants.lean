import EarthdataMcp.Providers.TimeRange

/-!
# What the text of an instant tells

The text of an instant shows what the calendar and the clock show, and the offset from UTC: two
instants have one text if they agree in both, and only then.

* `ymd2ord_inj`: an ordinal is the ordinal of one date;
* `DateTime.wall_inj`, `formatOffset_inj`;
* `DateTime.isoZ_inj_iff`, and `DateTime.isoZ_append_inj`, for a text that goes on.
-/

namespace EarthdataMcp

open Text

/-! ### Dates -/

section dates

variable {year month day year' month' day' : ℕ}

theorem daysBeforeMonth_succ (year : ℕ) (h : 1 ≤ month) :
    daysBeforeMonth year (month + 1) = daysBeforeMonth year month + daysInMonth year month := by
  unfold daysBeforeMonth
  have hne : List.range month ≠ [] := by simpa using Nat.one_le_iff_ne_zero.1 h
  rw [List.range_succ, List.tail_append_of_ne_nil hne, List.map_append, List.sum_append]
  simp

/-- A month ends before a later one begins. -/
theorem daysBeforeMonth_le (year : ℕ) (h : 1 ≤ month) (hlt : month < month') :
    daysBeforeMonth year month + daysInMonth year month ≤ daysBeforeMonth year month' := by
  induction month', hlt using Nat.le_induction with
  | base => exact (daysBeforeMonth_succ year h).ge
  | succ month' hle ih =>
    rw [daysBeforeMonth_succ year (by omega)]
    omega

/-- The length of a year. -/
theorem daysBeforeMonth_thirteen (year : ℕ) :
    daysBeforeMonth year 13 = if isLeap year then 366 else 365 := by
  by_cases h : isLeap year <;> simp [daysBeforeMonth, List.range_succ, daysInMonth, h]

theorem daysBeforeYear_succ (h : 1 ≤ year) :
    daysBeforeYear (year + 1) = daysBeforeYear year + daysBeforeMonth year 13 := by
  obtain ⟨n, rfl⟩ := Nat.exists_eq_add_of_le' h
  have hleap : isLeap (n + 1) = true ↔ 4 ∣ n + 1 ∧ (¬ 100 ∣ n + 1 ∨ 400 ∣ n + 1) := by
    simp [isLeap, Nat.dvd_iff_mod_eq_zero]
  have hcenturies : n / 100 ≤ n := Nat.div_le_self n 100
  have h100 : 100 ∣ n + 1 → 4 ∣ n + 1 := (by decide : 4 ∣ 100).trans
  have h400 : 400 ∣ n + 1 → 100 ∣ n + 1 := (by decide : 100 ∣ 400).trans
  rw [daysBeforeMonth_thirteen]
  unfold daysBeforeYear
  simp only [Nat.add_sub_cancel, Nat.succ_div, hleap]
  generalize n / 4 = fours, n / 100 = centuries, n / 400 = cycles at *
  by_cases hfour : 4 ∣ n + 1
  · by_cases hcentury : 100 ∣ n + 1
    · by_cases hcycle : 400 ∣ n + 1
      · simp only [hfour, hcentury, hcycle, or_true, and_self, if_true]
        omega
      · simp only [hfour, hcentury, hcycle, not_true_eq_false, or_self, and_false, if_true,
          if_false]
        omega
    · have hcycle : ¬ 400 ∣ n + 1 := fun h => hcentury (h400 h)
      simp only [hfour, hcentury, hcycle, not_false_eq_true, true_or, and_self, if_true, if_false]
      omega
  · have hcentury : ¬ 100 ∣ n + 1 := fun h => hfour (h100 h)
    have hcycle : ¬ 400 ∣ n + 1 := fun h => hcentury (h400 h)
    simp only [hfour, hcentury, hcycle, false_and, if_false]
    omega

theorem daysBeforeYear_le (h : 1 ≤ year) (hlt : year < year') :
    daysBeforeYear year + daysBeforeMonth year 13 ≤ daysBeforeYear year' := by
  induction year', hlt using Nat.le_induction with
  | base => exact (daysBeforeYear_succ h).ge
  | succ year' hle ih =>
    rw [daysBeforeYear_succ (by omega)]
    omega

/-- The fields are those of a day. -/
def IsDate (year month day : ℕ) : Prop :=
  1 ≤ year ∧ (1 ≤ month ∧ month ≤ 12) ∧ 1 ≤ day ∧ day ≤ daysInMonth year month

theorem ymd2ord_lt (h : IsDate year month day) (h' : IsDate year' month' day')
    (hlt : year < year' ∨ year = year' ∧ month < month') :
    ymd2ord year month day < ymd2ord year' month' day' := by
  obtain ⟨hyear, ⟨hmonth, hmonth'⟩, -, hday⟩ := h
  unfold ymd2ord
  rcases hlt with hlt | ⟨rfl, hlt⟩
  · have hyears := daysBeforeYear_le hyear hlt
    have hmonths : daysBeforeMonth year month + daysInMonth year month ≤ daysBeforeMonth year 13 :=
      daysBeforeMonth_le year hmonth (by omega)
    have hone := h'.2.2.1
    omega
  · have hmonths := daysBeforeMonth_le year hmonth hlt
    have hone := h'.2.2.1
    omega

/-- An ordinal is the ordinal of one date. -/
theorem ymd2ord_inj (h : IsDate year month day) (h' : IsDate year' month' day')
    (heq : ymd2ord year month day = ymd2ord year' month' day') :
    year = year' ∧ month = month' ∧ day = day' := by
  have hyear : year = year' := by
    rcases lt_trichotomy year year' with hlt | hsame | hlt
    · exact absurd heq (ymd2ord_lt h h' (Or.inl hlt)).ne
    · exact hsame
    · exact absurd heq (ymd2ord_lt h' h (Or.inl hlt)).ne'
  subst hyear
  have hmonth : month = month' := by
    rcases lt_trichotomy month month' with hlt | hsame | hlt
    · exact absurd heq (ymd2ord_lt h h' (Or.inr ⟨rfl, hlt⟩)).ne
    · exact hsame
    · exact absurd heq (ymd2ord_lt h' h (Or.inr ⟨rfl, hlt⟩)).ne'
  subst hmonth
  exact ⟨rfl, rfl, Nat.add_left_cancel heq⟩

end dates

/-! ### Calendar and clock -/

namespace DateTime

variable {d d' : DateTime}

theorem isDate (d : DateTime) : IsDate d.year d.month d.day :=
  ⟨d.valid.1.1, d.valid.2.1, d.valid.2.2.1⟩

theorem timeOfDay_lt (d : DateTime) : d.timeOfDay < dayLength := by
  obtain ⟨-, -, -, hhour, hminute, hsecond, hmicrosecond, -⟩ := d.valid
  unfold timeOfDay dayLength hourLength minuteLength secondLength
  linarith

/-- The instants show the same date and time. -/
def SameFields (d d' : DateTime) : Prop :=
  (d.year = d'.year ∧ d.month = d'.month ∧ d.day = d'.day) ∧
    d.hour = d'.hour ∧ d.minute = d'.minute ∧ d.second = d'.second ∧
      d.microsecond = d'.microsecond

/-- The calendar and the clock show one date and time at a time. -/
theorem wall_inj (h : d.wall = d'.wall) : d.SameFields d' := by
  obtain ⟨-, -, -, -, hminute, hsecond, hmicrosecond, -⟩ := d.valid
  obtain ⟨-, -, -, -, hminute', hsecond', hmicrosecond', -⟩ := d'.valid
  obtain ⟨hdays, htime⟩ := place_inj d.timeOfDay_lt d'.timeOfDay_lt h
  unfold timeOfDay at htime
  have hminutes : d.hour * 60 + d.minute = d'.hour * 60 + d'.minute ∧
      d.second * secondLength + d.microsecond = d'.second * secondLength + d'.microsecond := by
    apply place_inj (k := minuteLength)
    · unfold secondLength minuteLength
      omega
    · unfold secondLength minuteLength
      omega
    · unfold hourLength minuteLength at htime
      unfold minuteLength
      linarith
  obtain ⟨hhour, hmin⟩ := place_inj hminute hminute' hminutes.1
  obtain ⟨hsec, hmicro⟩ := place_inj (k := secondLength) hmicrosecond hmicrosecond' hminutes.2
  exact ⟨ymd2ord_inj d.isDate d'.isDate hdays, hhour, hmin, hsec, hmicro⟩

theorem SameFields.wall_eq (h : d.SameFields d') : d.wall = d'.wall := by
  obtain ⟨⟨hyear, hmonth, hday⟩, hhour, hminute, hsecond, hmicrosecond⟩ := h
  unfold wall timeOfDay
  rw [hyear, hmonth, hday, hhour, hminute, hsecond, hmicrosecond]

end DateTime

/-! ### Offsets -/

/-- The fraction of a second of an offset, where it has one. -/
def offsetFraction (n : ℕ) : List Char :=
  if n % secondLength = 0 then [] else '.' :: zeroPadded 6 (n % secondLength)

/-- The seconds of an offset, where it has some. -/
def offsetSeconds (n : ℕ) : List Char :=
  if n % minuteLength = 0 then []
  else ':' :: zeroPadded 2 (n % minuteLength / secondLength) ++ offsetFraction n

/-- The sign, the hours and the minutes of an offset. -/
def offsetMinutes (offset : ℤ) : List Char :=
  (if offset < 0 then '-' else '+') :: zeroPadded 2 (offset.natAbs / hourLength) ++
    ':' :: zeroPadded 2 (offset.natAbs % hourLength / minuteLength)

theorem formatOffset_eq (offset : ℤ) :
    formatOffset offset = offsetMinutes offset ++ offsetSeconds offset.natAbs := rfl

@[simp] theorem length_offsetMinutes (offset : ℤ) : (offsetMinutes offset).length = 6 := by
  simp [offsetMinutes]

theorem offsetFraction_inj {m n : ℕ} (h : offsetFraction m = offsetFraction n) :
    m % secondLength = n % secondLength := by
  have hlt (k : ℕ) : k % secondLength < 10 ^ 6 := by
    unfold secondLength
    omega
  unfold offsetFraction at h
  by_cases hm : m % secondLength = 0 <;> by_cases hn : n % secondLength = 0
  · exact hm.trans hn.symm
  · rw [if_pos hm, if_neg hn] at h
    exact absurd h.symm (List.cons_ne_nil _ _)
  · rw [if_neg hm, if_pos hn] at h
    exact absurd h (List.cons_ne_nil _ _)
  · rw [if_neg hm, if_neg hn] at h
    exact zeroPadded_inj (hlt m) (hlt n) (List.cons.inj h).2

theorem offsetSeconds_inj {m n : ℕ} (h : offsetSeconds m = offsetSeconds n) :
    m % minuteLength = n % minuteLength := by
  have hlt (k : ℕ) : k % minuteLength / secondLength < 10 ^ 2 := by
    unfold minuteLength secondLength
    omega
  have hparts (k : ℕ) : k % minuteLength =
      k % minuteLength / secondLength * secondLength + k % secondLength := by
    unfold minuteLength secondLength
    omega
  unfold offsetSeconds at h
  by_cases hm : m % minuteLength = 0 <;> by_cases hn : n % minuteLength = 0
  · exact hm.trans hn.symm
  · rw [if_pos hm, if_neg hn] at h
    exact absurd h.symm (List.cons_ne_nil _ _)
  · rw [if_neg hm, if_pos hn] at h
    exact absurd h (List.cons_ne_nil _ _)
  · rw [if_neg hm, if_neg hn] at h
    obtain ⟨hseconds, hfraction⟩ := List.append_inj (List.cons.inj h).2 (by simp)
    rw [hparts m, hparts n, zeroPadded_inj (hlt m) (hlt n) hseconds, offsetFraction_inj hfraction]

/-- Offsets of less than a day are written apart. -/
theorem formatOffset_inj {offset offset' : ℤ} (hlt : offset.natAbs < dayLength)
    (hlt' : offset'.natAbs < dayLength) (h : formatOffset offset = formatOffset offset') :
    offset = offset' := by
  have hhour (n : ℕ) (hn : n < dayLength) : n / hourLength < 10 ^ 2 := by
    unfold dayLength at hn
    unfold hourLength
    omega
  have hminute (n : ℕ) : n % hourLength / minuteLength < 10 ^ 2 := by
    unfold hourLength minuteLength
    omega
  have hparts (n : ℕ) : n = n / hourLength * hourLength +
      (n % hourLength / minuteLength * minuteLength + n % minuteLength) := by
    unfold hourLength minuteLength
    omega
  rw [formatOffset_eq, formatOffset_eq] at h
  obtain ⟨hminutes, hseconds⟩ := List.append_inj h (by simp)
  obtain ⟨hhours, hminutes⟩ := List.append_inj hminutes (by simp)
  obtain ⟨hsign, hhours⟩ := List.cons.inj hhours
  have habs : offset.natAbs = offset'.natAbs := by
    rw [hparts offset.natAbs, hparts offset'.natAbs,
      zeroPadded_inj (hhour _ hlt) (hhour _ hlt') hhours,
      zeroPadded_inj (hminute _) (hminute _) (List.cons.inj hminutes).2, offsetSeconds_inj hseconds]
  have hsame : offset < 0 ↔ offset' < 0 := by
    constructor <;> intro hneg <;> by_contra hpos <;> simp [hneg, hpos] at hsign
  omega

/-- How `_iso_z` writes an offset. -/
def zoneText (offset : ℤ) : List Char :=
  if "+00:00".toList <+: formatOffset offset then 'Z' :: (formatOffset offset).drop 6
  else formatOffset offset

theorem DateTime.zone_eq (d : DateTime) : d.zone = zoneText d.offset := by
  unfold DateTime.zone DateTime.offset zoneText
  cases d.utcoffset with
  | none => decide
  | some offset => rfl

theorem zoneText_cases (offset : ℤ) :
    (∃ rest, formatOffset offset = "+00:00".toList ++ rest ∧ zoneText offset = 'Z' :: rest) ∨
      zoneText offset = formatOffset offset := by
  unfold zoneText
  split_ifs with hprefix
  · obtain ⟨rest, hrest⟩ := hprefix
    refine Or.inl ⟨rest, hrest.symm, ?_⟩
    rw [← hrest, List.drop_left' (by rfl)]
  · exact Or.inr rfl

theorem formatOffset_ne_zulu (offset : ℤ) (rest : List Char) :
    formatOffset offset ≠ 'Z' :: rest := by
  intro heq
  have hhead : (if offset < 0 then '-' else '+') = 'Z' := (List.cons.inj heq).1
  split_ifs at hhead <;> exact absurd hhead (by decide)

/-- An offset is written with a `Z` or a sign first. -/
theorem zoneText_eq_cons (offset : ℤ) :
    ∃ c rest, zoneText offset = c :: rest ∧ c ∈ ['Z', '+', '-'] := by
  rcases zoneText_cases offset with ⟨rest, -, h⟩ | h
  · exact ⟨_, _, h, by simp⟩
  · rw [h, formatOffset_eq, offsetMinutes]
    refine ⟨_, _, rfl, ?_⟩
    split_ifs <;> simp

theorem zoneText_inj {offset offset' : ℤ} (hlt : offset.natAbs < dayLength)
    (hlt' : offset'.natAbs < dayLength) (h : zoneText offset = zoneText offset') :
    offset = offset' := by
  apply formatOffset_inj hlt hlt'
  rcases zoneText_cases offset with ⟨rest, hformat, hzone⟩ | hzone <;>
    rcases zoneText_cases offset' with ⟨rest', hformat', hzone'⟩ | hzone' <;>
      rw [hzone, hzone'] at h
  · rw [hformat, hformat', (List.cons.inj h).2]
  · exact absurd h.symm (formatOffset_ne_zulu _ _)
  · exact absurd h (formatOffset_ne_zulu _ _)
  · exact h

/-- An offset of whole minutes takes one place or six. -/
theorem zoneText_append_inj {offset offset' : ℤ} (hwhole : offset.natAbs % minuteLength = 0)
    (hwhole' : offset'.natAbs % minuteLength = 0) {x y : List Char}
    (h : zoneText offset ++ x = zoneText offset' ++ y) :
    zoneText offset = zoneText offset' ∧ x = y := by
  have hformat (k : ℤ) (hk : k.natAbs % minuteLength = 0) : (formatOffset k).length = 6 := by
    simp [formatOffset_eq, offsetSeconds, hk]
  have hnil (k : ℤ) (hk : k.natAbs % minuteLength = 0) (rest : List Char)
      (heq : formatOffset k = "+00:00".toList ++ rest) : rest = [] := by
    have hlength := congrArg List.length heq
    rw [hformat k hk, List.length_append] at hlength
    exact List.length_eq_zero_iff.1 (Nat.add_left_cancel (n := 6) hlength.symm)
  have hne (k : ℤ) (rest z : List Char) :
      formatOffset k ++ z ≠ 'Z' :: rest := by
    obtain ⟨c, tail, htail⟩ : ∃ c tail, formatOffset k = c :: tail := ⟨_, _, rfl⟩
    rw [htail]
    intro heq
    exact formatOffset_ne_zulu k tail (by rw [htail, (List.cons.inj heq).1])
  apply List.append_inj h
  rcases zoneText_cases offset with ⟨rest, heq, hzone⟩ | hzone <;>
    rcases zoneText_cases offset' with ⟨rest', heq', hzone'⟩ | hzone' <;>
      rw [hzone, hzone'] at h ⊢
  · rw [hnil _ hwhole _ heq, hnil _ hwhole' _ heq']
  · exact absurd h.symm (hne _ _ _)
  · exact absurd h (hne _ _ _)
  · rw [hformat _ hwhole, hformat _ hwhole']

/-! ### Texts of instants -/

theorem field_inj {xs ys : List Char} {c : Char} {m n : ℕ} (hm : m < 100) (hn : n < 100)
    (h : xs ++ c :: zeroPadded 2 m = ys ++ c :: zeroPadded 2 n) : xs = ys ∧ m = n := by
  obtain ⟨hinit, hlast⟩ := List.append_inj' h (by simp)
  exact ⟨hinit, zeroPadded_inj hm hn (List.cons.inj hlast).2⟩

theorem daysInMonth_le (year month : ℕ) : daysInMonth year month ≤ 31 := by
  unfold daysInMonth
  split_ifs <;> omega

namespace DateTime

variable {d d' : DateTime}

theorem toSeconds_inj (h : d.toSeconds = d'.toSeconds) :
    (d.year = d'.year ∧ d.month = d'.month ∧ d.day = d'.day) ∧
      d.hour = d'.hour ∧ d.minute = d'.minute ∧ d.second = d'.second := by
  obtain ⟨hyear, hmonth, hday, hhour, hminute, hsecond, -, -⟩ := d.valid
  obtain ⟨hyear', hmonth', hday', hhour', hminute', hsecond', -, -⟩ := d'.valid
  have hlast := daysInMonth_le d.year d.month
  have hlast' := daysInMonth_le d'.year d'.month
  obtain ⟨h, heqSecond⟩ := field_inj (by omega) (by omega) h
  obtain ⟨h, heqMinute⟩ := field_inj (by omega) (by omega) h
  obtain ⟨h, heqHour⟩ := field_inj (by omega) (by omega) h
  obtain ⟨h, heqDay⟩ := field_inj (by omega) (by omega) h
  obtain ⟨h, heqMonth⟩ := field_inj (by omega) (by omega) h
  exact ⟨⟨zeroPadded_inj (by omega) (by omega) h, heqMonth, heqDay⟩, heqHour, heqMinute,
    heqSecond⟩

@[simp] theorem length_toSeconds (d : DateTime) : d.toSeconds.length = 19 := by
  simp [toSeconds]

/-- The text up to the offset shows the date and the time. -/
theorem isoZ_append {x y : List Char} (h : d.isoZ ++ x = d'.isoZ ++ y) :
    d.SameFields d' ∧ zoneText d.offset ++ x = zoneText d'.offset ++ y := by
  unfold isoZ at h
  rw [zone_eq, zone_eq, List.append_assoc, List.append_assoc, List.append_assoc,
    List.append_assoc] at h
  obtain ⟨hseconds, hrest⟩ := List.append_inj h (by simp)
  obtain ⟨hdate, hhour, hminute, hsecond⟩ := toSeconds_inj hseconds
  have hne (k : ℤ) (z rest : List Char) : zoneText k ++ z ≠ '.' :: rest := by
    obtain ⟨c, tail, htail, hc⟩ := zoneText_eq_cons k
    rw [htail]
    intro heq
    rw [(List.cons.inj heq).1] at hc
    exact absurd hc (by decide)
  have hmicro := d.valid.2.2.2.2.2.2.1
  have hmicro' := d'.valid.2.2.2.2.2.2.1
  unfold fraction at hrest
  by_cases hzero : d.microsecond = 0 <;> by_cases hzero' : d'.microsecond = 0
  · rw [if_pos hzero, if_pos hzero'] at hrest
    exact ⟨⟨hdate, hhour, hminute, hsecond, hzero.trans hzero'.symm⟩, hrest⟩
  · rw [if_pos hzero, if_neg hzero'] at hrest
    exact absurd hrest (hne _ _ _)
  · rw [if_neg hzero, if_pos hzero'] at hrest
    exact absurd hrest.symm (hne _ _ _)
  · rw [if_neg hzero, if_neg hzero'] at hrest
    obtain ⟨hfraction, hzone⟩ := List.append_inj (List.cons.inj hrest).2 (by simp)
    exact ⟨⟨hdate, hhour, hminute, hsecond, zeroPadded_inj hmicro hmicro' hfraction⟩, hzone⟩

theorem offset_lt (d : DateTime) : d.offset.natAbs < dayLength := by
  unfold offset
  cases hoffset : d.utcoffset with
  | none => decide
  | some k => exact d.valid.2.2.2.2.2.2.2 k hoffset

theorem SameFields.isoZ_eq (h : d.SameFields d') (hoffset : d.offset = d'.offset) :
    d.isoZ = d'.isoZ := by
  obtain ⟨⟨hyear, hmonth, hday⟩, hhour, hminute, hsecond, hmicrosecond⟩ := h
  unfold isoZ toSeconds fraction
  rw [zone_eq, zone_eq, hyear, hmonth, hday, hhour, hminute, hsecond, hmicrosecond, hoffset]

/-- Two instants have one text if they show the same date and time, at the same offset. -/
theorem isoZ_inj_iff : d.isoZ = d'.isoZ ↔ d.wall = d'.wall ∧ d.offset = d'.offset := by
  constructor
  · intro h
    have happend : d.isoZ ++ [] = d'.isoZ ++ [] := congrArg (· ++ []) h
    obtain ⟨hfields, hzone⟩ := isoZ_append happend
    rw [List.append_nil, List.append_nil] at hzone
    exact ⟨hfields.wall_eq, zoneText_inj d.offset_lt d'.offset_lt hzone⟩
  · rintro ⟨hwall, hoffset⟩
    exact (wall_inj hwall).isoZ_eq hoffset

/-- The offset has no seconds. -/
def WholeMinutes (d : DateTime) : Prop := d.offset.natAbs % minuteLength = 0

instance (d : DateTime) : Decidable d.WholeMinutes :=
  inferInstanceAs (Decidable (d.offset.natAbs % minuteLength = 0))

/-- With offsets of whole minutes, the text of an instant ends where it ends. -/
theorem isoZ_append_inj (hwhole : d.WholeMinutes) (hwhole' : d'.WholeMinutes) {x y : List Char}
    (h : d.isoZ ++ x = d'.isoZ ++ y) : d.isoZ = d'.isoZ ∧ x = y := by
  obtain ⟨hfields, hzone⟩ := isoZ_append h
  obtain ⟨hzone, hrest⟩ := zoneText_append_inj hwhole hwhole' hzone
  exact ⟨hfields.isoZ_eq (zoneText_inj d.offset_lt d'.offset_lt hzone), hrest⟩

theorem slash_notMem_isoZ (d : DateTime) : '/' ∉ d.isoZ := by
  have hdigits (width n : ℕ) : '/' ∉ zeroPadded width n := notMem_zeroPadded (by decide) width n
  have hformat (k : ℤ) : '/' ∉ formatOffset k := by
    rw [formatOffset_eq]
    unfold offsetMinutes offsetSeconds offsetFraction
    split_ifs <;> simp [hdigits]
  have hzone (k : ℤ) : '/' ∉ zoneText k := by
    rcases zoneText_cases k with ⟨rest, hrest, h⟩ | h
    · rw [h]
      have hnot := hformat k
      rw [hrest, List.mem_append] at hnot
      simpa using fun hmem => hnot (Or.inr hmem)
    · rw [h]
      exact hformat k
  unfold isoZ toSeconds fraction
  rw [zone_eq]
  split_ifs <;> simp [hdigits, hzone]

end DateTime

namespace TimeRange

variable {range range' : TimeRange}

/-- Two ranges have one text if their ends are written alike. -/
theorem toCmr_inj_iff : range.toCmr = range'.toCmr ↔
    (range.start.wall = range'.start.wall ∧ range.start.offset = range'.start.offset) ∧
      range.stop.wall = range'.stop.wall ∧ range.stop.offset = range'.stop.offset := by
  rw [← DateTime.isoZ_inj_iff, ← DateTime.isoZ_inj_iff]
  unfold toCmr
  constructor
  · intro h
    exact cut_unique range.start.slash_notMem_isoZ range'.start.slash_notMem_isoZ
      (String.ofList_injective h)
  · rintro ⟨hstart, hstop⟩
    rw [hstart, hstop]

/-- With offsets of whole minutes, the text of a range ends where it ends. -/
theorem toCmr_append_inj (hwhole : range.stop.WholeMinutes) (hwhole' : range'.stop.WholeMinutes)
    {x y : List Char} (h : range.toCmr.toList ++ x = range'.toCmr.toList ++ y) :
    range.toCmr = range'.toCmr ∧ x = y := by
  unfold toCmr at h ⊢
  rw [String.toList_ofList, String.toList_ofList, List.append_assoc, List.append_assoc] at h
  obtain ⟨hstart, hrest⟩ := cut_unique range.start.slash_notMem_isoZ
    range'.start.slash_notMem_isoZ h
  obtain ⟨hstop, hrest⟩ := DateTime.isoZ_append_inj hwhole hwhole' hrest
  exact ⟨by rw [hstart, hstop], hrest⟩

end TimeRange

end EarthdataMcp
