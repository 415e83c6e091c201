import EarthdataMcp.Providers.Instants

/-!
# Adding a span to an instant

Every ordinal from one on is the ordinal of a date, so that a span can be added to an instant
unless the sum is past the last year of the calendar.

* `ymd2ord_ord2ymd`: the date of an ordinal has that ordinal;
* `DateTime.wall_of_add`: the sum is the instant that is the span later at the same offset;
* `DateTime.isSome_add_iff`: there is a sum if there is such an instant.
-/

namespace EarthdataMcp

open Text

/-! ### Months -/

section months

variable {year year' month : ℕ}

/-- Only the kind of the year matters for its months. -/
theorem daysInMonth_congr (h : isLeap year = isLeap year') (month : ℕ) :
    daysInMonth year month = daysInMonth year' month := by
  unfold daysInMonth
  rw [h]

theorem daysBeforeMonth_congr (h : isLeap year = isLeap year') (month : ℕ) :
    daysBeforeMonth year month = daysBeforeMonth year' month := by
  unfold daysBeforeMonth
  rw [funext (daysInMonth_congr h)]

/-- The month of a day of the year, which is guessed and put right. -/
def monthOf (year n : ℕ) : ℕ :=
  if daysBeforeMonth year ((n + 50) / 32) > n then (n + 50) / 32 - 1 else (n + 50) / 32

/-- The day is one of that month. -/
def InMonth (year month n : ℕ) : Prop :=
  (1 ≤ month ∧ month ≤ 12) ∧ daysBeforeMonth year month ≤ n ∧
    n < daysBeforeMonth year month + daysInMonth year month

instance (year month n : ℕ) : Decidable (InMonth year month n) :=
  inferInstanceAs (Decidable ((1 ≤ month ∧ month ≤ 12) ∧ daysBeforeMonth year month ≤ n ∧
    n < daysBeforeMonth year month + daysInMonth year month))

theorem inMonth_monthOf {n : ℕ} (year : ℕ) (h : n < 365) : InMonth year (monthOf year n) n := by
  -- one year of each kind is enough
  have hkinds : ∀ year ∈ [1, 4], ∀ n < 365, InMonth year (monthOf year n) n := by decide +kernel
  obtain ⟨kind, hkind, hsame⟩ : ∃ kind ∈ [1, 4], isLeap year = isLeap kind := by
    cases hleap : isLeap year with
    | false => exact ⟨1, by simp, rfl⟩
    | true => exact ⟨4, by simp, rfl⟩
  have hmonth := hkinds kind hkind n h
  unfold InMonth monthOf at *
  simp only [daysBeforeMonth_congr hsame, daysInMonth_congr hsame]
  exact hmonth

end months

/-! ### Years -/

/-- Days before a year, by its places in the cycles of the calendar. -/
theorem daysBeforeYear_cycles {a b c d : ℕ} (hb : b < 4) (hc : c < 25) (hd : d < 4) :
    daysBeforeYear (a * 400 + 1 + b * 100 + c * 4 + d) =
      a * 146097 + b * 36524 + c * 1461 + d * 365 := by
  unfold daysBeforeYear
  omega

/-- The last year of four is a leap year, but for the last of a century. -/
theorem isLeap_cycles {a b c : ℕ} (hc : c < 24) : isLeap (a * 400 + 1 + b * 100 + c * 4 + 3) := by
  unfold isLeap
  simp only [ne_eq, Bool.and_eq_true, Bool.or_eq_true, decide_eq_true_eq]
  omega

theorem isLeap_quadricentennial (a : ℕ) : isLeap (a * 400 + 400) := by
  unfold isLeap
  simp only [ne_eq, Bool.and_eq_true, Bool.or_eq_true, decide_eq_true_eq]
  omega

/-- The last day of a leap year. -/
theorem ymd2ord_lastDay {year : ℕ} (hpos : 1 ≤ year) (h : isLeap year) :
    IsDate year 12 31 ∧ ymd2ord year 12 31 = daysBeforeYear year + 366 := by
  have hkind : isLeap year = isLeap 4 := h
  refine ⟨⟨hpos, by decide, by decide, ?_⟩, ?_⟩
  · rw [daysInMonth_congr hkind]
    decide
  · unfold ymd2ord
    rw [daysBeforeMonth_congr hkind, Nat.add_assoc]
    rfl

/-- A day of a year that is not the last one of a leap year. -/
theorem ymd2ord_monthOf {year n : ℕ} (hpos : 1 ≤ year) (h : n < 365) :
    IsDate year (monthOf year n) (n - daysBeforeMonth year (monthOf year n) + 1) ∧
      ymd2ord year (monthOf year n) (n - daysBeforeMonth year (monthOf year n) + 1) =
        daysBeforeYear year + n + 1 := by
  obtain ⟨hmonth, hle, hlt⟩ := inMonth_monthOf year h
  refine ⟨⟨hpos, hmonth, by omega, by omega⟩, ?_⟩
  unfold ymd2ord
  omega

/-! ### Ordinals -/

/-- The fields are those of a date with this ordinal. -/
def DatedBy (ordinal : ℕ) (date : ℕ × ℕ × ℕ) : Prop :=
  IsDate date.1 date.2.1 date.2.2 ∧ ymd2ord date.1 date.2.1 date.2.2 = ordinal

/-- The date of an ordinal, by the cycles of the calendar it is in. -/
theorem ord2ymd_cycles {a b c d e : ℕ} (hb : b * 36524 + (c * 1461 + (d * 365 + e)) < 146097)
    (hc : c * 1461 + (d * 365 + e) < 36524) (hd : d * 365 + e < 1461) (he : e < 365) :
    ord2ymd (a * 146097 + (b * 36524 + (c * 1461 + (d * 365 + e))) + 1) =
      if d = 4 ∨ b = 4 then (a * 400 + 1 + b * 100 + c * 4 + d - 1, 12, 31)
      else (a * 400 + 1 + b * 100 + c * 4 + d,
        monthOf (a * 400 + 1 + b * 100 + c * 4 + d) e,
        e - daysBeforeMonth (a * 400 + 1 + b * 100 + c * 4 + d)
          (monthOf (a * 400 + 1 + b * 100 + c * 4 + d) e) + 1) := by
  unfold ord2ymd monthOf
  simp only [Nat.add_sub_cancel, place_div hb, place_mod hb, place_div hc, place_mod hc,
    place_div hd, place_mod hd, place_div he, place_mod he]
  split_ifs <;> rfl

/-- Every ordinal is a number of days in the cycles of the calendar. -/
theorem exists_cycles {ordinal : ℕ} (h : 1 ≤ ordinal) : ∃ a b c d e,
    ordinal = a * 146097 + (b * 36524 + (c * 1461 + (d * 365 + e))) + 1 ∧
      b * 36524 + (c * 1461 + (d * 365 + e)) < 146097 ∧ c * 1461 + (d * 365 + e) < 36524 ∧
        d * 365 + e < 1461 ∧ e < 365 := by
  obtain ⟨n, rfl⟩ := Nat.exists_eq_add_of_le' h
  obtain ⟨a, r, rfl, ha⟩ := exists_place (by decide : 0 < 146097) n
  obtain ⟨b, r, rfl, hb⟩ := exists_place (by decide : 0 < 36524) r
  obtain ⟨c, r, rfl, hc⟩ := exists_place (by decide : 0 < 1461) r
  obtain ⟨d, e, rfl, hd⟩ := exists_place (by decide : 0 < 365) r
  exact ⟨a, b, c, d, e, rfl, ha, hb, hc, hd⟩

/-- The date of an ordinal has that ordinal. -/
theorem ymd2ord_ord2ymd {ordinal : ℕ} (h : 1 ≤ ordinal) : DatedBy ordinal (ord2ymd ordinal) := by
  obtain ⟨a, b, c, d, e, heq, hb, hc, hd, he⟩ := exists_cycles h
  rw [heq, ord2ymd_cycles hb hc hd he]
  unfold DatedBy
  clear heq h
  by_cases hlast : d = 4 ∨ b = 4
  · rw [if_pos hlast]
    dsimp only
    by_cases hfour : b = 4
    · -- the last day of the last year of the cycle of four hundred
      subst hfour
      have hrest : c * 1461 + (d * 365 + e) < 1 := by linarith
      obtain ⟨rfl, rfl, rfl⟩ : c = 0 ∧ d = 0 ∧ e = 0 := by simpa using hrest
      have hyear : a * 400 + 1 + 4 * 100 + 0 * 4 + 0 - 1 = a * 400 + 400 := by omega
      have hyear' : a * 400 + 400 = a * 400 + 1 + 3 * 100 + 24 * 4 + 3 := by omega
      have hdays : daysBeforeYear (a * 400 + 400) =
          a * 146097 + 3 * 36524 + 24 * 1461 + 3 * 365 := by
        rw [hyear', daysBeforeYear_cycles (by decide) (by decide) (by decide)]
      obtain ⟨hdate, hord⟩ := ymd2ord_lastDay (by omega) (isLeap_quadricentennial a)
      rw [hyear]
      refine ⟨hdate, ?_⟩
      omega
    · -- the last day of the last year of four
      obtain rfl : d = 4 := hlast.resolve_right hfour
      have hlt : e < 1 := by linarith
      obtain rfl : e = 0 := Nat.lt_one_iff.1 hlt
      have hc' : c < 24 := by
        by_contra hge
        linarith [not_lt.1 hge]
      have hyear : a * 400 + 1 + b * 100 + c * 4 + 4 - 1 = a * 400 + 1 + b * 100 + c * 4 + 3 := by
        omega
      obtain ⟨hdate, hord⟩ := ymd2ord_lastDay (by omega) (isLeap_cycles (a := a) (b := b) hc')
      rw [hyear]
      refine ⟨hdate, ?_⟩
      rw [hord, daysBeforeYear_cycles (by omega) (by omega) (by decide)]
      omega
  · -- the month is found in the year
    rw [if_neg hlast]
    dsimp only
    obtain ⟨hdate, hord⟩ := ymd2ord_monthOf
      (by omega : 1 ≤ a * 400 + 1 + b * 100 + c * 4 + d) he
    refine ⟨hdate, ?_⟩
    rw [hord, daysBeforeYear_cycles (by omega) (by omega) (by omega)]
    omega

/-! ### Times of day -/

/-- A time of day is put together from its places. -/
theorem places_of_time (time : ℕ) :
    time / hourLength * hourLength + time % hourLength / minuteLength * minuteLength +
      time % minuteLength / secondLength * secondLength + time % secondLength = time := by
  unfold hourLength minuteLength secondLength
  omega

/-- The places of a time of day are those of a clock. -/
theorem places_lt {time : ℕ} (h : time < dayLength) :
    time / hourLength < 24 ∧ time % hourLength / minuteLength < 60 ∧
      time % minuteLength / secondLength < 60 ∧ time % secondLength < 1000000 := by
  unfold dayLength at h
  unfold hourLength minuteLength secondLength
  omega

/-! ### Sums -/

namespace DateTime

variable {d d' : DateTime} {span : ℕ}

theorem dayLength_pos : 0 < dayLength := by decide

/-- The day and the time that the calendar and the clock show. -/
theorem wall_div (d : DateTime) : d.wall / dayLength = ymd2ord d.year d.month d.day :=
  place_div d.timeOfDay_lt

theorem one_le_ordinal (d : DateTime) : 1 ≤ d.wall / dayLength := by
  rw [wall_div]
  unfold ymd2ord
  have hday := d.isDate.2.2.1
  omega

theorem ofFields_eq_some {year month day hour minute second microsecond : ℕ}
    {utcoffset : Option ℤ}
    (h : ofFields year month day hour minute second microsecond utcoffset = some d) :
    (d.year = year ∧ d.month = month ∧ d.day = day) ∧
      (d.hour = hour ∧ d.minute = minute ∧ d.second = second ∧ d.microsecond = microsecond) ∧
        d.utcoffset = utcoffset := by
  unfold ofFields at h
  split_ifs at h
  obtain rfl := Option.some.inj h
  exact ⟨⟨rfl, rfl, rfl⟩, ⟨rfl, rfl, rfl, rfl⟩, rfl⟩

/-- The instant that the calendar and the clock show so. -/
def ofWall (wall : ℕ) (utcoffset : Option ℤ) : Option DateTime :=
  ofFields (ord2ymd (wall / dayLength)).1 (ord2ymd (wall / dayLength)).2.1
    (ord2ymd (wall / dayLength)).2.2 (wall % dayLength / hourLength)
    (wall % dayLength % hourLength / minuteLength) (wall % dayLength % minuteLength / secondLength)
    (wall % dayLength % secondLength) utcoffset

theorem add_def : DateTime.add = fun d span =>
    let wall := d.wall + span
    let (year, month, day) := ord2ymd (wall / dayLength)
    let time := wall % dayLength
    ofFields year month day (time / hourLength) (time % hourLength / minuteLength)
      (time % minuteLength / secondLength) (time % secondLength) d.utcoffset := rfl

-- stated for a variable, as the date of a sum is not to be computed
theorem ofWall_eq (wall : ℕ) (utcoffset : Option ℤ) :
    (let (year, month, day) := ord2ymd (wall / dayLength)
    let time := wall % dayLength
    ofFields year month day (time / hourLength) (time % hourLength / minuteLength)
      (time % minuteLength / secondLength) (time % secondLength) utcoffset) =
        ofWall wall utcoffset := rfl

theorem add_eq (d : DateTime) (span : ℕ) : d.add span = ofWall (d.wall + span) d.utcoffset :=
  (congrFun (congrFun add_def d) span).trans (ofWall_eq (d.wall + span) d.utcoffset)

/-- An instant shows what it was made for. -/
theorem wall_of_ofWall {wall : ℕ} {utcoffset : Option ℤ} (hone : 1 ≤ wall / dayLength)
    (h : ofWall wall utcoffset = some d) : d.wall = wall ∧ d.utcoffset = utcoffset := by
  obtain ⟨-, hord⟩ := ymd2ord_ord2ymd hone
  obtain ⟨⟨hyear, hmonth, hday⟩, ⟨hhour, hminute, hsecond, hmicrosecond⟩, hoffset⟩ :=
    ofFields_eq_some h
  have htime : d.timeOfDay = wall % dayLength := by
    unfold timeOfDay
    rw [hhour, hminute, hsecond, hmicrosecond, places_of_time]
  have hdays : ymd2ord d.year d.month d.day = wall / dayLength := by
    rw [hyear, hmonth, hday, hord]
  refine ⟨?_, hoffset⟩
  calc d.wall = ymd2ord d.year d.month d.day * dayLength + d.timeOfDay := rfl
    _ = wall := by rw [hdays, htime, Nat.div_add_mod']

/-- What an instant shows is shown at every offset. -/
theorem isSome_ofWall (d : DateTime) {utcoffset : Option ℤ}
    (hoffset : ∀ offset ∈ utcoffset, offset.natAbs < 86400000000) :
    (ofWall d.wall utcoffset).isSome := by
  obtain ⟨hdate, hord⟩ := ymd2ord_ord2ymd d.one_le_ordinal
  obtain ⟨hhour, hminute, hsecond, hmicrosecond⟩ := places_lt (Nat.mod_lt d.wall dayLength_pos)
  -- the date of the ordinal is that of the instant, which the calendar has
  obtain ⟨hyear, -, -⟩ := ymd2ord_inj hdate d.isDate (by rw [hord, wall_div])
  have hlast : (ord2ymd (d.wall / dayLength)).1 ≤ 9999 := by
    rw [hyear]
    exact d.valid.1.2
  unfold ofWall ofFields
  rw [dif_pos ⟨⟨hdate.1, hlast⟩, hdate.2.1, hdate.2.2, hhour, hminute, hsecond, hmicrosecond,
    hoffset⟩]
  rfl

/-- The sum is the instant that is the span later, at the same offset. -/
theorem wall_of_add (h : d.add span = some d') :
    d'.wall = d.wall + span ∧ d'.utcoffset = d.utcoffset := by
  rw [add_eq] at h
  apply wall_of_ofWall _ h
  exact d.one_le_ordinal.trans (Nat.div_le_div_right (Nat.le_add_right _ _))

/-- There is a sum if there is an instant that is the span later. -/
theorem isSome_add_iff : (d.add span).isSome ↔ ∃ d' : DateTime, d'.wall = d.wall + span := by
  constructor
  · intro h
    obtain ⟨d', hd'⟩ := Option.isSome_iff_exists.1 h
    exact ⟨d', (wall_of_add hd').1⟩
  · rintro ⟨d', hd'⟩
    rw [add_eq, ← hd']
    exact d'.isSome_ofWall d.valid.2.2.2.2.2.2.2

/-- The instants of a sum and of what it is the sum of are the span apart. -/
theorem instant_of_add (h : d.add span = some d') : d'.instant = d.instant + span := by
  obtain ⟨hwall, hoffset⟩ := wall_of_add h
  unfold instant offset
  rw [hwall, hoffset]
  push_cast
  ring

end DateTime

end EarthdataMcp
