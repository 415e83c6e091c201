import EarthdataMcp.Text.Fields

/-!
# Instants and time ranges

The part of Python's `datetime` that the time ranges of requests go through: fields with an
offset from UTC, the ordinal of a date, and the text of `isoformat`.  Spans and offsets are
microseconds.

* `DateTime`, whose fields are those of an existing instant;
* `DateTime.isoZ`, how an instant is written, and `TimeRange.toCmr`;
* `TimeRange.fromCmr`, over the reader of a single instant.
-/

namespace EarthdataMcp

open Text (zeroPadded)

/-! ### The calendar -/

/-- `_is_leap`. -/
def isLeap (year : ℕ) : Bool := year % 4 = 0 && (year % 100 ≠ 0 || year % 400 = 0)

/-- `_days_in_month`. -/
def daysInMonth (year month : ℕ) : ℕ :=
  if month = 2 then (if isLeap year then 29 else 28)
  else if month = 4 ∨ month = 6 ∨ month = 9 ∨ month = 11 then 30
  else 31

/-- `_days_before_year`. -/
def daysBeforeYear (year : ℕ) : ℕ :=
  (year - 1) * 365 + (year - 1) / 4 - (year - 1) / 100 + (year - 1) / 400

/-- `_days_before_month`. -/
def daysBeforeMonth (year month : ℕ) : ℕ :=
  ((List.range month).tail.map (daysInMonth year)).sum

/-- `_ymd2ord`: days since the last one of the year 0. -/
def ymd2ord (year month day : ℕ) : ℕ := daysBeforeYear year + daysBeforeMonth year month + day

/-- `_ord2ymd`. -/
def ord2ymd (ordinal : ℕ) : ℕ × ℕ × ℕ :=
  let n := ordinal - 1
  let (n400, n) := (n / 146097, n % 146097)
  let (n100, n) := (n / 36524, n % 36524)
  let (n4, n) := (n / 1461, n % 1461)
  let (n1, n) := (n / 365, n % 365)
  let year := n400 * 400 + 1 + n100 * 100 + n4 * 4 + n1
  if n1 = 4 ∨ n100 = 4 then (year - 1, 12, 31)
  else
    let month := (n + 50) / 32
    if daysBeforeMonth year month > n then
      (year, month - 1, n - daysBeforeMonth year (month - 1) + 1)
    else (year, month, n - daysBeforeMonth year month + 1)

/-! ### Instants -/

/-- An hour, a minute, a second and a day in microseconds. -/
def hourLength : ℕ := 3600000000

def minuteLength : ℕ := 60000000

def secondLength : ℕ := 1000000

def dayLength : ℕ := 86400000000

/-- A `datetime`; its offset from UTC is `none` if it is naive. -/
structure DateTime where
  year : ℕ
  month : ℕ
  day : ℕ
  hour : ℕ := 0
  minute : ℕ := 0
  second : ℕ := 0
  microsecond : ℕ := 0
  utcoffset : Option ℤ := none
  valid : (1 ≤ year ∧ year ≤ 9999) ∧ (1 ≤ month ∧ month ≤ 12) ∧
    (1 ≤ day ∧ day ≤ daysInMonth year month) ∧ hour < 24 ∧ minute < 60 ∧ second < 60 ∧
    microsecond < 1000000 ∧ ∀ offset ∈ utcoffset, offset.natAbs < 86400000000 := by decide
  deriving DecidableEq

namespace DateTime

/-- The time of day. -/
def timeOfDay (d : DateTime) : ℕ :=
  d.hour * hourLength + d.minute * minuteLength + d.second * secondLength + d.microsecond

/-- What the calendar and the clock show. -/
def wall (d : DateTime) : ℕ := ymd2ord d.year d.month d.day * dayLength + d.timeOfDay

/-- The offset from UTC; a naive instant is taken for one in UTC. -/
def offset (d : DateTime) : ℤ := d.utcoffset.getD 0

/-- The instant in UTC. -/
def instant (d : DateTime) : ℤ := d.wall - d.offset

/-- The instant is `n` microseconds after the Unix epoch, or earlier. -/
def ByTimestamp (d : DateTime) (n : ℤ) : Prop :=
  d.instant ≤ (ymd2ord 1970 1 1 * dayLength : ℕ) + n

instance (d : DateTime) (n : ℤ) : Decidable (d.ByTimestamp n) :=
  inferInstanceAs (Decidable (d.instant ≤ _))

/-- The constructor, which raises unless the fields are those of an instant. -/
def ofFields (year month day hour minute second microsecond : ℕ) (utcoffset : Option ℤ) :
    Option DateTime :=
  if h : _ then some ⟨year, month, day, hour, minute, second, microsecond, utcoffset, h⟩ else none

/-- The instant a span later, unless it is out of range. -/
def add (d : DateTime) (span : ℕ) : Option DateTime :=
  let wall := d.wall + span
  let (year, month, day) := ord2ymd (wall / dayLength)
  let time := wall % dayLength
  ofFields year month day (time / hourLength) (time % hourLength / minuteLength)
    (time % minuteLength / secondLength) (time % secondLength) d.utcoffset

end DateTime

/-! ### The text of an instant -/

/-- `_format_offset`. -/
def formatOffset (offset : ℤ) : List Char :=
  let n := offset.natAbs
  (if offset < 0 then '-' else '+') :: zeroPadded 2 (n / hourLength) ++
    ':' :: zeroPadded 2 (n % hourLength / minuteLength) ++
      if n % minuteLength = 0 then []
      else
        ':' :: zeroPadded 2 (n % minuteLength / secondLength) ++
          if n % secondLength = 0 then [] else '.' :: zeroPadded 6 (n % secondLength)

namespace DateTime

variable (d : DateTime)

/-- The date, and the time to the second. -/
def toSeconds : List Char :=
  zeroPadded 4 d.year ++ '-' :: zeroPadded 2 d.month ++ '-' :: zeroPadded 2 d.day ++
    'T' :: zeroPadded 2 d.hour ++ ':' :: zeroPadded 2 d.minute ++ ':' :: zeroPadded 2 d.second

/-- The fraction of a second, where there is one. -/
def fraction : List Char :=
  if d.microsecond = 0 then [] else '.' :: zeroPadded 6 d.microsecond

/-- The offset as `_iso_z` writes it: a naive instant gets a `Z`, and a `+00:00` becomes one; no
other part of the text has a plus sign. -/
def zone : List Char :=
  match d.utcoffset with
  | none => ['Z']
  | some offset =>
      if "+00:00".toList <+: formatOffset offset then 'Z' :: (formatOffset offset).drop 6
      else formatOffset offset

/-- `_iso_z`. -/
def isoZ : List Char := d.toSeconds ++ d.fraction ++ d.zone

end DateTime

/-! ### Time ranges -/

/-- A closed time interval. -/
structure TimeRange where
  start : DateTime
  stop : DateTime
  deriving DecidableEq

/-- `_parse_iso`: a trailing `Z` is read as well. -/
def parseIso (fromisoformat : String → Option DateTime) (value : List Char) : Option DateTime :=
  fromisoformat (String.ofList (value.flatMap fun c => if c = 'Z' then "+00:00".toList else [c]))

namespace TimeRange

/-- CMR's `start/end` form. -/
def toCmr (range : TimeRange) : String :=
  String.ofList (range.start.isoZ ++ '/' :: range.stop.isoZ)

/-- A range from CMR's form; nothing where the method raises. -/
def fromCmr (fromisoformat : String → Option DateTime) (value : String) : Option TimeRange :=
  let start := value.toList.takeWhile (· ≠ '/')
  let stop := value.toList.drop (start.length + 1)
  if stop = [] then none
  else do
    let start ← parseIso fromisoformat start
    let stop ← parseIso fromisoformat stop
    pure ⟨start, stop⟩

/-- Both texts are those of an instant, and the range is between the two. -/
def between (fromisoformat : String → Option DateTime) (start stop : List Char) :
    Option TimeRange := do
  let start ← parseIso fromisoformat start
  let stop ← parseIso fromisoformat stop
  pure ⟨start, stop⟩

theorem between_eq_some {fromisoformat : String → Option DateTime} {start stop : List Char}
    {range : TimeRange} : between fromisoformat start stop = some range ↔
      parseIso fromisoformat start = some range.start ∧
        parseIso fromisoformat stop = some range.stop := by
  unfold between
  cases parseIso fromisoformat start with
  | none => simp
  | some d =>
    cases parseIso fromisoformat stop with
    | none => simp
    | some d' =>
      obtain ⟨start, stop⟩ := range
      simp

theorem fromCmr_cut {fromisoformat : String → Option DateTime} {start stop : List Char}
    (h : '/' ∉ start) (hstop : stop ≠ []) :
    fromCmr fromisoformat (String.ofList (start ++ '/' :: stop)) =
      between fromisoformat start stop := by
  have hcut := Text.partition_cut stop h
  unfold Text.partition at hcut
  obtain ⟨htake, hdrop⟩ := Prod.mk.inj hcut
  unfold fromCmr between
  rw [String.toList_ofList]
  dsimp only
  rw [hdrop, htake, if_neg hstop]

/-- A text that is read as a range is two texts with a slash between them. -/
theorem cut_of_fromCmr {fromisoformat : String → Option DateTime} {value : String}
    {range : TimeRange} (h : fromCmr fromisoformat value = some range) :
    ∃ start stop, value = String.ofList (start ++ '/' :: stop) ∧ '/' ∉ start ∧ stop ≠ [] ∧
      between fromisoformat start stop = some range := by
  by_cases hmem : '/' ∈ value.toList
  · obtain ⟨start, stop, hvalue, hstart⟩ := List.eq_append_cons_of_mem hmem
    have hvalue' : value = String.ofList (start ++ '/' :: stop) := by
      rw [← hvalue, String.ofList_toList]
    have hstop : stop ≠ [] := by
      rintro rfl
      have hcut := Text.partition_cut [] hstart
      rw [← hvalue] at hcut
      unfold Text.partition at hcut
      unfold fromCmr at h
      dsimp only at h
      rw [(Prod.mk.inj hcut).2, if_pos rfl] at h
      cases h
    refine ⟨start, stop, hvalue', hstart, hstop, ?_⟩
    rw [← fromCmr_cut hstart hstop, ← hvalue', h]
  · have hcut := Text.partition_of_notMem hmem
    unfold Text.partition at hcut
    unfold fromCmr at h
    dsimp only at h
    rw [(Prod.mk.inj hcut).2, if_pos rfl] at h
    cases h

/-- The adjacent range of the same length, where there is one. -/
def next (range : TimeRange) : Option TimeRange :=
  if range.stop.instant ≤ range.start.instant then none
  else do
    let stop ← range.stop.add (range.stop.instant - range.start.instant).toNat
    pure ⟨range.stop, stop⟩

end TimeRange

end EarthdataMcp
