import EarthdataMcp.Providers.TimeRangeGrammar

/-!
# Instants written and read back

An instant is written by `isoformat` and read by `fromisoformat`, which is its inverse.

* `ReadsBack`: a reader is an inverse of `isoformat`;
* `parseIso_isoZ`: what `_iso_z` writes is read as the instant, with an offset;
* `readIsoformat`, a reader that does, by the places of the fields.
-/

namespace EarthdataMcp

open Text

/-! ### Writing -/

/-- `isoformat`. -/
def DateTime.isoformat (d : DateTime) : List Char :=
  d.toSeconds ++ d.fraction ++ d.utcoffset.elim [] formatOffset

/-- The instant with its offset, which is that from UTC if it has none. -/
def DateTime.aware (d : DateTime) : DateTime :=
  { d with
    utcoffset := some d.offset
    valid := by
      obtain ⟨hyear, hmonth, hday, hhour, hminute, hsecond, hmicrosecond, -⟩ := d.valid
      refine ⟨hyear, hmonth, hday, hhour, hminute, hsecond, hmicrosecond, ?_⟩
      intro offset hoffset
      obtain rfl := Option.some.inj hoffset
      exact d.offset_lt }

@[simp] theorem DateTime.wall_aware (d : DateTime) : d.aware.wall = d.wall := rfl

@[simp] theorem DateTime.instant_aware (d : DateTime) : d.aware.instant = d.instant := rfl

@[simp] theorem DateTime.utcoffset_aware (d : DateTime) : d.aware.utcoffset = some d.offset := rfl

/-- A reader is an inverse of `isoformat`. -/
def ReadsBack (fromisoformat : String → Option DateTime) : Prop :=
  ∀ d : DateTime, fromisoformat (String.ofList d.isoformat) = some d

/-- How `_parse_iso` replaces a `Z`. -/
def ofZulu (text : List Char) : List Char :=
  text.flatMap fun c => if c = 'Z' then "+00:00".toList else [c]

theorem ofZulu_append (text text' : List Char) :
    ofZulu (text ++ text') = ofZulu text ++ ofZulu text' := List.flatMap_append

theorem ofZulu_of_notMem {text : List Char} (h : 'Z' ∉ text) : ofZulu text = text := by
  induction text with
  | nil => rfl
  | cons c text ih =>
    rw [List.mem_cons, not_or] at h
    obtain ⟨hc, htext⟩ := h
    unfold ofZulu at *
    rw [List.flatMap_cons, ih htext, if_neg (Ne.symm hc)]
    rfl

theorem zulu_notMem_formatOffset (offset : ℤ) : 'Z' ∉ formatOffset offset := by
  have hdigits (width n : ℕ) : 'Z' ∉ zeroPadded width n := notMem_zeroPadded (by decide) width n
  rw [formatOffset_eq]
  unfold offsetMinutes offsetSeconds offsetFraction
  split_ifs <;> simp [hdigits]

/-- An offset is put back as it was. -/
theorem ofZulu_zoneText (offset : ℤ) : ofZulu (zoneText offset) = formatOffset offset := by
  rcases zoneText_cases offset with ⟨rest, hformat, hzone⟩ | hzone
  · have hrest : 'Z' ∉ rest := by
      intro hmem
      apply zulu_notMem_formatOffset offset
      rw [hformat]
      exact List.mem_append_right _ hmem
    rw [hzone, hformat, ← List.singleton_append, ofZulu_append, ofZulu_of_notMem hrest]
    rfl
  · rw [hzone, ofZulu_of_notMem (zulu_notMem_formatOffset offset)]

/-- What `_iso_z` writes becomes what `isoformat` writes of the instant with its offset. -/
theorem ofZulu_isoZ (d : DateTime) : ofZulu d.isoZ = d.aware.isoformat := by
  have hdigits (width n : ℕ) : 'Z' ∉ zeroPadded width n := notMem_zeroPadded (by decide) width n
  have hseconds : 'Z' ∉ d.toSeconds := by simp [DateTime.toSeconds, hdigits]
  have hfraction : 'Z' ∉ d.fraction := by
    unfold DateTime.fraction
    split_ifs <;> simp [hdigits]
  unfold DateTime.isoZ
  rw [DateTime.zone_eq, ofZulu_append, ofZulu_append, ofZulu_of_notMem hseconds,
    ofZulu_of_notMem hfraction, ofZulu_zoneText]
  rfl

/-- What `_iso_z` writes is read as the instant, with its offset. -/
theorem parseIso_isoZ {fromisoformat : String → Option DateTime} (hback : ReadsBack fromisoformat)
    (d : DateTime) : parseIso fromisoformat d.isoZ = some d.aware := by
  show fromisoformat (String.ofList (ofZulu d.isoZ)) = _
  rw [ofZulu_isoZ, hback]

/-! ### Reading -/

/-- The date, and the time to the second. -/
def readSeconds (text : List Char) : (ℕ × ℕ × ℕ) × (ℕ × ℕ × ℕ) × List Char :=
  let (year, text) := readField 4 text
  let (month, text) := readField 2 text.tail
  let (day, text) := readField 2 text.tail
  let (hour, text) := readField 2 text.tail
  let (minute, text) := readField 2 text.tail
  let (second, text) := readField 2 text.tail
  ((year, month, day), (hour, minute, second), text)

/-- The fraction of a second, where there is one. -/
def readFraction (text : List Char) : ℕ × List Char :=
  if text.head? = some '.' then readField 6 text.tail else (0, text)

/-- The offset, where there is one; its seconds may be missing, and their fraction. -/
def readOffset : List Char → Option ℤ
  | [] => none
  | sign :: text =>
      let (hours, text) := readField 2 text
      let (minutes, text) := readField 2 text.tail
      let (seconds, text) := readField 2 text.tail
      let (fraction, _) := readField 6 text.tail
      let n : ℕ := hours * hourLength + minutes * minuteLength + seconds * secondLength + fraction
      some (if sign = '-' then -n else n)

/-- Reads what `isoformat` writes, and nothing else. -/
def readIsoformat (text : String) : Option DateTime :=
  let (date, time, rest) := readSeconds text.toList
  let (microsecond, rest) := readFraction rest
  (DateTime.ofFields date.1 date.2.1 date.2.2 time.1 time.2.1 time.2.2 microsecond
    (readOffset rest)).filter fun d => d.isoformat = text.toList

example : readIsoformat "2024-02-29T23:59:59.000001-05:30" = some
    { year := 2024, month := 2, day := 29, hour := 23, minute := 59, second := 59, microsecond := 1,
      utcoffset := some (-19800000000) } := by decide +kernel

theorem readSeconds_toSeconds (d : DateTime) (rest : List Char) :
    readSeconds (d.toSeconds ++ rest) =
      ((d.year, d.month, d.day), (d.hour, d.minute, d.second), rest) := by
  obtain ⟨hyear, hmonth, hday, hhour, hminute, hsecond, -, -⟩ := d.valid
  have hlast := daysInMonth_le d.year d.month
  have hyear' : d.year < 10 ^ 4 := by omega
  have hmonth' : d.month < 10 ^ 2 := by omega
  have hday' : d.day < 10 ^ 2 := by omega
  have hhour' : d.hour < 10 ^ 2 := by omega
  have hminute' : d.minute < 10 ^ 2 := by omega
  have hsecond' : d.second < 10 ^ 2 := by omega
  unfold readSeconds DateTime.toSeconds
  simp only [List.append_assoc, List.cons_append, readField_append hyear', readField_append hmonth',
    readField_append hday', readField_append hhour', readField_append hminute',
    readField_append hsecond', List.tail_cons]

theorem readFraction_fraction (d : DateTime) {rest : List Char} (h : rest.head? ≠ some '.') :
    readFraction (d.fraction ++ rest) = (d.microsecond, rest) := by
  have hmicrosecond : d.microsecond < 10 ^ 6 := d.valid.2.2.2.2.2.2.1
  unfold DateTime.fraction readFraction
  by_cases hzero : d.microsecond = 0
  · rw [if_pos hzero, List.nil_append, if_neg h, hzero]
  · rw [if_neg hzero, List.cons_append, if_pos (by rfl), List.tail_cons,
      readField_append hmicrosecond]

/-- The seconds of an offset and their fraction, as far as they are there. -/
theorem readField_offsetSeconds (n : ℕ) :
    (readField 2 (offsetSeconds n).tail).1 * secondLength +
      (readField 6 (readField 2 (offsetSeconds n).tail).2.tail).1 = n % minuteLength := by
  have hseconds : n % minuteLength / secondLength < 10 ^ 2 := by
    unfold minuteLength secondLength
    omega
  have hfraction : n % secondLength < 10 ^ 6 := by
    unfold secondLength
    omega
  have hparts : n % minuteLength / secondLength * secondLength + n % secondLength =
      n % minuteLength := by
    unfold minuteLength secondLength
    omega
  unfold offsetSeconds
  by_cases hnone : n % minuteLength = 0
  · rw [if_pos hnone, hnone]
    rfl
  · rw [if_neg hnone, List.cons_append, List.tail_cons, readField_append hseconds]
    dsimp only
    unfold offsetFraction
    by_cases hwhole : n % secondLength = 0
    · rw [if_pos hwhole]
      rw [hwhole] at hparts
      exact hparts
    · rw [if_neg hwhole, List.tail_cons, readField_zeroPadded hfraction]
      exact hparts

theorem readOffset_formatOffset {offset : ℤ} (hlt : offset.natAbs < dayLength) :
    readOffset (formatOffset offset) = some offset := by
  have hhour : offset.natAbs / hourLength < 10 ^ 2 := by
    unfold dayLength at hlt
    unfold hourLength
    omega
  have hminute : offset.natAbs % hourLength / minuteLength < 10 ^ 2 := by
    unfold hourLength minuteLength
    omega
  have hparts : offset.natAbs / hourLength * hourLength +
      offset.natAbs % hourLength / minuteLength * minuteLength + offset.natAbs % minuteLength =
        offset.natAbs := by
    unfold hourLength minuteLength
    omega
  have hseconds := readField_offsetSeconds offset.natAbs
  rw [formatOffset_eq]
  unfold offsetMinutes readOffset
  simp only [List.append_assoc, List.cons_append, readField_append hhour, readField_append hminute,
    List.tail_cons]
  have hsum : offset.natAbs / hourLength * hourLength +
      offset.natAbs % hourLength / minuteLength * minuteLength +
        (readField 2 (offsetSeconds offset.natAbs).tail).1 * secondLength +
          (readField 6 (readField 2 (offsetSeconds offset.natAbs).tail).2.tail).1 =
            offset.natAbs := by
    rw [Nat.add_assoc _ (_ * secondLength), hseconds, hparts]
  rw [hsum]
  by_cases hneg : offset < 0
  · rw [if_pos hneg, if_pos rfl]
    congr 1
    omega
  · rw [if_neg hneg, if_neg (by decide)]
    congr 1
    omega

/-- The text after the fraction does not go on with a point. -/
theorem head_offset (d : DateTime) :
    (d.utcoffset.elim [] formatOffset).head? ≠ some '.' := by
  cases d.utcoffset with
  | none => simp
  | some offset =>
    rw [Option.elim_some, formatOffset_eq]
    unfold offsetMinutes
    split_ifs <;> simp

theorem readOffset_utcoffset (d : DateTime) :
    readOffset (d.utcoffset.elim [] formatOffset) = d.utcoffset := by
  cases hoffset : d.utcoffset with
  | none => rfl
  | some offset =>
    exact readOffset_formatOffset (d.valid.2.2.2.2.2.2.2 offset hoffset)

/-- What `isoformat` writes is read back. -/
theorem readsBack_readIsoformat : ReadsBack readIsoformat := by
  intro d
  unfold readIsoformat
  rw [String.toList_ofList]
  have htext : d.isoformat = d.toSeconds ++ (d.fraction ++ d.utcoffset.elim [] formatOffset) :=
    List.append_assoc _ _ _
  rw [htext, readSeconds_toSeconds]
  dsimp only
  rw [readFraction_fraction d (head_offset d)]
  dsimp only
  rw [readOffset_utcoffset]
  unfold DateTime.ofFields
  rw [dif_pos d.valid]
  simp [htext]

/-- The characters of a timestamp. -/
def isoChars : List Char := digits ++ ['-', 'T', ':', '.', '+']

theorem isoformat_subset (d : DateTime) : d.isoformat ⊆ isoChars := by
  have hdigits (width n : ℕ) : zeroPadded width n ⊆ isoChars := fun _ hc =>
    List.mem_append_left _ (mem_digits_of_mem_zeroPadded hc)
  have hothers : '-' ∈ isoChars ∧ 'T' ∈ isoChars ∧ ':' ∈ isoChars ∧ '.' ∈ isoChars ∧
      '+' ∈ isoChars := by decide
  have hoffset (offset : ℤ) : formatOffset offset ⊆ isoChars := by
    rw [formatOffset_eq]
    unfold offsetMinutes offsetSeconds offsetFraction
    split_ifs <;> simp [hdigits, hothers]
  unfold DateTime.isoformat DateTime.toSeconds DateTime.fraction
  cases d.utcoffset <;> split_ifs <;> simp [hdigits, hothers, hoffset]

/-- What `_iso_z` writes has no white space in it. -/
theorem DateTime.trimmed_isoZ (d : DateTime) : Trimmed d.isoZ := by
  have hspace : ∀ c ∈ d.isoZ, ¬ isSpace c := by
    intro c hc
    have hchars : (('Z' :: isoChars).all fun c => ¬ isSpace c) = true := by decide
    have hspaces {c : Char} (hmem : c ∈ 'Z' :: isoChars) : ¬ isSpace c :=
      of_decide_eq_true (List.all_eq_true.1 hchars c hmem)
    apply hspaces
    by_cases hzulu : c = 'Z'
    · exact List.mem_cons.2 (Or.inl hzulu)
    · have hmem : c ∈ ofZulu d.isoZ := List.mem_flatMap.2 ⟨c, hc, by simp [hzulu]⟩
      rw [ofZulu_isoZ] at hmem
      exact List.mem_cons_of_mem _ (isoformat_subset d.aware hmem)
  exact ⟨fun c hc => hspace c (List.mem_of_mem_head? hc),
    fun c hc => hspace c (List.mem_of_mem_getLast? hc)⟩

/-! ### Ranges -/

section ranges

variable {fromisoformat : String → Option DateTime}

/-- What is read is not empty, where an empty text is not read. -/
theorem ne_nil_of_parseIso {text : List Char} {d : DateTime} (hempty : fromisoformat "" = none)
    (h : parseIso fromisoformat text = some d) : text ≠ [] := by
  rintro rfl
  exact absurd (hempty.symm.trans h) (by simp)

/-- What `_iso_z` writes of two instants is read as a range. -/
theorem fromCmr_toCmr (hempty : fromisoformat "" = none) (hback : ReadsBack fromisoformat)
    (range : TimeRange) :
    TimeRange.fromCmr fromisoformat range.toCmr = some ⟨range.start.aware, range.stop.aware⟩ :=
  fromCmr_canonical range.start.slash_notMem_isoZ
    (ne_nil_of_parseIso hempty (parseIso_isoZ hback range.stop)) (parseIso_isoZ hback range.start)
    (parseIso_isoZ hback range.stop)

/-- What is written of a range is in the canonical form. -/
theorem normalizeTimeRange_toCmr (hempty : fromisoformat "" = none)
    (hback : ReadsBack fromisoformat)
    {range : TimeRange} (hle : range.start.instant ≤ range.stop.instant) (allowOpen : Bool) :
    normalizeTimeRange fromisoformat range.toCmr.toList allowOpen = .ok range.toCmr.toList := by
  have hstart := parseIso_isoZ hback range.start
  have hstop := parseIso_isoZ hback range.stop
  unfold TimeRange.toCmr
  rw [String.toList_ofList, normalizeTimeRange_canonical range.start.trimmed_isoZ
    range.stop.trimmed_isoZ range.start.slash_notMem_isoZ,
    normalizeEndpoints_of_parse (ne_nil_of_parseIso hempty hstart)
      (ne_nil_of_parseIso hempty hstop) hstart hstop,
    if_pos (by rfl), if_neg (by simpa using hle)]

end ranges

end EarthdataMcp
