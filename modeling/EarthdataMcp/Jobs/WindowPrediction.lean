import EarthdataMcp.Providers.DateArithmetic
import EarthdataMcp.Providers.DurableSpec
import EarthdataMcp.Providers.IsoFormat

/-!
# Predicted windows

The next request a specification predicts is the same ask over the adjacent window of the same
length.

* `DurableSpec.predictNext` and `DurableSpec.predictTimes`, which may raise;
* `DurableSpec.Predicts`: when nothing is predicted, and when the calendar ends;
* `predictTimes_tiles`: the windows of a run of predictions tile time, through the texts they are
  stored as.
-/

namespace EarthdataMcp

open Text

/-! ### The prediction -/

/-- What predicting may raise. -/
inductive PredictError
  /-- `can't subtract offset-naive and offset-aware datetimes`. -/
  | typeError
  /-- `date value out of range`. -/
  | overflowError
  deriving DecidableEq

/-- `d - d'`, in microseconds. -/
def DateTime.sub (d d' : DateTime) : Except PredictError ℤ :=
  if d.utcoffset.isSome = d'.utcoffset.isSome then .ok (d.instant - d'.instant)
  else .error .typeError

/-- `d + span`. -/
def DateTime.addSpan (d : DateTime) (span : ℤ) : Except PredictError DateTime :=
  (d.add span.toNat).elim (.error .overflowError) .ok

/-- How long a range is. -/
def TimeRange.length (range : TimeRange) : ℤ := range.stop.instant - range.start.instant

namespace DurableSpec

/-- `for_time_range`: what belonged to the old window is cleared. -/
def forTimeRange (s : DurableSpec) (timeRange : String) : DurableSpec :=
  { s with
    timeRange := some timeRange
    opendapUrls := []
    jobHandle := ""
    obsHandle := ""
    cacheKeyValue := "" }

section prediction

variable (fromisoformat : String → Option DateTime)

/-- `predict_next`. -/
def predictNext (s : DurableSpec) : Except PredictError (Option DurableSpec) :=
  if s.needsPointSample ∨ s.timeRange.getD "" = "" then .ok none
  else
    match TimeRange.fromCmr fromisoformat (s.timeRange.getD "") with
    | none => .ok none
    | some window => do
        let span ← window.stop.sub window.start
        if span ≤ 0 then pure none
        else
          let stop ← window.stop.addSpan span
          pure (some (s.forTimeRange (TimeRange.toCmr ⟨window.stop, stop⟩)))

/-- A prediction from the prediction, and so on. -/
def predictTimes : ℕ → DurableSpec → Except PredictError (Option DurableSpec)
  | 0, s => .ok (some s)
  | n + 1, s =>
      match predictTimes n s with
      | .ok (some predicted) => predicted.predictNext fromisoformat
      | result => result

/-! ### What it must do -/

/-- The window of a specification, if it has one that can be read. -/
def window (s : DurableSpec) : Option TimeRange :=
  s.timeRange.bind (TimeRange.fromCmr fromisoformat)

/-- The time range, where there is one, is what the boundary has made of a caller's text. -/
def Admitted (s : DurableSpec) : Prop :=
  ∀ text, s.timeRange = some text →
    ∃ value allowOpen, normalizeTimeRange fromisoformat value allowOpen = .ok text.toList

end prediction

end DurableSpec

/-- There is an instant, at the offset of its end, that is as long after the end of the range as the
range is long. -/
def TimeRange.NextRepresentable (range : TimeRange) : Prop :=
  ∃ d : DateTime, d.utcoffset = range.stop.utcoffset ∧ d.instant = range.stop.instant + range.length

namespace DurableSpec

section requirements

variable (fromisoformat : String → Option DateTime) (s : DurableSpec)

/-- Nothing is predicted for a point sample and without a window of positive length, and only then;
where the adjacent window is not representable, the sum overflows; and the ends of the window are
compared. -/
structure Predicts : Prop where
  none_iff : s.predictNext fromisoformat = .ok none ↔ s.needsPointSample = true ∨
    ¬ ∃ window, s.window fromisoformat = some window ∧ 0 < window.length
  overflow_iff : s.predictNext fromisoformat = .error .overflowError ↔
    ¬ s.needsPointSample = true ∧ ∃ window, s.window fromisoformat = some window ∧
      0 < window.length ∧ ¬ window.NextRepresentable
  ne_typeError : s.predictNext fromisoformat ≠ .error .typeError
  differs : ∀ predicted, s.predictNext fromisoformat = .ok (some predicted) →
    ∃ timeRange, predicted = s.forTimeRange timeRange

/-- The window of the `n`-th prediction is the `n`-th one after the window, of its length. -/
def Tiles (n : ℕ) (predicted : DurableSpec) : Prop :=
  ∀ window, s.window fromisoformat = some window →
    ∃ next, predicted.window fromisoformat = some next ∧
      next.start.instant = window.start.instant + n * window.length ∧ next.length = window.length

end requirements

end DurableSpec

/-! ### One prediction -/

theorem TimeRange.nextRepresentable_iff {range : TimeRange} (hpos : 0 < range.length) :
    range.NextRepresentable ↔ (range.stop.add range.length.toNat).isSome := by
  have hcast : (range.length.toNat : ℤ) = range.length := Int.toNat_of_nonneg hpos.le
  constructor
  · rintro ⟨d, hoffset, hinstant⟩
    rw [DateTime.isSome_add_iff]
    refine ⟨d, ?_⟩
    unfold DateTime.instant DateTime.offset at hinstant
    rw [hoffset] at hinstant
    omega
  · intro h
    obtain ⟨d, hd⟩ := Option.isSome_iff_exists.1 h
    refine ⟨d, (DateTime.wall_of_add hd).2, ?_⟩
    rw [DateTime.instant_of_add hd, hcast]

theorem DateTime.addSpan_of_some {d d' : DateTime} {span : ℤ} (h : d.add span.toNat = some d') :
    d.addSpan span = .ok d' := by
  unfold addSpan
  rw [h]
  rfl

theorem DateTime.addSpan_of_none {d : DateTime} {span : ℤ} (h : d.add span.toNat = none) :
    d.addSpan span = .error .overflowError := by
  unfold addSpan
  rw [h]
  rfl

namespace DurableSpec

section prediction

variable {fromisoformat : String → Option DateTime} {s : DurableSpec} {window : TimeRange}

/-- The text of a window. -/
theorem exists_timeRange (h : s.window fromisoformat = some window) :
    ∃ text, s.timeRange = some text ∧ TimeRange.fromCmr fromisoformat text = some window :=
  Option.bind_eq_some_iff.1 h

theorem fromCmr_empty : TimeRange.fromCmr fromisoformat "" = none := rfl

theorem window_eq (hne : s.timeRange.getD "" ≠ "") :
    s.window fromisoformat = TimeRange.fromCmr fromisoformat (s.timeRange.getD "") := by
  unfold window
  cases htext : s.timeRange with
  | none => exact absurd (by rw [htext]; rfl) hne
  | some text => rfl

/-- Without a window there is no prediction. -/
theorem predictNext_of_none (h : s.window fromisoformat = none) :
    s.predictNext fromisoformat = .ok none := by
  unfold predictNext
  by_cases hskip : s.needsPointSample = true ∨ s.timeRange.getD "" = ""
  · rw [if_pos hskip]
  · rw [if_neg hskip, ← window_eq fun hnil => hskip (Or.inr hnil), h]

theorem predictNext_of_pointSample (h : s.needsPointSample = true) :
    s.predictNext fromisoformat = .ok none := if_pos (Or.inl h)

/-- What is predicted from a window whose ends can be told apart. -/
theorem predictNext_of_window (hpoint : ¬ s.needsPointSample = true)
    (h : s.window fromisoformat = some window)
    (haware : window.stop.utcoffset.isSome = window.start.utcoffset.isSome) :
    s.predictNext fromisoformat =
      if window.length ≤ 0 then .ok none
      else (window.stop.addSpan window.length).map fun stop =>
        some (s.forTimeRange (TimeRange.toCmr ⟨window.stop, stop⟩)) := by
  obtain ⟨text, htext, hread⟩ := exists_timeRange h
  have hne : s.timeRange.getD "" ≠ "" := by
    rw [htext, Option.getD_some]
    rintro rfl
    rw [fromCmr_empty] at hread
    cases hread
  have hsub : window.stop.sub window.start = .ok window.length := if_pos haware
  unfold predictNext
  rw [if_neg (by simp [hpoint, hne]), ← window_eq hne, h]
  dsimp only
  rw [hsub]
  show (if window.length ≤ 0 then _ else _) = _
  by_cases hpos : window.length ≤ 0
  · rw [if_pos hpos, if_pos hpos]
    rfl
  · rw [if_neg hpos, if_neg hpos]
    cases window.stop.addSpan window.length <;> rfl

/-- The ends of an admitted window both have an offset, or neither has. -/
theorem Admitted.aware (hempty : fromisoformat "" = none) (hadm : s.Admitted fromisoformat)
    (h : s.window fromisoformat = some window) :
    window.stop.utcoffset.isSome = window.start.utcoffset.isSome := by
  obtain ⟨text, htext, hread⟩ := exists_timeRange h
  obtain ⟨start, stop, rfl, hslash, hstop, hbetween⟩ := TimeRange.cut_of_fromCmr hread
  obtain ⟨hstart', hstop'⟩ := TimeRange.between_eq_some.1 hbetween
  obtain ⟨value, allowOpen, hok⟩ := hadm _ htext
  rw [String.toList_ofList] at hok
  obtain ⟨before, after, hcut, -, -, hbefore, hends⟩ := normalized_spec hok
  obtain ⟨rfl, rfl⟩ := cut_unique hslash hbefore hcut
  rw [normalizeEndpoints_of_parse (ne_nil_of_parseIso hempty hstart') hstop hstart' hstop'] at hends
  by_contra hne
  rw [if_neg fun haware => hne haware.symm] at hends
  cases hends

/-- A predicted specification has the adjacent window. -/
theorem window_forTimeRange (hempty : fromisoformat "" = none) (hback : ReadsBack fromisoformat)
    (s : DurableSpec) (range : TimeRange) : (s.forTimeRange range.toCmr).window fromisoformat =
      some ⟨range.start.aware, range.stop.aware⟩ := by
  have htext : (s.forTimeRange range.toCmr).timeRange = some range.toCmr := rfl
  unfold window
  rw [htext, Option.bind_some, fromCmr_toCmr hempty hback]

/-- The text that is written of a range is admitted. -/
theorem admitted_forTimeRange (hempty : fromisoformat "" = none) (hback : ReadsBack fromisoformat)
    (s : DurableSpec) {range : TimeRange} (hle : range.start.instant ≤ range.stop.instant) :
    (s.forTimeRange range.toCmr).Admitted fromisoformat := by
  intro text htext
  obtain rfl := Option.some.inj htext
  exact ⟨range.toCmr.toList, true, normalizeTimeRange_toCmr hempty hback hle true⟩

/-- What a prediction is, from which window, and which window it has. -/
structure Next (fromisoformat : String → Option DateTime) (s predicted : DurableSpec) : Prop where
  exists_windows : ∃ window next, s.window fromisoformat = some window ∧
    predicted.window fromisoformat = some next ∧ 0 < window.length ∧
      next.start.instant = window.stop.instant ∧ next.length = window.length
  ask : ∃ timeRange, predicted = s.forTimeRange timeRange
  admitted : predicted.Admitted fromisoformat

theorem Next.of_add (hempty : fromisoformat "" = none) (hback : ReadsBack fromisoformat)
    (h : s.window fromisoformat = some window) (hpos : 0 < window.length) {stop : DateTime}
    (hadd : window.stop.add window.length.toNat = some stop) :
    Next fromisoformat s (s.forTimeRange (TimeRange.toCmr ⟨window.stop, stop⟩)) := by
  have hinstant := DateTime.instant_of_add hadd
  rw [Int.toNat_of_nonneg hpos.le] at hinstant
  have hlength : (⟨window.stop.aware, stop.aware⟩ : TimeRange).length = window.length :=
    calc (⟨window.stop.aware, stop.aware⟩ : TimeRange).length
        = stop.aware.instant - window.stop.aware.instant := rfl
      _ = stop.instant - window.stop.instant := by
        rw [DateTime.instant_aware, DateTime.instant_aware]
      _ = window.length := by rw [hinstant, add_sub_cancel_left]
  refine ⟨⟨window, _, h, window_forTimeRange hempty hback s _, hpos, DateTime.instant_aware _, hlength⟩,
    ⟨_, rfl⟩, ?_⟩
  apply admitted_forTimeRange hempty hback
  dsimp only
  omega

/-- What predicting comes to, in all cases. -/
theorem predictNext_cases (hempty : fromisoformat "" = none) (hback : ReadsBack fromisoformat)
    (hadm : s.Admitted fromisoformat) :
    (s.predictNext fromisoformat = .ok none ∧ (s.needsPointSample = true ∨
      ∀ window, s.window fromisoformat = some window → window.length ≤ 0)) ∨
    (¬ s.needsPointSample = true ∧ ∃ window, s.window fromisoformat = some window ∧
      0 < window.length ∧
      ((¬ window.NextRepresentable ∧ s.predictNext fromisoformat = .error .overflowError) ∨
        window.NextRepresentable ∧ ∃ predicted,
          s.predictNext fromisoformat = .ok (some predicted) ∧ Next fromisoformat s predicted)) := by
  by_cases hpoint : s.needsPointSample = true
  · exact Or.inl ⟨predictNext_of_pointSample hpoint, Or.inl hpoint⟩
  cases hwindow : s.window fromisoformat with
  | none =>
    refine Or.inl ⟨predictNext_of_none hwindow, Or.inr ?_⟩
    intro window h
    cases h
  | some window =>
    have heq := predictNext_of_window hpoint hwindow (hadm.aware hempty hwindow)
    by_cases hlength : window.length ≤ 0
    · rw [if_pos hlength] at heq
      refine Or.inl ⟨heq, Or.inr ?_⟩
      intro window' h
      obtain rfl := Option.some.inj h
      exact hlength
    · have hpos : 0 < window.length := not_le.1 hlength
      rw [if_neg hlength] at heq
      refine Or.inr ⟨hpoint, window, rfl, hpos, ?_⟩
      rw [TimeRange.nextRepresentable_iff hpos]
      cases hadd : window.stop.add window.length.toNat with
      | none =>
        rw [DateTime.addSpan_of_none hadd] at heq
        exact Or.inl ⟨by simp, heq⟩
      | some stop =>
        rw [DateTime.addSpan_of_some hadd] at heq
        exact Or.inr ⟨rfl, _, heq, Next.of_add hempty hback hwindow hpos hadd⟩

theorem predicts (hempty : fromisoformat "" = none) (hback : ReadsBack fromisoformat)
    (hadm : s.Admitted fromisoformat) : s.Predicts fromisoformat := by
  rcases predictNext_cases hempty hback hadm with ⟨hnone, hskip⟩ |
    ⟨hpoint, window, hwindow, hpos, hresult⟩
  · -- nothing is predicted
    have hno : s.needsPointSample = true ∨
        ¬ ∃ window, s.window fromisoformat = some window ∧ 0 < window.length := by
      refine hskip.imp_right ?_
      rintro hle ⟨window, hwindow, hpos⟩
      exact absurd (hle window hwindow) (not_le.2 hpos)
    constructor
    · exact iff_of_true hnone hno
    · rw [hnone]
      refine iff_of_false (by simp) ?_
      rintro ⟨hpoint, window, hwindow, hpos, -⟩
      exact hno.elim hpoint fun h => h ⟨window, hwindow, hpos⟩
    · rw [hnone]
      simp
    · intro predicted h
      rw [hnone] at h
      cases h
  · -- there is a window to be predicted from: either its neighbour ends past the calendar, or not
    have hsome : ¬ (s.needsPointSample = true ∨
        ¬ ∃ window, s.window fromisoformat = some window ∧ 0 < window.length) := by
      rintro (h | h)
      · exact hpoint h
      · exact h ⟨window, hwindow, hpos⟩
    rcases hresult with ⟨hlast, herror⟩ | ⟨hnext, predicted, hok, hpredicted⟩
    · constructor
      · rw [herror]
        exact iff_of_false (by simp) hsome
      · exact iff_of_true herror ⟨hpoint, window, hwindow, hpos, hlast⟩
      · rw [herror]
        simp
      · intro predicted h
        rw [herror] at h
        cases h
    · constructor
      · rw [hok]
        exact iff_of_false (by simp) hsome
      · rw [hok]
        refine iff_of_false (by simp) ?_
        rintro ⟨-, window', hwindow', -, hlast⟩
        obtain rfl := Option.some.inj (hwindow.symm.trans hwindow')
        exact hlast hnext
      · rw [hok]
        simp
      · intro predicted' h
        obtain rfl := Option.some.inj (Except.ok.inj (hok.symm.trans h))
        exact hpredicted.ask

/-- What is predicted has the adjacent window. -/
theorem next_of_predictNext (hempty : fromisoformat "" = none) (hback : ReadsBack fromisoformat)
    (hadm : s.Admitted fromisoformat) {predicted : DurableSpec}
    (h : s.predictNext fromisoformat = .ok (some predicted)) : Next fromisoformat s predicted := by
  rcases predictNext_cases hempty hback hadm with ⟨hnone, -⟩ |
    ⟨-, window, -, -, ⟨-, herror⟩ | ⟨-, predicted', hok, hnext⟩⟩
  · exact absurd (hnone.symm.trans h) (by simp)
  · exact absurd (herror.symm.trans h) (by simp)
  · obtain rfl := Option.some.inj (Except.ok.inj (hok.symm.trans h))
    exact hnext

/-- The adjacent window of the last one is the next of the row. -/
theorem Next.tiles {n : ℕ} {predicted next : DurableSpec} (htiles : Tiles fromisoformat s n predicted)
    (h : Next fromisoformat predicted next) : Tiles fromisoformat s (n + 1) next := by
  intro window hwindow
  obtain ⟨last, hlast, hstart, hlength⟩ := htiles window hwindow
  obtain ⟨last', adjacent, hlast', hadjacent, -, hbegin, hsame⟩ := h.exists_windows
  obtain rfl := Option.some.inj (hlast.symm.trans hlast')
  refine ⟨adjacent, hadjacent, ?_, hsame.trans hlength⟩
  have hstop : last.stop.instant = last.start.instant + last.length := by
    unfold TimeRange.length
    ring
  rw [hbegin, hstop, hstart, hlength]
  push_cast
  ring

/-- The predictions from a specification whose time range is admitted are again such, and their
windows tile time; each of them is predicted from until the calendar ends. -/
theorem predictTimes_tiles (hempty : fromisoformat "" = none) (hback : ReadsBack fromisoformat)
    (hadm : s.Admitted fromisoformat) (n : ℕ) (predicted : DurableSpec)
    (h : s.predictTimes fromisoformat n = .ok (some predicted)) :
    predicted.Admitted fromisoformat ∧ Tiles fromisoformat s n predicted ∧
      predicted.Predicts fromisoformat := by
  suffices hrun : predicted.Admitted fromisoformat ∧ Tiles fromisoformat s n predicted from
    ⟨hrun.1, hrun.2, predicts hempty hback hrun.1⟩
  induction n generalizing predicted with
  | zero =>
    obtain rfl := Option.some.inj (Except.ok.inj h)
    refine ⟨hadm, fun window hwindow => ⟨window, hwindow, ?_, rfl⟩⟩
    simp
  | succ n ih =>
    unfold predictTimes at h
    split at h
    · rename_i last hlast
      obtain ⟨hadmitted, htiles⟩ := ih last hlast
      have hnext := next_of_predictNext hempty hback hadmitted h
      exact ⟨hnext.admitted, hnext.tiles htiles⟩
    · rename_i hnot
      exact absurd h (hnot predicted)

end prediction

/-- A week of April, of one collection. -/
def aprilWeek : DurableSpec where
  conceptId := some "C1-LPCLOUD"
  shortName := some "MOD11A1"
  outputFormat := "application/netcdf4"
  outputShape := some "grid"
  needsBbox := true
  needsVariable := true
  needsTemporal := true
  needsPointSample := false
  aoiBbox := none
  timeRange := some "2024-04-01T00:00:00/2024-04-08T00:00:00"
  variableNames := []
  provider := .harmony
  serviceName := none
  opendapUrls := ["https://opendap.earthdata.nasa.gov/granule"]
  coordLat := none
  coordLon := none
  coordTime := none
  latAxis := none
  lonAxis := none
  varDims := []
  varCoords := []
  variableExpansions := []
  workspaceId := "default"
  jobHandle := "job_1"
  obsHandle := "obs_1"
  cacheKeyValue := "key"

theorem admitted_aprilWeek : aprilWeek.Admitted readIsoformat := by
  intro text htext
  obtain rfl := Option.some.inj htext
  exact ⟨" 2024-04-01T00:00:00,2024-04-08T00:00:00".toList, false, by decide +kernel⟩

theorem predictTimes_tiles_aprilWeek :
    Tiles readIsoformat aprilWeek 2
      (aprilWeek.forTimeRange "2024-04-15T00:00:00Z/2024-04-22T00:00:00Z") :=
  (predictTimes_tiles (by decide +kernel) readsBack_readIsoformat admitted_aprilWeek 2
    (aprilWeek.forTimeRange "2024-04-15T00:00:00Z/2024-04-22T00:00:00Z") (by decide +kernel)).2.1

end DurableSpec

end EarthdataMcp
