import EarthdataMcp.Providers.Instants
import EarthdataMcp.Providers.RequestSpec

/-!
# The signature of a request

A signature is the hash of a text in which the fields of a request are joined by colons, and its
variable names by commas.  It should tell two requests apart exactly if they ask for different
things.

* `Ask`, what a signature is computed from, and `Ask.Same`, that two of them ask for the same;
* `Ask.Respelled`: the same, with an offset or the sign of a zero written differently;
* `Ask.KeptApart`: no delimiter in a free text stands where a field of the other one ends;
* `signature_canonical_iff`: the signature of requests kept apart is canonical if and only if they
  are not the same respelled; and a colon in a name or a format does run two requests together.
-/

namespace EarthdataMcp

open Text

/-- What a signature is computed from. -/
structure Ask where
  conceptId : Option String
  bbox : Option Bbox
  timeRange : String
  variableNames : List String
  outputFormat : String
  identityScope : Option String := none
  deriving DecidableEq

/-- The corners of a box, as numbers. -/
def Bbox.corners (b : Bbox) : List ℚ := [b.west.value, b.south.value, b.east.value, b.north.value]

/-- Which of the coordinates of a box are negative zeros. -/
def Bbox.zeros (b : Bbox) : List Bool :=
  [b.west.negativeZero, b.south.negativeZero, b.east.negativeZero, b.north.negativeZero]

/-- The coordinates of a box. -/
def Bbox.coordinates (b : Bbox) : List Coordinate := [b.west, b.south, b.east, b.north]

/-- The instants at both ends. -/
def TimeRange.instants (range : TimeRange) : ℤ × ℤ := (range.start.instant, range.stop.instant)

/-- The offsets from UTC at both ends. -/
def TimeRange.offsets (range : TimeRange) : ℤ × ℤ := (range.start.offset, range.stop.offset)

/-- `str` of a float: distinct floats have distinct texts, without a colon or a comma. -/
structure Settings.PrintsFloats (cfg : Settings) (cs : List Coordinate) : Prop where
  inj : ∀ c ∈ cs, ∀ c' ∈ cs, cfg.renderCoordinate c = cfg.renderCoordinate c' → c = c'
  plain : ∀ c ∈ cs, ':' ∉ (cfg.renderCoordinate c).toList ∧ ',' ∉ (cfg.renderCoordinate c).toList

namespace Ask

variable (cfg : Settings) (a b : Ask)

/-- `compute_request_signature`. -/
def signature : String :=
  computeRequestSignature cfg a.conceptId a.bbox (some a.timeRange) a.variableNames a.outputFormat
    a.identityScope

/-- The window that the time range spells. -/
def window : Option TimeRange := cfg.parseTimeRange a.timeRange

/-- The coordinates of the box. -/
def coordinates : List Coordinate := a.bbox.elim [] Bbox.coordinates

/-- Two requests ask for the same. -/
structure Same : Prop where
  conceptId : a.conceptId = b.conceptId
  corners : a.bbox.map Bbox.corners = b.bbox.map Bbox.corners
  instants : (a.window cfg).map TimeRange.instants = (b.window cfg).map TimeRange.instants
  variableNames : ∀ name, name ∈ a.variableNames ↔ name ∈ b.variableNames
  outputFormat : a.outputFormat = b.outputFormat
  identityScope : a.identityScope = b.identityScope

/-- The windows are written at the same offsets, and the boxes with the same zeros. -/
def SpelledAlike : Prop :=
  (a.window cfg).map TimeRange.offsets = (b.window cfg).map TimeRange.offsets ∧
    a.bbox.map Bbox.zeros = b.bbox.map Bbox.zeros

/-- Two requests ask for the same, but do not spell it alike. -/
def Respelled : Prop := a.Same cfg b ∧ ¬ a.SpelledAlike cfg b

/-- The fields of a request, as they are written. -/
def fields : List (List Char) :=
  [(a.conceptId.getD "").toList, ((a.bbox.map (Bbox.render cfg)).getD "").toList,
    (canonicalTime cfg (some a.timeRange)).toList,
    (renderNames a.variableNames).toList, a.outputFormat.toList] ++
      (a.identityScope.map fun scope => ("identity=" ++ scope).toList).toList

/-- Neither text is the other one, then a colon, and perhaps more. -/
def Apart (text text' : String) : Prop :=
  ¬ RunsOn ':' text.toList text'.toList ∧ ¬ RunsOn ':' text'.toList text.toList

/-- An absent concept id stands against an empty one, or no names against the empty name. -/
def EmptyAgainstAbsent : Prop :=
  (a.conceptId = none ∧ b.conceptId = some "" ∨ a.conceptId = some "" ∧ b.conceptId = none) ∨
    (a.variableNames = [] ∧ b.variableNames.dedup = [""] ∨
      a.variableNames.dedup = [""] ∧ b.variableNames = [])

/-- The concept ids and the formats do not run over each other; where the names differ, they have no
delimiters, and where the windows differ, they end at offsets of whole minutes; and nothing empty
stands against what is absent. -/
structure KeptApart : Prop where
  conceptId : Apart (a.conceptId.getD "") (b.conceptId.getD "")
  window : a.window cfg = b.window cfg ∨ (∀ window ∈ a.window cfg, window.stop.WholeMinutes) ∧
    ∀ window ∈ b.window cfg, window.stop.WholeMinutes
  variableNames : (∀ name, name ∈ a.variableNames ↔ name ∈ b.variableNames) ∨
    ∀ name ∈ a.variableNames ++ b.variableNames, ':' ∉ name.toList ∧ ',' ∉ name.toList
  outputFormat : Apart a.outputFormat b.outputFormat
  present : ¬ a.EmptyAgainstAbsent b

end Ask

/-! ### The text of a signature -/

section text

variable {cfg : Settings} {a b : Ask}

theorem toList_signatureText (cfg : Settings) (a : Ask) :
    (signatureText cfg a.conceptId a.bbox (some a.timeRange) a.variableNames a.outputFormat
      a.identityScope).toList = [':'].intercalate (a.fields cfg) := by
  unfold signatureText Ask.fields
  rw [String.toList_intercalate]
  cases a.identityScope <;> rfl

/-- With an injective hash, signatures are equal if the fields are cut to the same pieces. -/
theorem signature_inj_iff (hhash : Function.Injective (cfg.sha256Prefix 24)) :
    a.signature cfg = b.signature cfg ↔
      pieces ':' (a.fields cfg) = pieces ':' (b.fields cfg) := by
  have hne (c : Ask) : c.fields cfg ≠ [] := by simp [Ask.fields]
  unfold Ask.signature computeRequestSignature
  rw [hhash.eq_iff, ← String.toList_inj, toList_signatureText, toList_signatureText,
    join_inj_iff ':' (hne a) (hne b)]

theorem sorted_inj_iff {names names' : List String} :
    names.dedup.insertionSort (· ≤ ·) = names'.dedup.insertionSort (· ≤ ·) ↔
      ∀ name, name ∈ names ↔ name ∈ names' := by
  have htotal : Std.Total (fun name name' : String => name ≤ name') := ⟨String.le_total⟩
  constructor
  · intro h name
    rw [← List.mem_dedup, ← List.mem_insertionSort (· ≤ ·), h, List.mem_insertionSort,
      List.mem_dedup]
  · intro h
    have hperm : names.dedup.Perm names'.dedup :=
      (List.perm_ext_iff_of_nodup (List.nodup_dedup _) (List.nodup_dedup _)).2 fun name => by
        rw [List.mem_dedup, List.mem_dedup, h]
    refine List.Perm.eq_of_pairwise (fun _ _ _ _ => String.le_antisymm)
      (List.pairwise_insertionSort _ _) (List.pairwise_insertionSort _ _) ?_
    exact (List.perm_insertionSort _ _).trans (hperm.trans (List.perm_insertionSort _ _).symm)

theorem renderNames_congr {names names' : List String}
    (h : ∀ name, name ∈ names ↔ name ∈ names') : renderNames names = renderNames names' :=
  congrArg (",".intercalate ·) (sorted_inj_iff.2 h)

/-! ### Boxes -/

theorem Coordinate.eq_iff {c c' : Coordinate} :
    c = c' ↔ c.value = c'.value ∧ c.negativeZero = c'.negativeZero := by
  obtain ⟨value, negativeZero, _⟩ := c
  obtain ⟨value', negativeZero', _⟩ := c'
  simp

theorem Bbox.eq_iff {b b' : Bbox} : b = b' ↔ b.corners = b'.corners ∧ b.zeros = b'.zeros := by
  obtain ⟨west, south, east, north⟩ := b
  obtain ⟨west', south', east', north'⟩ := b'
  simp only [Bbox.mk.injEq, Coordinate.eq_iff, Bbox.corners, Bbox.zeros, List.cons.injEq, and_true]
  tauto

/-- The text of a box. -/
def boxText (cfg : Settings) (bbox : Option Bbox) : String := (bbox.map (Bbox.render cfg)).getD ""

theorem toList_render (cfg : Settings) (box : Bbox) : (box.render cfg).toList =
    [','].intercalate (box.coordinates.map fun c => (cfg.renderCoordinate c).toList) := by
  unfold Bbox.render
  rw [String.toList_intercalate, List.map_map]
  rfl

theorem comma_mem_render (cfg : Settings) (box : Bbox) : ',' ∈ (box.render cfg).toList := by
  rw [toList_render, Bbox.coordinates, List.map_cons, List.map_cons, List.intercalate_cons_cons]
  simp

theorem Settings.PrintsFloats.mono {cs cs' : List Coordinate} (h : cfg.PrintsFloats cs')
    (hsub : ∀ c ∈ cs, c ∈ cs') : cfg.PrintsFloats cs :=
  ⟨fun c hc c' hc' => h.inj c (hsub c hc) c' (hsub c' hc'), fun c hc => h.plain c (hsub c hc)⟩

theorem Settings.PrintsFloats.left {cs cs' : List Coordinate} (h : cfg.PrintsFloats (cs ++ cs')) :
    cfg.PrintsFloats cs :=
  h.mono fun _ => List.mem_append_left _

theorem Settings.PrintsFloats.right {cs cs' : List Coordinate}
    (h : cfg.PrintsFloats (cs ++ cs')) : cfg.PrintsFloats cs' :=
  h.mono fun _ => List.mem_append_right _

theorem colon_notMem_boxText (hfloats : cfg.PrintsFloats a.coordinates) :
    ':' ∉ (boxText cfg a.bbox).toList := by
  unfold boxText
  have hplain := hfloats.plain
  unfold Ask.coordinates at hplain
  cases hbox : a.bbox with
  | none => simp
  | some box =>
    rw [hbox] at hplain
    have hnone (c : Coordinate) (hc : c ∈ box.coordinates) :
        ':' ∉ (cfg.renderCoordinate c).toList := (hplain c hc).1
    simp only [Bbox.coordinates, List.forall_mem_cons, List.not_mem_nil, false_imp_iff,
      implies_true, and_true] at hnone
    obtain ⟨hwest, hsouth, heast, hnorth⟩ := hnone
    simp [toList_render, Bbox.coordinates, List.intercalate_cons_cons, hwest, hsouth, heast,
      hnorth]

theorem render_ne_empty (cfg : Settings) (box : Bbox) : box.render cfg ≠ "" := by
  intro hempty
  have hcomma := comma_mem_render cfg box
  rw [hempty] at hcomma
  simp at hcomma

/-- Two boxes with the same text have the same coordinates. -/
theorem render_inj {box box' : Bbox}
    (hfloats : cfg.PrintsFloats (box.coordinates ++ box'.coordinates))
    (h : box.render cfg = box'.render cfg) : box = box' := by
  have hcomma (c : Coordinate) (hc : c ∈ box.coordinates ++ box'.coordinates) :
      ',' ∉ (cfg.renderCoordinate c).toList := (hfloats.plain c hc).2
  have htext := congrArg String.toList h
  rw [toList_render, toList_render] at htext
  rcases join_inj_of_notMem (by
    simpa using fun c hc => hcomma c (List.mem_append_left _ hc)) (by
    simpa using fun c hc => hcomma c (List.mem_append_right _ hc)) htext with
    hsame | ⟨hnil, -⟩ | ⟨-, hnil⟩
  · have hinj (c c' : Coordinate) (hc : c ∈ box.coordinates) (hc' : c' ∈ box'.coordinates)
        (heq : cfg.renderCoordinate c = cfg.renderCoordinate c') : c = c' :=
      hfloats.inj c (List.mem_append_left _ hc) c' (List.mem_append_right _ hc') heq
    obtain ⟨west, south, east, north⟩ := box
    obtain ⟨west', south', east', north'⟩ := box'
    simp only [Bbox.coordinates, List.map_cons, List.map_nil, List.cons.injEq, and_true,
      String.toList_inj] at hsame
    obtain ⟨hwest, hsouth, heast, hnorth⟩ := hsame
    rw [Bbox.mk.injEq]
    refine ⟨hinj _ _ ?_ ?_ hwest, hinj _ _ ?_ ?_ hsouth, hinj _ _ ?_ ?_ heast,
      hinj _ _ ?_ ?_ hnorth⟩ <;> simp [Bbox.coordinates]
  · simp [Bbox.coordinates] at hnil
  · simp [Bbox.coordinates] at hnil

/-- Boxes are written alike if they are the same, with the same zeros. -/
theorem boxText_inj_iff (hfloats : cfg.PrintsFloats (a.coordinates ++ b.coordinates)) :
    boxText cfg a.bbox = boxText cfg b.bbox ↔ a.bbox = b.bbox := by
  constructor
  · intro h
    unfold boxText at h
    unfold Ask.coordinates at hfloats
    cases hbox : a.bbox with
    | none =>
      cases hbox' : b.bbox with
      | none => rfl
      | some box' =>
        rw [hbox, hbox'] at h
        exact absurd h.symm (render_ne_empty cfg box')
    | some box =>
      cases hbox' : b.bbox with
      | none =>
        rw [hbox, hbox'] at h
        exact absurd h (render_ne_empty cfg box)
      | some box' =>
        rw [hbox, hbox'] at h hfloats
        rw [render_inj hfloats h]
  · intro h
    rw [h]

theorem box_eq_iff : a.bbox = b.bbox ↔
    a.bbox.map Bbox.corners = b.bbox.map Bbox.corners ∧
      a.bbox.map Bbox.zeros = b.bbox.map Bbox.zeros := by
  cases a.bbox <;> cases b.bbox <;> simp [Bbox.eq_iff]

/-! ### Windows -/

theorem canonicalTime_eq {window : TimeRange} (h : a.window cfg = some window) :
    canonicalTime cfg (some a.timeRange) = window.toCmr := by
  unfold canonicalTime
  rw [Option.bind_some, show cfg.parseTimeRange a.timeRange = some window from h]

/-- Windows are written alike if they have the same instants, at the same offsets. -/
theorem canonicalTime_inj_iff (ha : (a.window cfg).isSome) (hb : (b.window cfg).isSome) :
    canonicalTime cfg (some a.timeRange) = canonicalTime cfg (some b.timeRange) ↔
      (a.window cfg).map TimeRange.instants = (b.window cfg).map TimeRange.instants ∧
        (a.window cfg).map TimeRange.offsets = (b.window cfg).map TimeRange.offsets := by
  obtain ⟨window, hwindow⟩ := Option.isSome_iff_exists.1 ha
  obtain ⟨window', hwindow'⟩ := Option.isSome_iff_exists.1 hb
  rw [canonicalTime_eq hwindow, canonicalTime_eq hwindow', hwindow, hwindow',
    TimeRange.toCmr_inj_iff]
  simp only [Option.map_some, Option.some.injEq, TimeRange.instants, TimeRange.offsets,
    Prod.mk.injEq, DateTime.instant]
  constructor
  · rintro ⟨⟨hstart, hstart'⟩, hstop, hstop'⟩
    rw [hstart, hstart', hstop, hstop']
    exact ⟨⟨rfl, rfl⟩, rfl, rfl⟩
  · rintro ⟨⟨hstart, hstop⟩, hstart', hstop'⟩
    omega

/-! ### The whole text -/

/-- What follows the output format. -/
def scopeText (scope : Option String) : List Char :=
  scope.elim [] fun scope => ':' :: ("identity=" ++ scope).toList

theorem join_fields (cfg : Settings) (a : Ask) :
    [':'].intercalate (a.fields cfg) =
      (a.conceptId.getD "").toList ++ ':' :: ((boxText cfg a.bbox).toList ++ ':' ::
        ((canonicalTime cfg (some a.timeRange)).toList ++ ':' ::
          ((renderNames a.variableNames).toList ++ ':' ::
            (a.outputFormat.toList ++ scopeText a.identityScope)))) := by
  unfold Ask.fields scopeText boxText
  cases a.identityScope <;> simp [List.intercalate_cons_cons]

theorem pieces_eq_iff : pieces ':' (a.fields cfg) = pieces ':' (b.fields cfg) ↔
    [':'].intercalate (a.fields cfg) = [':'].intercalate (b.fields cfg) := by
  have hne (c : Ask) : c.fields cfg ≠ [] := by simp [Ask.fields]
  exact (join_inj_iff ':' (hne a) (hne b)).symm

/-- Two requests that ask for the same have one text if they are spelled alike. -/
theorem Ask.Same.pieces_eq_iff (hfloats : cfg.PrintsFloats (a.coordinates ++ b.coordinates))
    (ha : (a.window cfg).isSome) (hb : (b.window cfg).isSome) (h : a.Same cfg b) :
    pieces ':' (a.fields cfg) = pieces ':' (b.fields cfg) ↔ a.SpelledAlike cfg b := by
  have hbox := boxText_inj_iff hfloats
  have htime := canonicalTime_inj_iff ha hb
  have hnames : renderNames a.variableNames = renderNames b.variableNames :=
    renderNames_congr h.variableNames
  rw [EarthdataMcp.pieces_eq_iff, join_fields, join_fields, h.conceptId, hnames, h.outputFormat,
    h.identityScope]
  constructor
  · intro htext
    obtain ⟨hboxes, htimes⟩ := cut_unique (colon_notMem_boxText hfloats.left)
      (colon_notMem_boxText hfloats.right) (List.cons.inj (List.append_cancel_left htext)).2
    exact ⟨(htime.1 (String.toList_inj.1 (List.append_cancel_right htimes))).2,
      (box_eq_iff.1 (hbox.1 (String.toList_inj.1 hboxes))).2⟩
  · rintro ⟨hoffsets, hzeros⟩
    rw [hbox.2 (box_eq_iff.2 ⟨h.corners, hzeros⟩), htime.2 ⟨h.instants, hoffsets⟩]

/-! ### Requests kept apart -/

theorem toList_renderNames (names : List String) : (renderNames names).toList =
    [','].intercalate ((names.dedup.insertionSort (· ≤ ·)).map String.toList) :=
  String.toList_intercalate

/-- A text that no name contains, and that is no comma, is not in the names as they are written. -/
theorem notMem_renderNames {c : Char} (hc : c ≠ ',') {names : List String}
    (h : ∀ name ∈ names, c ∉ name.toList) : c ∉ (renderNames names).toList := by
  rw [toList_renderNames]
  intro hmem
  rcases of_mem_join hmem with heq | ⟨field, hfield, hmem⟩
  · exact hc heq
  · obtain ⟨name, hname, rfl⟩ := List.mem_map.1 hfield
    rw [List.mem_insertionSort, List.mem_dedup] at hname
    exact h name hname hmem

/-- Names without a comma are told apart, but for no name and the empty one. -/
theorem renderNames_inj
    (hcomma : ∀ name ∈ a.variableNames ++ b.variableNames, ',' ∉ name.toList)
    (h : renderNames a.variableNames = renderNames b.variableNames) :
    (∀ name, name ∈ a.variableNames ↔ name ∈ b.variableNames) ∨ a.EmptyAgainstAbsent b := by
  have hfields {names : List String} (hnames : ∀ name ∈ names, ',' ∉ name.toList) :
      ∀ field ∈ (names.dedup.insertionSort (· ≤ ·)).map String.toList, ',' ∉ field := by
    intro field hfield
    obtain ⟨name, hname, rfl⟩ := List.mem_map.1 hfield
    rw [List.mem_insertionSort, List.mem_dedup] at hname
    exact hnames name hname
  have hnil (names : List String)
      (hnames : (names.dedup.insertionSort (· ≤ ·)).map String.toList = []) : names = [] := by
    have hlength := congrArg List.length hnames
    rw [List.length_map, List.length_insertionSort] at hlength
    exact (List.dedup_eq_nil _).1 (List.length_eq_zero_iff.1 hlength)
  have hempty (names : List String)
      (hnames : (names.dedup.insertionSort (· ≤ ·)).map String.toList = [[]]) :
      names.dedup = [""] := by
    obtain ⟨name, hname, htext⟩ := List.map_eq_singleton_iff.1 hnames
    rw [String.toList_eq_nil_iff.1 htext] at hname
    exact List.perm_singleton.1 ((List.perm_insertionSort _ _).symm.trans (.of_eq hname))
  have htext := congrArg String.toList h
  rw [toList_renderNames, toList_renderNames] at htext
  rcases join_inj_of_notMem
      (hfields fun name hname => hcomma name (List.mem_append_left _ hname))
      (hfields fun name hname => hcomma name (List.mem_append_right _ hname)) htext with
    hsame | ⟨h, h'⟩ | ⟨h, h'⟩
  · exact Or.inl (sorted_inj_iff.1 (List.map_injective_iff.2 (fun _ _ => String.toList_inj.1) hsame))
  · exact Or.inr (Or.inr (Or.inl ⟨hnil _ h, hempty _ h'⟩))
  · exact Or.inr (Or.inr (Or.inr ⟨hempty _ h, hnil _ h'⟩))

/-- What follows a window is the same where the windows are, or end at whole minutes. -/
theorem window_inj (ha : (a.window cfg).isSome) (hb : (b.window cfg).isSome)
    (h : a.window cfg = b.window cfg ∨ (∀ window ∈ a.window cfg, window.stop.WholeMinutes) ∧
      ∀ window ∈ b.window cfg, window.stop.WholeMinutes) {x y : List Char}
    (htext : (canonicalTime cfg (some a.timeRange)).toList ++ x =
      (canonicalTime cfg (some b.timeRange)).toList ++ y) :
    canonicalTime cfg (some a.timeRange) = canonicalTime cfg (some b.timeRange) ∧ x = y := by
  obtain ⟨window, hwindow⟩ := Option.isSome_iff_exists.1 ha
  obtain ⟨window', hwindow'⟩ := Option.isSome_iff_exists.1 hb
  rw [canonicalTime_eq hwindow, canonicalTime_eq hwindow'] at htext ⊢
  rcases h with hsame | ⟨hwhole, hwhole'⟩
  · rw [hwindow, hwindow', Option.some.injEq] at hsame
    rw [hsame] at htext ⊢
    exact ⟨rfl, List.append_cancel_left htext⟩
  · exact TimeRange.toCmr_append_inj (hwhole window hwindow) (hwhole' window' hwindow') htext

/-- What follows the output format begins with a colon, or is nothing. -/
theorem format_inj {format format' : String} {scope scope' : Option String}
    (h : Ask.Apart format format')
    (heq : format.toList ++ scopeText scope = format'.toList ++ scopeText scope') :
    format = format' ∧ scope = scope' := by
  unfold scopeText at heq
  cases scope <;> cases scope' <;> simp only [Option.elim_none, Option.elim_some,
    List.append_nil] at heq
  · exact ⟨String.toList_inj.1 heq, rfl⟩
  · exact absurd (heq ▸ runsOn_append _ _ _) h.2
  · exact absurd (heq ▸ runsOn_append _ _ _) h.1
  · obtain ⟨hformat, hscope⟩ := cut_unique_of_not_runsOn h.2 h.1 heq
    rw [String.toList_inj, String.append_right_inj] at hscope
    exact ⟨String.toList_inj.1 hformat, by rw [hscope]⟩

theorem Ask.KeptApart.names_inj (h : a.KeptApart cfg b) {x y : List Char}
    (htext : (renderNames a.variableNames).toList ++ ':' :: x =
      (renderNames b.variableNames).toList ++ ':' :: y) :
    (∀ name, name ∈ a.variableNames ↔ name ∈ b.variableNames) ∧ x = y := by
  rcases h.variableNames with hsame | hfree
  · rw [renderNames_congr hsame] at htext
    exact ⟨hsame, (List.cons.inj (List.append_cancel_left htext)).2⟩
  · have hcolon (c : Ask) (hc : ∀ name ∈ c.variableNames,
        name ∈ a.variableNames ++ b.variableNames) : ':' ∉ (renderNames c.variableNames).toList :=
      notMem_renderNames (by decide) fun name hname => (hfree name (hc name hname)).1
    obtain ⟨hnames, hrest⟩ := cut_unique (hcolon a fun _ => List.mem_append_left _)
      (hcolon b fun _ => List.mem_append_right _) htext
    refine ⟨?_, hrest⟩
    exact (renderNames_inj (fun name hname => (hfree name hname).2)
      (String.toList_inj.1 hnames)).resolve_right h.present

/-- Requests that are kept apart and written alike ask for the same. -/
theorem Ask.KeptApart.same (h : a.KeptApart cfg b)
    (hfloats : cfg.PrintsFloats (a.coordinates ++ b.coordinates))
    (ha : (a.window cfg).isSome) (hb : (b.window cfg).isSome)
    (htext : pieces ':' (a.fields cfg) = pieces ':' (b.fields cfg)) : a.Same cfg b := by
  rw [pieces_eq_iff, join_fields, join_fields] at htext
  obtain ⟨hconcept, htext⟩ := cut_unique_of_not_runsOn h.conceptId.2 h.conceptId.1 htext
  obtain ⟨hboxes, htext⟩ := cut_unique (colon_notMem_boxText hfloats.left)
    (colon_notMem_boxText hfloats.right) htext
  obtain ⟨htimes, htext⟩ := window_inj ha hb h.window htext
  obtain ⟨hnames, htext⟩ := h.names_inj (List.cons.inj htext).2
  obtain ⟨hformat, hscope⟩ := format_inj h.outputFormat htext
  have hconcept' : a.conceptId = b.conceptId := by
    have hget := String.toList_inj.1 hconcept
    cases hc : a.conceptId with
    | none =>
      cases hc' : b.conceptId with
      | none => rfl
      | some id =>
        rw [hc, hc', Option.getD_none, Option.getD_some] at hget
        exact absurd (Or.inl (Or.inl ⟨hc, hc'.trans (congrArg some hget.symm)⟩)) h.present
    | some id =>
      cases hc' : b.conceptId with
      | none =>
        rw [hc, hc', Option.getD_none, Option.getD_some] at hget
        exact absurd (Or.inl (Or.inr ⟨hc.trans (congrArg some hget), hc'⟩)) h.present
      | some id' =>
        rw [hc, hc', Option.getD_some, Option.getD_some] at hget
        exact congrArg some hget
  refine ⟨hconcept', (box_eq_iff.1 ((boxText_inj_iff hfloats).1 ?_)).1,
    ((canonicalTime_inj_iff ha hb).1 htimes).1, hnames, hformat, hscope⟩
  exact String.toList_inj.1 hboxes

/-! ### A colon in a free text -/

/-- The request with these names and this format instead. -/
def Ask.recut (a : Ask) (names format : String) : Ask :=
  { a with variableNames := [names], outputFormat := format }

theorem toList_renderNames_singleton (name : String) :
    (renderNames [name]).toList = name.toList := by
  rw [toList_renderNames, (List.nodup_singleton name).dedup]
  exact List.intercalate_singleton

/-- Names and a format that are cut at another colon have the same text. -/
theorem signature_recut {names format : String}
    (h : (renderNames a.variableNames).toList ++ ':' :: a.outputFormat.toList =
      names.toList ++ ':' :: format.toList) :
    (a.recut names format).signature cfg = a.signature cfg := by
  have htext : [':'].intercalate ((a.recut names format).fields cfg) =
      [':'].intercalate (a.fields cfg) := by
    have hcut (tail : List Char) : (renderNames [names]).toList ++ ':' :: (format.toList ++ tail) =
        (renderNames a.variableNames).toList ++ ':' :: (a.outputFormat.toList ++ tail) := by
      rw [toList_renderNames_singleton, ← List.cons_append, ← List.append_assoc, ← h,
        List.append_assoc, List.cons_append]
    rw [join_fields, join_fields]
    unfold Ask.recut
    rw [hcut]
  unfold Ask.signature computeRequestSignature
  refine congrArg _ (String.toList_inj.1 ?_)
  rw [toList_signatureText, toList_signatureText]
  exact htext

/-- A colon in a name or in the format is the end of a field for another request. -/
theorem exists_collision
    (h : (∃ name ∈ a.variableNames, ':' ∈ name.toList) ∨ ':' ∈ a.outputFormat.toList) :
    ∃ names format, (a.recut names format).signature cfg = a.signature cfg ∧
      ¬ (a.recut names format).Same cfg a := by
  have hcolon : ':' ∈ (renderNames a.variableNames).toList ∨ ':' ∈ a.outputFormat.toList := by
    refine h.imp_left ?_
    rintro ⟨name, hname, hmem⟩
    rw [toList_renderNames]
    refine mem_join (List.mem_map_of_mem ?_) hmem
    exact (List.mem_insertionSort _).2 (List.mem_dedup.2 hname)
  rcases hcolon with hmem | hmem
  · obtain ⟨before, after, heq⟩ := List.append_of_mem hmem
    let format := String.ofList (after ++ ':' :: a.outputFormat.toList)
    refine ⟨String.ofList before, format, signature_recut ?_, fun hsame => ?_⟩
    · rw [heq, String.toList_ofList, String.toList_ofList, List.append_assoc, List.cons_append]
    · have hlength := congrArg (fun text => text.toList.length) hsame.outputFormat
      simp [Ask.recut, format] at hlength
      omega
  · obtain ⟨before, after, heq⟩ := List.append_of_mem hmem
    let names := String.ofList ((renderNames a.variableNames).toList ++ ':' :: before)
    refine ⟨names, String.ofList after, signature_recut ?_, fun hsame => ?_⟩
    · rw [heq, String.toList_ofList, String.toList_ofList, List.append_assoc, List.cons_append]
    · have hlength := congrArg (fun text => text.toList.length) hsame.outputFormat
      simp [Ask.recut, heq] at hlength
      omega

/-- Of two requests with windows that can be read, and that are kept apart, the signature is the
same if and only if they ask for the same, unless one is the other respelled.  A colon in a name or
in the format does run a request together with a different one. -/
theorem signature_canonical_iff (hhash : Function.Injective (cfg.sha256Prefix 24))
    (hfloats : cfg.PrintsFloats (a.coordinates ++ b.coordinates))
    (ha : (a.window cfg).isSome) (hb : (b.window cfg).isSome) :
    (a.KeptApart cfg b →
      ((a.signature cfg = b.signature cfg ↔ a.Same cfg b) ↔ ¬ a.Respelled cfg b)) ∧
    ((∃ name ∈ a.variableNames, ':' ∈ name.toList) ∨ ':' ∈ a.outputFormat.toList →
      ∃ names format, (a.recut names format).signature cfg = a.signature cfg ∧
        ¬ (a.recut names format).Same cfg a) := by
  refine ⟨fun hapart => ?_, exists_collision⟩
  rw [signature_inj_iff hhash]
  unfold Ask.Respelled
  by_cases hsame : a.Same cfg b
  · rw [hsame.pieces_eq_iff hfloats ha hb]
    simp [hsame]
  · have hdiffer : ¬ pieces ':' (a.fields cfg) = pieces ':' (b.fields cfg) := fun htext =>
      hsame (hapart.same hfloats ha hb htext)
    simp [hsame, hdiffer]

end text

/-- A request over the first week of April, for these variables in a box. -/
def Ask.forVariables (timeRange : String) (variableNames : List String) : Ask where
  conceptId := some "C1-LPCLOUD"
  bbox := some ⟨0, 0, 1, 1⟩
  timeRange := timeRange
  variableNames := variableNames
  outputFormat := "application/netcdf4"

/-- Settings in which the ends of two adjacent weeks of April are read, as they are typed and as
they are written back; coordinates are whole degrees. -/
def Settings.aprilWeeks : Settings where
  fromisoformat text :=
    if text = "2024-04-01" then some { year := 2024, month := 4, day := 1 }
    else if text = "2024-04-08" then some { year := 2024, month := 4, day := 8 }
    else if text = "2024-04-08T00:00:00+00:00" then
      some { year := 2024, month := 4, day := 8, utcoffset := some 0 }
    else if text = "2024-04-15T00:00:00+00:00" then
      some { year := 2024, month := 4, day := 15, utcoffset := some 0 }
    else none
  renderCoordinate c := toString c.value.num ++ ".0"

/-- The order of the names, a repetition and another spelling of the end make no difference. -/
theorem signature_canonical_reordered :
    let a := Ask.forVariables "2024-04-01/2024-04-08" ["NO2", "O3"]
    let b := Ask.forVariables "2024-04-01/2024-04-08T00:00:00Z" ["O3", "NO2", "O3"]
    a.signature .aprilWeeks = b.signature .aprilWeeks ↔ a.Same .aprilWeeks b := by
  intro a b
  have hfloats : Settings.aprilWeeks.PrintsFloats (a.coordinates ++ b.coordinates) :=
    ⟨by decide +kernel, by decide +kernel⟩
  have happart : a.KeptApart .aprilWeeks b := by
    refine ⟨⟨not_runsOn (by decide +kernel), not_runsOn (by decide +kernel)⟩,
      Or.inr ⟨by decide +kernel, by decide +kernel⟩, Or.inr (by decide +kernel),
      ⟨not_runsOn (by decide +kernel), not_runsOn (by decide +kernel)⟩, ?_⟩
    rintro ((⟨h, -⟩ | ⟨h, -⟩) | (⟨h, -⟩ | ⟨h, -⟩)) <;> exact absurd h (by decide +kernel)
  have hcanonical := (signature_canonical_iff (a := a) (b := b) Function.injective_id hfloats
    (by decide +kernel) (by decide +kernel)).1 happart
  refine hcanonical.2 ?_
  rintro ⟨-, hspelled⟩
  exact hspelled ⟨by decide +kernel, by decide +kernel⟩

/-- One variable with a comma in its name, against two variables. -/
theorem not_signature_canonical : ¬ ∀ (cfg : Settings) (a b : Ask),
    Function.Injective (cfg.sha256Prefix 24) → cfg.PrintsFloats (a.coordinates ++ b.coordinates) →
      (a.window cfg).isSome → (b.window cfg).isSome →
        (a.signature cfg = b.signature cfg ↔ a.Same cfg b) := by
  intro h
  let a := Ask.forVariables "2024-04-01/2024-04-08" ["NO2,O3"]
  let b := Ask.forVariables "2024-04-01/2024-04-08" ["NO2", "O3"]
  have hfloats : Settings.aprilWeeks.PrintsFloats (a.coordinates ++ b.coordinates) :=
    ⟨by decide +kernel, by decide +kernel⟩
  have hsame := (h .aprilWeeks a b Function.injective_id hfloats (by decide +kernel)
    (by decide +kernel)).1 (by decide +kernel)
  exact absurd ((hsame.variableNames "NO2").2 (by decide)) (by decide)

end EarthdataMcp
