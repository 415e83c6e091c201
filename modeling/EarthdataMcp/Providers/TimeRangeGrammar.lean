import EarthdataMcp.Providers.Instants

/-!
# The grammar of time ranges

A range is two endpoints with a slash or a comma between them, of which one may be missing where
open ranges are allowed. It is normalized before any tool reads it.

* `normalizeTimeRange`;
* `Normalizes`: what normalizing a text must come to;
* `Accepts`: two endpoints are accepted with a delimiter between them;
* `normalizes_and_accepts_iff`: exactly when both hold.
-/

namespace EarthdataMcp

open Text

/-! ### The parser -/

/-- How a range is refused; each is a `ValueError` that quotes the grammar, but for the last. -/
inductive TimeRangeError
  /-- `time_range is required and cannot be empty`. -/
  | empty
  /-- `… has no '/' or ',' delimiter`. -/
  | noDelimiter
  /-- `… needs at least one bound`. -/
  | noBound
  /-- `… must specify both a start and an end`. -/
  | openRange
  /-- `time_range endpoint … is not ISO-8601`. -/
  | notIso (endpoint : List Char)
  /-- `… has end before start`. -/
  | endBeforeStart
  /-- `can't compare offset-naive and offset-aware datetimes`. -/
  | typeError
  deriving DecidableEq

/-- The exception is a `ValueError`. -/
def TimeRangeError.isValueError : TimeRangeError → Bool
  | typeError => false
  | _ => true

/-- `d < d'`: an instant with an offset does not compare with one without. -/
def DateTime.less (d d' : DateTime) : Except TimeRangeError Bool :=
  if d.utcoffset.isSome = d'.utcoffset.isSome then .ok (d.instant < d'.instant)
  else .error .typeError

/-- The delimiter of a text: a slash if there is one, else a comma. -/
def delimiterOf (text : List Char) : Option Char :=
  if '/' ∈ text then some '/' else if ',' ∈ text then some ',' else none

/-- What stands before the delimiter and what after it. -/
def endpointsOf (delim : Char) (text : List Char) : List Char × List Char :=
  let (start, stop) := partition delim text
  (strip start, strip stop)

section grammar

variable (fromisoformat : String → Option DateTime)

/-- `_parse_time_range_endpoint` of an endpoint, if it is there. -/
def parseEndpoint (endpoint : List Char) : Except TimeRangeError (Option DateTime) :=
  if endpoint = [] then .ok none
  else
    match parseIso fromisoformat endpoint with
    | some d => .ok (some d)
    | none => .error (.notIso endpoint)

/-- Both endpoints are there and the last is before the first. -/
def endsEarly : Option DateTime → Option DateTime → Except TimeRangeError Bool
  | some start, some stop => stop.less start
  | _, _ => .ok false

/-- A range with these endpoints, in the canonical form. -/
def normalizeEndpoints (allowOpen : Bool) (start stop : List Char) :
    Except TimeRangeError (List Char) :=
  if start = [] ∧ stop = [] then .error .noBound
  else if ¬ allowOpen ∧ (start = [] ∨ stop = []) then .error .openRange
  else do
    let startDt ← parseEndpoint fromisoformat start
    let stopDt ← parseEndpoint fromisoformat stop
    let early ← endsEarly startDt stopDt
    if early then .error .endBeforeStart else pure (start ++ '/' :: stop)

/-- `normalize_time_range`. -/
def normalizeTimeRange (value : List Char) (allowOpen : Bool) : Except TimeRangeError (List Char) :=
  if strip value = [] then .error .empty
  else
    match delimiterOf (strip value) with
    | none => .error .noDelimiter
    | some delim =>
        let endpoints := endpointsOf delim (strip value)
        normalizeEndpoints fromisoformat allowOpen endpoints.1 endpoints.2

/-! ### What it must do -/

/-- A text is refused with a `ValueError`, or brought into a form that is mapped to itself and,
where no range may be open, is that of a range whose start is not after its end. -/
def Normalizes (value : List Char) (allowOpen : Bool) : Prop :=
  (∃ e, normalizeTimeRange fromisoformat value allowOpen = .error e ∧ e.isValueError = true) ∨
    ∃ text, normalizeTimeRange fromisoformat value allowOpen = .ok text ∧
      normalizeTimeRange fromisoformat text allowOpen = .ok text ∧
      (allowOpen = false → ∃ range, TimeRange.fromCmr fromisoformat (String.ofList text) = some range ∧
        range.start.instant ≤ range.stop.instant)

/-- Two endpoints are accepted with a delimiter between them. -/
def Accepts (allowOpen : Bool) (start : List Char) (delim : Char) (stop : List Char) : Prop :=
  normalizeTimeRange fromisoformat (start ++ delim :: stop) allowOpen = .ok (start ++ '/' :: stop)

/-- Both endpoints are there and can be read, one with an offset and one without. -/
def Mixed (start stop : List Char) : Prop :=
  ∃ d d', start ≠ [] ∧ stop ≠ [] ∧ parseIso fromisoformat start = some d ∧
    parseIso fromisoformat stop = some d' ∧ d.utcoffset.isSome ≠ d'.utcoffset.isSome

/-- The endpoints of a text are mixed. -/
def MixedEndpoints (value : List Char) : Prop :=
  ∃ delim, delimiterOf (strip value) = some delim ∧
    Mixed fromisoformat (endpointsOf delim (strip value)).1 (endpointsOf delim (strip value)).2

/-- What is read as an instant is a date or a timestamp of ISO-8601: it is not empty, no white
space stands at its ends, it has no slash, and what follows a comma in it is none itself, with a
comma and another one after it. -/
structure ReadsIso : Prop where
  nonempty : ∀ text d, parseIso fromisoformat text = some d → text ≠ []
  trimmed : ∀ text d, parseIso fromisoformat text = some d → Trimmed text
  slash : ∀ text d, parseIso fromisoformat text = some d → '/' ∉ text
  comma : ∀ before after text d d', parseIso fromisoformat (before ++ ',' :: after) = some d →
    parseIso fromisoformat text = some d' →
      parseIso fromisoformat (strip (after ++ ',' :: text)) = none

end grammar

/-! ### Endpoints -/

section endpoints

variable {fromisoformat : String → Option DateTime} {start stop text value : List Char}

theorem mem_of_mem_strip {c : Char} (h : c ∈ strip text) : c ∈ text := by
  unfold strip lstrip at h
  rw [List.mem_reverse] at h
  exact (List.dropWhile_sublist _).mem (List.mem_reverse.1 ((List.dropWhile_sublist _).mem h))

theorem delimiterOf_of_slash (h : '/' ∈ text) : delimiterOf text = some '/' := if_pos h

/-- The endpoints have no white space at their ends, and the first one has no slash. -/
theorem endpointsOf_spec {delim : Char} (h : delimiterOf text = some delim) :
    Trimmed (endpointsOf delim text).1 ∧ Trimmed (endpointsOf delim text).2 ∧
      '/' ∉ (endpointsOf delim text).1 := by
  refine ⟨trimmed_strip _, trimmed_strip _, ?_⟩
  intro hmem
  have hbefore : '/' ∈ text.takeWhile (· ≠ delim) := mem_of_mem_strip hmem
  have htext : '/' ∈ text := (List.takeWhile_sublist _).mem hbefore
  rw [delimiterOf_of_slash htext] at h
  obtain rfl := Option.some.inj h
  have hne := List.mem_takeWhile_imp hbefore
  simp at hne

theorem trimmed_join {c : Char} (hstart : Trimmed start) (hstop : Trimmed stop) (hc : ¬ isSpace c) :
    Trimmed (start ++ c :: stop) := by
  constructor
  · intro c' hc'
    rw [List.head?_append] at hc'
    cases hhead : start.head? with
    | none =>
      rw [hhead] at hc'
      obtain rfl := Option.some.inj hc'
      exact hc
    | some c'' =>
      rw [hhead] at hc'
      obtain rfl := Option.some.inj hc'
      exact hstart.head _ hhead
  · intro c' hc'
    rw [List.getLast?_append_of_ne_nil _ (List.cons_ne_nil _ _), List.getLast?_cons] at hc'
    cases hlast : stop.getLast? with
    | none =>
      rw [hlast] at hc'
      obtain rfl := Option.some.inj hc'
      exact hc
    | some c'' =>
      rw [hlast] at hc'
      obtain rfl := Option.some.inj hc'
      exact hstop.last _ hlast

theorem endpointsOf_cut {delim : Char} (hstart : Trimmed start) (hstop : Trimmed stop)
    (h : delim ∉ start) : endpointsOf delim (start ++ delim :: stop) = (start, stop) := by
  unfold endpointsOf
  rw [partition_cut stop h]
  dsimp only
  rw [strip_of_trimmed hstart, strip_of_trimmed hstop]

/-- A text is taken apart as it was put together. -/
theorem normalizeTimeRange_cut {delim : Char} (hstart : Trimmed start) (hstop : Trimmed stop)
    (h : delim ∉ start) (hspace : ¬ isSpace delim)
    (hdelim : delimiterOf (start ++ delim :: stop) = some delim) (allowOpen : Bool) :
    normalizeTimeRange fromisoformat (start ++ delim :: stop) allowOpen =
      normalizeEndpoints fromisoformat allowOpen start stop := by
  have hne : start ++ delim :: stop ≠ [] := by simp
  unfold normalizeTimeRange
  rw [strip_of_trimmed (trimmed_join hstart hstop hspace), if_neg hne, hdelim]
  dsimp only
  rw [endpointsOf_cut hstart hstop h]

/-- The canonical form is taken apart into the same endpoints. -/
theorem normalizeTimeRange_canonical (hstart : Trimmed start) (hstop : Trimmed stop)
    (h : '/' ∉ start) (allowOpen : Bool) :
    normalizeTimeRange fromisoformat (start ++ '/' :: stop) allowOpen =
      normalizeEndpoints fromisoformat allowOpen start stop :=
  normalizeTimeRange_cut hstart hstop h (by decide) (delimiterOf_of_slash (by simp)) allowOpen

/-- A text that is normalized, by its endpoints. -/
theorem normalizeTimeRange_eq {delim : Char} (hdelim : delimiterOf (strip value) = some delim)
    (allowOpen : Bool) : normalizeTimeRange fromisoformat value allowOpen =
      normalizeEndpoints fromisoformat allowOpen (endpointsOf delim (strip value)).1
        (endpointsOf delim (strip value)).2 := by
  have hne : strip value ≠ [] := by
    intro hnil
    rw [hnil] at hdelim
    cases hdelim
  unfold normalizeTimeRange
  rw [if_neg hne, hdelim]

/-! ### Pairs of endpoints -/

theorem parseEndpoint_eq_ok {endpoint : List Char} {d : Option DateTime}
    (h : parseEndpoint fromisoformat endpoint = .ok d) : (endpoint = [] ∧ d = none) ∨
      endpoint ≠ [] ∧ ∃ d', parseIso fromisoformat endpoint = some d' ∧ d = some d' := by
  unfold parseEndpoint at h
  split_ifs at h with hnil
  · exact Or.inl ⟨hnil, (Except.ok.inj h).symm⟩
  · split at h
    · rename_i d' hd
      exact Or.inr ⟨hnil, d', hd, (Except.ok.inj h).symm⟩
    · cases h

theorem parseEndpoint_eq_error {endpoint : List Char} {e : TimeRangeError}
    (h : parseEndpoint fromisoformat endpoint = .error e) : e.isValueError = true := by
  unfold parseEndpoint at h
  split_ifs at h with hnil
  split at h
  · cases h
  · obtain rfl := Except.error.inj h
    rfl

/-- Two endpoints that are there and can be read. -/
theorem normalizeEndpoints_of_parse {d d' : DateTime} (hstart : start ≠ []) (hstop : stop ≠ [])
    (hd : parseIso fromisoformat start = some d) (hd' : parseIso fromisoformat stop = some d')
    (allowOpen : Bool) : normalizeEndpoints fromisoformat allowOpen start stop =
      if d.utcoffset.isSome = d'.utcoffset.isSome then
        (if d'.instant < d.instant then .error .endBeforeStart else .ok (start ++ '/' :: stop))
      else .error .typeError := by
  unfold normalizeEndpoints parseEndpoint
  rw [if_neg fun h => hstart h.1, if_neg (by simp [hstart, hstop]), if_neg hstart, if_neg hstop, hd,
    hd']
  show (d'.less d >>= _) = _
  unfold DateTime.less
  by_cases haware : d.utcoffset.isSome = d'.utcoffset.isSome
  · rw [if_pos haware, if_pos haware.symm]
    show (if decide (d'.instant < d.instant) = true then _ else _) = _
    simp only [decide_eq_true_eq]
    rfl
  · rw [if_neg haware, if_neg fun h => haware h.symm]
    rfl

/-- Endpoints are refused with a `ValueError`, or they can both be read, or the range is open. -/
theorem normalizeEndpoints_cases (fromisoformat : String → Option DateTime) (allowOpen : Bool)
    (start stop : List Char) :
    (∃ e, normalizeEndpoints fromisoformat allowOpen start stop = .error e ∧
      e.isValueError = true) ∨
    (∃ d d', start ≠ [] ∧ stop ≠ [] ∧ parseIso fromisoformat start = some d ∧
      parseIso fromisoformat stop = some d') ∨
    (allowOpen = true ∧
      normalizeEndpoints fromisoformat allowOpen start stop = .ok (start ++ '/' :: stop)) := by
  by_cases hbound : start = [] ∧ stop = []
  · exact Or.inl ⟨.noBound, if_pos hbound, rfl⟩
  by_cases hclosed : ¬ allowOpen = true ∧ (start = [] ∨ stop = [])
  · exact Or.inl ⟨.openRange, by unfold normalizeEndpoints; rw [if_neg hbound, if_pos hclosed], rfl⟩
  have heq : normalizeEndpoints fromisoformat allowOpen start stop =
      (parseEndpoint fromisoformat start >>= fun startDt =>
        parseEndpoint fromisoformat stop >>= fun stopDt =>
          endsEarly startDt stopDt >>= fun early =>
            if early then .error .endBeforeStart else pure (start ++ '/' :: stop)) := by
    unfold normalizeEndpoints
    rw [if_neg hbound, if_neg hclosed]
  cases hstart : parseEndpoint fromisoformat start with
  | error e =>
    have he := parseEndpoint_eq_error hstart
    exact Or.inl ⟨e, by rw [heq, hstart]; rfl, he⟩
  | ok startDt =>
    cases hstop : parseEndpoint fromisoformat stop with
    | error e =>
      have he := parseEndpoint_eq_error hstop
      exact Or.inl ⟨e, by rw [heq, hstart, hstop]; rfl, he⟩
    | ok stopDt =>
      rcases parseEndpoint_eq_ok hstart with ⟨hnil, rfl⟩ | ⟨hne, d, hd, rfl⟩
      · -- without a start the range is open, and there is nothing to compare
        have hopen : allowOpen = true := by simpa [hnil] using hclosed
        exact Or.inr (Or.inr ⟨hopen, by rw [heq, hstart, hstop]; rfl⟩)
      · rcases parseEndpoint_eq_ok hstop with ⟨hnil, rfl⟩ | ⟨hne', d', hd', rfl⟩
        · have hopen : allowOpen = true := by simpa [hnil] using hclosed
          exact Or.inr (Or.inr ⟨hopen, by rw [heq, hstart, hstop]; rfl⟩)
        · exact Or.inr (Or.inl ⟨d, d', hne, hne', hd, hd'⟩)

theorem normalizeEndpoints_eq_ok {allowOpen : Bool}
    (h : normalizeEndpoints fromisoformat allowOpen start stop = .ok text) :
    text = start ++ '/' :: stop := by
  rcases normalizeEndpoints_cases fromisoformat allowOpen start stop with
    ⟨e, he, -⟩ | ⟨d, d', hstart, hstop, hd, hd'⟩ | ⟨-, hok⟩
  · exact absurd (he.symm.trans h) (by simp)
  · rw [normalizeEndpoints_of_parse hstart hstop hd hd'] at h
    split_ifs at h
    exact (Except.ok.inj h).symm
  · exact Except.ok.inj (h.symm.trans hok)

/-- What a text is normalized to is two endpoints, without white space at their ends, with a slash
between them. -/
theorem normalized_spec {allowOpen : Bool}
    (h : normalizeTimeRange fromisoformat value allowOpen = .ok text) :
    ∃ start stop, text = start ++ '/' :: stop ∧ Trimmed start ∧ Trimmed stop ∧ '/' ∉ start ∧
      normalizeEndpoints fromisoformat allowOpen start stop = .ok text := by
  cases hdelim : delimiterOf (strip value) with
  | none =>
    unfold normalizeTimeRange at h
    rw [hdelim] at h
    split_ifs at h
  | some delim =>
    obtain ⟨hstart, hstop, hslash⟩ := endpointsOf_spec hdelim
    rw [normalizeTimeRange_eq hdelim] at h
    exact ⟨_, _, normalizeEndpoints_eq_ok h, hstart, hstop, hslash, h⟩

/-- Mixed endpoints are refused with a `TypeError`. -/
theorem Mixed.typeError (h : Mixed fromisoformat start stop) (allowOpen : Bool) :
    normalizeEndpoints fromisoformat allowOpen start stop = .error .typeError := by
  obtain ⟨d, d', hstart, hstop, hd, hd', hne⟩ := h
  rw [normalizeEndpoints_of_parse hstart hstop hd hd', if_neg hne]

/-- Endpoints that can be read are those of a range in the canonical form. -/
theorem fromCmr_canonical {d d' : DateTime} (hslash : '/' ∉ start) (hstop : stop ≠ [])
    (hd : parseIso fromisoformat start = some d) (hd' : parseIso fromisoformat stop = some d') :
    TimeRange.fromCmr fromisoformat (String.ofList (start ++ '/' :: stop)) = some ⟨d, d'⟩ := by
  rw [TimeRange.fromCmr_cut hslash hstop]
  unfold TimeRange.between
  rw [hd, hd']
  rfl

/-- Without a delimiter a text is refused. -/
theorem normalizeTimeRange_of_none (hdelim : delimiterOf (strip value) = none) (allowOpen : Bool) :
    ∃ e, normalizeTimeRange fromisoformat value allowOpen = .error e ∧ e.isValueError = true := by
  unfold normalizeTimeRange
  by_cases hnil : strip value = []
  · exact ⟨.empty, by rw [if_pos hnil], rfl⟩
  · exact ⟨.noDelimiter, by rw [if_neg hnil, hdelim], rfl⟩

/-- Normalizing a text comes to what it must, unless its endpoints are mixed. -/
theorem normalizes_iff (value : List Char) (allowOpen : Bool) :
    Normalizes fromisoformat value allowOpen ↔ ¬ MixedEndpoints fromisoformat value := by
  cases hdelim : delimiterOf (strip value) with
  | none =>
    refine iff_of_true (Or.inl (normalizeTimeRange_of_none hdelim allowOpen)) ?_
    rintro ⟨delim, hsome, -⟩
    rw [hdelim] at hsome
    cases hsome
  | some delim =>
    have hvalue : normalizeTimeRange fromisoformat value allowOpen = _ :=
      normalizeTimeRange_eq hdelim allowOpen
    obtain ⟨hstart, hstop, hslash⟩ := endpointsOf_spec hdelim
    have hmixed : MixedEndpoints fromisoformat value ↔ Mixed fromisoformat
        (endpointsOf delim (strip value)).1 (endpointsOf delim (strip value)).2 := by
      constructor
      · rintro ⟨delim', hsome, h⟩
        rw [hdelim] at hsome
        obtain rfl := Option.some.inj hsome
        exact h
      · exact fun h => ⟨delim, hdelim, h⟩
    rw [hmixed]
    unfold Normalizes
    rw [hvalue]
    generalize (endpointsOf delim (strip value)).1 = start at *
    generalize (endpointsOf delim (strip value)).2 = stop at *
    have hcanonical : normalizeTimeRange fromisoformat (start ++ '/' :: stop) allowOpen = _ :=
      normalizeTimeRange_canonical hstart hstop hslash allowOpen
    constructor
    · -- a `TypeError` is neither a `ValueError` nor an answer
      intro h hm
      rw [hm.typeError] at h
      rcases h with ⟨e, he, hvalueError⟩ | ⟨text, htext, -⟩
      · obtain rfl := Except.error.inj he
        cases hvalueError
      · cases htext
    · intro hm
      rcases normalizeEndpoints_cases fromisoformat allowOpen start stop with
        he | ⟨d, d', hne, hne', hd, hd'⟩ | ⟨hopen, hok⟩
      · exact Or.inl he
      · -- the two ends can be compared
        have haware : d.utcoffset.isSome = d'.utcoffset.isSome := by
          by_contra hdiff
          exact hm ⟨d, d', hne, hne', hd, hd', hdiff⟩
        rw [normalizeEndpoints_of_parse hne hne' hd hd', if_pos haware] at hcanonical ⊢
        by_cases hearly : d'.instant < d.instant
        · rw [if_pos hearly]
          exact Or.inl ⟨_, rfl, rfl⟩
        · rw [if_neg hearly] at hcanonical ⊢
          exact Or.inr ⟨_, rfl, hcanonical, fun _ =>
            ⟨_, fromCmr_canonical hslash hne' hd hd', not_lt.1 hearly⟩⟩
      · rw [hok] at hcanonical ⊢
        refine Or.inr ⟨_, rfl, hcanonical, fun hclosed => ?_⟩
        rw [hopen] at hclosed
        cases hclosed

/-! ### Pairs that are accepted -/

/-- A pair of endpoints in order, with the delimiter that is found. -/
theorem accepts_iff_of_cut (hiso : ReadsIso fromisoformat) {d d' : DateTime} {delim : Char}
    (hd : parseIso fromisoformat start = some d) (hd' : parseIso fromisoformat stop = some d')
    (hle : d.instant ≤ d'.instant) (hspace : ¬ isSpace delim) (hcut : delim ∉ start)
    (hdelim : delimiterOf (start ++ delim :: stop) = some delim) (allowOpen : Bool) :
    Accepts fromisoformat allowOpen start delim stop ↔
      d.utcoffset.isSome = d'.utcoffset.isSome := by
  unfold Accepts
  rw [normalizeTimeRange_cut (hiso.trimmed _ _ hd) (hiso.trimmed _ _ hd') hcut hspace hdelim,
    normalizeEndpoints_of_parse (hiso.nonempty _ _ hd) (hiso.nonempty _ _ hd') hd hd']
  constructor
  · intro h
    by_contra hne
    rw [if_neg hne] at h
    cases h
  · intro haware
    rw [if_pos haware, if_neg (not_lt.2 hle)]

/-- A start with a comma in it is taken apart there. -/
theorem not_accepts_of_comma (hiso : ReadsIso fromisoformat) {d d' : DateTime}
    (hd : parseIso fromisoformat start = some d) (hd' : parseIso fromisoformat stop = some d')
    (hcomma : ',' ∈ start) (allowOpen : Bool) :
    ¬ Accepts fromisoformat allowOpen start ',' stop := by
  have hslash : '/' ∉ start ++ ',' :: stop := by
    simp [hiso.slash _ _ hd, hiso.slash _ _ hd']
  have htrimmed : Trimmed (start ++ ',' :: stop) :=
    trimmed_join (hiso.trimmed _ _ hd) (hiso.trimmed _ _ hd') (by decide)
  have hdelim : delimiterOf (strip (start ++ ',' :: stop)) = some ',' := by
    rw [strip_of_trimmed htrimmed]
    unfold delimiterOf
    rw [if_neg hslash, if_pos (by simp)]
  obtain ⟨before, after, rfl, hbefore⟩ := List.eq_append_cons_of_mem hcomma
  have hends : endpointsOf ',' (strip ((before ++ ',' :: after) ++ ',' :: stop)) =
      (strip before, strip (after ++ ',' :: stop)) := by
    rw [strip_of_trimmed htrimmed, List.append_assoc, List.cons_append]
    unfold endpointsOf
    rw [partition_cut _ hbefore]
  intro h
  unfold Accepts at h
  rw [normalizeTimeRange_eq hdelim, hends] at h
  rcases normalizeEndpoints_cases fromisoformat allowOpen (strip before)
    (strip (after ++ ',' :: stop)) with ⟨e, he, -⟩ | ⟨_, d'', -, -, -, hsecond⟩ | ⟨-, hok⟩
  · exact absurd (he.symm.trans h) (by simp)
  · -- the second endpoint would be read, comma and all
    rw [hiso.comma before after stop d d' hd hd'] at hsecond
    cases hsecond
  · -- the first endpoint would be the whole start, and has no comma
    have hnot : '/' ∉ strip before := fun hmem =>
      hiso.slash _ _ hd (List.mem_append_left _ (mem_of_mem_strip hmem))
    obtain ⟨hsame, -⟩ := cut_unique hnot (hiso.slash _ _ hd)
      (Except.ok.inj (hok.symm.trans h))
    exact hbefore (mem_of_mem_strip (hsame ▸ hcomma))

/-- Every text is refused with a `ValueError` or normalized, but for mixed endpoints, and a pair of
endpoints in order is accepted if they both have an offset or neither has, and the delimiter is
found between them: no comma is written in the first one where the second follows a comma. -/
theorem normalizes_and_accepts_iff (hiso : ReadsIso fromisoformat) :
    (∀ value allowOpen,
      Normalizes fromisoformat value allowOpen ↔ ¬ MixedEndpoints fromisoformat value) ∧
    ∀ (start stop : List Char) (d d' : DateTime) (delim : Char) (allowOpen : Bool),
      parseIso fromisoformat start = some d → parseIso fromisoformat stop = some d' →
      d.instant ≤ d'.instant → delim = '/' ∨ delim = ',' →
      (Accepts fromisoformat allowOpen start delim stop ↔
        d.utcoffset.isSome = d'.utcoffset.isSome ∧ (delim = ',' → ',' ∉ start)) := by
  refine ⟨normalizes_iff, ?_⟩
  intro start stop d d' delim allowOpen hd hd' hle hdelim
  have hslash : '/' ∉ start := hiso.slash _ _ hd
  have hslash' : '/' ∉ stop := hiso.slash _ _ hd'
  rcases hdelim with rfl | rfl
  · rw [accepts_iff_of_cut hiso hd hd' hle (by decide) hslash (delimiterOf_of_slash (by simp))]
    simp
  · by_cases hcomma : ',' ∈ start
    · refine iff_of_false (not_accepts_of_comma hiso hd hd' hcomma allowOpen) ?_
      exact fun h => h.2 rfl hcomma
    · have hfound : delimiterOf (start ++ ',' :: stop) = some ',' := by
        unfold delimiterOf
        rw [if_neg (by simp [hslash, hslash']), if_pos (by simp)]
      rw [accepts_iff_of_cut hiso hd hd' hle (by decide) hcomma hfound]
      simp [hcomma]

end endpoints

/-! ### A reader of two texts -/

/-- The characters are neither delimiters nor white space. -/
def plainChars (text : List Char) : Bool :=
  text.all fun c => decide (c ≠ '/' ∧ c ≠ ',' ∧ ¬ isSpace c)

theorem plainChars_iff {text : List Char} :
    plainChars text = true ↔ ∀ c ∈ text, c ≠ '/' ∧ c ≠ ',' ∧ ¬ isSpace c := by
  unfold plainChars
  simp only [List.all_eq_true, decide_eq_true_eq]

theorem ReadsIso.of_plain {fromisoformat : String → Option DateTime}
    (h : ∀ text d, fromisoformat text = some d →
      text ≠ "" ∧ ∀ c ∈ text.toList, c ≠ '/' ∧ c ≠ ',' ∧ ¬ isSpace c) : ReadsIso fromisoformat := by
  have hplain (text : List Char) (d : DateTime) (hd : parseIso fromisoformat text = some d) :
      text ≠ [] ∧ ∀ c ∈ text, c ≠ '/' ∧ c ≠ ',' ∧ ¬ isSpace c := by
    obtain ⟨hne, hchars⟩ := h _ _ hd
    refine ⟨by rintro rfl; exact hne rfl, fun c hc => ?_⟩
    by_cases hzulu : c = 'Z'
    · subst hzulu
      decide
    · apply hchars
      rw [String.toList_ofList, List.mem_flatMap]
      exact ⟨c, hc, by rw [if_neg hzulu]; exact List.mem_singleton_self c⟩
  constructor
  · exact fun text d hd => (hplain text d hd).1
  · intro text d hd
    constructor
    · exact fun c hc => ((hplain text d hd).2 c (List.mem_of_mem_head? hc)).2.2
    · exact fun c hc => ((hplain text d hd).2 c (List.mem_of_getLast? hc)).2.2
  · exact fun text d hd hmem => ((hplain text d hd).2 _ hmem).1 rfl
  · intro before after text d d' hd _
    exact absurd rfl ((hplain _ d hd).2 ',' (by simp)).2.1

theorem january_valid : (1 ≤ 2024 ∧ 2024 ≤ 9999) ∧ (1 ≤ 1 ∧ 1 ≤ 12) ∧
    (1 ≤ 1 ∧ 1 ≤ daysInMonth 2024 1) ∧ 0 < 24 ∧ 0 < 60 ∧ 0 < 60 ∧ 0 < 1000000 ∧
    ∀ offset ∈ (none : Option ℤ), offset.natAbs < 86400000000 := by
  decide

/-- The first of January, without an offset. -/
def january : DateTime := { year := 2024, month := 1, day := 1, valid := january_valid }

/-- The first of February in UTC. -/
def february : DateTime := { year := 2024, month := 2, day := 1, utcoffset := some 0 }

/-- Reads the two as they are written. -/
def readsTwo (text : String) : Option DateTime :=
  if text = "2024-01-01" then some january
  else if text = "2024-02-01T00:00:00+00:00" then some february
  else none

theorem readsIso_readsTwo : ReadsIso readsTwo := by
  apply ReadsIso.of_plain
  intro text d h
  unfold readsTwo at h
  split_ifs at h with hdate htimestamp
  · subst hdate
    exact ⟨by decide, plainChars_iff.1 (by decide)⟩
  · subst htimestamp
    exact ⟨by decide, plainChars_iff.1 (by decide)⟩

theorem parse_january : parseIso readsTwo "2024-01-01".toList = some january := by decide

theorem parse_february : parseIso readsTwo "2024-02-01T00:00:00Z".toList = some february := by
  decide

theorem january_le_february : january.instant ≤ february.instant := by decide

theorem normalizes_and_accepts_iff_readsTwo :
    Accepts readsTwo false "2024-01-01".toList ',' "2024-01-01".toList :=
  ((normalizes_and_accepts_iff readsIso_readsTwo).2 _ _ january january ',' false parse_january
    parse_january le_rfl (Or.inr rfl)).2 ⟨rfl, by decide⟩

/-- A date and a timestamp in order are not accepted, and what is raised is no `ValueError`. -/
theorem not_accepts_readsTwo : ReadsIso readsTwo ∧
    parseIso readsTwo "2024-01-01".toList = some january ∧
    parseIso readsTwo "2024-02-01T00:00:00Z".toList = some february ∧
    january.instant ≤ february.instant ∧
    normalizeTimeRange readsTwo "2024-01-01/2024-02-01T00:00:00Z".toList true = .error .typeError ∧
    ¬ Normalizes readsTwo "2024-01-01/2024-02-01T00:00:00Z".toList true ∧
    ¬ Accepts readsTwo true "2024-01-01".toList '/' "2024-02-01T00:00:00Z".toList := by
  have herror : normalizeTimeRange readsTwo "2024-01-01/2024-02-01T00:00:00Z".toList true =
      .error .typeError := by decide
  refine ⟨readsIso_readsTwo, parse_january, parse_february, january_le_february, herror, ?_, ?_⟩
  · rintro (⟨e, he, hvalueError⟩ | ⟨text, htext, -⟩)
    · obtain rfl := Except.error.inj (herror.symm.trans he)
      cases hvalueError
    · exact absurd (herror.symm.trans htext) (by simp)
  · intro h
    exact absurd (herror.symm.trans h) (by simp)

end EarthdataMcp
