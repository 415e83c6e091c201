import EarthdataMcp.Providers.DurableSpec

/-!
# Which stored dictionaries can be loaded

Reading a stored dictionary raises `InvalidSpecError` for most of what is malformed, but not for
all of it: a plan of dimensions, a table of coordinates or one of expansions that is no object is
asked for its items, and a window is not looked at before the plan is rebuilt.

* `escapes_readEntries`, `escapes_readSpec`: when another exception escapes;
* `reads_toPlan`: when the plan is rebuilt;
* `Loadable`, a condition on the dictionary alone, and `handled_iff_loadable`.
-/

namespace EarthdataMcp

open Text Text.Json

variable {fromisoformat : String → Option DateTime} {data : List (String × Json)}

/-! ### One reader at a time -/

section readers

variable {α : Type} {read : Json → Except ReadError α}

theorem reads_bboxFromJsonb (v : Json) : Reads (bboxFromJsonb v) ↔ v.EmptyOr Iterable := by
  unfold bboxFromJsonb EmptyOr
  split_ifs with h
  · have hmap : some <$> v.iter = v.iter >>= fun xs => .ok (some xs) := by
      cases v.iter <;> rfl
    rw [hmap, reads_bind_iff (P := True) (fun a => iff_of_true (reads_ok _) trivial), reads_iter]
    simp [h]
  · exact iff_of_true (reads_ok _) fun h' => absurd h' h

theorem not_escapes_bboxFromJsonb (v : Json) : ¬ Escapes (bboxFromJsonb v) := by
  unfold bboxFromJsonb
  split_ifs with h
  · have hmap : some <$> v.iter = v.iter >>= fun xs => .ok (some xs) := by
      cases v.iter <;> rfl
    rw [hmap]
    exact not_escapes_bind (not_escapes_iter v) fun _ => not_escapes_ok _
  · exact not_escapes_ok _

/-- The keys of an axis. -/
def axisKeys : List String := ["name", "origin", "step", "length"]

theorem reads_axisFromJsonb (v : Json) :
    Reads (axisFromJsonb v) ↔ v.EmptyOr (HasKeys axisKeys) := by
  unfold axisFromJsonb EmptyOr
  split_ifs with h
  · rw [reads_bind_iff fun _ => reads_bind_iff fun _ => reads_bind_iff fun _ =>
      reads_bind_iff (P := True) fun _ => iff_of_true (reads_pure _) trivial]
    rw [reads_item, reads_item, reads_item, reads_item, forall_prop_of_true h]
    unfold HasKeys
    constructor
    · rintro ⟨⟨entries, rfl, hname⟩, ⟨_, h₁, horigin⟩, ⟨_, h₂, hstep⟩, ⟨_, h₃, hlength⟩, -⟩
      obtain rfl := obj.inj h₁
      obtain rfl := obj.inj h₂
      obtain rfl := obj.inj h₃
      exact ⟨entries, rfl, by
        unfold axisKeys
        simp only [List.forall_mem_cons, hname, horigin, hstep, hlength, true_and]
        simp⟩
    · rintro ⟨entries, rfl, hkeys⟩
      have hkey : ∀ key ∈ axisKeys, ∃ entries', obj entries = obj entries' ∧
          (entries'.lookup key).isSome := fun key hmem => ⟨entries, rfl, hkeys key hmem⟩
      exact ⟨hkey _ (by decide), hkey _ (by decide), hkey _ (by decide), hkey _ (by decide),
        trivial⟩
  · exact iff_of_true (reads_ok _) fun h' => absurd h' h

theorem not_escapes_axisFromJsonb (v : Json) : ¬ Escapes (axisFromJsonb v) := by
  unfold axisFromJsonb
  split_ifs
  · exact not_escapes_bind (not_escapes_item _ v) fun _ =>
      not_escapes_bind (not_escapes_item _ v) fun _ =>
        not_escapes_bind (not_escapes_item _ v) fun _ =>
          not_escapes_bind (not_escapes_item _ v) fun _ => not_escapes_ok _
  · exact not_escapes_ok _

theorem reads_readEntries (v : Json) :
    Reads (readEntries read v) ↔ v.EmptyOr (ObjOf fun w => Reads (read w)) := by
  unfold readEntries EmptyOr
  split_ifs with h
  · rw [reads_bind, forall_prop_of_true h]
    have hentry : ∀ e : String × Json,
        Reads (read e.2 >>= fun a => (pure (e.1, a) : Except ReadError (String × α))) ↔
          Reads (read e.2) := fun e => by
      rw [reads_bind_iff (P := True) fun _ => iff_of_true (reads_pure _) trivial, and_true]
    constructor
    · rintro ⟨entries, hitems, hentries⟩
      cases v
      case obj entries' =>
        obtain rfl := Except.ok.inj hitems
        exact ⟨entries', rfl, fun e he => (hentry e).1 (reads_mapM.1 hentries e he)⟩
      all_goals cases hitems
    · rintro ⟨entries, rfl, hentries⟩
      exact ⟨entries, rfl, reads_mapM.2 fun e he => (hentry e).2 (hentries e he)⟩
  · exact iff_of_true (reads_ok _) fun h' => absurd h' h

/-- A table that is no object is asked for its items all the same. -/
theorem escapes_readEntries (hread : ∀ w, ¬ Escapes (read w)) (v : Json) :
    Escapes (readEntries read v) ↔ ¬ v.EmptyOr IsObj := by
  unfold readEntries EmptyOr
  split_ifs with h
  · rw [escapes_bind, escapes_items, forall_prop_of_true h]
    apply or_iff_left
    rintro ⟨entries, -, hentries⟩
    apply not_escapes_mapM _ hentries
    intro e _
    exact not_escapes_bind (hread e.2) fun _ => not_escapes_ok _
  · exact iff_of_false (not_escapes_ok _) fun h' => h' fun h'' => absurd h'' h

/-- The dimensions of a variable: something to iterate over, each of whose members is. -/
def IsDims (v : Json) : Prop :=
  (∃ xs, v = arr xs ∧ ∀ x ∈ xs, x.Iterable) ∨ (∃ s, v = str s) ∨ ∃ entries, v = obj entries

/-- Two coordinates: something with a first and a second member. -/
def IsPair (v : Json) : Prop :=
  (∃ xs, v = arr xs ∧ 2 ≤ xs.length) ∨ ∃ s, v = str s ∧ 2 ≤ s.toList.length

theorem reads_dims (v : Json) :
    Reads (v.iter >>= fun pairs => pairs.mapM Json.iter) ↔ IsDims v := by
  rw [reads_bind]
  simp only [reads_mapM, reads_iter]
  unfold IsDims
  cases v
  -- The keys of an object and the characters of a text are texts again.
  case str s =>
    apply iff_of_true _ (Or.inr (Or.inl ⟨s, rfl⟩))
    exact ⟨_, rfl, List.forall_mem_map.2 fun c _ => Or.inr (Or.inl ⟨_, rfl⟩)⟩
  case obj entries =>
    apply iff_of_true _ (Or.inr (Or.inr ⟨entries, rfl⟩))
    exact ⟨_, rfl, List.forall_mem_map.2 fun e _ => Or.inr (Or.inl ⟨_, rfl⟩)⟩
  all_goals simp [iter]

theorem reads_varDimsFromJsonb (v : Json) :
    Reads (varDimsFromJsonb v) ↔ v.EmptyOr (ObjOf IsDims) := by
  unfold varDimsFromJsonb
  rw [reads_readEntries]
  simp only [reads_dims]

theorem escapes_varDimsFromJsonb (v : Json) :
    Escapes (varDimsFromJsonb v) ↔ ¬ v.EmptyOr IsObj := by
  apply escapes_readEntries
  intro w
  exact not_escapes_bind (not_escapes_iter w) fun pairs =>
    not_escapes_mapM fun pair _ => not_escapes_iter pair

theorem reads_pair (v : Json) :
    Reads (v.nth 0 >>= fun lat => v.nth 1 >>= fun lon => (pure (lat, lon) : Except _ _)) ↔
      IsPair v := by
  rw [reads_bind_iff fun _ => reads_bind_iff (P := True) fun _ => iff_of_true (reads_pure _) trivial,
    reads_nth, reads_nth]
  unfold IsPair
  constructor
  · rintro ⟨-, ⟨xs, rfl, hlen⟩ | ⟨s, rfl, hlen⟩, -⟩
    · exact Or.inl ⟨xs, rfl, hlen⟩
    · exact Or.inr ⟨s, rfl, hlen⟩
  · rintro (⟨xs, rfl, hlen⟩ | ⟨s, rfl, hlen⟩)
    · exact ⟨Or.inl ⟨xs, rfl, by omega⟩, Or.inl ⟨xs, rfl, hlen⟩, trivial⟩
    · exact ⟨Or.inr ⟨s, rfl, by omega⟩, Or.inr ⟨s, rfl, hlen⟩, trivial⟩

theorem reads_varCoordsFromJsonb (v : Json) :
    Reads (varCoordsFromJsonb v) ↔ v.EmptyOr (ObjOf IsPair) := by
  unfold varCoordsFromJsonb
  rw [reads_readEntries]
  simp only [reads_pair]

theorem escapes_varCoordsFromJsonb (v : Json) :
    Escapes (varCoordsFromJsonb v) ↔ ¬ v.EmptyOr IsObj := by
  apply escapes_readEntries
  intro w
  exact not_escapes_bind (not_escapes_nth 0 w) fun _ =>
    not_escapes_bind (not_escapes_nth 1 w) fun _ => not_escapes_ok _

theorem reads_expansionsFromJsonb (v : Json) :
    Reads (expansionsFromJsonb v) ↔ v.EmptyOr (ObjOf Iterable) := by
  unfold expansionsFromJsonb
  rw [reads_readEntries]
  simp only [reads_iter]

theorem escapes_expansionsFromJsonb (v : Json) :
    Escapes (expansionsFromJsonb v) ↔ ¬ v.EmptyOr IsObj :=
  escapes_readEntries not_escapes_iter v

end readers

/-! ### The whole dictionary -/

/-- The box, the variables, the links and the two axes are read. -/
structure HeadReadable (data : List (String × Json)) : Prop where
  bbox : (get data "aoi_bbox").EmptyOr Iterable
  variableNames : (get data "variables").EmptyOr Iterable
  opendapUrls : (urlsOf data).EmptyOr Iterable
  latAxis : (get data "lat_axis").EmptyOr (HasKeys axisKeys)
  lonAxis : (get data "lon_axis").EmptyOr (HasKeys axisKeys)

/-- The three tables are read. -/
structure TablesReadable (data : List (String × Json)) : Prop where
  varDims : (get data "var_dims").EmptyOr (ObjOf IsDims)
  varCoords : (get data "var_coords").EmptyOr (ObjOf IsPair)
  variableExpansions : (get data "variable_expansions").EmptyOr (ObjOf Iterable)

/-- A table is asked for its items when everything before it has been read; then it is an object
or counts as empty. -/
def TablesAnswer (data : List (String × Json)) : Prop :=
  (get data "var_dims").EmptyOr IsObj ∧
    ((get data "var_dims").EmptyOr (ObjOf IsDims) →
      (get data "var_coords").EmptyOr IsObj ∧
        ((get data "var_coords").EmptyOr (ObjOf IsPair) →
          (get data "variable_expansions").EmptyOr IsObj))

theorem reads_readSpec (data : List (String × Json)) :
    Reads (readSpec data) ↔ HeadReadable data ∧ TablesReadable data := by
  unfold readSpec
  rw [reads_bind_iff fun _ => reads_bind_iff fun _ => reads_bind_iff fun _ =>
    reads_bind_iff fun _ => reads_bind_iff fun _ => reads_bind_iff fun _ => reads_bind_iff fun _ =>
      reads_bind_iff (P := True) fun _ => iff_of_true (reads_pure _) trivial]
  rw [reads_bboxFromJsonb, reads_iterOrNil, reads_iterOrNil, reads_axisFromJsonb,
    reads_axisFromJsonb, reads_varDimsFromJsonb, reads_varCoordsFromJsonb,
    reads_expansionsFromJsonb]
  constructor
  · rintro ⟨hbbox, hnames, hurls, hlat, hlon, hdims, hcoords, hexpansions, -⟩
    exact ⟨⟨hbbox, hnames, hurls, hlat, hlon⟩, ⟨hdims, hcoords, hexpansions⟩⟩
  · rintro ⟨⟨hbbox, hnames, hurls, hlat, hlon⟩, ⟨hdims, hcoords, hexpansions⟩⟩
    exact ⟨hbbox, hnames, hurls, hlat, hlon, hdims, hcoords, hexpansions, trivial⟩

/-- Reading raises something other than `InvalidSpecError` when a table does not answer. -/
theorem escapes_readSpec (data : List (String × Json)) :
    Escapes (readSpec data) ↔ HeadReadable data ∧ ¬ TablesAnswer data := by
  unfold readSpec
  rw [escapes_bind_iff fun _ => escapes_bind_iff fun _ => escapes_bind_iff fun _ =>
    escapes_bind_iff fun _ => escapes_bind_iff fun _ => escapes_bind_iff fun _ =>
      escapes_bind_iff fun _ => escapes_bind_iff (P := False) fun _ =>
        iff_of_false (not_escapes_pure _) id]
  rw [reads_bboxFromJsonb, reads_iterOrNil, reads_iterOrNil, reads_axisFromJsonb,
    reads_axisFromJsonb, reads_varDimsFromJsonb, reads_varCoordsFromJsonb,
    escapes_varDimsFromJsonb, escapes_varCoordsFromJsonb, escapes_expansionsFromJsonb]
  simp only [not_escapes_bboxFromJsonb, not_escapes_iterOrNil, not_escapes_axisFromJsonb,
    false_or, and_false, or_false]
  unfold TablesAnswer
  constructor
  · rintro ⟨hbbox, hnames, hurls, hlat, hlon, htables⟩
    exact ⟨⟨hbbox, hnames, hurls, hlat, hlon⟩, by tauto⟩
  · rintro ⟨⟨hbbox, hnames, hurls, hlat, hlon⟩, htables⟩
    exact ⟨hbbox, hnames, hurls, hlat, hlon, by tauto⟩

/-- The window of what was read is as it was stored. -/
theorem readSpec_timeRange {spec : LoadedSpec} (h : readSpec data = .ok spec) :
    spec.timeRange = get data "time_range" := by
  suffices hall : ∀ spec, readSpec data = .ok spec → spec.timeRange = get data "time_range" from
    hall spec h
  unfold readSpec
  refine yields_bind fun _ => yields_bind fun _ => yields_bind fun _ => yields_bind fun _ =>
    yields_bind fun _ => yields_bind fun _ => yields_bind fun _ => yields_bind fun _ => ?_
  intro spec hspec
  obtain rfl := Except.ok.inj hspec
  rfl

/-! ### The window -/

/-- A start, a slash and an end, both of which are instants. -/
def IsWindow (fromisoformat : String → Option DateTime) (v : Json) : Prop :=
  ∃ start stop : List Char, v = .str (String.ofList (start ++ '/' :: stop)) ∧ '/' ∉ start ∧
    stop ≠ [] ∧ (parseIso fromisoformat start).isSome ∧ (parseIso fromisoformat stop).isSome

theorem fromCmr_isSome (value : String) :
    (TimeRange.fromCmr fromisoformat value).isSome ↔ IsWindow fromisoformat (.str value) := by
  rw [Option.isSome_iff_exists]
  unfold IsWindow
  constructor
  · rintro ⟨range, h⟩
    obtain ⟨start, stop, rfl, hstart, hstop, hbetween⟩ := TimeRange.cut_of_fromCmr h
    obtain ⟨hd, hd'⟩ := TimeRange.between_eq_some.1 hbetween
    exact ⟨start, stop, rfl, hstart, hstop, by rw [hd]; rfl, by rw [hd']; rfl⟩
  · rintro ⟨start, stop, hvalue, hstart, hstop, hd, hd'⟩
    obtain rfl := str.inj hvalue
    obtain ⟨d, hd⟩ := Option.isSome_iff_exists.1 hd
    obtain ⟨d', hd'⟩ := Option.isSome_iff_exists.1 hd'
    refine ⟨⟨d, d'⟩, ?_⟩
    rw [TimeRange.fromCmr_cut hstart hstop]
    exact TimeRange.between_eq_some.2 ⟨hd, hd'⟩

/-- Rebuilding the window raises for what counts and is none. -/
theorem reads_windowOf (v : Json) :
    Reads (windowOf fromisoformat v) ↔ v.EmptyOr (IsWindow fromisoformat) := by
  unfold windowOf EmptyOr
  split_ifs with h
  · rw [forall_prop_of_true h]
    cases v
    case str value =>
      rw [← fromCmr_isSome]
      dsimp only
      cases TimeRange.fromCmr fromisoformat value <;> simp
    all_goals
      apply iff_of_false (not_reads_error _)
      rintro ⟨start, stop, hvalue, -⟩
      cases hvalue
  · exact iff_of_true (reads_ok _) fun h' => absurd h' h

theorem reads_toPlan (spec : LoadedSpec) :
    Reads (spec.toPlan fromisoformat) ↔ spec.timeRange.EmptyOr (IsWindow fromisoformat) := by
  unfold LoadedSpec.toPlan
  rw [reads_bind_iff (P := True) fun _ => iff_of_true (reads_pure _) trivial, reads_windowOf,
    and_true]

/-! ### Loading -/

/-- The dictionary is refused with `InvalidSpecError`, or it is loaded and the plan rebuilt. -/
def Handled (fromisoformat : String → Option DateTime) (data : List (String × Json)) : Prop :=
  (∃ cause, specFromJsonb data = .error (.invalidSpec cause)) ∨
    ∃ spec plan, specFromJsonb data = .ok spec ∧ spec.toPlan fromisoformat = .ok plan

/-- Wherever everything before has been read, the tables are objects or count as empty, and the
window is one or counts as empty. -/
def Loadable (fromisoformat : String → Option DateTime) (data : List (String × Json)) : Prop :=
  HeadReadable data → TablesAnswer data ∧
    (TablesReadable data → (get data "time_range").EmptyOr (IsWindow fromisoformat))

/-- The loader raises something other than `InvalidSpecError`. -/
theorem specFromJsonb_raised :
    (∃ e, specFromJsonb data = .error (.raised e)) ↔ Escapes (readSpec data) := by
  unfold specFromJsonb Escapes
  cases readSpec data with
  | ok spec => simp
  | error e => cases hcaught : e.caught <;> simp [hcaught]

theorem specFromJsonb_ok {spec : LoadedSpec} :
    specFromJsonb data = .ok spec ↔ readSpec data = .ok spec := by
  unfold specFromJsonb
  cases readSpec data <;> simp

theorem handled_iff_loadable : Handled fromisoformat data ↔ Loadable fromisoformat data := by
  have hescapes := escapes_readSpec data
  rw [← specFromJsonb_raised] at hescapes
  have hreads := reads_readSpec data
  unfold Handled Loadable
  cases hload : specFromJsonb data with
  | error e =>
    have hnot : ¬ (HeadReadable data ∧ TablesReadable data) := by
      rw [← hreads]
      rintro ⟨spec, hspec⟩
      rw [specFromJsonb_ok.2 hspec] at hload
      cases hload
    cases e with
    | invalidSpec cause =>
      have hanswer : ¬ (HeadReadable data ∧ ¬ TablesAnswer data) := by
        rw [← hescapes, hload]
        rintro ⟨e, he⟩
        cases he
      apply iff_of_true (Or.inl ⟨cause, rfl⟩)
      intro hhead
      exact ⟨by tauto, fun htables => absurd ⟨hhead, htables⟩ hnot⟩
    | raised e =>
      obtain ⟨hhead, htables⟩ := hescapes.1 ⟨e, hload⟩
      apply iff_of_false
      · rintro (⟨cause, hcause⟩ | ⟨spec, plan, hspec, -⟩)
        · cases hcause
        · cases hspec
      · exact fun h => htables (h hhead).1
  | ok spec =>
    obtain ⟨hhead, htables⟩ := hreads.1 ⟨spec, specFromJsonb_ok.1 hload⟩
    have hanswer : TablesAnswer data := by
      by_contra hnot
      obtain ⟨e, he⟩ := hescapes.2 ⟨hhead, hnot⟩
      rw [hload] at he
      cases he
    rw [← readSpec_timeRange (specFromJsonb_ok.1 hload), ← reads_toPlan]
    constructor
    · rintro (⟨cause, hcause⟩ | ⟨spec', plan, hspec, hplan⟩)
      · cases hcause
      · obtain rfl := Except.ok.inj hspec
        exact fun _ => ⟨hanswer, fun _ => ⟨plan, hplan⟩⟩
    · intro h
      obtain ⟨plan, hplan⟩ := (h hhead).2 htables
      exact Or.inr ⟨spec, plan, rfl, hplan⟩

end EarthdataMcp
