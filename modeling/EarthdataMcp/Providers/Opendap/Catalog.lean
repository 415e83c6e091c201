import EarthdataMcp.Providers.Opendap.Axis
import EarthdataMcp.Text.Paths

/-!
# The catalog of a collection

The UMM-V records of a collection, the coordinates they name, and the two matchers of requested
variables: the one that resolves a name and the one that validates it.

* `resolveFromCmr`, with `discoverCoordinates` and `resolveName`;
* `validateVariables`;
* `agrees_iff`: on which names the two agree.
-/

namespace EarthdataMcp

open Text

/-- A dimension of a UMM-V record. -/
structure UmmDimension where
  name : VarName
  size : Option ℚ := none
  deriving DecidableEq

/-- A UMM-V record; its schema has every record named. -/
structure UmmVariable where
  name : VarName
  standardName : VarName := []
  dimensions : List UmmDimension := []
  named : name ≠ [] := by decide
  deriving DecidableEq

/-- What planning raises: `ValueError`s that name the variable at fault. -/
inductive PlanningError
  /-- The name appears at multiple paths. -/
  | ambiguous (name : VarName) (paths : List VarName)
  /-- Unknown variables for this collection. -/
  | unknown (names : List VarName)
  /-- Not found in this granule's structure. -/
  | notInGranule (name : VarName)
  deriving DecidableEq, Repr

/-- The coordinate variables that are confirmed. -/
structure Coordinates where
  lat : Option VarName := none
  lon : Option VarName := none
  time : Option VarName := none
  deriving DecidableEq

section catalog

variable (fold : Lowering)

/-- The record names a coordinate, by its standard name or by its leaf. -/
def Coordinates.note (c : Coordinates) (var : UmmVariable) : Coordinates :=
  let std := fold.lower var.standardName
  let leaf := fold.leaf var.name
  if std = "latitude".toList ∨ leaf ∈ ["lat".toList, "latitude".toList] then
    { c with lat := some var.name }
  else if std = "longitude".toList ∨ leaf ∈ ["lon".toList, "longitude".toList] then
    { c with lon := some var.name }
  else if std = "time".toList ∨ leaf = "time".toList then { c with time := some var.name }
  else c

/-- The coordinates of a catalog; of several the last record counts. -/
def discoverCoordinates (cmrVars : List UmmVariable) : Coordinates :=
  cmrVars.foldl (Coordinates.note fold) {}

/-- An absolute path is used as it is, and any other name is matched against the leaves. -/
def resolveName (cmrVars : List UmmVariable) (userVar : VarName) :
    Except PlanningError VarName :=
  if userVar.head? = some '/' then .ok userVar
  else
    match (cmrVars.filter fun v => fold.leaf v.name = fold.lower userVar).map UmmVariable.name with
    | [] => .ok userVar
    | [name] => .ok name
    | paths => .error (.ambiguous userVar paths)

/-- `_resolve_from_cmr`. -/
def resolveFromCmr (cmrVars : List UmmVariable) (variableNames : List VarName) :
    Except PlanningError (Coordinates × List VarName) := do
  let resolved ← variableNames.mapM (resolveName fold cmrVars)
  pure (discoverCoordinates fold cmrVars, resolved)

/-- The requested names that no record has, in full or as its leaf. -/
def unknownVariables (cmrVars : List UmmVariable) (variableNames : List VarName) : List VarName :=
  let fullNames := (cmrVars.map UmmVariable.name).filter (· ≠ [])
  if variableNames = [] ∨ fullNames = [] then []
  else
    let fullLower := fullNames.map fold.lower
    let leavesLower := fullNames.map fold.leaf
    variableNames.filter fun v =>
      fold.lower v ∉ fullLower ∧ fold.lower (stripSlashes v) ∉ leavesLower

/-- `validate_variables`. -/
def validateVariables (cmrVars : List UmmVariable) (variableNames : List VarName) :
    Except PlanningError Unit :=
  match unknownVariables fold cmrVars variableNames with
  | [] => .ok ()
  | names => .error (.unknown names)

/-! ### Whether the two agree -/

/-- The name is that of a record, up to a leading slash. -/
def Registered (cmrVars : List UmmVariable) (name : VarName) : Prop :=
  ∃ r ∈ cmrVars, fqn r.name = fqn name

/-- A name passes validation just if it is resolved to one that is registered. -/
def Agrees (cmrVars : List UmmVariable) (variableNames : List VarName) : Prop :=
  ∀ v ∈ variableNames, v ∉ unknownVariables fold cmrVars variableNames ↔
    ∃ path, resolveName fold cmrVars v = .ok path ∧ Registered cmrVars path

/-- The name has no group; or it is spelled as a record spells it; or it lacks or adds the leading
slash of a record's name and what follows has no group; or no record resembles it. -/
def SpelledOut (cmrVars : List UmmVariable) (v : VarName) : Prop :=
  '/' ∉ v ∨ (∃ r ∈ cmrVars, r.name = v) ∨ (Registered cmrVars v ∧ '/' ∉ stripSlashes v) ∨
    ∀ r ∈ cmrVars, fqn r.name ≠ fqn v ∧ fold.lower r.name ≠ fold.lower v ∧
      fold.leaf r.name ≠ fold.lower (stripSlashes v)

/-- No two names of the catalog share a leaf. -/
def DistinctLeaves (cmrVars : List UmmVariable) : Prop :=
  (cmrVars.map fun v => fold.leaf v.name).Nodup

end catalog

section agreement

variable {fold : Lowering} {cmrVars : List UmmVariable} {variableNames : List VarName} {v : VarName}

theorem fullNames_eq (cmrVars : List UmmVariable) :
    (cmrVars.map UmmVariable.name).filter (· ≠ []) = cmrVars.map UmmVariable.name := by
  apply List.filter_eq_self.2
  intro name hname
  obtain ⟨r, -, rfl⟩ := List.mem_map.1 hname
  exact decide_eq_true r.named

/-- What a name that passes validation is like. -/
theorem notMem_unknownVariables (hcatalog : cmrVars ≠ []) (hv : v ∈ variableNames) :
    v ∉ unknownVariables fold cmrVars variableNames ↔
      (∃ r ∈ cmrVars, fold.lower r.name = fold.lower v) ∨
        ∃ r ∈ cmrVars, fold.leaf r.name = fold.lower (stripSlashes v) := by
  have hvariables : variableNames ≠ [] := List.ne_nil_of_mem hv
  have hnames : cmrVars.map UmmVariable.name ≠ [] := by simpa using hcatalog
  unfold unknownVariables
  rw [fullNames_eq]
  simp only [hvariables, hnames, or_self, if_false, List.mem_filter, hv, true_and,
    decide_eq_true_eq, List.map_map, List.mem_map, Function.comp_apply]
  rw [not_and_or, not_not, not_not]

theorem DistinctLeaves.eq (h : DistinctLeaves fold cmrVars) {r r' : UmmVariable}
    (hr : r ∈ cmrVars) (hr' : r' ∈ cmrVars) (hleaf : fold.leaf r.name = fold.leaf r'.name) :
    r = r' :=
  List.inj_on_of_nodup_map h hr hr' hleaf

/-- Where no two names share a leaf, at most one record matches. -/
theorem DistinctLeaves.filter_eq (h : DistinctLeaves fold cmrVars) {r : UmmVariable}
    (hr : r ∈ cmrVars) (hleaf : fold.leaf r.name = fold.lower v) :
    (cmrVars.filter fun v' => fold.leaf v'.name = fold.lower v) = [r] := by
  apply List.perm_singleton.1
  refine (List.perm_ext_iff_of_nodup (h.of_map.filter _) (List.nodup_singleton r)).2 fun r' => ?_
  rw [List.mem_filter, List.mem_singleton, decide_eq_true_iff]
  constructor
  · rintro ⟨hr', hleaf'⟩
    exact h.eq hr' hr (hleaf'.trans hleaf.symm)
  · rintro rfl
    exact ⟨hr, hleaf⟩

/-- A name in a group is never matched, whether it is absolute or not. -/
theorem resolveName_of_mem (hv : '/' ∈ v) : resolveName fold cmrVars v = .ok v := by
  have hnone : (cmrVars.filter fun v' => fold.leaf v'.name = fold.lower v) = [] := by
    apply List.filter_eq_nil_iff.2
    intro r _ hleaf
    have heq : fold.leaf r.name = fold.lower v := of_decide_eq_true hleaf
    exact fold.notMem_leaf r.name (heq ▸ (fold.slash v).2 hv)
  unfold resolveName
  rw [hnone]
  split_ifs <;> rfl

theorem resolveName_of_notMem (hv : '/' ∉ v) : resolveName fold cmrVars v =
    match (cmrVars.filter fun r => fold.leaf r.name = fold.lower v).map UmmVariable.name with
    | [] => .ok v
    | [name] => .ok name
    | paths => .error (.ambiguous v paths) :=
  if_neg fun hhead => hv (List.mem_of_head? hhead)

/-- On a name without a group the two agree. -/
theorem agrees_of_notMem (h : DistinctLeaves fold cmrVars) (hv : '/' ∉ v) :
    ((∃ r ∈ cmrVars, fold.lower r.name = fold.lower v) ∨
        ∃ r ∈ cmrVars, fold.leaf r.name = fold.lower (stripSlashes v)) ↔
      ∃ path, resolveName fold cmrVars v = .ok path ∧ Registered cmrVars path := by
  rw [stripSlashes_of_notMem hv, resolveName_of_notMem hv]
  by_cases hmatch : ∃ r ∈ cmrVars, fold.leaf r.name = fold.lower v
  · obtain ⟨r, hr, hleaf⟩ := hmatch
    rw [h.filter_eq hr hleaf]
    exact iff_of_true (Or.inr ⟨r, hr, hleaf⟩) ⟨r.name, rfl, r, hr, rfl⟩
  · have hnone : (cmrVars.filter fun r => fold.leaf r.name = fold.lower v) = [] := by
      apply List.filter_eq_nil_iff.2
      intro r hr hleaf
      exact hmatch ⟨r, hr, of_decide_eq_true hleaf⟩
    rw [hnone]
    apply iff_of_false
    · rintro (⟨r, hr, hlower⟩ | hleaf)
      · -- the record has no group either
        refine hmatch ⟨r, hr, ?_⟩
        rw [fold.leaf_eq_of_lower hlower, fold.leaf_of_notMem hv]
      · exact hmatch hleaf
    · rintro ⟨path, hpath, r, hr, hfqn⟩
      obtain rfl := Except.ok.inj hpath
      refine hmatch ⟨r, hr, ?_⟩
      rw [fold.leaf_eq_of_fqn hfqn, fold.leaf_of_notMem hv]

/-- A record that has the name but for the leading slash is what validation finds just if the name
has no group. -/
theorem registered_known_iff (h : DistinctLeaves fold cmrVars) {r : UmmVariable}
    (hr : r ∈ cmrVars) (hfqn : fqn r.name = fqn v) (hne : r.name ≠ v) :
    ((∃ r ∈ cmrVars, fold.lower r.name = fold.lower v) ∨
        ∃ r ∈ cmrVars, fold.leaf r.name = fold.lower (stripSlashes v)) ↔
      '/' ∉ stripSlashes v := by
  have hleaf := fold.leaf_eq_of_fqn hfqn
  constructor
  · rintro (⟨r', hr', hlower⟩ | ⟨r', hr', hleaf'⟩)
    · obtain rfl := h.eq hr' hr ((fold.leaf_eq_of_lower hlower).trans hleaf.symm)
      rcases fqn_eq_fqn_iff.1 hfqn with heq | ⟨heq, -⟩ | ⟨heq, -⟩
      · exact absurd heq hne
      · rw [heq] at hlower
        exact absurd hlower (fold.lower_cons_slash_ne v)
      · rw [heq] at hlower
        exact absurd hlower.symm (fold.lower_cons_slash_ne r'.name)
    · intro hslash
      exact fold.notMem_leaf r'.name (hleaf' ▸ (fold.slash _).2 hslash)
  · intro hslash
    refine Or.inr ⟨r, hr, ?_⟩
    rw [hleaf, Lowering.leaf, ← lastSegment_stripSlashes, lastSegment_of_notMem hslash]

/-- On a name in a group. -/
theorem agrees_of_mem (h : DistinctLeaves fold cmrVars) (hv : '/' ∈ v) :
    (((∃ r ∈ cmrVars, fold.lower r.name = fold.lower v) ∨
        ∃ r ∈ cmrVars, fold.leaf r.name = fold.lower (stripSlashes v)) ↔
      ∃ path, resolveName fold cmrVars v = .ok path ∧ Registered cmrVars path) ↔
    SpelledOut fold cmrVars v := by
  have hresolved : (∃ path, resolveName fold cmrVars v = .ok path ∧ Registered cmrVars path) ↔
      Registered cmrVars v := by
    rw [resolveName_of_mem hv]
    simp
  rw [hresolved]
  unfold SpelledOut
  by_cases hverbatim : ∃ r ∈ cmrVars, r.name = v
  · obtain ⟨r, hr, rfl⟩ := hverbatim
    exact iff_of_true (iff_of_true (Or.inl ⟨r, hr, rfl⟩) ⟨r, hr, rfl⟩)
      (Or.inr (Or.inl ⟨r, hr, rfl⟩))
  by_cases hregistered : Registered cmrVars v
  · obtain ⟨r, hr, hfqn⟩ := hregistered
    have hregistered : Registered cmrVars v := ⟨r, hr, hfqn⟩
    have hne : r.name ≠ v := fun heq => hverbatim ⟨r, hr, heq⟩
    rw [registered_known_iff h hr hfqn hne]
    simp only [hv, not_true_eq_false, false_or, hverbatim, hregistered, true_and, iff_true]
    constructor
    · exact Or.inl
    · rintro (hslash | hnone)
      · exact hslash
      · exact absurd hfqn (hnone r hr).1
  · simp only [hv, not_true_eq_false, false_or, hverbatim, hregistered, false_and, iff_false]
    have hnot (r : UmmVariable) (hr : r ∈ cmrVars) : fqn r.name ≠ fqn v :=
      fun hfqn => hregistered ⟨r, hr, hfqn⟩
    constructor
    · intro hnone r hr
      exact ⟨hnot r hr, fun hlower => hnone (Or.inl ⟨r, hr, hlower⟩),
        fun hleaf => hnone (Or.inr ⟨r, hr, hleaf⟩)⟩
    · rintro hnone (⟨r, hr, hlower⟩ | ⟨r, hr, hleaf⟩)
      · exact (hnone r hr).2.1 hlower
      · exact (hnone r hr).2.2 hleaf

/-- Validation and resolution agree on a list of names just if each of them is spelled out. -/
theorem agrees_iff (fold : Lowering) (cmrVars : List UmmVariable) (variableNames : List VarName)
    (hcatalog : cmrVars ≠ []) (hleaves : DistinctLeaves fold cmrVars) :
    Agrees fold cmrVars variableNames ↔ ∀ v ∈ variableNames, SpelledOut fold cmrVars v := by
  refine forall₂_congr fun v hv => ?_
  rw [notMem_unknownVariables hcatalog hv]
  by_cases hslash : '/' ∈ v
  · exact agrees_of_mem hleaves hslash
  · exact iff_of_true (agrees_of_notMem hleaves hslash) (Or.inl hslash)

/-- A variable in a group. -/
def UmmVariable.grouped : UmmVariable := { name := "product/NO2".toList }

/-- A name without its group and one with it. -/
theorem agrees_iff_spelled :
    Agrees .ascii [.grouped] ["no2".toList, "product/NO2".toList] ↔
      ∀ v ∈ ["no2".toList, "product/NO2".toList], SpelledOut .ascii [.grouped] v :=
  agrees_iff .ascii [.grouped] _ (by decide) (List.nodup_singleton _)

/-- The leaf alone, with a leading slash, is accepted and not resolved. -/
theorem not_agrees : ¬ ∀ (fold : Lowering) (cmrVars : List UmmVariable)
    (variableNames : List VarName), cmrVars ≠ [] → DistinctLeaves fold cmrVars →
      Agrees fold cmrVars variableNames := by
  intro h
  have hagrees := h .ascii [.grouped] ["/NO2".toList] (by decide) (List.nodup_singleton _)
    "/NO2".toList List.mem_cons_self
  obtain ⟨path, hpath, r, hr, hfqn⟩ := hagrees.1 (by decide)
  obtain rfl := List.mem_singleton.1 hr
  rw [resolveName_of_mem (by decide)] at hpath
  obtain rfl := Except.ok.inj hpath
  exact absurd hfqn (by decide)

end agreement

end EarthdataMcp
