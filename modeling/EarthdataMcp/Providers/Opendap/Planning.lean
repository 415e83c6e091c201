import EarthdataMcp.Lists.Collect
import EarthdataMcp.Providers.Opendap.Geometry
import EarthdataMcp.Providers.Opendap.Dmr

/-!
# Planning a subset

What planning makes of the requested names of variables: it matches them against the catalog of
the collection, and then against the structure of a granule.

* `resolveNames`, the resolution of names, and `planSubset`;
* `SettledName`: the names that a resolution leaves as they are;
* `resolveNames_idempotent`: a resolved list of names is resolved to itself.
-/

namespace EarthdataMcp

open Text

/-- The outcome of a resolution of names. -/
structure Resolution where
  coords : Coordinates
  variableNames : List VarName
  varCoords : List (VarName × VarName × VarName) := []
  variableExpansions : List (VarName × List VarName) := []
  deriving DecidableEq

/-- The geolocation of each variable that has one next to it. -/
def groupCoords (fold : Lowering) (tree : DmrTree) (variableNames : List VarName) :
    List (VarName × VarName × VarName) :=
  variableNames.dedup.filterMap fun v => (groupGeolocation fold tree v).map (v, ·)

/-- The resolution of names in `plan_subset`: by the catalog, and by the structure of a granule if
there is no catalog.  If there is one, and some name has a group, the names are reconciled with the
granule. -/
def resolveNames (fold : Lowering) (cmrVars : List UmmVariable) (dmr : Option DmrTree)
    (variableNames : List VarName) : Except PlanningError Resolution := do
  let (coords, resolved) ← resolveFromCmr fold cmrVars variableNames
  match dmr with
  | none => pure ⟨coords, resolved, [], []⟩
  | some tree =>
      if cmrVars = [] then do
        let (resolved, expansions) ← resolveVariables fold tree resolved
        pure ⟨coords, resolved, groupCoords fold tree resolved, expansions⟩
      else if ∃ v ∈ resolved, '/' ∈ v then
        pure ⟨coords, resolved.map (tree.reconcile fold), [], []⟩
      else pure ⟨coords, resolved, [], []⟩

/-- The outputs of planning. -/
structure OpendapPlan where
  opendapUrls : List String
  coords : Coordinates
  geometry : GridGeometry := {}
  variableNames : List VarName
  cmrVars : List UmmVariable := []
  varCoords : List (VarName × VarName × VarName) := []
  variableExpansions : List (VarName × List VarName) := []
  deriving DecidableEq

/-- `plan_subset`, with the links of the granules, the catalog and the structure of the first
granule as they were fetched; nothing is looked up if no granule has a link. -/
def planSubset (fold : Lowering) (opendapUrls : List String) (cmrVars : List UmmVariable)
    (dmr : Option DmrTree) (grid : Bool) (extent : Option Extent) (variableNames : List VarName) :
    Except PlanningError OpendapPlan :=
  if opendapUrls = [] then
    .ok
      { opendapUrls := []
        coords := { lat := some "lat".toList, lon := some "lon".toList }
        variableNames := variableNames }
  else do
    let r ← resolveNames fold cmrVars dmr variableNames
    let geometry :=
      if grid then
        discoverGridGeometry fold cmrVars extent r.variableNames r.coords.lat r.coords.lon
      else {}
    pure ⟨opendapUrls, r.coords, geometry, r.variableNames, cmrVars, r.varCoords,
      r.variableExpansions⟩

/-! ### Names that are settled -/

section settled

variable {fold : Lowering} {cmrVars : List UmmVariable} {dmr : Option DmrTree}
  {variableNames : List VarName} {r : Resolution}

/-- The catalog leaves the name as it is. -/
def SettledName (fold : Lowering) (cmrVars : List UmmVariable) (v : VarName) : Prop :=
  resolveName fold cmrVars v = .ok v

theorem settled_of_mem {v : VarName} (hv : '/' ∈ v) : SettledName fold cmrVars v :=
  resolveName_of_mem hv

/-- What a name is resolved to is settled. -/
theorem settled_of_resolveName {v path : VarName} (h : resolveName fold cmrVars v = .ok path) :
    SettledName fold cmrVars path := by
  by_cases hpath : '/' ∈ path
  · exact settled_of_mem hpath
  · by_cases hv : '/' ∈ v
    · rw [resolveName_of_mem hv] at h
      exact absurd (Except.ok.inj h ▸ hv) hpath
    · unfold SettledName
      have hresolved := h
      rw [resolveName_of_notMem hv] at h
      split at h
      · obtain rfl := Except.ok.inj h
        exact hresolved
      · -- the only record with this leaf has no group, so the same records match its name
        rename_i name hone
        obtain rfl := Except.ok.inj h
        obtain ⟨rec, hrec, hname⟩ := List.map_eq_singleton_iff.1 hone
        have hmem : rec ∈ cmrVars.filter fun r => fold.leaf r.name = fold.lower v := by
          rw [hrec]
          exact List.mem_cons_self
        have hleaf : fold.leaf rec.name = fold.lower v :=
          of_decide_eq_true (List.mem_filter.1 hmem).2
        rw [hname, fold.leaf_of_notMem hpath] at hleaf
        rw [resolveName_of_notMem hpath, hleaf, hone]
      · cases h

theorem resolveFromCmr_of_settled (h : ∀ v ∈ variableNames, SettledName fold cmrVars v) :
    resolveFromCmr fold cmrVars variableNames =
      .ok (discoverCoordinates fold cmrVars, variableNames) := by
  have hmap : variableNames.mapM (resolveName fold cmrVars) = .ok variableNames := by
    rw [Lists.mapM_of_forall (g := id) h, List.map_id]
  unfold resolveFromCmr
  rw [hmap]
  rfl

theorem settled_of_resolveFromCmr {out : Coordinates × List VarName}
    (h : resolveFromCmr fold cmrVars variableNames = .ok out) :
    out.1 = discoverCoordinates fold cmrVars ∧ ∀ v ∈ out.2, SettledName fold cmrVars v := by
  unfold resolveFromCmr at h
  cases hnames : variableNames.mapM (resolveName fold cmrVars) with
  | error e =>
    rw [hnames] at h
    cases h
  | ok resolved =>
    rw [hnames] at h
    obtain rfl := Except.ok.inj h
    exact ⟨rfl, Lists.forall_of_mapM hnames fun _ _ => settled_of_resolveName⟩

/-- The variables that a tree has at these paths. -/
theorem resolveVariables_of_mem (fold : Lowering) {tree : DmrTree}
    (h : ∀ v ∈ variableNames, v ∈ tree.paths) :
    ∃ expansions, resolveVariables fold tree variableNames = .ok (variableNames, expansions) := by
  have hmap : variableNames.mapM (tree.resolve fold) = .ok (variableNames.map fun v => [v]) :=
    Lists.mapM_of_forall fun v hv => DmrTree.resolve_of_mem (h v hv)
  have hflatten : (variableNames.map fun v => [v]).flatten = variableNames := by
    rw [← List.flatMap_def, List.flatMap_singleton']
  unfold resolveVariables
  rw [hmap]
  exact ⟨_, congrArg (fun names => Except.ok (names, _)) hflatten⟩

theorem mem_of_resolveVariables {tree : DmrTree}
    {out : List VarName × List (VarName × List VarName)}
    (h : resolveVariables fold tree variableNames = .ok out) : ∀ v ∈ out.1, v ∈ tree.paths := by
  unfold resolveVariables at h
  cases hfound : variableNames.mapM (tree.resolve fold) with
  | error e =>
    rw [hfound] at h
    cases h
  | ok found =>
    rw [hfound] at h
    obtain rfl := Except.ok.inj h
    have hall := Lists.forall_of_mapM (P := fun found => ∀ v ∈ found, v ∈ tree.paths) hfound
      fun _ _ hresolve _ hmem => DmrTree.mem_of_resolve hresolve hmem
    intro v hv
    obtain ⟨found', hfound', hv⟩ := List.mem_flatten.1 hv
    exact hall found' hfound' v hv

/-- The coordinates are those of the catalog, and the variables have some of their own only if there
is none. -/
theorem resolveNames_coords (h : resolveNames fold cmrVars dmr variableNames = .ok r) :
    r.coords = discoverCoordinates fold cmrVars ∧ (cmrVars ≠ [] → r.varCoords = []) := by
  unfold resolveNames at h
  cases hcmr : resolveFromCmr fold cmrVars variableNames with
  | error e =>
    rw [hcmr] at h
    cases h
  | ok out =>
    have hcoords := (settled_of_resolveFromCmr hcmr).1
    rw [hcmr] at h
    cases dmr with
    | none =>
      obtain rfl := Except.ok.inj h
      exact ⟨hcoords, fun _ => rfl⟩
    | some tree =>
      simp only [bind, Except.bind] at h
      split_ifs at h with hcatalog
      · cases hfound : resolveVariables fold tree out.2 with
        | error e =>
          rw [hfound] at h
          cases h
        | ok found =>
          rw [hfound] at h
          obtain rfl := Except.ok.inj h
          exact ⟨hcoords, fun hne => absurd hcatalog hne⟩
      · obtain rfl := Except.ok.inj h
        exact ⟨hcoords, fun _ => rfl⟩
      · obtain rfl := Except.ok.inj h
        exact ⟨hcoords, fun _ => rfl⟩

/-- A name that is settled and the path it is reconciled with are settled. -/
theorem settled_reconcile (tree : DmrTree) {v : VarName} (hv : SettledName fold cmrVars v) :
    SettledName fold cmrVars (tree.reconcile fold v) := by
  rcases DmrTree.reconcile_cases fold tree v with heq | hmem
  · rw [heq]
    exact hv
  · exact settled_of_mem (List.mem_of_head? (DmrTree.head?_of_mem hmem))

theorem mem_reconcile (tree : DmrTree) {v : VarName} (hv : '/' ∈ v) :
    '/' ∈ tree.reconcile fold v := by
  rcases DmrTree.reconcile_cases fold tree v with heq | hmem
  · rw [heq]
    exact hv
  · exact List.mem_of_head? (DmrTree.head?_of_mem hmem)

/-- What resolution leaves as it is, it leaves with the same coordinates. -/
theorem resolveNames_fixed (h : resolveNames fold cmrVars dmr variableNames = .ok r) :
    ∃ expansions, resolveNames fold cmrVars dmr r.variableNames =
      .ok { r with variableExpansions := expansions } := by
  unfold resolveNames at h
  cases hcmr : resolveFromCmr fold cmrVars variableNames with
  | error e =>
    rw [hcmr] at h
    cases h
  | ok out =>
    obtain ⟨coords, resolved⟩ := out
    obtain ⟨hcoords, hsettled⟩ := settled_of_resolveFromCmr hcmr
    obtain rfl : coords = discoverCoordinates fold cmrVars := hcoords
    rw [hcmr] at h
    cases dmr with
    | none =>
      obtain rfl := Except.ok.inj h
      refine ⟨[], ?_⟩
      unfold resolveNames
      rw [resolveFromCmr_of_settled hsettled]
      rfl
    | some tree =>
      simp only [bind, Except.bind] at h
      split_ifs at h with hcatalog hgroup
      · -- without a catalog the names are those of the granule
        cases hfound : resolveVariables fold tree resolved with
        | error e =>
          rw [hfound] at h
          cases h
        | ok out =>
          rw [hfound] at h
          obtain rfl := Except.ok.inj h
          have hpaths := mem_of_resolveVariables hfound
          have hnames : ∀ v ∈ out.1, SettledName fold cmrVars v := fun v hv =>
            settled_of_mem (List.mem_of_head? (DmrTree.head?_of_mem (hpaths v hv)))
          obtain ⟨expansions, hagain⟩ := resolveVariables_of_mem fold hpaths
          refine ⟨expansions, ?_⟩
          unfold resolveNames
          rw [resolveFromCmr_of_settled hnames]
          simp only [bind, Except.bind]
          rw [if_pos hcatalog, hagain]
          rfl
      · -- a name in a group stays in one, so the names are reconciled again
        obtain rfl := Except.ok.inj h
        have hnames : ∀ v ∈ resolved.map (tree.reconcile fold), SettledName fold cmrVars v := by
          intro v hv
          obtain ⟨u, hu, rfl⟩ := List.mem_map.1 hv
          exact settled_reconcile tree (hsettled u hu)
        have hagain : ∃ v ∈ resolved.map (tree.reconcile fold), '/' ∈ v := by
          obtain ⟨v, hv, hslash⟩ := hgroup
          exact ⟨_, List.mem_map_of_mem hv, mem_reconcile tree hslash⟩
        refine ⟨[], ?_⟩
        unfold resolveNames
        rw [resolveFromCmr_of_settled hnames]
        simp only [bind, Except.bind]
        rw [if_neg hcatalog, if_pos hagain, List.map_map]
        simp only [Function.comp_def, DmrTree.reconcile_reconcile]
        rfl
      · obtain rfl := Except.ok.inj h
        refine ⟨[], ?_⟩
        unfold resolveNames
        rw [resolveFromCmr_of_settled hsettled]
        simp only [bind, Except.bind]
        rw [if_neg hcatalog, if_neg hgroup]
        rfl

end settled

/-- A resolved list of names is resolved to itself, with the same coordinates for each variable. -/
theorem resolveNames_idempotent (fold : Lowering) (cmrVars : List UmmVariable)
    (dmr : Option DmrTree) (variableNames : List VarName) (r : Resolution)
    (h : resolveNames fold cmrVars dmr variableNames = .ok r) :
    ∃ r', resolveNames fold cmrVars dmr r.variableNames = .ok r' ∧
      r'.variableNames = r.variableNames ∧ r'.varCoords = r.varCoords := by
  obtain ⟨expansions, hagain⟩ := resolveNames_fixed h
  exact ⟨_, hagain, rfl, rfl⟩

/-- A height in each of two parallel groups, with a latitude and a longitude. -/
def twoBeams : Element :=
  let beam (group : String) : Element :=
    .mk "Group".toList (some group.toList) none
      [.mk "Float32".toList (some "h".toList) none [],
        .mk "Float64".toList (some "latitude".toList) none [],
        .mk "Float64".toList (some "longitude".toList) none []]
  .mk "Dataset".toList none none [beam "gt1r", beam "gt1l"]

/-- The height of both beams, each with the coordinates of its own. -/
theorem resolveNames_idempotent_beams :
    let names := ["/gt1l/h".toList, "/gt1r/h".toList]
    let r : Resolution :=
      { coords := {}
        variableNames := names
        varCoords := [("/gt1l/h".toList, "/gt1l/latitude".toList, "/gt1l/longitude".toList),
          ("/gt1r/h".toList, "/gt1r/latitude".toList, "/gt1r/longitude".toList)]
        variableExpansions := [("H".toList, names)] }
    resolveNames .ascii [] (some (parseDmr twoBeams)) ["H".toList] = .ok r ∧
      ∃ r', resolveNames .ascii [] (some (parseDmr twoBeams)) r.variableNames = .ok r' ∧
        r'.variableNames = r.variableNames ∧ r'.varCoords = r.varCoords := by
  intro names r
  have h : resolveNames .ascii [] (some (parseDmr twoBeams)) ["H".toList] = .ok r := by
    decide +kernel
  exact ⟨h, resolveNames_idempotent .ascii [] _ _ r h⟩

/-- A plan made again from its own names, for whatever granules, has the same names, coordinates
and geometry. -/
theorem planSubset_again (fold : Lowering) (cmrVars : List UmmVariable) (dmr : Option DmrTree)
    (grid : Bool) (extent : Option Extent) {urls urls' : List String}
    {variableNames : List VarName} {p : OpendapPlan} (hurls : urls ≠ []) (hurls' : urls' ≠ [])
    (h : planSubset fold urls cmrVars dmr grid extent variableNames = .ok p) :
    ∃ expansions, planSubset fold urls' cmrVars dmr grid extent p.variableNames =
      .ok { p with opendapUrls := urls', variableExpansions := expansions } := by
  unfold planSubset at h
  rw [if_neg hurls] at h
  cases hr : resolveNames fold cmrVars dmr variableNames with
  | error e =>
    rw [hr] at h
    cases h
  | ok r =>
    rw [hr] at h
    obtain rfl := Except.ok.inj h
    obtain ⟨expansions, hagain⟩ := resolveNames_fixed hr
    refine ⟨expansions, ?_⟩
    unfold planSubset
    rw [if_neg hurls', hagain]
    rfl

end EarthdataMcp
