import EarthdataMcp.Lists.Collect
import EarthdataMcp.Tools.Area

/-!
# When a minted area is valid

A box from a text is validated before it is minted, a box from GeoJSON is not.

* `mem_flattenCoords`: the pairs that are read are those of the positions;
* `best_spec`, the least and the greatest of a list of values;
* `areaValid_iff`: exactly when the area that is minted is valid.
-/

namespace EarthdataMcp

open Text

/-! ### The pairs -/

theorem mapError_eq_ok {ε ε' α : Type} {f : ε → ε'} {m : Except ε α} {a : α} :
    m.mapError f = .ok a ↔ m = .ok a := by
  cases m <;> simp [Except.mapError]

/-- What the members of a list are read as, put together. -/
theorem mem_flatten_mapM {ε α β : Type} {f : α → Except ε (List β)} {P : α → β → Prop}
    (hf : ∀ x ys, f x = .ok ys → ∀ y, y ∈ ys ↔ P x y) {xs : List α} {yss : List (List β)}
    (h : xs.mapM f = .ok yss) (y : β) : y ∈ yss.flatten ↔ ∃ x ∈ xs, P x y := by
  have hall := Lists.forall₂_of_mapM h
  clear h
  induction hall with
  | nil => simp
  | cons hx _ ih =>
    rw [List.flatten_cons, List.mem_append, List.exists_mem_cons_iff]
    exact or_congr (hf _ _ hx y) ih

/-- The pair that a position begins with. -/
def BeginsPosition (coords : Json) (pair : List Json) : Prop :=
  ∃ position, PositionOf coords position ∧ pair = position.take 2

theorem not_beginsPosition_str (s : String) (pair : List Json) : ¬ BeginsPosition (.str s) pair := by
  rintro ⟨position, hposition, -⟩
  cases hposition

theorem beginsPosition_of_number {x : Json} {rest : List Json} (hx : (number x).isSome)
    (pair : List Json) : BeginsPosition (.arr (x :: rest)) pair ↔ pair = (x :: rest).take 2 := by
  constructor
  · rintro ⟨position, hposition, rfl⟩
    cases hposition with
    | here => rfl
    | inside hnone =>
      rw [hnone] at hx
      cases hx
  · rintro rfl
    exact ⟨x :: rest, .here hx, rfl⟩

theorem beginsPosition_of_inside {x : Json} {rest : List Json} (hx : number x = none)
    (pair : List Json) : BeginsPosition (.arr (x :: rest)) pair ↔
      ∃ item ∈ x :: rest, BeginsPosition item pair := by
  constructor
  · rintro ⟨position, hposition, rfl⟩
    cases hposition with
    | here hsome =>
      rw [hx] at hsome
      cases hsome
    | inside _ hmem h => exact ⟨_, hmem, position, h, rfl⟩
  · rintro ⟨item, hmem, position, hposition, rfl⟩
    exact ⟨position, .inside hx hmem hposition, rfl⟩

/-- Arrays of coordinates are flattened to the beginnings of their positions. -/
theorem mem_extractPairs {depth : ℕ} {coords : Json} {pairs : List (List Json)}
    (h : extractPairs depth coords = .ok pairs) (pair : List Json) :
    pair ∈ pairs ↔ BeginsPosition coords pair := by
  induction depth generalizing coords pairs pair with
  | zero => cases h
  | succ depth ih =>
    unfold extractPairs at h
    split_ifs at h with htruthy
    · obtain ⟨first, hfirst, hrest⟩ := Lists.bind_eq_ok.1 h
      obtain ⟨items, hitems, hpairs⟩ := Lists.bind_eq_ok.1 hrest
      clear h hrest
      rw [mapError_eq_ok] at hfirst hitems
      have hmembers {xs : List Json} {pairss : List (List (List Json))}
          (hread : xs.mapM (extractPairs depth) = .ok pairss) :
          pair ∈ pairss.flatten ↔ ∃ x ∈ xs, BeginsPosition x pair :=
        mem_flatten_mapM (fun _ _ hys pair => ih hys pair) hread pair
      cases coords with
      | arr xs =>
        obtain rfl := Except.ok.inj hitems
        cases xs with
        | nil => cases hfirst
        | cons x rest =>
          obtain rfl := Except.ok.inj hfirst
          split_ifs at hpairs with hx
          · obtain rfl := Except.ok.inj hpairs
            rw [List.mem_singleton, beginsPosition_of_number hx]
          · obtain ⟨pairss, hread, hflat⟩ := Lists.bind_eq_ok.1 hpairs
            obtain rfl := Except.ok.inj hflat
            rw [beginsPosition_of_inside (by simpa using hx)]
            exact hmembers hread
      -- the characters of a text have no positions, no more than the text has
      | str s =>
        have hchars (item : Json) (hitem : item ∈ items) : ∃ c, item = .str c := by
          obtain rfl := Except.ok.inj hitems
          obtain ⟨c, -, rfl⟩ := List.mem_map.1 hitem
          exact ⟨_, rfl⟩
        have hnone : ¬ (number first).isSome = true := by
          unfold Json.nth at hfirst
          dsimp only at hfirst
          split at hfirst
          · obtain rfl := Except.ok.inj hfirst
            exact Bool.false_ne_true
          · cases hfirst
        rw [if_neg hnone] at hpairs
        obtain ⟨pairss, hread, hflat⟩ := Lists.bind_eq_ok.1 hpairs
        obtain rfl := Except.ok.inj hflat
        refine iff_of_false ?_ (not_beginsPosition_str s pair)
        intro hmem
        obtain ⟨item, hitem, hbegins⟩ := (hmembers hread).1 hmem
        obtain ⟨c, rfl⟩ := hchars item hitem
        exact not_beginsPosition_str c pair hbegins
      | _ => cases hfirst
    · obtain rfl := Except.ok.inj h
      refine iff_of_false List.not_mem_nil ?_
      rintro ⟨position, hposition, -⟩
      cases hposition <;> exact htruthy rfl

/-- The pair that a position of GeoJSON begins with. -/
def BeginsGeojson (geojson : Json) (pair : List Json) : Prop :=
  ∃ position, GeojsonPosition geojson position ∧ pair = position.take 2

section geojson

variable {entries : List (String × Json)} {pair : List Json}

/-- Only objects have positions. -/
theorem not_beginsGeojson_str (s : String) (pair : List Json) : ¬ BeginsGeojson (.str s) pair := by
  rintro ⟨position, hposition, -⟩
  cases hposition

theorem not_beginsGeojson_null (pair : List Json) : ¬ BeginsGeojson .null pair := by
  rintro ⟨position, hposition, -⟩
  cases hposition

theorem not_beginsPosition_null (pair : List Json) : ¬ BeginsPosition .null pair := by
  rintro ⟨position, hposition, -⟩
  cases hposition

theorem not_beginsGeojson_nil (pair : List Json) : ¬ BeginsGeojson (.obj []) pair := by
  rintro ⟨position, hposition, -⟩
  cases hposition with
  | feature _ hgeometry => cases hgeometry
  | features _ hfeatures => cases hfeatures
  | geometries _ hgeometries => cases hgeometries
  | coordinates _ hcoords => cases hcoords

/-- `v or {}` has the positions of `v`. -/
theorem beginsGeojson_orElse {v : Json} :
    BeginsGeojson (v.orElse (.obj [])) pair ↔ BeginsGeojson v pair := by
  unfold Json.orElse
  split_ifs with htruthy
  · exact Iff.rfl
  · refine iff_of_false (not_beginsGeojson_nil pair) ?_
    rintro ⟨position, hposition, rfl⟩
    have hobj : ∃ entries, v = .obj entries := by
      cases hposition <;> exact ⟨_, rfl⟩
    obtain ⟨entries, rfl⟩ := hobj
    cases entries with
    | nil => exact not_beginsGeojson_nil _ ⟨position, hposition, rfl⟩
    | cons e entries => exact htruthy rfl

/-- What is missing is read as `None`. -/
theorem exists_lookup_iff {P : Json → Prop} (hnull : ¬ P .null) {v : Option Json} :
    P (v.getD .null) ↔ ∃ x, v = some x ∧ P x := by
  cases v with
  | none => simpa using hnull
  | some x => simp

theorem isText_unique {v : Json} {a b : String} (ha : v.isText a) (hb : v.isText b) : a = b := by
  cases v with
  | str s => exact (of_decide_eq_true ha).symm.trans (of_decide_eq_true hb)
  | _ => cases ha

theorem beginsGeojson_feature (htype : (Json.get entries "type").isText "Feature") :
    BeginsGeojson (.obj entries) pair ↔
      ∃ geometry, entries.lookup "geometry" = some geometry ∧ BeginsGeojson geometry pair := by
  constructor
  · rintro ⟨position, hposition, rfl⟩
    cases hposition with
    | feature _ hgeometry h => exact ⟨_, hgeometry, position, h, rfl⟩
    | features htype' => exact absurd (isText_unique htype htype') (by decide)
    | geometries htype' => exact absurd (isText_unique htype htype') (by decide)
    | coordinates hother => exact absurd htype (hother _ (by decide))
  · rintro ⟨geometry, hgeometry, position, hposition, rfl⟩
    exact ⟨position, .feature htype hgeometry hposition, rfl⟩

theorem beginsGeojson_features (htype : (Json.get entries "type").isText "FeatureCollection") :
    BeginsGeojson (.obj entries) pair ↔ ∃ members, entries.lookup "features" = some (.arr members) ∧
      ∃ member ∈ members, BeginsGeojson member pair := by
  constructor
  · rintro ⟨position, hposition, rfl⟩
    cases hposition with
    | feature htype' => exact absurd (isText_unique htype htype') (by decide)
    | features _ hfeatures hmem h => exact ⟨_, hfeatures, _, hmem, position, h, rfl⟩
    | geometries htype' => exact absurd (isText_unique htype htype') (by decide)
    | coordinates hother => exact absurd htype (hother _ (by decide))
  · rintro ⟨members, hmembers, member, hmem, position, hposition, rfl⟩
    exact ⟨position, .features htype hmembers hmem hposition, rfl⟩

theorem beginsGeojson_geometries (htype : (Json.get entries "type").isText "GeometryCollection") :
    BeginsGeojson (.obj entries) pair ↔
      ∃ members, entries.lookup "geometries" = some (.arr members) ∧
        ∃ member ∈ members, BeginsGeojson member pair := by
  constructor
  · rintro ⟨position, hposition, rfl⟩
    cases hposition with
    | feature htype' => exact absurd (isText_unique htype htype') (by decide)
    | features htype' => exact absurd (isText_unique htype htype') (by decide)
    | geometries _ hgeometries hmem h => exact ⟨_, hgeometries, _, hmem, position, h, rfl⟩
    | coordinates hother => exact absurd htype (hother _ (by decide))
  · rintro ⟨members, hmembers, member, hmem, position, hposition, rfl⟩
    exact ⟨position, .geometries htype hmembers hmem hposition, rfl⟩

theorem beginsGeojson_coordinates
    (htype : ∀ collection ∈ ["Feature", "FeatureCollection", "GeometryCollection"],
      ¬ (Json.get entries "type").isText collection) :
    BeginsGeojson (.obj entries) pair ↔
      ∃ coords, entries.lookup "coordinates" = some coords ∧ BeginsPosition coords pair := by
  constructor
  · rintro ⟨position, hposition, rfl⟩
    cases hposition with
    | feature htype' => exact absurd htype' (htype _ (by decide))
    | features htype' => exact absurd htype' (htype _ (by decide))
    | geometries htype' => exact absurd htype' (htype _ (by decide))
    | coordinates _ hcoords h => exact ⟨_, hcoords, position, h, rfl⟩
  · rintro ⟨coords, hcoords, position, hposition, rfl⟩
    exact ⟨position, .coordinates htype hcoords hposition, rfl⟩

/-- The members of a collection, as they are read. -/
theorem mem_collection {depth : ℕ} {key : String} {pairs : List (List Json)}
    (ih : ∀ object pairs, flattenCoords depth object = .ok pairs →
      ∀ pair, pair ∈ pairs ↔ BeginsGeojson object pair)
    (h : (do
      let collection ← (Json.getOr (.obj entries) key (.arr [])).mapError AreaError.read
      let items ← collection.iter.mapError AreaError.read
      let pairs ← items.mapM (flattenCoords depth)
      pure pairs.flatten) = .ok pairs) :
    pair ∈ pairs ↔ ∃ members, entries.lookup key = some (.arr members) ∧
      ∃ member ∈ members, BeginsGeojson member pair := by
  obtain ⟨collection, hcollection, h⟩ := Lists.bind_eq_ok.1 h
  obtain ⟨items, hitems, h⟩ := Lists.bind_eq_ok.1 h
  obtain ⟨pairss, hread, h⟩ := Lists.bind_eq_ok.1 h
  obtain rfl := Except.ok.inj h
  rw [mapError_eq_ok] at hcollection hitems
  have hmembers := mem_flatten_mapM (P := BeginsGeojson) ih hread pair
  have hvalue : (entries.lookup key).getD (.arr []) = collection := Except.ok.inj hcollection
  -- what is no array is read as texts, which have no positions
  have htexts (hall : ∀ item ∈ items, ∃ c, item = Json.str c) : pair ∉ pairss.flatten := by
    intro hmem
    obtain ⟨item, hitem, hbegins⟩ := hmembers.1 hmem
    obtain ⟨c, rfl⟩ := hall item hitem
    exact not_beginsGeojson_str c pair hbegins
  cases hlookup : entries.lookup key with
  | none =>
    rw [hlookup, Option.getD_none] at hvalue
    subst hvalue
    obtain rfl := Except.ok.inj hitems
    simpa using htexts (by simp)
  | some v =>
    rw [hlookup, Option.getD_some] at hvalue
    subst hvalue
    cases v with
    | arr members =>
      obtain rfl := Except.ok.inj hitems
      rw [hmembers]
      simp
    | str s =>
      obtain rfl := Except.ok.inj hitems
      simpa using htexts (by simp)
    | obj keys =>
      obtain rfl := Except.ok.inj hitems
      have hkeys : ∀ item ∈ keys.map (fun e => Json.str e.1), ∃ c, item = Json.str c := by
        intro item hitem
        obtain ⟨e, -, rfl⟩ := List.mem_map.1 hitem
        exact ⟨e.1, rfl⟩
      simpa using htexts hkeys
    | _ => cases hitems

/-- GeoJSON is flattened to the beginnings of its positions. -/
theorem mem_flattenCoords {depth : ℕ} {object : Json} {pairs : List (List Json)}
    (h : flattenCoords depth object = .ok pairs) (pair : List Json) :
    pair ∈ pairs ↔ BeginsGeojson object pair := by
  induction depth generalizing object pairs pair with
  | zero => cases h
  | succ depth ih =>
    unfold flattenCoords at h
    obtain ⟨gtype, hgtype, hrest⟩ := Lists.bind_eq_ok.1 h
    clear h
    rw [mapError_eq_ok] at hgtype
    obtain ⟨entries, rfl, rfl⟩ := Json.getOr_eq_ok hgtype
    split_ifs at hrest with hfeature hcollection hgeometries
    · rw [beginsGeojson_feature hfeature]
      obtain ⟨geometry, hgeometry, hflat⟩ := Lists.bind_eq_ok.1 hrest
      rw [mapError_eq_ok] at hgeometry
      obtain rfl := Except.ok.inj hgeometry
      rw [ih hflat, beginsGeojson_orElse]
      exact exists_lookup_iff (P := fun v => BeginsGeojson v pair) (not_beginsGeojson_null pair)
    · rw [beginsGeojson_features hcollection]
      exact mem_collection (fun _ _ h => ih h) hrest
    · rw [beginsGeojson_geometries hgeometries]
      exact mem_collection (fun _ _ h => ih h) hrest
    · have hother : ∀ collection ∈ ["Feature", "FeatureCollection", "GeometryCollection"],
          ¬ (Json.get entries "type").isText collection := by
        intro collection hmem
        simp only [List.mem_cons, List.not_mem_nil, or_false] at hmem
        rcases hmem with rfl | rfl | rfl
        · exact hfeature
        · exact hcollection
        · exact hgeometries
      rw [beginsGeojson_coordinates hother]
      obtain ⟨coords, hcoords, hextract⟩ := Lists.bind_eq_ok.1 hrest
      rw [mapError_eq_ok] at hcoords
      obtain rfl := Except.ok.inj hcoords
      rw [mem_extractPairs hextract]
      exact exists_lookup_iff (P := fun v => BeginsPosition v pair) (not_beginsPosition_null pair)

end geojson

/-! ### The least and the greatest -/

section best

variable {less : Json → Json → Except ReadError Bool}

/-- A comparison that goes by a number, for values that have one. -/
structure ComparesBy (better : Json → Json → Except ReadError Bool) (key : ℚ → ℚ) : Prop where
  numbers : ∀ x y p q, number x = some p → number y = some q →
    better x y = .ok (decide (key p < key q))
  kinds : ∀ x y b, better x y = .ok b → ((number x).isSome ↔ (number y).isSome)

theorem comparesBy_lessThan : ComparesBy (lessThan less) id where
  numbers := by
    intro x y p q hx hy
    simp [lessThan, hx, hy]
  kinds := by
    intro x y b h
    unfold lessThan at h
    cases hx : number x <;> cases hy : number y <;> rw [hx, hy] at h <;> simp at h ⊢

theorem comparesBy_greaterThan : ComparesBy (fun x y => lessThan less y x) Neg.neg where
  numbers := by
    intro x y p q hx hy
    simp [lessThan, hx, hy]
  kinds := by
    intro x y b h
    exact (comparesBy_lessThan.kinds y x b h).symm

variable {better : Json → Json → Except ReadError Bool} {key : ℚ → ℚ}

/-- What is best of a list is one of it. It is a number if and only if all are, and then none is
better. -/
structure BestOf (key : ℚ → ℚ) (xs : List Json) (found : Json) : Prop where
  mem : found ∈ xs
  kinds : ∀ x ∈ xs, (number x).isSome ↔ (number found).isSome
  bound : ∀ x ∈ xs, ∀ p q, number x = some p → number found = some q → key q ≤ key p

theorem BestOf.step (hbetter : ComparesBy better key) {xs : List Json} {held item : Json} {b : Bool}
    (h : BestOf key xs held) (hb : better item held = .ok b) :
    BestOf key (xs ++ [item]) (if b then item else held) := by
  have hkind := hbetter.kinds item held b hb
  -- the outcome of the comparison, where both are numbers
  have hless {p q : ℚ} (hp : number item = some p) (hq : number held = some q) :
      b = decide (key p < key q) := by
    rw [hbetter.numbers item held p q hp hq] at hb
    exact (Except.ok.inj hb).symm
  have hkinds : ∀ x ∈ xs ++ [item], (number x).isSome ↔ (number held).isSome := by
    intro x hx
    rcases List.mem_append.1 hx with hx | hx
    · exact h.kinds x hx
    · rw [List.mem_singleton.1 hx, hkind]
  cases b with
  | false =>
    refine ⟨List.mem_append_left _ h.mem, hkinds, ?_⟩
    intro x hx p q hp hq
    rcases List.mem_append.1 hx with hx | hx
    · exact h.bound x hx p q hp hq
    · rw [List.mem_singleton.1 hx] at hp
      exact not_lt.1 (of_decide_eq_false (hless hp hq).symm)
  | true =>
    refine ⟨List.mem_append_right _ (List.mem_singleton_self item), ?_, ?_⟩
    · intro x hx
      exact (hkinds x hx).trans hkind.symm
    · intro x hx p q hp hq
      rcases List.mem_append.1 hx with hx | hx
      · obtain ⟨r, hr⟩ := Option.isSome_iff_exists.1 (hkind.1 (Option.isSome_iff_exists.2 ⟨q, hq⟩))
        have hlt : key q < key r := of_decide_eq_true (hless hq hr).symm
        exact hlt.le.trans (h.bound x hx p r hp hr)
      · have hsame : number item = some p := List.mem_singleton.1 hx ▸ hp
        exact (congrArg key (Option.some.inj (hq.symm.trans hsame))).le

theorem best_spec (hbetter : ComparesBy better key) {xs : List Json} {found : Json}
    (h : best better xs = .ok found) : BestOf key xs found := by
  have hrun (ys xs : List Json) (held : Json) (hheld : BestOf key ys held) (found : Json)
      (h : xs.foldlM (fun held item => do
        let replaces ← better item held
        pure (if replaces then item else held)) held = .ok found) : BestOf key (ys ++ xs) found := by
    induction xs generalizing ys held with
    | nil =>
      obtain rfl := Except.ok.inj h
      rwa [List.append_nil]
    | cons x xs ih =>
      rw [List.foldlM_cons] at h
      obtain ⟨next, hnext, hrest⟩ := Lists.bind_eq_ok.1 h
      obtain ⟨b, hb, hpick⟩ := Lists.bind_eq_ok.1 hnext
      obtain rfl := Except.ok.inj hpick
      have hall := ih (ys ++ [x]) _ (hheld.step hbetter hb) hrest
      rwa [List.append_assoc] at hall
  cases xs with
  | nil => cases h
  | cons x xs =>
    have hone : BestOf key [x] x := by
      refine ⟨List.mem_singleton_self x, ?_, ?_⟩
      · intro y hy
        rw [List.mem_singleton.1 hy]
      · intro y hy p q hp hq
        rw [List.mem_singleton.1 hy, hq] at hp
        exact (congrArg key (Option.some.inj hp)).le
    exact hrun [x] xs x hone found h

end best

/-! ### Boxes of GeoJSON -/

/-- What a box of GeoJSON has to do with the positions that it is made of. -/
structure BoxOf (geojson : Json) (w s e n : Json) : Prop where
  pairs : ∀ position, GeojsonPosition geojson position →
    ∃ vx vy rest, position = vx :: vy :: rest ∧ (number vx).isSome
  some_position : ∃ position, GeojsonPosition geojson position
  lons : ∃ lons, (∀ v, v ∈ lons ↔ ∃ vy rest, GeojsonPosition geojson (v :: vy :: rest)) ∧
    BestOf id lons w ∧ BestOf Neg.neg lons e
  lats : ∃ lats, (∀ v, v ∈ lats ↔ ∃ vx rest, GeojsonPosition geojson (vx :: v :: rest)) ∧
    BestOf id lats s ∧ BestOf Neg.neg lats n

theorem exists_number_of_positionOf {coords : Json} {position : List Json}
    (h : PositionOf coords position) : ∃ x rest, position = x :: rest ∧ (number x).isSome := by
  induction h with
  | here hx => exact ⟨_, _, rfl, hx⟩
  | inside _ _ _ ih => exact ih

/-- A position starts with a number. -/
theorem exists_number {geojson : Json} {position : List Json} (h : GeojsonPosition geojson position) :
    ∃ x rest, position = x :: rest ∧ (number x).isSome := by
  induction h with
  | feature _ _ _ ih => exact ih
  | features _ _ _ _ ih => exact ih
  | geometries _ _ _ _ ih => exact ih
  | coordinates _ _ h => exact exists_number_of_positionOf h

/-- The results of a list of readings. -/
theorem mem_mapM {ε α β : Type} {f : α → Except ε β} {xs : List α} {ys : List β}
    (h : xs.mapM f = .ok ys) : (∀ x ∈ xs, ∃ y, f x = .ok y) ∧
      ∀ y, y ∈ ys ↔ ∃ x ∈ xs, f x = .ok y := by
  have hall := Lists.forall₂_of_mapM h
  clear h
  induction hall with
  | nil => simp
  | @cons x y xs ys hx _ ih =>
    obtain ⟨hread, hmem⟩ := ih
    refine ⟨List.forall_mem_cons.2 ⟨⟨y, hx⟩, hread⟩, ?_⟩
    intro z
    rw [List.mem_cons, List.exists_mem_cons_iff, hx, Except.ok.injEq, eq_comm]
    exact or_congr Iff.rfl (hmem z)

theorem pairItem_eq_ok {i : ℕ} {pair : List Json} {v : Json} :
    pairItem i pair = .ok v ↔ pair[i]? = some v := by
  unfold pairItem
  split <;> simp_all

theorem boxOf_bboxFromGeojson {rt : AreaRuntime} {geojson : Json} {box : AreaBox}
    (h : bboxFromGeojson rt geojson = .ok box) :
    ∃ w s e n, box = .values w s e n ∧ BoxOf geojson w s e n := by
  obtain ⟨coords, hcoords, h⟩ := Lists.bind_eq_ok.1 h
  split_ifs at h with hempty
  obtain ⟨lons, hlons, h⟩ := Lists.bind_eq_ok.1 h
  obtain ⟨lats, hlats, h⟩ := Lists.bind_eq_ok.1 h
  obtain ⟨w, hw, h⟩ := Lists.bind_eq_ok.1 h
  obtain ⟨s, hs, h⟩ := Lists.bind_eq_ok.1 h
  obtain ⟨e, he, h⟩ := Lists.bind_eq_ok.1 h
  obtain ⟨n, hn, h⟩ := Lists.bind_eq_ok.1 h
  obtain rfl := Except.ok.inj h
  rw [mapError_eq_ok] at hlons hlats hw hs he hn
  have hpairs (pair : List Json) : pair ∈ coords ↔ BeginsGeojson geojson pair :=
    mem_flattenCoords hcoords pair
  obtain ⟨-, hlons⟩ := mem_mapM hlons
  obtain ⟨hsecond, hlats⟩ := mem_mapM hlats
  -- every position has a second member, since the latitudes were read
  have htwo (position : List Json) (hposition : GeojsonPosition geojson position) :
      ∃ vx vy rest, position = vx :: vy :: rest ∧ (number vx).isSome := by
    obtain ⟨x, rest, rfl, hx⟩ := exists_number hposition
    obtain ⟨y, hy⟩ := hsecond _ ((hpairs _).2 ⟨_, hposition, rfl⟩)
    cases rest with
    | nil => cases hy
    | cons vy rest => exact ⟨x, vy, rest, rfl, hx⟩
  refine ⟨w, s, e, n, rfl, htwo, ?_, ⟨lons, ?_, best_spec comparesBy_lessThan hw,
    best_spec comparesBy_greaterThan he⟩, lats, ?_, best_spec comparesBy_lessThan hs,
    best_spec comparesBy_greaterThan hn⟩
  · cases coords with
    | nil => exact absurd rfl hempty
    | cons pair coords =>
      obtain ⟨position, hposition, -⟩ := (hpairs pair).1 List.mem_cons_self
      exact ⟨position, hposition⟩
  · intro v
    rw [hlons]
    constructor
    · rintro ⟨pair, hpair, hv⟩
      obtain ⟨position, hposition, rfl⟩ := (hpairs pair).1 hpair
      obtain ⟨vx, vy, rest, rfl, -⟩ := htwo position hposition
      obtain rfl := Option.some.inj (pairItem_eq_ok.1 hv)
      exact ⟨vy, rest, hposition⟩
    · rintro ⟨vy, rest, hposition⟩
      exact ⟨_, (hpairs _).2 ⟨_, hposition, rfl⟩, rfl⟩
  · intro v
    rw [hlats]
    constructor
    · rintro ⟨pair, hpair, hv⟩
      obtain ⟨position, hposition, rfl⟩ := (hpairs pair).1 hpair
      obtain ⟨vx, vy, rest, rfl, -⟩ := htwo position hposition
      obtain rfl := Option.some.inj (pairItem_eq_ok.1 hv)
      exact ⟨vx, rest, hposition⟩
    · rintro ⟨vx, rest, hposition⟩
      exact ⟨_, (hpairs _).2 ⟨_, hposition, rfl⟩, rfl⟩

/-- The least and the greatest bound what is between them. -/
theorem bounds_of_bestOf {values : List Json} {least greatest v : Json} {lo hi q : ℚ}
    (hleast : BestOf id values least) (hgreatest : BestOf Neg.neg values greatest)
    (hlo : number least = some lo) (hhi : number greatest = some hi) (hv : v ∈ values)
    (hq : number v = some q) : lo ≤ q ∧ q ≤ hi := by
  have hbelow : lo ≤ q := hleast.bound v hv q lo hq hlo
  have habove : -hi ≤ -q := hgreatest.bound v hv q hi hq hhi
  exact ⟨hbelow, neg_le_neg_iff.1 habove⟩

/-- The edges of a box are valid and bound every pair of numbers if and only if every position is
in range. -/
theorem boxOf_valid_iff {geojson w s e n : Json} (h : BoxOf geojson w s e n) :
    (∃ west south east north, [number w, number s, number e, number n] =
        [some west, some south, some east, some north] ∧ BoxValid west south east north ∧
      ∀ vx vy rest x y, GeojsonPosition geojson (vx :: vy :: rest) → number vx = some x →
        number vy = some y → LongitudeWithin west east x ∧ south ≤ y ∧ y ≤ north) ↔
      PositionsInRange geojson := by
  obtain ⟨hpairs, ⟨position, hposition⟩, ⟨lons, hlons, hwest, heast⟩, lats, hlats, hsouth, hnorth⟩ := h
  constructor
  · rintro ⟨west, south, east, north, hedges, hvalid, -⟩ position hposition
    simp only [List.cons.injEq, and_true] at hedges
    obtain ⟨hw, hs, he, hn⟩ := hedges
    obtain ⟨vx, vy, rest, rfl, hvx⟩ := hpairs position hposition
    have hxmem : vx ∈ lons := (hlons vx).2 ⟨vy, rest, hposition⟩
    have hymem : vy ∈ lats := (hlats vy).2 ⟨vx, rest, hposition⟩
    obtain ⟨x, hx⟩ := Option.isSome_iff_exists.1 hvx
    obtain ⟨y, hy⟩ := Option.isSome_iff_exists.1
      ((hsouth.kinds vy hymem).2 (Option.isSome_iff_exists.2 ⟨south, hs⟩))
    obtain ⟨hwx, hxe⟩ := bounds_of_bestOf hwest heast hw he hxmem hx
    obtain ⟨hsy, hyn⟩ := bounds_of_bestOf hsouth hnorth hs hn hymem hy
    exact ⟨vx, vy, rest, x, y, rfl, hx, hy,
      ⟨hvalid.west_range.1.trans hwx, hxe.trans hvalid.east_range.2⟩,
      hvalid.south_range.1.trans hsy, hyn.trans hvalid.north_range.2⟩
  · intro hrange
    -- an edge is a member of a position
    have hlon {v : Json} (hv : v ∈ lons) : ∃ x, number v = some x ∧ -180 ≤ x ∧ x ≤ 180 := by
      obtain ⟨vy, rest, hposition⟩ := (hlons v).1 hv
      obtain ⟨_, _, _, x, _, heq, hx, -, hin, -⟩ := hrange _ hposition
      obtain ⟨rfl, -⟩ := List.cons.inj heq
      exact ⟨x, hx, hin⟩
    have hlat {v : Json} (hv : v ∈ lats) : ∃ y, number v = some y ∧ -90 ≤ y ∧ y ≤ 90 := by
      obtain ⟨vx, rest, hposition⟩ := (hlats v).1 hv
      obtain ⟨_, _, _, _, y, heq, -, hy, -, hin⟩ := hrange _ hposition
      obtain ⟨rfl, -⟩ := List.cons.inj (List.cons.inj heq).2
      exact ⟨y, hy, hin⟩
    obtain ⟨west, hw, hwrange⟩ := hlon hwest.mem
    obtain ⟨east, he, herange⟩ := hlon heast.mem
    obtain ⟨south, hs, hsrange⟩ := hlat hsouth.mem
    obtain ⟨north, hn, hnrange⟩ := hlat hnorth.mem
    obtain ⟨hsn, -⟩ := bounds_of_bestOf hsouth hnorth hs hn hnorth.mem hn
    refine ⟨west, south, east, north, by rw [hw, hs, he, hn],
      ⟨hwrange, herange, hsrange, hnrange, hsn⟩, ?_⟩
    intro vx vy rest x y hposition hx hy
    have hxbounds := bounds_of_bestOf hwest heast hw he ((hlons vx).2 ⟨vy, rest, hposition⟩) hx
    have hybounds := bounds_of_bestOf hsouth hnorth hs hn ((hlats vy).2 ⟨vx, rest, hposition⟩) hy
    refine ⟨?_, hybounds⟩
    unfold LongitudeWithin
    rw [if_pos (hxbounds.1.trans hxbounds.2)]
    exact hxbounds

/-! ### Boxes of texts -/

/-- The corners of a valid box are in it. -/
theorem BoxValid.corners {west south east north : ℚ} (h : BoxValid west south east north) :
    (LongitudeWithin west east west ∧ south ≤ south ∧ south ≤ north) ∧
      LongitudeWithin west east east ∧ south ≤ north ∧ north ≤ north := by
  unfold LongitudeWithin
  split_ifs with hle
  · exact ⟨⟨⟨le_refl _, hle⟩, le_refl _, h.ordered⟩, ⟨hle, le_refl _⟩, h.ordered, le_refl _⟩
  · exact ⟨⟨Or.inl ⟨le_refl _, h.west_range.2⟩, le_refl _, h.ordered⟩,
      Or.inr ⟨h.east_range.1, le_refl _⟩, h.ordered, le_refl _⟩

/-! ### Every location -/

section locations

variable {rt : AreaRuntime} {location : Location} {area : ResolvedArea}

/-- From GeoJSON, pairs are supplied only by its positions. -/
theorem supplies_geojson_iff {geojson : Json} (hgeojson : location.geojson rt = some geojson)
    {x y : ℚ} : Supplies rt location x y ↔ ∃ vx vy rest, GeojsonPosition geojson (vx :: vy :: rest) ∧
      number vx = some x ∧ number vy = some y := by
  constructor
  · intro h
    cases h with
    | position hgeojson' hposition hx hy =>
      obtain rfl := Option.some.inj (hgeojson.symm.trans hgeojson')
      exact ⟨_, _, _, hposition, hx, hy⟩
    | southwest hnone =>
      rw [hnone] at hgeojson
      cases hgeojson
    | northeast hnone =>
      rw [hnone] at hgeojson
      cases hgeojson
    | point hnone =>
      rw [hnone] at hgeojson
      cases hgeojson
  · rintro ⟨vx, vy, rest, hposition, hx, hy⟩
    exact .position hgeojson hposition hx hy

/-- An area from GeoJSON is valid if and only if all its positions are in range. -/
theorem areaValid_geojson_iff {geojson : Json} (hgeojson : location.geojson rt = some geojson)
    (h : resolveGeojson rt geojson = .ok area) :
    AreaValid rt location area ↔ PositionsInRange geojson := by
  obtain ⟨box, hbox, h⟩ := Lists.bind_eq_ok.1 h
  obtain rfl := Except.ok.inj h
  obtain ⟨w, s, e, n, rfl, hboxOf⟩ := boxOf_bboxFromGeojson hbox
  rw [← boxOf_valid_iff hboxOf]
  unfold AreaValid
  simp only [supplies_geojson_iff hgeojson]
  constructor
  · rintro ⟨west, south, east, north, hedges, hvalid, hcontains⟩
    refine ⟨west, south, east, north, hedges, hvalid, ?_⟩
    intro vx vy rest x y hposition hx hy
    exact hcontains x y ⟨vx, vy, rest, hposition, hx, hy⟩
  · rintro ⟨west, south, east, north, hedges, hvalid, hcontains⟩
    refine ⟨west, south, east, north, hedges, hvalid, ?_⟩
    rintro x y ⟨vx, vy, rest, hposition, hx, hy⟩
    exact hcontains vx vy rest x y hposition hx hy

variable {s : String}

/-- A box from a text is valid, and its corners are in it. -/
theorem areaValid_bbox (hgeojson : (Location.text s).geojson rt = none)
    (h : parseBboxString rt.toFloat s.toList = .ok area.bbox) : AreaValid rt (.text s) area := by
  unfold parseBboxString at h
  split_ifs at h
  split at h
  case h_1 w south e n hfloats =>
    obtain ⟨⟨⟩, hvalidate, hbox⟩ := Lists.bind_eq_ok.1 h
    obtain ⟨west, south, east, north, rfl, rfl, rfl, rfl, hvalid⟩ := validateBbox_eq_ok hvalidate
    refine ⟨west, south, east, north, ?_, hvalid, ?_⟩
    · rw [← Except.ok.inj hbox]
      rfl
    · intro x y hsupplies
      cases hsupplies with
      | position hsome =>
        rw [hgeojson] at hsome
        cases hsome
      | southwest _ hcorners =>
        rw [hfloats] at hcorners
        cases hcorners
        exact hvalid.corners.1
      | northeast _ hcorners =>
        rw [hfloats] at hcorners
        cases hcorners
        exact hvalid.corners.2
      | point _ hpoint =>
        rw [hfloats] at hpoint
        cases hpoint
  case h_2 => cases h

/-- A point from a text is valid. -/
theorem areaValid_point {lon lat : ℚ} (hgeojson : (Location.text s).geojson rt = none)
    (h : tryParsePoint rt.toFloat s.toList = some (lon, lat))
    (hbox : area.bbox = .floats (.finite lon) (.finite lat) (.finite lon) (.finite lat)) :
    AreaValid rt (.text s) area := by
  unfold tryParsePoint at h
  split at h
  case h_1 lon' lat' hfloats =>
    split_ifs at h with hrange
    cases h
    obtain ⟨hlon, hlat⟩ := hrange
    refine ⟨lon, lat, lon, lat, ?_, ⟨hlon, hlon, hlat, hlat, le_refl _⟩, ?_⟩
    · rw [hbox]
      rfl
    · intro x y hsupplies
      cases hsupplies with
      | position hsome =>
        rw [hgeojson] at hsome
        cases hsome
      | southwest _ hcorners =>
        rw [hfloats] at hcorners
        cases hcorners
      | northeast _ hcorners =>
        rw [hfloats] at hcorners
        cases hcorners
      | point _ hpoint =>
        rw [hfloats] at hpoint
        cases hpoint
        unfold LongitudeWithin
        rw [if_pos (le_refl _)]
        exact ⟨⟨le_refl _, le_refl _⟩, le_refl _, le_refl _⟩
  case h_2 => cases h

/-- What a location is resolved from. -/
theorem resolveLocation_cases (h : resolveLocation rt location = .ok (some area)) :
    (∃ geojson, location.geojson rt = some geojson ∧ resolveGeojson rt geojson = .ok area) ∨
      ∃ s, location = .text s ∧ location.geojson rt = none ∧
        (parseBboxString rt.toFloat s.toList = .ok area.bbox ∨
          ∃ lon lat, tryParsePoint rt.toFloat s.toList = some (lon, lat) ∧
            area.bbox = .floats (.finite lon) (.finite lat) (.finite lon) (.finite lat)) := by
  have hmap {geojson : Json} (hresolve : some <$> resolveGeojson rt geojson = .ok (some area)) :
      resolveGeojson rt geojson = .ok area := by
    cases hr : resolveGeojson rt geojson with
    | error e =>
      rw [hr] at hresolve
      cases hresolve
    | ok area' =>
      rw [hr] at hresolve
      exact congrArg Except.ok (Option.some.inj (Except.ok.inj hresolve))
  cases location with
  | dict entries => exact Or.inl ⟨_, rfl, hmap h⟩
  | text s =>
    rw [resolveLocation] at h
    by_cases hblank : strip s.toList = []
    · rw [if_pos hblank] at h
      cases h
    rw [if_neg hblank] at h
    split at h
    · cases h
    · rename_i entries hloads
      left
      exact ⟨_, by rw [Location.geojson, hloads], hmap h⟩
    · rename_i parsed hparsed hloads
      right
      refine ⟨s, rfl, ?_, ?_⟩
      · rw [Location.geojson, hloads]
        split
        · rename_i entries heq
          obtain rfl := Except.ok.inj heq
          exact absurd rfl (hparsed entries)
        · rfl
      · split_ifs at h with hthree hone
        · obtain ⟨box, hbox, hsome⟩ := Lists.bind_eq_ok.1 h
          left
          rw [hbox, ← Option.some.inj (Except.ok.inj hsome)]
        · right
          split at h
          · rename_i lon lat hpoint
            refine ⟨lon, lat, hpoint, ?_⟩
            rw [← Option.some.inj (Except.ok.inj h)]
          · cases h
        · cases h

/-- **An area that is minted is valid if and only if it is not from GeoJSON, or from GeoJSON whose
positions are all in range.** -/
theorem areaValid_iff (rt : AreaRuntime) (now : Time) (edlToken : Option Token)
    (location : Location) (area : ResolvedArea)
    (h : defineAreaOfInterest rt now edlToken location = .ok (some area)) :
    AreaValid rt location area ↔
      ∀ geojson, location.geojson rt = some geojson → PositionsInRange geojson := by
  have hresolve : resolveLocation rt location = .ok (some area) := by
    unfold defineAreaOfInterest at h
    split at h
    · cases h
    · exact h
  rcases resolveLocation_cases hresolve with ⟨geojson, hgeojson, harea⟩ | ⟨s, rfl, hnone, hbox⟩
  · rw [areaValid_geojson_iff hgeojson harea, hgeojson]
    simp
  · have hvalid : AreaValid rt (.text s) area := by
      rcases hbox with hbox | ⟨lon, lat, hpoint, hbox⟩
      · exact areaValid_bbox hnone hbox
      · exact areaValid_point hnone hpoint hbox
    rw [hnone]
    simpa using hvalid

/-- An interpreter that reads no text. -/
def plainRuntime : AreaRuntime where
  loads := fun _ => .ok none
  toFloat := fun _ => none
  less := fun _ _ => .error .typeError
  recursionLimit := 1000

/-- A point as GeoJSON. -/
def pointLocation (lon lat : Json) : Location :=
  .dict [("type", .str "Point"), ("coordinates", .arr [lon, lat])]

/-- A point in Colorado. -/
theorem areaValid_iff_point :
    ∃ area, defineAreaOfInterest plainRuntime 0 none (pointLocation (.num (-105)) (.num 40)) =
        .ok (some area) ∧
      (AreaValid plainRuntime (pointLocation (.num (-105)) (.num 40)) area ↔
        ∀ geojson, (pointLocation (.num (-105)) (.num 40)).geojson plainRuntime = some geojson →
          PositionsInRange geojson) := by
  have hminted : defineAreaOfInterest plainRuntime 0 none
      (pointLocation (.num (-105)) (.num 40)) = .ok (some
        ⟨.values (.num (-105)) (.num 40) (.num (-105)) (.num 40),
          some (.obj [("type", .str "Point"), ("coordinates", .arr [.num (-105), .num 40])]),
          "geojson"⟩) := by rfl
  exact ⟨_, hminted, areaValid_iff plainRuntime 0 none _ _ hminted⟩

/-- The position is read as longitude and latitude, whatever they are. -/
theorem not_areaValid : ¬ ∀ (rt : AreaRuntime) (now : Time) (edlToken : Option Token)
    (location : Location) (area : ResolvedArea),
    defineAreaOfInterest rt now edlToken location = .ok (some area) →
      AreaValid rt location area := by
  intro h
  have hminted : defineAreaOfInterest plainRuntime 0 none
      (pointLocation (.num 500) (.num 100)) = .ok (some
        ⟨.values (.num 500) (.num 100) (.num 500) (.num 100),
          some (.obj [("type", .str "Point"), ("coordinates", .arr [.num 500, .num 100])]),
          "geojson"⟩) := by rfl
  obtain ⟨west, south, east, north, hedges, hvalid, -⟩ := h plainRuntime 0 none _ _ hminted
  obtain ⟨hwest, -⟩ := List.cons.inj hedges
  have hvalue : (500 : ℚ) = west := Option.some.inj hwest
  have hrange := hvalid.west_range.2
  rw [← hvalue] at hrange
  norm_num at hrange

end locations

end EarthdataMcp
