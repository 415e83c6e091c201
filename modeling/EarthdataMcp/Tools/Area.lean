import EarthdataMcp.Providers.Identity
import EarthdataMcp.Text.Fields
import EarthdataMcp.Text.Json

/-!
# Areas of interest

A location is resolved to a bounding box, of which a handle is minted: GeoJSON, four numbers, or a
point. Any other location goes on to the tables and the geocoders, which are not modelled.

* `defineAreaOfInterest` and `resolveLocation`;
* `bboxFromGeojson`, with `flattenCoords` and `extractPairs`, and `validateBbox`;
* `Supplies`, the pairs that a caller supplies, and `AreaValid`, what a minted area must be.
-/

namespace EarthdataMcp

open Text

/-! ### Values -/

/-- The number that a value counts as in arithmetic and in comparisons. -/
def number : Json → Option ℚ
  | .num q => some q
  | .bool b => some (if b then 1 else 0)
  | _ => none

/-- A float, as it is read from a text. -/
inductive PyFloat
  | finite (q : ℚ)
  | infinite (negative : Bool)
  | nan
  deriving DecidableEq, Repr

namespace PyFloat

/-- `lo <= x <= hi`. -/
def between (lo hi : ℚ) : PyFloat → Bool
  | finite q => lo ≤ q ∧ q ≤ hi
  | _ => false

/-- `x > y`. -/
def gt : PyFloat → PyFloat → Bool
  | finite x, finite y => y < x
  | infinite false, finite _ => true
  | finite _, infinite true => true
  | infinite false, infinite true => true
  | _, _ => false

/-- The number, of a float that is one. -/
def value : PyFloat → Option ℚ
  | finite q => some q
  | _ => none

end PyFloat

/-- How an area of interest is refused. -/
inductive AreaError
  /-- The token that came with the call is refused. -/
  | token (e : Exn)
  /-- `location must be provided`. -/
  | noLocation
  /-- `GeoJSON contains no coordinate pairs`. -/
  | noCoordinatePairs
  /-- `expected 4 comma-separated floats (W,S,E,N), got …`. -/
  | wrongParts (parts : ℕ)
  /-- `non-numeric value in bbox string …`. -/
  | nonNumeric (s : List Char)
  /-- `longitude out of range [-180, 180]: …`. -/
  | longitudeOutOfRange (w e : PyFloat)
  /-- `latitude out of range [-90, 90]: …`. -/
  | latitudeOutOfRange (s n : PyFloat)
  /-- `south latitude … exceeds north latitude …`. -/
  | southExceedsNorth (s n : PyFloat)
  /-- An exception of reading GeoJSON. -/
  | read (e : ReadError)
  /-- Nested too deep, of GeoJSON or of a text of JSON. -/
  | recursionError
  deriving DecidableEq, Repr

/-- What the interpreter provides. -/
structure AreaRuntime where
  /-- `json.loads`: nothing where it raises `ValueError`. -/
  loads : String → Except AreaError (Option Json)
  /-- `float` of a text; nothing where it raises. -/
  toFloat : List Char → Option PyFloat
  /-- `x < y` for two values of which neither is a number. -/
  less : Json → Json → Except ReadError Bool
  /-- How many nested calls there may be. -/
  recursionLimit : ℕ

/-- `x < y`: a number does not compare with anything else. -/
def lessThan (less : Json → Json → Except ReadError Bool) (x y : Json) : Except ReadError Bool :=
  match number x, number y with
  | some p, some q => .ok (p < q)
  | none, none => less x y
  | _, _ => .error .typeError

/-- `min` and `max` of a list of values: the first one that no other one is better than. -/
def best (better : Json → Json → Except ReadError Bool) : List Json → Except ReadError Json
  | [] => .error .valueError
  | x :: xs => xs.foldlM (fun held item => do
      let replaces ← better item held
      pure (if replaces then item else held)) x

/-! ### GeoJSON -/

/-- `_extract_pairs`, with how many nested calls there may still be. -/
def extractPairs : ℕ → Json → Except AreaError (List (List Json))
  | 0, _ => .error .recursionError
  | depth + 1, coords =>
      if ¬ coords.truthy then .ok []
      else do
        let first ← (coords.nth 0).mapError .read
        let items ← coords.iter.mapError .read
        if (number first).isSome then pure [items.take 2]
        else do
          let pairs ← items.mapM (extractPairs depth)
          pure pairs.flatten

/-- `_flatten_coords`, with how many nested calls there may still be. -/
def flattenCoords : ℕ → Json → Except AreaError (List (List Json))
  | 0, _ => .error .recursionError
  | depth + 1, object => do
      let gtype ← (object.getOr "type" .null).mapError .read
      if gtype.isText "Feature" then do
        let geometry ← (object.getOr "geometry" .null).mapError .read
        flattenCoords depth (geometry.orElse (.obj []))
      else if gtype.isText "FeatureCollection" then do
        let features ← (object.getOr "features" (.arr [])).mapError .read
        let items ← features.iter.mapError .read
        let pairs ← items.mapM (flattenCoords depth)
        pure pairs.flatten
      else if gtype.isText "GeometryCollection" then do
        let geometries ← (object.getOr "geometries" (.arr [])).mapError .read
        let items ← geometries.iter.mapError .read
        let pairs ← items.mapM (flattenCoords depth)
        pure pairs.flatten
      else do
        let coords ← (object.getOr "coordinates" .null).mapError .read
        extractPairs depth coords

/-- A member of a pair. -/
def pairItem (i : ℕ) (pair : List Json) : Except ReadError Json :=
  match pair[i]? with
  | some v => .ok v
  | none => .error .indexError

/-- `(west, south, east, north)`: floats, or the values of a document as they are. -/
inductive AreaBox
  | floats (w s e n : PyFloat)
  | values (w s e n : Json)

/-- The edges that are numbers. -/
def AreaBox.edges : AreaBox → List (Option ℚ)
  | floats w s e n => [w.value, s.value, e.value, n.value]
  | values w s e n => [number w, number s, number e, number n]

/-- `_bbox_from_geojson`. -/
def bboxFromGeojson (rt : AreaRuntime) (geojson : Json) : Except AreaError AreaBox := do
  let coords ← flattenCoords rt.recursionLimit geojson
  if coords.isEmpty then .error .noCoordinatePairs
  else do
    let lons ← (coords.mapM (pairItem 0)).mapError .read
    let lats ← (coords.mapM (pairItem 1)).mapError .read
    let west ← (best (lessThan rt.less) lons).mapError .read
    let south ← (best (lessThan rt.less) lats).mapError .read
    let east ← (best (fun x y => lessThan rt.less y x) lons).mapError .read
    let north ← (best (fun x y => lessThan rt.less y x) lats).mapError .read
    pure (.values west south east north)

/-! ### Texts -/

/-- `_validate_bbox`: `W > E` is a box across the antimeridian. -/
def validateBbox (w s e n : PyFloat) : Except AreaError Unit :=
  if ¬(w.between (-180) 180 ∧ e.between (-180) 180) then .error (.longitudeOutOfRange w e)
  else if ¬(s.between (-90) 90 ∧ n.between (-90) 90) then .error (.latitudeOutOfRange s n)
  else if s.gt n then .error (.southExceedsNorth s n)
  else .ok ()

/-- `[float(p.strip()) for p in s.split(",")]`; nothing where one of them raises. -/
def commaFloats (toFloat : List Char → Option PyFloat) (s : List Char) : Option (List PyFloat) :=
  (s.splitOn ',').mapM fun part => toFloat (strip part)

/-- `_parse_bbox_string`. -/
def parseBboxString (toFloat : List Char → Option PyFloat) (s : List Char) :
    Except AreaError AreaBox :=
  if (s.splitOn ',').length ≠ 4 then .error (.wrongParts (s.splitOn ',').length)
  else
    match commaFloats toFloat s with
    | some [w, south, e, n] => do
        validateBbox w south e n
        pure (.floats w south e n)
    | _ => .error (.nonNumeric s)

/-- `_try_parse_point`. -/
def tryParsePoint (toFloat : List Char → Option PyFloat) (s : List Char) : Option (ℚ × ℚ) :=
  match commaFloats toFloat s with
  -- what is not finite is out of range
  | some [.finite lon, .finite lat] =>
      if (-180 ≤ lon ∧ lon ≤ 180) ∧ -90 ≤ lat ∧ lat ≤ 90 then some (lon, lat) else none
  | _ => none

/-! ### Locations -/

/-- A location, as a caller gives it. -/
inductive Location
  | dict (entries : List (String × Json))
  | text (s : String)

/-- A location that was resolved. -/
structure ResolvedArea where
  bbox : AreaBox
  geojson : Option Json
  source : String

/-- An area from GeoJSON. -/
def resolveGeojson (rt : AreaRuntime) (geojson : Json) : Except AreaError ResolvedArea := do
  let bbox ← bboxFromGeojson rt geojson
  pure ⟨bbox, some geojson, "geojson"⟩

/-- `_resolve_location`, without the tables and the geocoders, which nothing is left to. -/
def resolveLocation (rt : AreaRuntime) : Location → Except AreaError (Option ResolvedArea)
  | .dict entries => some <$> resolveGeojson rt (.obj entries)
  | .text s =>
      if strip s.toList = [] then .error .noLocation
      else
        match rt.loads s with
        | .error e => .error e
        | .ok (some (.obj entries)) => some <$> resolveGeojson rt (.obj entries)
        | .ok _ =>
            if s.toList.count ',' = 3 then do
              let bbox ← parseBboxString rt.toFloat s.toList
              pure (some ⟨bbox, none, "bbox"⟩)
            else if s.toList.count ',' = 1 then
              match tryParsePoint rt.toFloat s.toList with
              | some (lon, lat) =>
                  let geometry := Json.obj
                    [("type", .str "Point"), ("coordinates", .arr [.num lon, .num lat])]
                  .ok (some ⟨.floats (.finite lon) (.finite lat) (.finite lon) (.finite lat),
                    some geometry, "point"⟩)
              | none => .ok none
            else .ok none

/-- `define_area_of_interest`: the payload of the handle that is minted. -/
def defineAreaOfInterest (rt : AreaRuntime) (now : Time) (edlToken : Option Token)
    (location : Location) : Except AreaError (Option ResolvedArea) :=
  match parseEdlToken now edlToken with
  | .error e => .error (.token e)
  | .ok _ => resolveLocation rt location

/-! ### What a minted area must be -/

/-- The longitudes of a box; where west is greater than east they cross the antimeridian. -/
def LongitudeWithin (west east x : ℚ) : Prop :=
  if west ≤ east then west ≤ x ∧ x ≤ east
  else (west ≤ x ∧ x ≤ 180) ∨ (-180 ≤ x ∧ x ≤ east)

/-- The edges of a box are in range, and south is not above north. -/
structure BoxValid (west south east north : ℚ) : Prop where
  west_range : -180 ≤ west ∧ west ≤ 180
  east_range : -180 ≤ east ∧ east ≤ 180
  south_range : -90 ≤ south ∧ south ≤ 90
  north_range : -90 ≤ north ∧ north ≤ 90
  ordered : south ≤ north

theorem between_eq_true {lo hi : ℚ} {x : PyFloat} (h : x.between lo hi = true) :
    ∃ q, x = .finite q ∧ lo ≤ q ∧ q ≤ hi := by
  cases x with
  | finite q => exact ⟨q, rfl, of_decide_eq_true h⟩
  | _ => cases h

/-- A box that is validated is valid; west may be greater than east. -/
theorem validateBbox_eq_ok {w s e n : PyFloat} (h : validateBbox w s e n = .ok ()) :
    ∃ west south east north, w = .finite west ∧ s = .finite south ∧ e = .finite east ∧
      n = .finite north ∧ BoxValid west south east north := by
  unfold validateBbox at h
  split_ifs at h with hlon hlat hgt
  obtain ⟨west, rfl, hwest⟩ := between_eq_true hlon.1
  obtain ⟨east, rfl, heast⟩ := between_eq_true hlon.2
  obtain ⟨south, rfl, hsouth⟩ := between_eq_true hlat.1
  obtain ⟨north, rfl, hnorth⟩ := between_eq_true hlat.2
  have hordered : south ≤ north := by
    by_contra hlt
    exact hgt (decide_eq_true (not_le.1 hlt))
  exact ⟨west, south, east, north, rfl, rfl, rfl, rfl, hwest, heast, hsouth, hnorth, hordered⟩

/-- A position of nested arrays of coordinates is an array that starts with a number. -/
inductive PositionOf : Json → List Json → Prop
  | here {x : Json} {rest : List Json} (hx : (number x).isSome) :
      PositionOf (.arr (x :: rest)) (x :: rest)
  | inside {x : Json} {rest : List Json} {item : Json} {position : List Json}
      (hx : number x = none) (hmem : item ∈ x :: rest) (h : PositionOf item position) :
      PositionOf (.arr (x :: rest)) position

/-- A position of a GeoJSON object: of the geometry of a feature, of a member of a collection, or
of its own coordinates. -/
inductive GeojsonPosition : Json → List Json → Prop
  | feature {entries : List (String × Json)} {geometry : Json} {position : List Json}
      (htype : (Json.get entries "type").isText "Feature")
      (hgeometry : entries.lookup "geometry" = some geometry) (h : GeojsonPosition geometry position) :
      GeojsonPosition (.obj entries) position
  | features {entries : List (String × Json)} {features : List Json} {feature : Json}
      {position : List Json} (htype : (Json.get entries "type").isText "FeatureCollection")
      (hfeatures : entries.lookup "features" = some (.arr features)) (hmem : feature ∈ features)
      (h : GeojsonPosition feature position) : GeojsonPosition (.obj entries) position
  | geometries {entries : List (String × Json)} {geometries : List Json} {geometry : Json}
      {position : List Json} (htype : (Json.get entries "type").isText "GeometryCollection")
      (hgeometries : entries.lookup "geometries" = some (.arr geometries))
      (hmem : geometry ∈ geometries) (h : GeojsonPosition geometry position) :
      GeojsonPosition (.obj entries) position
  | coordinates {entries : List (String × Json)} {coords : Json} {position : List Json}
      (htype : ∀ collection ∈ ["Feature", "FeatureCollection", "GeometryCollection"],
        ¬ (Json.get entries "type").isText collection)
      (hcoords : entries.lookup "coordinates" = some coords) (h : PositionOf coords position) :
      GeojsonPosition (.obj entries) position

/-- The GeoJSON of a location, if that is what it is. -/
def Location.geojson (rt : AreaRuntime) : Location → Option Json
  | .dict entries => some (.obj entries)
  | .text s =>
      match rt.loads s with
      | .ok (some (.obj entries)) => some (.obj entries)
      | _ => none

/-- The caller supplies this pair: as the first two members of a position, as a corner of a box,
or as a point. -/
inductive Supplies (rt : AreaRuntime) : Location → ℚ → ℚ → Prop
  | position {location : Location} {geojson vx vy : Json} {rest : List Json} {x y : ℚ}
      (hgeojson : location.geojson rt = some geojson)
      (hposition : GeojsonPosition geojson (vx :: vy :: rest)) (hx : number vx = some x)
      (hy : number vy = some y) : Supplies rt location x y
  | southwest {s : String} {w south e n : ℚ} (hgeojson : (Location.text s).geojson rt = none)
      (hfloats : commaFloats rt.toFloat s.toList =
        some [.finite w, .finite south, .finite e, .finite n]) : Supplies rt (.text s) w south
  | northeast {s : String} {w south e n : ℚ} (hgeojson : (Location.text s).geojson rt = none)
      (hfloats : commaFloats rt.toFloat s.toList =
        some [.finite w, .finite south, .finite e, .finite n]) : Supplies rt (.text s) e n
  | point {s : String} {lon lat : ℚ} (hgeojson : (Location.text s).geojson rt = none)
      (hfloats : commaFloats rt.toFloat s.toList = some [.finite lon, .finite lat]) :
      Supplies rt (.text s) lon lat

/-- The box of an area is valid, and contains every pair that was supplied. -/
def AreaValid (rt : AreaRuntime) (location : Location) (area : ResolvedArea) : Prop :=
  ∃ west south east north, area.bbox.edges = [some west, some south, some east, some north] ∧
    BoxValid west south east north ∧ ∀ x y, Supplies rt location x y →
      LongitudeWithin west east x ∧ south ≤ y ∧ y ≤ north

/-- The first two members of every position are numbers in range. -/
def PositionsInRange (geojson : Json) : Prop :=
  ∀ position, GeojsonPosition geojson position → ∃ vx vy rest x y, position = vx :: vy :: rest ∧
    number vx = some x ∧ number vy = some y ∧ (-180 ≤ x ∧ x ≤ 180) ∧ -90 ≤ y ∧ y ≤ 90

end EarthdataMcp
