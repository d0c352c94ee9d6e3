import Wdb.Projection.Index

/-! The locations of the nodes of a grid: one node at a time, and all at once.

    Both ways pass through one routine. When the projection library has no image for some point of what it
    is given, all of it is set to `HUGE_VAL`. Numbers are exact, and `HUGE_VAL` is the top element. -/

namespace Wdb.Projection
open MachineInt
open Read (PlaceSpecification LonLat wdbRound)

/-- The projection library: the definitions that it accepts, and the images of the points that are not out
    of bounds, in radians where a projection is not metric. -/
structure Proj where
  degToRad : ℚ
  radToDeg : ℚ
  init : String → Bool
  image : String → String → LonLat → Option LonLat

/-- Longitudes and latitudes that are not projected, as far as the poles. -/
def Proj.longlat : Proj where
  degToRad := 174532925199432958 / 10 ^ 19
  radToDeg := 5729577951308232 / 10 ^ 14
  init _ := true
  image _ _ q := if |q.lat| ≤ 15708 / 10 ^ 4 then some q else none

/-- A location in an output buffer. -/
structure Located where
  lon : WithTop ℚ
  lat : WithTop ℚ
  deriving DecidableEq

def hugeVal : Located := ⟨⊤, ⊤⟩

def located (p : LonLat) : Located := ⟨p.lon, p.lat⟩

def getProjDefinition (proj earthShape : String) (extra : String := "") : String :=
  "+proj=" ++ proj ++ (if extra = "" then "" else " " ++ extra) ++ " " ++ earthShape ++ " +no_defs"

def toProjDefinition : String := getProjDefinition "longlat" "+ellps=WGS84"

def isMetric (projDef : String) : Bool := ¬ "longlat".toList <:+: projDef.toList

section Transform
variable (pj : Proj)

/-- `pj_transform`: the error, and the points after it. -/
def pj_transform (src dst : String) (points : List LonLat) : ℤ × List LonLat :=
  if ∀ p ∈ points, (pj.image src dst p).isSome then (0, points.map fun p => (pj.image src dst p).getD p)
  else (-14, points)

/-- `WdbProjection(def)`: the definition, if it is accepted. -/
def wdbProjection (definition : String) : Except String String :=
  if pj.init definition then .ok definition else .error ("Invalid PROJ definition: " ++ definition)

/-- `getWdbProjection`: a projection that has been kept is the one of its definition. -/
def getWdbProjection (definition : String) : Except String String := wdbProjection pj definition

/-- `WdbProjection::transform`. -/
def wdbProjectionTransform (src dest : String) (points : List LonLat) : Except String (List Located) :=
  let (error, images) := pj_transform pj src dest points
  if error = 0 then .ok (images.map located)
  else if error = -14 then .ok (images.map fun _ => hugeVal)
  else .error "Error during reprojection"

def toRadians (p : LonLat) : LonLat := ⟨p.lon * pj.degToRad, p.lat * pj.degToRad⟩

/-- A coordinate in degrees, with four decimals. -/
def toDegrees (c : WithTop ℚ) : WithTop ℚ := c.map fun c => wdbRound (c * pj.radToDeg) 4

def transform_ (points : List LonLat) (p : PlaceSpecification) : Except String (List Located) := do
  let points := if isMetric p.projDefinition then points else points.map (toRadians pj)
  let src ← getWdbProjection pj p.projDefinition
  let dest ← getWdbProjection pj toProjDefinition
  let images ← wdbProjectionTransform pj src dest points
  return images.map fun l => ⟨toDegrees pj l.lon, toDegrees pj l.lat⟩

/-- `wdbTransform`: the location that is read from the buffer of one element. -/
def wdbTransform (i j : ℚ) (p : PlaceSpecification) : Except String (Option Located) := do
  let ret ← transform_ pj [⟨p.startX + i * p.xIncrement, p.startY + j * p.yIncrement⟩] p
  return ret[0]?

/-- A node before the projection. -/
def node (p : PlaceSpecification) (plainIndex : ℕ) : LonLat :=
  ⟨p.startX + xFromIndex (ofUnsigned plainIndex) p * p.xIncrement,
    p.startY + yFromIndex (ofUnsigned plainIndex) p * p.yIncrement⟩

/-- The number of elements, which is computed as an `unsigned int`. -/
def elements (p : PlaceSpecification) : ℕ := (unsigned (p.xNumber * p.yNumber)).toNat

/-- `transformAll`: the buffers. -/
def transformAll (p : PlaceSpecification) : Except String (List Located) :=
  transform_ pj ((List.range (elements p)).map (node p)) p

/-- The location of a node, as `wdbTransform` has it. -/
def nodeLocation (p : PlaceSpecification) (plainIndex : ℕ) : Except String (Option Located) :=
  wdbTransform pj (xFromIndex (ofUnsigned plainIndex) p) (yFromIndex (ofUnsigned plainIndex) p) p

/-- All nodes are filled with their locations. -/
def FillsLocations (p : PlaceSpecification) : Prop :=
  ∀ k : ℕ, (k : ℤ) < p.xNumber * p.yNumber → (transformAll pj p).map (·[k]?) = nodeLocation pj p k

/-! ### What the routine does to a batch -/

/-- Both projections can be set up. -/
def Ready (p : PlaceSpecification) : Prop := pj.init p.projDefinition ∧ pj.init toProjDefinition

instance (p : PlaceSpecification) : Decidable (Ready pj p) :=
  inferInstanceAs (Decidable (_ = true ∧ _ = true))

/-- The image of a point, if it has one. -/
def imageOf (p : PlaceSpecification) (point : LonLat) : Option LonLat :=
  pj.image p.projDefinition toProjDefinition
    (if isMetric p.projDefinition then point else toRadians pj point)

/-- The location of an image. -/
def locationOf (image : LonLat) : Located :=
  ⟨↑(wdbRound (image.lon * pj.radToDeg) 4), ↑(wdbRound (image.lat * pj.radToDeg) 4)⟩

section Batch
variable {pj} {p : PlaceSpecification} {points : List LonLat}

theorem locationOf_ne_hugeVal (image : LonLat) : locationOf pj image ≠ hugeVal := by
  intro h
  exact WithTop.coe_ne_top (congrArg Located.lon h)

theorem transform_of_not_ready (h : ¬ Ready pj p) :
    ∃ e, ∀ points, transform_ pj points p = .error e := by
  by_cases hsrc : pj.init p.projDefinition = true
  · have hdest : ¬ pj.init toProjDefinition = true := fun hdest => h ⟨hsrc, hdest⟩
    refine ⟨"Invalid PROJ definition: " ++ toProjDefinition, fun points => ?_⟩
    simp only [transform_, getWdbProjection, wdbProjection, if_pos hsrc, if_neg hdest]
    rfl
  · refine ⟨"Invalid PROJ definition: " ++ p.projDefinition, fun points => ?_⟩
    simp only [transform_, getWdbProjection, wdbProjection, if_neg hsrc]
    rfl

/-- What is left in the buffers of a batch. -/
theorem wdbProjectionTransform_eq (src dest : String) (points : List LonLat) :
    wdbProjectionTransform pj src dest points =
      .ok (if ∀ q ∈ points, (pj.image src dest q).isSome
        then points.map fun q => ((pj.image src dest q).map located).getD hugeVal
        else points.map fun _ => hugeVal) := by
  unfold wdbProjectionTransform pj_transform
  by_cases hall : ∀ q ∈ points, (pj.image src dest q).isSome
  · simp only [if_pos hall, if_true, List.map_map, Except.ok.injEq]
    refine List.map_congr_left fun q hq => ?_
    obtain ⟨image, himage⟩ := Option.isSome_iff_exists.1 (hall q hq)
    simp [himage]
  · simp [if_neg hall]

/-- The batch has the locations of all its points, or none. -/
theorem transform_of_ready (h : Ready pj p) (points : List LonLat) : transform_ pj points p =
    .ok (if ∀ q ∈ points, (imageOf pj p q).isSome
      then points.map fun q => ((imageOf pj p q).map (locationOf pj)).getD hugeVal
      else points.map fun _ => hugeVal) := by
  have hdegrees : ∀ image : Option LonLat, (fun l : Located =>
      (⟨toDegrees pj l.lon, toDegrees pj l.lat⟩ : Located)) ((image.map located).getD hugeVal) =
      (image.map (locationOf pj)).getD hugeVal := by
    intro image
    cases image <;> rfl
  have hpoints : (if isMetric p.projDefinition then points else points.map (toRadians pj)) =
      points.map fun q => if isMetric p.projDefinition then q else toRadians pj q := by
    split <;> simp
  simp only [transform_, getWdbProjection, wdbProjection, if_pos h.1, if_pos h.2, hpoints, wdbProjectionTransform_eq,
    bind, Except.bind, pure, Except.pure, Except.ok.injEq, List.forall_mem_map, List.map_map]
  change List.map _ (if ∀ q ∈ points, (imageOf pj p q).isSome then _ else _) = _
  split
  · rw [List.map_map]
    exact List.map_congr_left fun q _ => hdegrees (imageOf pj p q)
  · rw [List.map_map]
    rfl

end Batch

/-! ### One node and all nodes -/

/-- A node has an image. -/
def HasImage (p : PlaceSpecification) (k : ℕ) : Prop := (imageOf pj p (node p k)).isSome

instance (p : PlaceSpecification) (k : ℕ) : Decidable (HasImage pj p k) :=
  inferInstanceAs (Decidable (_ = true))

/-- The location of a node. -/
def locationAt (p : PlaceSpecification) (k : ℕ) : Located :=
  ((imageOf pj p (node p k)).map (locationOf pj)).getD hugeVal

section Nodes
variable {pj} {p : PlaceSpecification} {k : ℕ}

theorem locationAt_eq_hugeVal_iff : locationAt pj p k = hugeVal ↔ ¬ HasImage pj p k := by
  unfold locationAt HasImage
  cases imageOf pj p (node p k) with
  | none => simp
  | some image => simpa using locationOf_ne_hugeVal image

theorem nodeLocation_of_ready (h : Ready pj p) : nodeLocation pj p k = .ok (some (locationAt pj p k)) := by
  have hone := transform_of_ready h [node p k]
  change (transform_ pj [node p k] p).bind _ = _
  rw [hone, locationAt]
  cases himage : imageOf pj p (node p k) with
  | none => simp [himage, Except.bind, pure, Except.pure]
  | some image => simp [himage, Except.bind, pure, Except.pure]

/-- What is in the buffers at an index. -/
theorem transformAll_of_ready (h : Ready pj p) : (transformAll pj p).map (·[k]?) =
    .ok (if k < elements p then
      some (if ∀ j < elements p, HasImage pj p j then locationAt pj p k else hugeVal) else none) := by
  rw [transformAll, transform_of_ready h]
  simp only [List.forall_mem_map, List.mem_range, List.map_map, Except.map, Except.ok.injEq]
  change (if ∀ j < elements p, HasImage pj p j then (List.range (elements p)).map (locationAt pj p)
    else (List.range (elements p)).map fun _ => hugeVal)[k]? = _
  by_cases hk : k < elements p
  · split <;> simp [hk]
  · split <;> simp [hk]

/-- A node is filled when there is an element for it, and it has no image or no node is without one. -/
theorem filled_iff (h : Ready pj p) : (transformAll pj p).map (·[k]?) = nodeLocation pj p k ↔
    k < elements p ∧ (HasImage pj p k → ∀ j < elements p, HasImage pj p j) := by
  rw [transformAll_of_ready h, nodeLocation_of_ready h, Except.ok.injEq]
  by_cases hk : k < elements p
  · rw [if_pos hk, Option.some.injEq, and_iff_right hk]
    by_cases hall : ∀ j < elements p, HasImage pj p j
    · rw [if_pos hall]
      exact iff_of_true rfl fun _ => hall
    · rw [if_neg hall, eq_comm, locationAt_eq_hugeVal_iff, imp_iff_not hall]
  · simp [hk]

theorem elements_eq (hx : 0 ≤ p.xNumber) (hy : 0 ≤ p.yNumber) (h : p.xNumber * p.yNumber < 2 ^ 32) :
    (elements p : ℤ) = p.xNumber * p.yNumber := by
  have hnodes : 0 ≤ p.xNumber * p.yNumber := Int.mul_nonneg hx hy
  rw [elements, unsigned_eq hnodes h, Int.toNat_of_nonneg hnodes]

end Nodes

end Transform

end Wdb.Projection
