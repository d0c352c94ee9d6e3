import Wdb.Blob.Reads
import Wdb.Read.Surround

/-! Reading the nodes of a grid that are in a polygon.

    The corners of the polygon, in the grid's coordinates, bound the columns and rows that are scanned.
    Each node of these is asked for, and what intersects the polygon is read from the grid's file. What
    the geometry library knows about a polygon is given: its outer ring, and the points it meets. The
    bounds are stored in single precision and the indices are found in double precision; how numbers are
    rounded is given, and exact arithmetic is the case without rounding. An index that is found is an
    integer of any size. -/

namespace Wdb.Read
open Blob MachineInt

/-! ### Geometry -/

/-- A polygon: a closed ring around it, and the points that intersect it. None of them is outside of what
    the ring spans. -/
structure Polygon where
  exteriorRing : List LonLat
  long : 4 ≤ exteriorRing.length
  closed : exteriorRing.head? = exteriorRing.getLast?
  intersects : LonLat → Bool
  spanned : ∀ q, intersects q →
    ((∃ v ∈ exteriorRing, v.lon ≤ q.lon) ∧ ∃ v ∈ exteriorRing, q.lon ≤ v.lon) ∧
      (∃ v ∈ exteriorRing, v.lat ≤ q.lat) ∧ ∃ v ∈ exteriorRing, q.lat ≤ v.lat

/-- What is asked for: a polygon or several. -/
inductive Geometry where
  | polygon (p : Polygon)
  | multipolygon (ps : List Polygon)

/-- `GEOSIntersects` of a geometry and a point. -/
def Geometry.intersects : Geometry → LonLat → Bool
  | .polygon p, q => p.intersects q
  | .multipolygon ps, q => ps.any fun p => p.intersects q

/-- `GEOSGetNumGeometries`. -/
def Geometry.numGeometries : Geometry → ℕ
  | .polygon _ => 1
  | .multipolygon ps => ps.length

/-- `GEOSGetExteriorRing`, which is for polygons only. -/
def Geometry.exteriorRing : Geometry → Option (List LonLat)
  | .polygon p => some p.exteriorRing
  | .multipolygon _ => none

/-- `GEOSGetGeometryN`. -/
def Geometry.geometryN : Geometry → ℕ → Option Geometry
  | .polygon p, n => if n = 0 then some (.polygon p) else none
  | .multipolygon ps, n => ps[n]?.map .polygon

/-! ### The reader -/

/-- How a number is stored as a `float`, and how the result of an operation is rounded to a `double`. A
    greater number is not rounded to a lesser one, and a `float` stays as it is. -/
structure Rounding where
  float : ℚ → ℚ
  double : ℚ → ℚ
  float_mono : Monotone float
  double_mono : Monotone double
  float_float : ∀ q, float (float q) = float q

/-- Exact arithmetic. -/
def Rounding.exact : Rounding := ⟨id, id, monotone_id, monotone_id, fun _ => rfl⟩

/-- A corner as it is stored. -/
def Rounding.corner (rd : Rounding) (v : LonLat) : LonLat := ⟨rd.float v.lon, rd.float v.lat⟩

/-- What bounds the polygon in the coordinates of the grid. The members are `float`s. -/
structure BoundingBox where
  left : ℚ
  bottom : ℚ
  top : ℚ
  right : ℚ
  deriving DecidableEq

/-- The box at one corner. -/
def BoundingBox.start (rd : Rounding) (coord : LonLat) : BoundingBox :=
  ⟨rd.float coord.lon, rd.float coord.lat, rd.float coord.lat, rd.float coord.lon⟩

/-- The box with another corner, which is compared as it is and stored rounded. -/
def BoundingBox.extend (rd : Rounding) (ret : BoundingBox) (coord : LonLat) : BoundingBox :=
  let ret :=
    if coord.lon < ret.left then { ret with left := rd.float coord.lon }
    else if coord.lon > ret.right then { ret with right := rd.float coord.lon }
    else ret
  if coord.lat < ret.bottom then { ret with bottom := rd.float coord.lat }
  else if coord.lat > ret.top then { ret with top := rd.float coord.lat }
  else ret

section Scan
variable (rd : Rounding) (prj : Projections) (ps : PlaceSpecification)

/-- The outer ring of the geometry with a number, which is asked for only when there are several. -/
def outerRing (polygons : Geometry) (n : ℕ) : Except ReadError (List LonLat) :=
  let polygon := if polygons.numGeometries > 1 then polygons.geometryN n else some polygons
  match polygon with
  | none => .error (.runtimeError "Multigeometry returned is NULL")
  | some polygon =>
    match polygon.exteriorRing with
    | none => .error (.runtimeError "Outer ring of polygon/shape is NULL.")
    | some ring => .ok ring

/-- The corners of a ring in the coordinates of the grid. -/
def transformed (ring : List LonLat) : List LonLat :=
  ring.map (prj.transformFromDefault ps.projDefinition)

/-- The box after the rings from number `n` on. The first corner of a ring starts the box or is left
    out. -/
def boundsFrom (n : ℕ) (ret : BoundingBox) : List (List LonLat) → BoundingBox
  | [] => ret
  | ring :: rings =>
    let coords := transformed prj ps ring
    let ret := if n = 0 then .start rd (coords.headD ⟨0, 0⟩) else ret
    boundsFrom (n + 1) (coords.tail.foldl (.extend rd) ret) rings

def getBounds (polygons : Geometry) : Except ReadError BoundingBox := do
  let rings ← (List.range polygons.numGeometries).mapM (outerRing polygons)
  .ok (boundsFrom rd prj ps 0 ⟨0, 0, 0, 0⟩ rings)

/-- How many increments a bound is from the start. -/
def Rounding.position (bound start increment : ℚ) : ℚ := rd.double (rd.double (bound - start) / increment)

/-- The number that the index after the last one is truncated from. -/
def Rounding.afterLast (high start increment : ℚ) : ℚ := rd.double (rd.position high start increment + 1)

/-- The first index that is scanned, with an `int` that holds every result. -/
def scanStart (low start increment : ℚ) : ℤ :=
  let first := trunc (rd.position low start increment)
  if first < 0 then 0 else first

/-- The index after the last one. It is compared as an unsigned number. -/
def scanEnd (high start increment : ℚ) (number : ℤ) : ℤ :=
  let last := trunc (rd.afterLast high start increment)
  if last < 0 ∨ last > number then number else last

/-- A coordinate of a node. -/
def Rounding.coordinate (start increment : ℚ) (i : ℤ) : ℚ := rd.double (start + rd.double (i * increment))

/-- Where a node is. -/
def nodeLocation (i j : ℤ) : LonLat :=
  prj.transformToDefault ps.projDefinition
    ⟨rd.coordinate ps.startX ps.xIncrement i, rd.coordinate ps.startY ps.yIncrement j⟩

/-- The nodes within a box that intersect the polygon. -/
def scan (polygon : Geometry) (bounds : BoundingBox) : List (ℤ × ℤ) :=
  let is := indices (scanStart rd bounds.left ps.startX ps.xIncrement)
    (scanEnd rd bounds.right ps.startX ps.xIncrement ps.xNumber - 1)
  let js := indices (scanStart rd bounds.bottom ps.startY ps.yIncrement)
    (scanEnd rd bounds.top ps.startY ps.yIncrement ps.yNumber - 1)
  js.flatMap fun j => is.filterMap fun i =>
    if polygon.intersects (nodeLocation rd prj ps i j) then some (i, j) else none

def gridPointsInPolygon (polygon : Geometry) : Except ReadError (List (ℤ × ℤ)) := do
  let bounds ← getBounds rd prj ps polygon
  .ok (scan rd prj ps polygon bounds)

end Scan

section Read
variable (ps : PlaceSpecification) (float : List UInt8 → Option ℚ) (d : Directory) (dataId : ℤ)

/-- `BaseDataReader::readPoint`, from the grid's file. -/
def readPointFrom (x y : ℤ) : Except ReadError (Option GridPoint) :=
  if indexRefersToPointOutsideFile ps x y then .ok none
  else do
    let value ← readFloatFromFile float d dataId (ofUnsigned (indexFromXy ps x y))
    .ok (some ⟨x, y, value⟩)

/-- The loop that fills the slots of a list: the points that can be read go to the next slots, until all
    are filled. A slot without a point is uninitialised. -/
def fillSlots (readPoint : ℤ × ℤ → Except ReadError (Option GridPoint)) (count : ℕ) :
    List (ℤ × ℤ) → List (Option GridPoint) → ℕ → Except ReadError (List (Option GridPoint))
  | [], slots, _ => .ok slots
  | q :: points, slots, pos =>
    if pos < count then
      (readPoint q).bind fun
        | some p => fillSlots readPoint count points (slots.set pos (some p)) (pos + 1)
        | none => fillSlots readPoint count points slots pos
    else .ok slots

def maxReturn : ℕ := 100000

def readPolygon (points : List (ℤ × ℤ)) : Except ReadError (List (Option GridPoint)) :=
  let noOfPointsToReturn := points.countP fun q => !indexRefersToPointOutsideFile ps q.1 q.2
  if noOfPointsToReturn > maxReturn then
    .error (.runtimeError ("Too many rows to return! A single field will return " ++
      s!"{noOfPointsToReturn} rows, but maximum is {maxReturn}"))
  else
    fillSlots (fun q => readPointFrom ps float d dataId q.1 q.2) noOfPointsToReturn points
      (List.replicate noOfPointsToReturn none) 0

/-- `PolygonReader::read`. -/
def polygonRead (rd : Rounding) (prj : Projections) (location : Geometry) :
    Except ReadError (List (Option GridPoint)) := do
  let points ← gridPointsInPolygon rd prj ps location
  if points.length > 0 then readPolygon ps float d dataId points else .ok []

/-! ### Filling the slots -/

/-- When nothing that is read throws and there is a slot for each point that can be read, the loop fills
    every slot that is left, in the points' order. -/
theorem fillSlots_eq {readPoint : ℤ × ℤ → Except ReadError (Option GridPoint)}
    {value : ℤ × ℤ → Option GridPoint} : ∀ {points : List (ℤ × ℤ)} (done : List GridPoint),
    (∀ q ∈ points, readPoint q = .ok (value q)) →
    fillSlots readPoint (done.length + (points.filterMap value).length) points
        (done.map some ++ List.replicate (points.filterMap value).length none) done.length =
      .ok ((done ++ points.filterMap value).map some)
  | [], done, _ => by simp [fillSlots]
  | q :: points, done, hread => by
    have hlater : ∀ r ∈ points, readPoint r = .ok (value r) := fun r hr =>
      hread r (List.mem_cons_of_mem _ hr)
    rw [fillSlots, hread q List.mem_cons_self]
    cases hq : value q with
    | none =>
      rw [List.filterMap_cons_none hq]
      by_cases hfull : points.filterMap value = []
      · simp [hfull]
      · have hslot := List.length_pos_iff.2 hfull
        rw [if_pos (by omega)]
        exact fillSlots_eq done hlater
    | some p =>
      rw [List.filterMap_cons_some hq, List.length_cons, if_pos (by omega)]
      have hset : (done.map some ++ List.replicate ((points.filterMap value).length + 1) none).set
          done.length (some p) =
            (done ++ [p]).map some ++ List.replicate (points.filterMap value).length none := by
        rw [List.set_append_right _ _ (by simp), List.replicate_succ]
        simp
      have hnext := fillSlots_eq (done ++ [p]) hlater
      rw [List.length_append, List.length_singleton] at hnext
      rw [← hset] at hnext
      have hcount : done.length + ((points.filterMap value).length + 1) =
          done.length + 1 + (points.filterMap value).length := by omega
      rw [hcount]
      simpa [Except.bind] using hnext

/-- The number at an index of a file of floats. -/
def blobValue (data : List UInt8) (index : ℤ) : Option ℚ := float ((data.drop (4 * index).toNat).take 4)

variable {ps float d dataId}

/-- The node of a grid, from its file, which holds a float for each node. -/
theorem readPointFrom_eq {data : List UInt8} (hdata : d.content dataId = some data)
    (hsize : (data.length : ℤ) = 4 * (ps.xNumber * ps.yNumber)) (hint : data.length < 2 ^ 31) (x y : ℤ) :
    readPointFrom ps float d dataId x y = .ok (readPoint ps (blobValue float data) x y) := by
  rw [readPointFrom, readPoint]
  by_cases hout : indexRefersToPointOutsideFile ps x y
  · rw [if_pos hout, if_pos hout]
  · rw [if_neg hout, if_neg hout]
    simp only [indexRefersToPointOutsideFile, decide_eq_true_eq, not_or, not_lt, not_le] at hout
    obtain ⟨hx, hy, hxNumber, hyNumber⟩ := hout
    have hlow : 0 ≤ indexFromXy ps x y := by
      unfold indexFromXy
      nlinarith
    have hhigh : 4 * indexFromXy ps x y + 4 ≤ data.length := by
      unfold indexFromXy
      nlinarith
    have hindex : ofUnsigned (indexFromXy ps x y) = indexFromXy ps x y :=
      ofUnsigned_eq hlow (by omega)
    rw [hindex, (readFloatFromFile_of_content float hdata ⟨by omega, by omega⟩).1 ⟨hlow, hhigh⟩]
    rfl

theorem countP_inside (points : List (ℤ × ℤ)) (value : ℤ → Option ℚ) :
    points.countP (fun q => !indexRefersToPointOutsideFile ps q.1 q.2) =
      (points.filterMap fun q => readPoint ps value q.1 q.2).length := by
  induction points with
  | nil => rfl
  | cons q points ih =>
    rw [List.countP_cons, ih, List.filterMap_cons, readPoint]
    by_cases hout : indexRefersToPointOutsideFile ps q.1 q.2 <;> simp [hout]

/-- What the points that are nodes read as. -/
theorem filterMap_readPoint (points : List (ℤ × ℤ)) (value : ℤ → Option ℚ) :
    (points.filterMap fun q => readPoint ps value q.1 q.2) =
      (points.filter fun q => InGrid ps q.1 q.2).map fun q =>
        ⟨q.1, q.2, value (indexFromXy ps q.1 q.2)⟩ := by
  rw [← List.filterMap_eq_map, List.filterMap_filter]
  refine List.filterMap_congr fun q _ => ?_
  by_cases hgrid : InGrid ps q.1 q.2
  · rw [readPoint_eq_some_iff.2 ⟨hgrid, rfl⟩]
    simp [hgrid]
  · have hnone : readPoint ps value q.1 q.2 = none :=
      Option.eq_none_iff_forall_ne_some.2 fun p hp => hgrid (readPoint_eq_some_iff.1 hp).1
    simp [hnone, hgrid]

/-- At most 100000 nodes are read, each into its slot. -/
theorem readPolygon_eq {data : List UInt8} (hdata : d.content dataId = some data)
    (hsize : (data.length : ℤ) = 4 * (ps.xNumber * ps.yNumber)) (hint : data.length < 2 ^ 31)
    (points : List (ℤ × ℤ)) :
    ((points.filter fun q => InGrid ps q.1 q.2).length ≤ maxReturn →
      readPolygon ps float d dataId points = .ok ((points.filter fun q => InGrid ps q.1 q.2).map fun q =>
        some ⟨q.1, q.2, blobValue float data (indexFromXy ps q.1 q.2)⟩)) ∧
    (maxReturn < (points.filter fun q => InGrid ps q.1 q.2).length →
      ∃ e, readPolygon ps float d dataId points = .error e) := by
  have hpoints := @filterMap_readPoint ps points (blobValue float data)
  have hcount := @countP_inside ps points (blobValue float data)
  have hlen := congrArg List.length hpoints
  rw [List.length_map] at hlen
  have hread : ∀ q ∈ points, readPointFrom ps float d dataId q.1 q.2 =
      .ok (readPoint ps (blobValue float data) q.1 q.2) := fun q _ =>
    readPointFrom_eq hdata hsize hint q.1 q.2
  have hfill := fillSlots_eq [] hread
  rw [readPolygon, hcount, hlen]
  constructor
  · intro hle
    rw [if_neg (not_lt.2 hle)]
    simp only [hpoints, List.length_nil, zero_add, List.map_nil, List.nil_append, List.length_map,
      List.map_map] at hfill
    exact hfill
  · intro hgt
    rw [if_pos hgt]
    exact ⟨_, rfl⟩

/-- For every grid, every file with a float for each node and every list of indices: when at most 100000
    of them are nodes, the list that is returned has a slot for each of these, in their order, and every
    slot holds the node's index and its float. Otherwise it is an error. -/
theorem readPolygon_fills {data : List UInt8} (hdata : d.content dataId = some data)
    (hsize : (data.length : ℤ) = 4 * (ps.xNumber * ps.yNumber)) (hint : data.length < 2 ^ 31)
    (points : List (ℤ × ℤ)) :
    if (points.filter fun q => InGrid ps q.1 q.2).length ≤ 100000 then
      readPolygon ps float d dataId points =
        .ok ((points.filter fun q => InGrid ps q.1 q.2).map fun q =>
          some ⟨q.1, q.2, float ((data.drop (4 * (q.2 * ps.xNumber + q.1)).toNat).take 4)⟩)
    else ∃ e, readPolygon ps float d dataId points = .error e := by
  obtain ⟨hfill, herror⟩ := @readPolygon_eq ps float d dataId data hdata hsize hint points
  split
  · next hle => exact hfill hle
  · next hgt => exact herror (not_le.1 hgt)

/-- A directory with the file of one grid. -/
def gridFile (data : List UInt8) : Directory := FileStep.apply noFiles (.create ⟨7, data, 0⟩)

/-- Two nodes with the values 1 and 2, the second asked for twice. -/
theorem readPolygon_fills_pair :
    if (([(0, 0), (5, 0), (1, 0), (-1, 0), (1, 0)] : List (ℤ × ℤ)).filter fun q =>
        InGrid ⟨0, 0, 2, 1, 1, 1, 4030, ""⟩ q.1 q.2).length ≤ 100000 then
      readPolygon ⟨0, 0, 2, 1, 1, 1, 4030, ""⟩ (fun b => if b = [0, 0, 128, 63] then some 1 else
          if b = [0, 0, 0, 64] then some 2 else none)
        (gridFile [0, 0, 128, 63, 0, 0, 0, 64]) 7
        [(0, 0), (5, 0), (1, 0), (-1, 0), (1, 0)] =
      .ok ((([(0, 0), (5, 0), (1, 0), (-1, 0), (1, 0)] : List (ℤ × ℤ)).filter fun q =>
          InGrid ⟨0, 0, 2, 1, 1, 1, 4030, ""⟩ q.1 q.2).map fun q =>
        some ⟨q.1, q.2, (fun b => if b = [0, 0, 128, 63] then some 1 else
          if b = [0, 0, 0, 64] then some 2 else none)
          ((([0, 0, 128, 63, 0, 0, 0, 64] : List UInt8).drop (4 * (q.2 * 2 + q.1)).toNat).take 4)⟩)
    else ∃ e, readPolygon ⟨0, 0, 2, 1, 1, 1, 4030, ""⟩ (fun b => if b = [0, 0, 128, 63] then some 1 else
          if b = [0, 0, 0, 64] then some 2 else none)
        (gridFile [0, 0, 128, 63, 0, 0, 0, 64]) 7
        [(0, 0), (5, 0), (1, 0), (-1, 0), (1, 0)] = .error e :=
  readPolygon_fills (by decide) (by decide) (by decide) _

end Read

end Wdb.Read
