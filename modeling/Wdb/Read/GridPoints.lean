import Wdb.Lib.HalfAway
import Wdb.Read.WciReadFloat

/-! The nodes of a grid.

    `wdbTransform` says where a node is, `rTransform` where a location is in the grid, and
    `SinglePointReader` reads the nodes at or around that place. Numbers are exact, and the projections
    are given. A value that is not a number is `none`. -/

namespace Wdb.Read

structure LonLat where
  lon : ℚ
  lat : ℚ
  deriving DecidableEq

/-- `enum InterpolationType`. -/
inductive InterpolationType where
  | exact | nearest | surround | bilinear
  deriving DecidableEq

/-! ### Coordinates -/

/-- The integral part that `modf` gives, and the cast to `int`. -/
def trunc (q : ℚ) : ℤ := if q < 0 then ⌈q⌉ else ⌊q⌋

/-- `wdb::round`. -/
def wdbRound (value : ℚ) (nPrecision : ℕ) : ℚ :=
  let doComplete5 := value * 10 ^ (nPrecision + 1)
  let doComplete5 := if value < 0 then doComplete5 - 5 else doComplete5 + 5
  trunc (doComplete5 / 10) / 10 ^ nPrecision

/-- The projections, from a definition to longitudes and latitudes in degrees and back. -/
structure Projections where
  transformToDefault : String → LonLat → LonLat
  transformFromDefault : String → LonLat → LonLat

/-- The definition is that of longitudes and latitudes already. -/
def Projections.longlat : Projections := ⟨fun _ p => p, fun _ p => p⟩

section Transform
variable (prj : Projections)

def wdbTransform (i j : ℚ) (p : PlaceSpecification) : LonLat :=
  let ret : LonLat := ⟨p.startX + i * p.xIncrement, p.startY + j * p.yIncrement⟩
  let ret := prj.transformToDefault p.projDefinition ret
  ⟨wdbRound ret.lon 4, wdbRound ret.lat 4⟩

def rTransform (coords : LonLat) (p : PlaceSpecification) : LonLat :=
  let ret := prj.transformFromDefault p.projDefinition coords
  ⟨(ret.lon - p.startX) / p.xIncrement, (ret.lat - p.startY) / p.yIncrement⟩

end Transform

/-! ### Reading -/

/-- A node that is read from a file. -/
structure GridPoint where
  x : ℤ
  y : ℤ
  value : Option ℚ
  deriving DecidableEq

/-- What is read: nodes, each at its own place, or the nodes around a location and, when there are enough,
    a value at the location itself. -/
inductive Reading where
  | points (nodes : List GridPoint)
  | bilinear (surrounding : List GridPoint) (value : Option (Option ℚ))
  deriving DecidableEq

/-- `math::round`, in exact arithmetic and with an `int` that holds every result. -/
def mathRound (val : ℚ) : ℤ := ⌊val + 1 / 2⌋

def distanceToNearestInteger (a : ℚ) : ℚ := |a - mathRound a|

/-- `interpolate::linear`. -/
def linear (low high : Option ℚ) (pos : ℚ) : Option ℚ :=
  low.bind fun low => high.map fun high => low * (1 - pos) + high * pos

/-- `interpolate::bilinear`. -/
def bilinear (dl : List GridPoint) (exactX exactY : ℚ) : Option ℚ :=
  let value (n : ℕ) := dl[n]?.bind (·.value)
  let x := exactX - trunc exactX
  let y := exactY - trunc exactY
  linear (linear (value 0) (value 1) x) (linear (value 2) (value 3) x) y

section Reader
variable (ps : PlaceSpecification) (readFloatFromFile : ℤ → Option ℚ)

def indexFromXy (x y : ℤ) : ℤ := y * ps.xNumber + x

def indexRefersToPointOutsideFile (x y : ℤ) : Bool := x < 0 ∨ y < 0 ∨ x ≥ ps.xNumber ∨ y ≥ ps.yNumber

def readPoint (x y : ℤ) : Option GridPoint :=
  if indexRefersToPointOutsideFile ps x y then none
  else some ⟨x, y, readFloatFromFile (indexFromXy ps x y)⟩

def readNearest_ (exactX exactY : ℚ) : List GridPoint :=
  (readPoint ps readFloatFromFile (mathRound exactX) (mathRound exactY)).toList

def readExact_ (exactX exactY : ℚ) : List GridPoint :=
  if distanceToNearestInteger exactX > 1 / 1000 ∨ distanceToNearestInteger exactY > 1 / 1000 then []
  else readNearest_ ps readFloatFromFile exactX exactY

/-- The indices `start`, …, `stop`. -/
def indices (start stop : ℤ) : List ℤ := (List.range (stop + 1 - start).toNat).map fun n => start + n

/-- On a grid line the location is moved by a half, so that there are nodes on both sides. -/
def readSurround_ (exactX exactY : ℚ) (interpolationParam : ℤ) : List GridPoint :=
  let exactX := if exactX = trunc exactX then exactX + 1 / 2 else exactX
  let exactY := if exactY = trunc exactY then exactY + 1 / 2 else exactY
  let xs := indices (⌊exactX⌋ - (interpolationParam - 1)) (⌈exactX⌉ + (interpolationParam - 1))
  let ys := indices (⌊exactY⌋ - (interpolationParam - 1)) (⌈exactY⌉ + (interpolationParam - 1))
  ys.flatMap fun y => xs.filterMap fun x => readPoint ps readFloatFromFile x y

/-- `SinglePointReader::read`, at an exact index. -/
def singlePointRead (interpolation : InterpolationType) (interpolationParam : ℤ) (exactIndex : LonLat) :
    Reading :=
  match interpolation with
  | .exact => .points (readExact_ ps readFloatFromFile exactIndex.lon exactIndex.lat)
  | .nearest => .points (readNearest_ ps readFloatFromFile exactIndex.lon exactIndex.lat)
  | .surround =>
    .points (readSurround_ ps readFloatFromFile exactIndex.lon exactIndex.lat interpolationParam)
  | .bilinear =>
    let surroundingPoints := readSurround_ ps readFloatFromFile exactIndex.lon exactIndex.lat 1
    .bilinear surroundingPoints (if surroundingPoints.length < 4 then none
      else some (bilinear surroundingPoints exactIndex.lon exactIndex.lat))

end Reader

/-! ### A node at the place that is reported for it -/

/-- The nearest integer is a given one and near enough exactly when the given one is near enough. -/
theorem nearest_iff (e : ℚ) (i : ℤ) :
    ¬ distanceToNearestInteger e > 1 / 1000 ∧ mathRound e = i ↔ |e - i| ≤ 1 / 1000 := by
  constructor
  · rintro ⟨hnear, rfl⟩
    exact not_lt.1 hnear
  · intro hnear
    obtain ⟨hbelow, habove⟩ := abs_le.1 hnear
    have hround : mathRound e = i := by
      rw [mathRound, Int.floor_eq_iff]
      constructor <;> linarith
    rw [distanceToNearestInteger, hround]
    exact ⟨not_lt.2 hnear, rfl⟩

/-- How far the index of a reported coordinate is from the node's. -/
theorem index_sub {start increment : ℚ} (h : increment ≠ 0) (coordinate : ℚ) (i : ℤ) :
    (coordinate - start) / increment - i = (coordinate - (start + i * increment)) / increment := by
  field_simp
  ring

/-- A node is read at a coordinate exactly when the coordinate is within a thousandth of the increment. -/
theorem coordinate_iff {start increment : ℚ} (h : increment ≠ 0) (coordinate : ℚ) (i : ℤ) :
    ¬ distanceToNearestInteger ((coordinate - start) / increment) > 1 / 1000 ∧
      mathRound ((coordinate - start) / increment) = i ↔
    |coordinate - (start + i * increment)| ≤ |increment| / 1000 := by
  rw [nearest_iff, index_sub h, abs_div, div_le_iff₀ (abs_pos.2 h), one_div, inv_mul_eq_div]

theorem readPoint_eq_some {ps : PlaceSpecification} {readFloatFromFile : ℤ → Option ℚ} {x y : ℤ}
    {p : GridPoint} (h : readPoint ps readFloatFromFile x y = some p) : p.x = x ∧ p.y = y := by
  unfold readPoint at h
  split at h
  · cases h
  · cases h
    exact ⟨rfl, rfl⟩

/-- `wdb::round` rounds to the nearest number of that many decimals, ties away from zero. -/
theorem wdbRound_eq (value : ℚ) (nPrecision : ℕ) :
    wdbRound value nPrecision = HalfAway.rounded (10 ^ nPrecision) value := by
  have hpos : (0 : ℚ) < 10 ^ nPrecision := by positivity
  have hten : value * 10 ^ (nPrecision + 1) = value * 10 ^ nPrecision * 10 := by ring
  have hsign : value < 0 ↔ value * 10 ^ nPrecision < 0 := by
    rw [mul_neg_iff]
    simp [hpos, hpos.not_gt]
  simp only [wdbRound, HalfAway.rounded, hten, hsign]
  generalize value * 10 ^ nPrecision = t
  congr 2
  -- the signed 5 in the next decimal is a half of the unit
  split
  · next hneg =>
    have hhalf : (t * 10 - 5) / 10 = -(-t + 1 / 2) := by ring
    rw [hhalf, trunc, if_pos (by linarith), HalfAway.nearest_of_neg hneg, round_eq, Int.ceil_neg]
  · next hnonneg =>
    have hhalf : (t * 10 + 5) / 10 = t + 1 / 2 := by ring
    rw [hhalf, trunc, if_neg (by linarith), HalfAway.nearest_of_nonneg (not_lt.1 hnonneg), round_eq]

theorem abs_wdbRound_sub_le (value : ℚ) (nPrecision : ℕ) :
    |wdbRound value nPrecision - value| ≤ 1 / 2 / 10 ^ nPrecision := by
  have hnear := (HalfAway.rounds_rounded (b := 10 ^ nPrecision) (by positivity) value).near
  rwa [wdbRound_eq, div_right_comm]

/-- `wdb::round` gives a multiple of the last decimal at most half of it away, ties away from zero; it is odd,
    monotone and idempotent. -/
theorem wdbRound_rounds (nPrecision : ℕ) :
    (∀ value, HalfAway.Rounds (10 ^ nPrecision) value (wdbRound value nPrecision)) ∧
    (∀ value, wdbRound (-value) nPrecision = -wdbRound value nPrecision) ∧
    (Monotone fun value => wdbRound value nPrecision) ∧
    ∀ value, wdbRound (wdbRound value nPrecision) nPrecision = wdbRound value nPrecision := by
  have hpos : (0 : ℚ) < 10 ^ nPrecision := by positivity
  simp only [wdbRound_eq]
  exact ⟨HalfAway.rounds_rounded hpos, HalfAway.rounded_neg _, HalfAway.rounded_mono hpos,
    HalfAway.rounded_rounded hpos⟩

/-- A node is read with `exact` when both nearest integers are its indices and near enough. -/
theorem readExact_eq_singleton_iff {ps : PlaceSpecification} {readFloatFromFile : ℤ → Option ℚ}
    {exactX exactY : ℚ} {i j : ℤ} (hi : 0 ≤ i ∧ i < ps.xNumber) (hj : 0 ≤ j ∧ j < ps.yNumber) :
    readExact_ ps readFloatFromFile exactX exactY = [⟨i, j, readFloatFromFile (indexFromXy ps i j)⟩] ↔
      (¬ distanceToNearestInteger exactX > 1 / 1000 ∧ mathRound exactX = i) ∧
        ¬ distanceToNearestInteger exactY > 1 / 1000 ∧ mathRound exactY = j := by
  have hread : readPoint ps readFloatFromFile i j =
      some ⟨i, j, readFloatFromFile (indexFromXy ps i j)⟩ := by
    rw [readPoint, if_neg]
    simp [indexRefersToPointOutsideFile]
    omega
  unfold readExact_ readNearest_
  by_cases hnear : distanceToNearestInteger exactX > 1 / 1000 ∨ distanceToNearestInteger exactY > 1 / 1000
  · rw [if_pos hnear]
    refine iff_of_false (List.cons_ne_nil _ _).symm ?_
    rintro ⟨⟨hxnear, -⟩, hynear, -⟩
    exact hnear.elim hxnear hynear
  · obtain ⟨hxnear, hynear⟩ := not_or.1 hnear
    rw [if_neg hnear, and_iff_right hxnear, and_iff_right hynear, Option.toList_eq_singleton_iff]
    constructor
    · intro h
      obtain ⟨hxi, hyj⟩ := readPoint_eq_some h
      exact ⟨hxi.symm, hyj.symm⟩
    · rintro ⟨hxi, hyj⟩
      rw [hxi, hyj, hread]

/-- Reading with `exact` at the place that is reported for a node returns the node and its value, and
    nothing else, exactly when the place is rounded by no more than a thousandth of the increments. -/
theorem readExact_reported_iff (ps : PlaceSpecification) (readFloatFromFile : ℤ → Option ℚ)
    (interpolationParam : ℤ) (i j : ℤ) (hx : ps.xIncrement ≠ 0) (hy : ps.yIncrement ≠ 0)
    (hi : 0 ≤ i ∧ i < ps.xNumber) (hj : 0 ≤ j ∧ j < ps.yNumber) :
    singlePointRead ps readFloatFromFile .exact interpolationParam
        (rTransform .longlat (wdbTransform .longlat i j ps) ps) =
      .points [⟨i, j, readFloatFromFile (indexFromXy ps i j)⟩] ↔
    |wdbRound (ps.startX + i * ps.xIncrement) 4 - (ps.startX + i * ps.xIncrement)| ≤
        |ps.xIncrement| / 1000 ∧
      |wdbRound (ps.startY + j * ps.yIncrement) 4 - (ps.startY + j * ps.yIncrement)| ≤
        |ps.yIncrement| / 1000 := by
  rw [← coordinate_iff hx, ← coordinate_iff hy, ← readExact_eq_singleton_iff hi hj, singlePointRead,
    Reading.points.injEq]
  rfl

/-- So it is for every node of a grid with increments of a twentieth of a degree or more. -/
theorem readExact_reported_of_coarse (ps : PlaceSpecification) (readFloatFromFile : ℤ → Option ℚ)
    (interpolationParam : ℤ) {i j : ℤ} (hx : 1 / 20 ≤ |ps.xIncrement|) (hy : 1 / 20 ≤ |ps.yIncrement|)
    (hi : 0 ≤ i ∧ i < ps.xNumber) (hj : 0 ≤ j ∧ j < ps.yNumber) :
    singlePointRead ps readFloatFromFile .exact interpolationParam
        (rTransform .longlat (wdbTransform .longlat i j ps) ps) =
      .points [⟨i, j, readFloatFromFile (indexFromXy ps i j)⟩] := by
  have hnonzero : ∀ {increment : ℚ}, 1 / 20 ≤ |increment| → increment ≠ 0 := by
    rintro increment h rfl
    norm_num at h
  have hround : ∀ {increment : ℚ}, 1 / 20 ≤ |increment| → ∀ coordinate : ℚ,
      |wdbRound coordinate 4 - coordinate| ≤ |increment| / 1000 := by
    intro increment h coordinate
    refine (abs_wdbRound_sub_le coordinate 4).trans ?_
    norm_num at h ⊢
    linarith
  rw [singlePointRead, Reading.points.injEq]
  exact (readExact_eq_singleton_iff hi hj).2 ⟨(coordinate_iff (hnonzero hx) _ i).2 (hround hx _),
    (coordinate_iff (hnonzero hy) _ j).2 (hround hy _)⟩

/-- A grid of two nodes, a 64th of a degree apart. -/
def fineGrid : PlaceSpecification := ⟨10, 60, 2, 1, 1 / 64, 1 / 64, 4030, "+proj=longlat"⟩

/-- Its second node is reported at 10.0156 instead of 10.015625, and nothing is read there. -/
theorem readExact_reported_fine :
    singlePointRead fineGrid (fun _ => some 0) .exact 1
        (rTransform .longlat (wdbTransform .longlat 1 0 fineGrid) fineGrid) = .points [] := by
  decide +kernel

/-- The first node is read. -/
theorem readExact_reported_first :
    singlePointRead fineGrid (fun _ => some 0) .exact 1
        (rTransform .longlat (wdbTransform .longlat (0 : ℤ) (0 : ℤ) fineGrid) fineGrid) =
      .points [⟨0, 0, some 0⟩] :=
  (readExact_reported_iff fineGrid (fun _ => some 0) 1 0 0 (by decide +kernel) (by decide +kernel)
    (by decide) (by decide)).2 (by decide +kernel)

end Wdb.Read
