import Wdb.Read.PolygonReader

/-! Which nodes the scan of a polygon comes to.

    The bounds are divided by the increments and truncated, the range is cut to the grid, and the end is
    compared as an unsigned number. In exact arithmetic every node within the bounds is in the range for a
    positive increment; for a negative one the bounds are the wrong way round. Rounded bounds are the
    bounds of the rounded corners. -/

namespace Wdb.Read

/-- The index of a node is in the range that is scanned for two bounds: before truncation the first index
    is not after it, and the last one is not before it or wraps. -/
structure Reached (rd : Rounding) (low high start increment : ℚ) (i : ℤ) : Prop where
  fromStart : rd.position low start increment < i + 1
  toEnd : i + 1 ≤ rd.afterLast high start increment ∨ rd.afterLast high start increment ≤ -1

/-- The same in exact arithmetic. -/
structure Covered (low high start increment : ℚ) (i : ℤ) : Prop where
  fromStart : (low - start) / increment < i + 1
  toEnd : i ≤ (high - start) / increment ∨ (high - start) / increment ≤ -2

theorem reached_exact_iff {low high start increment : ℚ} {i : ℤ} :
    Reached .exact low high start increment i ↔ Covered low high start increment i := by
  have hlast : (i : ℚ) + 1 ≤ (high - start) / increment + 1 ↔ (i : ℚ) ≤ (high - start) / increment := by
    constructor <;> intro h <;> linarith
  have hwraps : (high - start) / increment + 1 ≤ -1 ↔ (high - start) / increment ≤ -2 := by
    constructor <;> intro h <;> linarith
  have hend := or_congr hlast hwraps
  exact ⟨fun h => ⟨h.fromStart, hend.1 h.toEnd⟩, fun h => ⟨h.fromStart, hend.2 h.toEnd⟩⟩

/-- Two bounds of a coordinate are its least and its greatest value. -/
structure BoundingBox.Bounds (b : BoundingBox) (coords : List LonLat) : Prop where
  left : IsLeast {x | ∃ v ∈ coords, v.lon = x} b.left
  bottom : IsLeast {y | ∃ v ∈ coords, v.lat = y} b.bottom
  top : IsGreatest {y | ∃ v ∈ coords, v.lat = y} b.top
  right : IsGreatest {x | ∃ v ∈ coords, v.lon = x} b.right

/-! ### The range -/

section Range
variable (rd : Rounding)

theorem scanStart_le_iff (low start increment : ℚ) (i : ℤ) :
    scanStart rd low start increment ≤ i ↔ 0 ≤ i ∧ rd.position low start increment < i + 1 := by
  generalize hq : rd.position low start increment = q
  simp only [scanStart, hq, trunc]
  by_cases hneg : q < 0
  · have hceil : ⌈q⌉ ≤ 0 := Int.ceil_le.2 (by exact_mod_cast hneg.le)
    have hstart : (if (if q < 0 then ⌈q⌉ else ⌊q⌋) < 0 then 0 else if q < 0 then ⌈q⌉ else ⌊q⌋) = 0 := by
      rw [if_pos hneg]
      split <;> omega
    rw [hstart]
    refine ⟨fun hi => ⟨hi, ?_⟩, fun hi => hi.1⟩
    have hi : (0 : ℚ) ≤ i := by exact_mod_cast hi
    linarith
  · have hfloor : 0 ≤ ⌊q⌋ := Int.floor_nonneg.2 (not_lt.1 hneg)
    rw [if_neg hneg, if_neg (not_lt.2 hfloor), ← Int.floor_le_iff]
    omega

theorem lt_scanEnd_iff (high start increment : ℚ) (number : ℤ) {i : ℤ} (hi : 0 ≤ i) :
    i < scanEnd rd high start increment number ↔ i < number ∧
      (i + 1 ≤ rd.afterLast high start increment ∨ rd.afterLast high start increment ≤ -1) := by
  generalize hr : rd.afterLast high start increment = r
  have hiq : (0 : ℚ) ≤ i := by exact_mod_cast hi
  simp only [scanEnd, hr, trunc]
  by_cases hneg : r < 0
  · -- the end is truncated upwards: to a negative number, which is greater than any, or to zero
    have hceil : ⌈r⌉ ≤ 0 := Int.ceil_le.2 (by exact_mod_cast hneg.le)
    have hlast : ⌈r⌉ < 0 ↔ r ≤ -1 := by
      rw [← Int.le_sub_one_iff, Int.ceil_le]
      norm_num
    have hir : ¬ (i : ℚ) + 1 ≤ r := by linarith
    rw [if_pos hneg]
    simp only [hir, false_or]
    by_cases hone : r ≤ -1
    · rw [if_pos (Or.inl (hlast.2 hone))]
      exact (and_iff_left hone).symm
    · have hzero : ¬ ⌈r⌉ < 0 := fun h => hone (hlast.1 h)
      split <;> simp only [hone, and_false, iff_false] <;> omega
  · have hone : ¬ r ≤ -1 := by linarith
    have hfloor : 0 ≤ ⌊r⌋ := Int.floor_nonneg.2 (not_lt.1 hneg)
    have hir : (i : ℚ) + 1 ≤ r ↔ i < ⌊r⌋ := by
      rw [← Int.add_one_le_iff, Int.le_floor]
      norm_cast
    rw [if_neg hneg]
    simp only [hone, or_false, hir]
    split <;> omega

end Range

section Scan
variable {rd : Rounding} {prj : Projections} {ps : PlaceSpecification} {polygon : Geometry}
  {bounds : BoundingBox}

/-- What is found: the nodes in the range that intersect the polygon. -/
theorem mem_scan {i j : ℤ} : (i, j) ∈ scan rd prj ps polygon bounds ↔
    InGrid ps i j ∧ polygon.intersects (nodeLocation rd prj ps i j) ∧
      Reached rd bounds.left bounds.right ps.startX ps.xIncrement i ∧
      Reached rd bounds.bottom bounds.top ps.startY ps.yIncrement j := by
  have hrange (low high start increment : ℚ) (number n : ℤ) :
      n ∈ indices (scanStart rd low start increment) (scanEnd rd high start increment number - 1) ↔
        (0 ≤ n ∧ n < number) ∧ Reached rd low high start increment n := by
    rw [mem_indices, scanStart_le_iff, Int.le_sub_one_iff]
    constructor
    · rintro ⟨⟨hn, hstart⟩, hend⟩
      obtain ⟨hnumber, hend⟩ := (lt_scanEnd_iff rd high start increment number hn).1 hend
      exact ⟨⟨hn, hnumber⟩, hstart, hend⟩
    · rintro ⟨⟨hn, hnumber⟩, hstart, hend⟩
      exact ⟨⟨hn, hstart⟩, (lt_scanEnd_iff rd high start increment number hn).2 ⟨hnumber, hend⟩⟩
  simp only [scan, List.mem_flatMap, List.mem_filterMap, hrange, InGrid]
  constructor
  · rintro ⟨j', ⟨hj, hcovj⟩, i', ⟨hi, hcovi⟩, hmem⟩
    split at hmem
    · next hin =>
      cases hmem
      exact ⟨⟨hi, hj⟩, hin, hcovi, hcovj⟩
    · cases hmem
  · rintro ⟨⟨hi, hj⟩, hin, hcovi, hcovj⟩
    exact ⟨j, ⟨hj, hcovj⟩, i, ⟨hi, hcovi⟩, if_pos hin⟩

/-- It is found row by row, each node once. -/
theorem pairwise_scan : (scan rd prj ps polygon bounds).Pairwise fun p q =>
    p.2 < q.2 ∨ p.2 = q.2 ∧ p.1 < q.1 := by
  have hmem {i j : ℤ} {q : ℤ × ℤ}
      (h : (if polygon.intersects (nodeLocation rd prj ps i j) then some (i, j) else none) = some q) :
      q = (i, j) := by
    split at h
    · exact (Option.some.inj h).symm
    · cases h
  rw [scan, List.pairwise_flatMap]
  refine ⟨fun j _ => List.pairwise_filterMap.2 ((pairwise_indices _ _).imp fun hlt p hp q hq => ?_),
    (pairwise_indices _ _).imp fun hlt p hp q hq => ?_⟩
  · rw [hmem hp, hmem hq]
    exact Or.inr ⟨rfl, hlt⟩
  · obtain ⟨_, _, hp⟩ := List.mem_filterMap.1 hp
    obtain ⟨_, _, hq⟩ := List.mem_filterMap.1 hq
    rw [hmem hp, hmem hq]
    exact Or.inl hlt

end Scan

/-! ### The bounds -/

section Bounds
variable {rd : Rounding} {b : BoundingBox} {coords : List LonLat}

theorem BoundingBox.Bounds.left_le_right (h : b.Bounds coords) : b.left ≤ b.right :=
  h.right.2 h.left.1

theorem BoundingBox.Bounds.bottom_le_top (h : b.Bounds coords) : b.bottom ≤ b.top :=
  h.top.2 h.bottom.1

/-- The members of a box are `float`s. -/
structure BoundingBox.Single (rd : Rounding) (b : BoundingBox) : Prop where
  left : rd.float b.left = b.left
  bottom : rd.float b.bottom = b.bottom
  top : rd.float b.top = b.top
  right : rd.float b.right = b.right

theorem BoundingBox.Bounds.single (h : b.Bounds (coords.map rd.corner)) : b.Single rd := by
  have hfloat {f : LonLat → ℚ} (hf : ∀ v, f (rd.corner v) = rd.float (f v)) {x : ℚ}
      (hx : ∃ v ∈ coords.map rd.corner, f v = x) : rd.float x = x := by
    obtain ⟨v, hv, rfl⟩ := hx
    obtain ⟨w, -, rfl⟩ := List.mem_map.1 hv
    rw [hf, rd.float_float]
  exact ⟨hfloat (fun _ => rfl) h.left.1, hfloat (fun _ => rfl) h.bottom.1, hfloat (fun _ => rfl) h.top.1,
    hfloat (fun _ => rfl) h.right.1⟩

/-- A corner moves a bound only outwards. The other bound of the coordinate is not looked at then. -/
theorem extend_eq (hb : b.Single rd) (hx : b.left ≤ b.right) (hy : b.bottom ≤ b.top) (v : LonLat) :
    b.extend rd v = ⟨min (rd.float v.lon) b.left, min (rd.float v.lat) b.bottom, max (rd.float v.lat) b.top,
      max (rd.float v.lon) b.right⟩ := by
  -- a number below a `float` is not rounded to one above it, and the other way round
  have hbelow {x y : ℚ} (hy : rd.float y = y) (h : x ≤ y) : rd.float x ≤ y := hy ▸ rd.float_mono h
  have habove {x y : ℚ} (hy : rd.float y = y) (h : y ≤ x) : y ≤ rd.float x := hy ▸ rd.float_mono h
  have hlon : (if v.lon < b.left then { b with left := rd.float v.lon }
      else if v.lon > b.right then { b with right := rd.float v.lon } else b) =
        ⟨min (rd.float v.lon) b.left, b.bottom, b.top, max (rd.float v.lon) b.right⟩ := by
    rcases lt_or_ge v.lon b.left with h | h
    · have hleft := hbelow hb.left h.le
      rw [if_pos h, min_eq_left hleft, max_eq_right (hleft.trans hx)]
    · rw [if_neg (not_lt.2 h), min_eq_right (habove hb.left h)]
      rcases lt_or_ge b.right v.lon with h' | h'
      · rw [if_pos h', max_eq_left (habove hb.right h'.le)]
      · rw [if_neg (not_lt.2 h'), max_eq_right (hbelow hb.right h')]
  simp only [BoundingBox.extend, hlon]
  rcases lt_or_ge v.lat b.bottom with h | h
  · have hbottom := hbelow hb.bottom h.le
    rw [if_pos h, min_eq_left hbottom, max_eq_right (hbottom.trans hy)]
  · rw [if_neg (not_lt.2 h), min_eq_right (habove hb.bottom h)]
    rcases lt_or_ge b.top v.lat with h' | h'
    · rw [if_pos h', max_eq_left (habove hb.top h'.le)]
    · rw [if_neg (not_lt.2 h'), max_eq_right (hbelow hb.top h')]

theorem BoundingBox.bounds_start (v : LonLat) : (BoundingBox.start rd v).Bounds ([v].map rd.corner) := by
  refine ⟨?_, ?_, ?_, ?_⟩ <;> simp [BoundingBox.start, Rounding.corner]

theorem BoundingBox.Bounds.extend (h : b.Bounds (coords.map rd.corner)) (v : LonLat) :
    (b.extend rd v).Bounds ((v :: coords).map rd.corner) := by
  have hset (f : LonLat → ℚ) : {x | ∃ w ∈ (v :: coords).map rd.corner, f w = x} =
      insert (f (rd.corner v)) {x | ∃ w ∈ coords.map rd.corner, f w = x} := by
    ext x
    simp [eq_comm]
  rw [extend_eq h.single h.left_le_right h.bottom_le_top]
  refine ⟨?_, ?_, ?_, ?_⟩ <;> rw [hset]
  · exact h.left.insert (rd.float v.lon)
  · exact h.bottom.insert (rd.float v.lat)
  · exact h.top.insert (rd.float v.lat)
  · exact h.right.insert (rd.float v.lon)

/-- The bounds are those of the corners, whatever their order. -/
theorem BoundingBox.Bounds.congr {coords' : List LonLat} (h : b.Bounds coords)
    (hmem : ∀ v, v ∈ coords' ↔ v ∈ coords) : b.Bounds coords' := by
  refine ⟨?_, ?_, ?_, ?_⟩ <;> simp only [hmem]
  exacts [h.left, h.bottom, h.top, h.right]

@[simp] theorem map_corner_exact (coords : List LonLat) : coords.map Rounding.exact.corner = coords :=
  List.map_id _

theorem mem_map_corner {coords' : List LonLat} (hmem : ∀ v, v ∈ coords' ↔ v ∈ coords) (v : LonLat) :
    v ∈ coords'.map rd.corner ↔ v ∈ coords.map rd.corner := by
  simp only [List.mem_map, hmem]

theorem BoundingBox.Bounds.foldl (more : List LonLat) {b : BoundingBox} {coords : List LonLat}
    (h : b.Bounds (coords.map rd.corner)) :
    (more.foldl (BoundingBox.extend rd) b).Bounds ((coords ++ more).map rd.corner) := by
  induction more generalizing b coords with
  | nil => simpa using h
  | cons v more ih =>
    refine (ih (h.extend v)).congr (mem_map_corner fun w => ?_)
    simp
    tauto

/-- The bounds of rounded corners are the rounded bounds. -/
theorem BoundingBox.Bounds.rounded (h : b.Bounds coords) :
    BoundingBox.Bounds ⟨rd.float b.left, rd.float b.bottom, rd.float b.top, rd.float b.right⟩
      (coords.map rd.corner) := by
  have hset {f : LonLat → ℚ} (hf : ∀ v, f (rd.corner v) = rd.float (f v)) :
      {x | ∃ w ∈ coords.map rd.corner, f w = x} = rd.float '' {x | ∃ w ∈ coords, f w = x} := by
    ext x
    simp [hf]
  refine ⟨?_, ?_, ?_, ?_⟩
  · rw [hset fun _ => rfl]
    exact rd.float_mono.map_isLeast h.left
  · rw [hset fun _ => rfl]
    exact rd.float_mono.map_isLeast h.bottom
  · rw [hset fun _ => rfl]
    exact rd.float_mono.map_isGreatest h.top
  · rw [hset fun _ => rfl]
    exact rd.float_mono.map_isGreatest h.right

/-- Two boxes that bound the same corners are the same. -/
theorem BoundingBox.Bounds.unique {b' : BoundingBox} (h : b.Bounds coords) (h' : b'.Bounds coords) :
    b = b' := by
  obtain ⟨left, bottom, top, right⟩ := b
  obtain ⟨left', bottom', top', right'⟩ := b'
  obtain rfl := h.left.unique h'.left
  obtain rfl := h.bottom.unique h'.bottom
  obtain rfl := h.top.unique h'.top
  obtain rfl := h.right.unique h'.right
  rfl

variable {prj : Projections} {ps : PlaceSpecification}

/-- The corners of a polygon, and that the first is not the only one at its place. -/
theorem Polygon.transformed_eq (prj : Projections) (ps : PlaceSpecification) (p : Polygon) :
    ∃ v coords, transformed prj ps p.exteriorRing = v :: coords ∧ v ∈ coords := by
  obtain ⟨ring, hlong, hclosed, _, _⟩ := p
  match ring with
  | v :: w :: ring =>
    refine ⟨_, _, rfl, ?_⟩
    have hlast : v ∈ w :: ring := by
      rw [List.head?_cons, List.getLast?_cons_cons] at hclosed
      exact List.mem_of_getLast? hclosed.symm
    exact List.mem_map_of_mem hlast

/-- All corners of the rings, although the first ones of the later rings are left out. -/
theorem bounds_boundsFrom (polygons : List Polygon) {n : ℕ} (hn : 1 ≤ n) {b : BoundingBox}
    {coords : List LonLat} (h : b.Bounds (coords.map rd.corner)) :
    (boundsFrom rd prj ps n b (polygons.map (·.exteriorRing))).Bounds
      ((coords ++ polygons.flatMap fun p => transformed prj ps p.exteriorRing).map rd.corner) := by
  induction polygons generalizing n b coords with
  | nil => simpa [boundsFrom] using h
  | cons p polygons ih =>
    obtain ⟨v, more, hring, hv⟩ := p.transformed_eq prj ps
    have hne : n ≠ 0 := by omega
    simp only [List.map_cons, boundsFrom, hring, List.tail_cons, if_neg hne]
    refine (ih (by omega) (h.foldl more)).congr (mem_map_corner fun w => ?_)
    simp only [List.flatMap_cons, hring, List.mem_append, List.mem_cons]
    constructor
    · rintro (hw | (rfl | hw) | hw) <;> tauto
    · tauto

/-- The first ring starts the box. -/
theorem bounds_boundsFrom_zero (p : Polygon) (polygons : List Polygon) (b : BoundingBox) :
    (boundsFrom rd prj ps 0 b ((p :: polygons).map (·.exteriorRing))).Bounds
      (((p :: polygons).flatMap fun p => transformed prj ps p.exteriorRing).map rd.corner) := by
  obtain ⟨v, more, hring, _⟩ := p.transformed_eq prj ps
  simp only [List.map_cons, boundsFrom, hring, List.tail_cons, if_true, List.headD_cons]
  refine (bounds_boundsFrom polygons le_rfl ((BoundingBox.bounds_start v).foldl more)).congr
    (mem_map_corner fun w => ?_)
  simp [hring]

/-- The bounds of a polygon. -/
theorem getBounds_polygon (rd : Rounding) (prj : Projections) (ps : PlaceSpecification) (p : Polygon) :
    ∃ b, getBounds rd prj ps (.polygon p) = .ok b ∧
      b.Bounds ((transformed prj ps p.exteriorRing).map rd.corner) := by
  refine ⟨_, rfl, ?_⟩
  simpa using @bounds_boundsFrom_zero rd prj ps p [] ⟨0, 0, 0, 0⟩

end Bounds

/-! ### The nodes in a polygon -/

/-- A node within the bounds is in the range when the increment is positive. -/
theorem covered_of_pos {low high start increment : ℚ} {i : ℤ} (h : 0 < increment)
    (hlow : low ≤ start + i * increment) (hhigh : start + i * increment ≤ high) :
    Covered low high start increment i := by
  have hstart : (low - start) / increment ≤ i := by
    rw [div_le_iff₀ h]
    linarith
  have hend : (i : ℚ) ≤ (high - start) / increment := by
    rw [le_div_iff₀ h]
    linarith
  exact ⟨by linarith, Or.inl hend⟩

/-- Points of a polygon are within the bounds of its ring. -/
theorem Polygon.within {p : Polygon} {b : BoundingBox} (hb : b.Bounds p.exteriorRing) {q : LonLat}
    (hq : p.intersects q) : (b.left ≤ q.lon ∧ q.lon ≤ b.right) ∧ b.bottom ≤ q.lat ∧ q.lat ≤ b.top := by
  obtain ⟨⟨⟨l, hl, hleft⟩, r, hr, hright⟩, ⟨o, ho, hbottom⟩, t, ht, htop⟩ := p.spanned q hq
  exact ⟨⟨(hb.left.2 ⟨l, hl, rfl⟩).trans hleft, hright.trans (hb.right.2 ⟨r, hr, rfl⟩)⟩,
    (hb.bottom.2 ⟨o, ho, rfl⟩).trans hbottom, htop.trans (hb.top.2 ⟨t, ht, rfl⟩)⟩

/-- The rectangle between two corners. -/
def Polygon.rectangle (a b : LonLat) : Polygon where
  exteriorRing := [a, ⟨b.lon, a.lat⟩, b, ⟨a.lon, b.lat⟩, a]
  long := by simp
  closed := rfl
  intersects := fun q => (a.lon ≤ q.lon ∧ q.lon ≤ b.lon) ∧ a.lat ≤ q.lat ∧ q.lat ≤ b.lat
  spanned := fun q hq => by
    simp only [decide_eq_true_eq] at hq
    obtain ⟨⟨hleft, hright⟩, hbottom, htop⟩ := hq
    exact ⟨⟨⟨a, by simp, hleft⟩, b, by simp, hright⟩, ⟨a, by simp, hbottom⟩, b, by simp, htop⟩

theorem Polygon.bounds_rectangle {a b : LonLat} (hlon : a.lon ≤ b.lon) (hlat : a.lat ≤ b.lat) :
    BoundingBox.Bounds ⟨a.lon, a.lat, b.lat, b.lon⟩ (Polygon.rectangle a b).exteriorRing := by
  refine ⟨⟨⟨a, by simp [rectangle], rfl⟩, ?_⟩, ⟨⟨a, by simp [rectangle], rfl⟩, ?_⟩,
    ⟨⟨b, by simp [rectangle], rfl⟩, ?_⟩, ⟨b, by simp [rectangle], rfl⟩, ?_⟩ <;>
  · rintro x ⟨v, hv, rfl⟩
    simp only [rectangle, List.mem_cons, List.not_mem_nil, or_false] at hv
    rcases hv with rfl | rfl | rfl | rfl | rfl <;> simp [hlon, hlat]

/-- The nodes of a grid that intersect a polygon, each once, in the order of the rows. -/
structure NodesIn (ps : PlaceSpecification) (p : Polygon) (points : List (ℤ × ℤ)) : Prop where
  mem_iff : ∀ i j, (i, j) ∈ points ↔ InGrid ps i j ∧
    p.intersects ⟨ps.startX + i * ps.xIncrement, ps.startY + j * ps.yIncrement⟩
  rows : points.Pairwise fun p q => p.2 < q.2 ∨ p.2 = q.2 ∧ p.1 < q.1

/-- For every grid in longitudes and latitudes with increments that are not zero and every polygon, in exact
    arithmetic and with indices of any size: the nodes of the grid in the polygon are found exactly when each of them is in the range that
    is scanned along an axis with a negative increment. Along the others nothing is lost. -/
theorem gridPointsInPolygon_iff (ps : PlaceSpecification) (hx : ps.xIncrement ≠ 0) (hy : ps.yIncrement ≠ 0)
    (p : Polygon) (b : BoundingBox) (hb : b.Bounds p.exteriorRing) :
    (∃ points, gridPointsInPolygon .exact .longlat ps (.polygon p) = .ok points ∧ NodesIn ps p points) ↔
      ∀ i j, InGrid ps i j →
        p.intersects ⟨ps.startX + i * ps.xIncrement, ps.startY + j * ps.yIncrement⟩ →
        (ps.xIncrement < 0 → Covered b.left b.right ps.startX ps.xIncrement i) ∧
          (ps.yIncrement < 0 → Covered b.bottom b.top ps.startY ps.yIncrement j) := by
  have hring : transformed .longlat ps p.exteriorRing = p.exteriorRing := List.map_id _
  obtain ⟨b', hbounds, hb'⟩ := getBounds_polygon .exact .longlat ps p
  rw [map_corner_exact, hring] at hb'
  obtain rfl := hb'.unique hb
  have hpoints : gridPointsInPolygon .exact .longlat ps (.polygon p) =
      .ok (scan .exact .longlat ps (.polygon p) b') := by
    rw [gridPointsInPolygon, hbounds]
    rfl
  have hmem : ∀ i j, (i, j) ∈ scan .exact .longlat ps (.polygon p) b' ↔ InGrid ps i j ∧
      p.intersects ⟨ps.startX + i * ps.xIncrement, ps.startY + j * ps.yIncrement⟩ ∧
      Covered b'.left b'.right ps.startX ps.xIncrement i ∧
      Covered b'.bottom b'.top ps.startY ps.yIncrement j := by
    intro i j
    rw [← reached_exact_iff, ← reached_exact_iff]
    exact mem_scan
  constructor
  · rintro ⟨points, heq, hin⟩ i j hgrid hint
    rw [hpoints] at heq
    obtain rfl := Except.ok.inj heq
    obtain ⟨_, _, hcovx, hcovy⟩ := (hmem i j).1 ((hin.mem_iff i j).2 ⟨hgrid, hint⟩)
    exact ⟨fun _ => hcovx, fun _ => hcovy⟩
  · intro hcov
    refine ⟨_, hpoints, fun i j => ?_, pairwise_scan⟩
    rw [hmem]
    refine ⟨fun h => ⟨h.1, h.2.1⟩, fun ⟨hgrid, hint⟩ => ⟨hgrid, hint, ?_, ?_⟩⟩
    · rcases lt_or_gt_of_ne hx with hneg | hpos
      · exact (hcov i j hgrid hint).1 hneg
      · exact covered_of_pos hpos (Polygon.within hb hint).1.1 (Polygon.within hb hint).1.2
    · rcases lt_or_gt_of_ne hy with hneg | hpos
      · exact (hcov i j hgrid hint).2 hneg
      · exact covered_of_pos hpos (Polygon.within hb hint).2.1 (Polygon.within hb hint).2.2

/-- Along a positive increment, a rectangle around two of three nodes. -/
theorem gridPointsInPolygon_iff_pos :
    ∃ points, gridPointsInPolygon .exact .longlat ⟨0, 0, 3, 1, 1, 1, 4030, ""⟩
        (.polygon (.rectangle ⟨1 / 2, -1⟩ ⟨5 / 2, 1⟩)) = .ok points ∧
      NodesIn ⟨0, 0, 3, 1, 1, 1, 4030, ""⟩ (.rectangle ⟨1 / 2, -1⟩ ⟨5 / 2, 1⟩) points :=
  (gridPointsInPolygon_iff ⟨0, 0, 3, 1, 1, 1, 4030, ""⟩ one_ne_zero one_ne_zero
    (.rectangle ⟨1 / 2, -1⟩ ⟨5 / 2, 1⟩) ⟨1 / 2, -1, 1, 5 / 2⟩
    (@Polygon.bounds_rectangle ⟨1 / 2, -1⟩ ⟨5 / 2, 1⟩ (by norm_num) (by norm_num))).2
      fun _ _ _ _ => ⟨fun h => absurd h (by norm_num), fun h => absurd h (by norm_num)⟩

/-- Along a negative increment, a rectangle around all three nodes: the scan starts after it ends. -/
theorem gridPointsInPolygon_neg :
    gridPointsInPolygon .exact .longlat ⟨0, 0, 3, 1, -1, 1, 4030, ""⟩
        (.polygon (.rectangle ⟨-5 / 2, -1⟩ ⟨1 / 2, 1⟩)) = .ok [] ∧
      ¬ ∃ points, gridPointsInPolygon .exact .longlat ⟨0, 0, 3, 1, -1, 1, 4030, ""⟩
          (.polygon (.rectangle ⟨-5 / 2, -1⟩ ⟨1 / 2, 1⟩)) = .ok points ∧
        NodesIn ⟨0, 0, 3, 1, -1, 1, 4030, ""⟩ (.rectangle ⟨-5 / 2, -1⟩ ⟨1 / 2, 1⟩) points := by
  have hnone : gridPointsInPolygon .exact .longlat ⟨0, 0, 3, 1, -1, 1, 4030, ""⟩
      (.polygon (.rectangle ⟨-5 / 2, -1⟩ ⟨1 / 2, 1⟩)) = .ok [] := by decide +kernel
  refine ⟨hnone, fun ⟨points, hpoints, hin⟩ => ?_⟩
  rw [hnone] at hpoints
  obtain rfl := Except.ok.inj hpoints
  exact List.not_mem_nil ((hin.mem_iff 1 0).2 (by decide +kernel))

end Wdb.Read
