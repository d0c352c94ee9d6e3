import Wdb.Lib.Traverse
import Wdb.Read.PolygonScan

/-! Reading several polygons at once.

    The bounds are those of all outer rings together, and a node is returned once, however many of the
    polygons it is in. The outer ring of a geometry is asked for directly unless there are several. The
    bounds of a polygon that is read alone are rounded on their own, so that a node may be lost there that
    the common bounds reach. -/

namespace Wdb.Read
open Blob Traverse

/-! ### The bounds -/

section Bounds
variable {rd : Rounding} {prj : Projections} {ps : PlaceSpecification}

/-- One polygon has no outer ring as a member of a list of polygons. -/
theorem getBounds_singleton (p : Polygon) : getBounds rd prj ps (.multipolygon [p]) =
    .error (.runtimeError "Outer ring of polygon/shape is NULL.") := rfl

/-- The bounds of several polygons are those of all their corners. -/
theorem getBounds_multipolygon {polygons : List Polygon} (h : 2 ≤ polygons.length) :
    ∃ b, getBounds rd prj ps (.multipolygon polygons) = .ok b ∧
      b.Bounds ((polygons.flatMap fun p => transformed prj ps p.exteriorRing).map rd.corner) := by
  have hring : ∀ n ∈ List.range polygons.length, outerRing (.multipolygon polygons) n =
      .ok ((polygons[n]?.map (·.exteriorRing)).getD []) := by
    intro n hn
    have hn : n < polygons.length := List.mem_range.1 hn
    simp [outerRing, Geometry.numGeometries, Geometry.geometryN, Geometry.exteriorRing, hn, Nat.lt_of_succ_le h]
  have hrings : ((List.range polygons.length).map fun n => (polygons[n]?.map (·.exteriorRing)).getD []) =
      polygons.map (·.exteriorRing) := by
    refine List.ext_getElem (by simp) fun n hn _ => ?_
    have hn : n < polygons.length := by simpa using hn
    simp [hn]
  obtain ⟨p, rest, rfl⟩ : ∃ p rest, polygons = p :: rest := by
    cases polygons with
    | nil => simp at h
    | cons p rest => exact ⟨p, rest, rfl⟩
  have hbounds : getBounds rd prj ps (.multipolygon (p :: rest)) =
      .ok (boundsFrom rd prj ps 0 ⟨0, 0, 0, 0⟩ ((p :: rest).map (·.exteriorRing))) := by
    rw [getBounds]
    simp only [Geometry.numGeometries]
    rw [mapM_eq_pure hring, hrings]
    rfl
  exact ⟨_, hbounds, bounds_boundsFrom_zero p rest ⟨0, 0, 0, 0⟩⟩

/-- Bounds that are `float`s are those that are found. -/
theorem getBounds_of_single {polygons : List Polygon} (h : 2 ≤ polygons.length) {b : BoundingBox}
    (hb : b.Bounds (polygons.flatMap fun p => transformed prj ps p.exteriorRing)) (hsingle : b.Single rd) :
    getBounds rd prj ps (.multipolygon polygons) = .ok b := by
  obtain ⟨b', hgb, hb'⟩ := @getBounds_multipolygon rd prj ps polygons h
  have hrounded := @BoundingBox.Bounds.rounded rd b _ hb
  rw [hsingle.left, hsingle.bottom, hsingle.top, hsingle.right] at hrounded
  rw [hgb, hb'.unique hrounded]

/-- The rounded box of some of the corners is within a box of them all. -/
structure BoundingBox.Within (box b : BoundingBox) : Prop where
  left : b.left ≤ box.left
  bottom : b.bottom ≤ box.bottom
  top : box.top ≤ b.top
  right : box.right ≤ b.right

theorem BoundingBox.Bounds.within {b box : BoundingBox} {all coords : List LonLat} (hb : b.Bounds all)
    (hsingle : b.Single rd) (hbox : box.Bounds (coords.map rd.corner)) (hmem : ∀ v ∈ coords, v ∈ all) :
    box.Within b := by
  have hcorner {f : LonLat → ℚ} (hf : ∀ v, f (rd.corner v) = rd.float (f v)) {x : ℚ}
      (hx : ∃ v ∈ coords.map rd.corner, f v = x) : ∃ v ∈ all, rd.float (f v) = x := by
    obtain ⟨v, hv, rfl⟩ := hx
    obtain ⟨w, hw, rfl⟩ := List.mem_map.1 hv
    exact ⟨w, hmem w hw, (hf w).symm⟩
  obtain ⟨l, hl, hleft⟩ := hcorner (fun _ => rfl) hbox.left.1
  obtain ⟨o, ho, hbottom⟩ := hcorner (fun _ => rfl) hbox.bottom.1
  obtain ⟨t, ht, htop⟩ := hcorner (fun _ => rfl) hbox.top.1
  obtain ⟨r, hr, hright⟩ := hcorner (fun _ => rfl) hbox.right.1
  refine ⟨?_, ?_, ?_, ?_⟩
  · rw [← hleft, ← hsingle.left]
    exact rd.float_mono (hb.left.2 ⟨l, hl, rfl⟩)
  · rw [← hbottom, ← hsingle.bottom]
    exact rd.float_mono (hb.bottom.2 ⟨o, ho, rfl⟩)
  · rw [← htop, ← hsingle.top]
    exact rd.float_mono (hb.top.2 ⟨t, ht, rfl⟩)
  · rw [← hright, ← hsingle.right]
    exact rd.float_mono (hb.right.2 ⟨r, hr, rfl⟩)

/-- Along a positive increment wider bounds reach at least as far, unless the narrower ones wrap. -/
theorem Reached.wider {low high low' high' start increment : ℚ} {i : ℤ} (hpos : 0 < increment)
    (h : Reached rd low' high' start increment i) (hlow : low ≤ low') (hhigh : high' ≤ high)
    (hwraps : ¬ rd.afterLast high' start increment ≤ -1) : Reached rd low high start increment i := by
  have hposition {x y : ℚ} (hxy : x ≤ y) : rd.position x start increment ≤ rd.position y start increment :=
    rd.double_mono (div_le_div_of_nonneg_right (rd.double_mono (sub_le_sub_right hxy start)) hpos.le)
  have hafter : rd.afterLast high' start increment ≤ rd.afterLast high start increment :=
    rd.double_mono (add_le_add_left (hposition hhigh) 1)
  exact ⟨(hposition hlow).trans_lt h.fromStart, Or.inl ((h.toEnd.resolve_right hwraps).trans hafter)⟩

end Bounds

/-! ### The union -/

/-- A node is in the range that is scanned for a box. -/
def InRange (rd : Rounding) (ps : PlaceSpecification) (b : BoundingBox) (i j : ℤ) : Prop :=
  Reached rd b.left b.right ps.startX ps.xIncrement i ∧ Reached rd b.bottom b.top ps.startY ps.yIncrement j

section Union
variable (rd : Rounding) (prj : Projections) (ps : PlaceSpecification) (float : List UInt8 → Option ℚ)
  (d : Directory) (dataId : ℤ) (polygons : List Polygon)

/-- Several polygons are read together: the result is the union of what is read for each, each node once,
    and the bounds are those of all corners. -/
structure ReadsUnion : Prop where
  read : ∃ whole parts, polygonRead ps float d dataId rd prj (.multipolygon polygons) = .ok whole ∧
    (polygons.mapM fun p => polygonRead ps float d dataId rd prj (.polygon p)) = .ok parts ∧
    whole.Nodup ∧ ∀ q, q ∈ whole ↔ ∃ r ∈ parts, q ∈ r
  bounds : ∃ b, getBounds rd prj ps (.multipolygon polygons) = .ok b ∧
    b.Bounds (polygons.flatMap fun p => transformed prj ps p.exteriorRing)

/-- The nodes in one of the polygons that are in the range of a box. -/
def nodesInRange (b : BoundingBox) : Set (ℤ × ℤ) :=
  {q | InGrid ps q.1 q.2 ∧ (∃ p ∈ polygons, p.intersects (nodeLocation rd prj ps q.1 q.2)) ∧
    InRange rd ps b q.1 q.2}

/-- No node of the polygons that the bounds of them all reach is past the own bounds of every polygon that it
    is in. -/
def KeptAlone (b : BoundingBox) (box : Polygon → BoundingBox) : Prop :=
  ∀ q ∈ nodesInRange rd prj ps polygons b, ∃ p ∈ polygons, p.intersects (nodeLocation rd prj ps q.1 q.2) ∧
    InRange rd ps (box p) q.1 q.2

/-- Along a negative increment, and where the own bounds of a polygon end before the grid, the bounds of all
    reach the nodes of the polygon that its own bounds reach. -/
def KeptTogether (b : BoundingBox) (box : Polygon → BoundingBox) : Prop :=
  ∀ p ∈ polygons, ∀ i j, InGrid ps i j → p.intersects (nodeLocation rd prj ps i j) → InRange rd ps (box p) i j →
    (ps.xIncrement < 0 ∨ rd.afterLast (box p).right ps.startX ps.xIncrement ≤ -1 →
      Reached rd b.left b.right ps.startX ps.xIncrement i) ∧
    (ps.yIncrement < 0 ∨ rd.afterLast (box p).top ps.startY ps.yIncrement ≤ -1 →
      Reached rd b.bottom b.top ps.startY ps.yIncrement j)

/-- A node as it is returned. -/
def nodeRead (data : List UInt8) (q : ℤ × ℤ) : Option GridPoint :=
  some ⟨q.1, q.2, blobValue float data (indexFromXy ps q.1 q.2)⟩

theorem nodeRead_injective (data : List UInt8) : Function.Injective (nodeRead ps float data) := by
  rintro ⟨i, j⟩ ⟨i', j'⟩ h
  simp only [nodeRead, Option.some.injEq, GridPoint.mk.injEq] at h
  exact Prod.ext h.1 h.2.1

variable {rd prj ps float d dataId polygons}

theorem nodup_scan {polygon : Geometry} {b : BoundingBox} : (scan rd prj ps polygon b).Nodup := by
  refine pairwise_scan.imp fun hlt heq => ?_
  subst heq
  omega

/-- What is read for a geometry with given bounds. -/
theorem polygonRead_eq {data : List UInt8} (hdata : d.content dataId = some data)
    (hsize : (data.length : ℤ) = 4 * (ps.xNumber * ps.yNumber)) (hint : data.length < 2 ^ 31)
    {location : Geometry} {b : BoundingBox} (hb : getBounds rd prj ps location = .ok b) :
    ((scan rd prj ps location b).length ≤ maxReturn → polygonRead ps float d dataId rd prj location =
        .ok ((scan rd prj ps location b).map (nodeRead ps float data))) ∧
      (maxReturn < (scan rd prj ps location b).length →
        ∃ e, polygonRead ps float d dataId rd prj location = .error e) := by
  have hpoints : gridPointsInPolygon rd prj ps location = .ok (scan rd prj ps location b) := by
    rw [gridPointsInPolygon, hb]
    rfl
  have hread : polygonRead ps float d dataId rd prj location =
      if (scan rd prj ps location b).length > 0 then readPolygon ps float d dataId (scan rd prj ps location b)
      else .ok [] := by
    rw [polygonRead, hpoints]
    rfl
  have hgrid : (scan rd prj ps location b).filter (fun q => InGrid ps q.1 q.2) = scan rd prj ps location b :=
    List.filter_eq_self.2 fun q hq => by simpa using (mem_scan.1 hq).1
  obtain ⟨hle, hgt⟩ := @readPolygon_eq ps float d dataId data hdata hsize hint (scan rd prj ps location b)
  rw [hgrid] at hle hgt
  rw [hread]
  constructor
  · intro hlen
    split
    · exact hle hlen
    · next hempty => simp [List.eq_nil_of_length_eq_zero (Nat.eq_zero_of_not_pos hempty)]
  · intro hlen
    rw [if_pos (by omega)]
    exact hgt hlen

/-- The nodes that are found for several polygons. -/
theorem mem_scan_multipolygon {b : BoundingBox} {q : ℤ × ℤ} :
    q ∈ scan rd prj ps (.multipolygon polygons) b ↔ q ∈ nodesInRange rd prj ps polygons b := by
  obtain ⟨i, j⟩ := q
  rw [mem_scan]
  simp [nodesInRange, InRange, Geometry.intersects]

theorem ncard_nodesInRange (b : BoundingBox) :
    (nodesInRange rd prj ps polygons b).ncard = (scan rd prj ps (.multipolygon polygons) b).length := by
  have hset : nodesInRange rd prj ps polygons b = (scan rd prj ps (.multipolygon polygons) b).toFinset := by
    ext q
    rw [List.coe_toFinset]
    exact mem_scan_multipolygon.symm
  rw [hset, Set.ncard_coe_finset, List.toFinset_card_of_nodup nodup_scan]

/-- The nodes that are found for one polygon. -/
theorem mem_scan_polygon {p : Polygon} {b : BoundingBox} {q : ℤ × ℤ} : q ∈ scan rd prj ps (.polygon p) b ↔
    InGrid ps q.1 q.2 ∧ p.intersects (nodeLocation rd prj ps q.1 q.2) ∧ InRange rd ps b q.1 q.2 := mem_scan

section Boxes
variable {b : BoundingBox} {box : Polygon → BoundingBox}

/-- What is found together is what is found alone, exactly when no node is lost in either way. -/
theorem scan_union_iff (hx : ps.xIncrement ≠ 0) (hy : ps.yIncrement ≠ 0)
    (hwithin : ∀ p ∈ polygons, (box p).Within b) :
    (∀ q, q ∈ scan rd prj ps (.multipolygon polygons) b ↔
      ∃ p ∈ polygons, q ∈ scan rd prj ps (.polygon p) (box p)) ↔
    KeptAlone rd prj ps polygons b box ∧ KeptTogether rd prj ps polygons b box := by
  simp only [mem_scan_multipolygon, mem_scan_polygon]
  constructor
  · intro h
    refine ⟨fun q hq => ?_, fun p hp i j hgrid hin hown => ?_⟩
    · obtain ⟨p, hp, -, hin, hown⟩ := (h q).1 hq
      exact ⟨p, hp, hin, hown⟩
    · obtain ⟨-, -, hcommon⟩ := (h (i, j)).2 ⟨p, hp, hgrid, hin, hown⟩
      exact ⟨fun _ => hcommon.1, fun _ => hcommon.2⟩
  · rintro ⟨halone, htogether⟩ q
    constructor
    · intro hq
      obtain ⟨p, hp, hin, hown⟩ := halone q hq
      exact ⟨p, hp, hq.1, hin, hown⟩
    · rintro ⟨p, hp, hgrid, hin, hown⟩
      obtain ⟨hcolumn, hrow⟩ := htogether p hp q.1 q.2 hgrid hin hown
      refine ⟨hgrid, ⟨p, hp, hin⟩, ?_, ?_⟩
      · by_cases hlost : ps.xIncrement < 0 ∨ rd.afterLast (box p).right ps.startX ps.xIncrement ≤ -1
        · exact hcolumn hlost
        · rw [not_or, not_lt] at hlost
          exact hown.1.wider (lt_of_le_of_ne hlost.1 hx.symm) (hwithin p hp).left (hwithin p hp).right hlost.2
      · by_cases hlost : ps.yIncrement < 0 ∨ rd.afterLast (box p).top ps.startY ps.yIncrement ≤ -1
        · exact hrow hlost
        · rw [not_or, not_lt] at hlost
          exact hown.2.wider (lt_of_le_of_ne hlost.1 hy.symm) (hwithin p hp).bottom (hwithin p hp).top hlost.2

/-- In exact arithmetic, on a grid in longitudes and latitudes with positive increments, the own bounds of a
    polygon reach every node of it. -/
theorem inRange_of_pos (hx : 0 < ps.xIncrement) (hy : 0 < ps.yIncrement) {p : Polygon} {b : BoundingBox}
    (hb : b.Bounds ((transformed .longlat ps p.exteriorRing).map Rounding.exact.corner)) {i j : ℤ}
    (hin : p.intersects (nodeLocation .exact .longlat ps i j)) :
    InRange .exact ps b i j ∧ (i ≤ (b.right - ps.startX) / ps.xIncrement) ∧
      j ≤ (b.top - ps.startY) / ps.yIncrement := by
  have hring : transformed .longlat ps p.exteriorRing = p.exteriorRing := List.map_id _
  rw [map_corner_exact, hring] at hb
  obtain ⟨⟨hleft, hright⟩, hbottom, htop⟩ := Polygon.within hb hin
  have hright : ps.startX + i * ps.xIncrement ≤ b.right := hright
  have htop : ps.startY + j * ps.yIncrement ≤ b.top := htop
  refine ⟨⟨reached_exact_iff.2 (covered_of_pos hx hleft hright),
    reached_exact_iff.2 (covered_of_pos hy hbottom htop)⟩, ?_, ?_⟩
  · rw [le_div_iff₀ hx]
    linarith
  · rw [le_div_iff₀ hy]
    linarith

/-- There nothing is lost. -/
theorem kept_of_pos (hx : 0 < ps.xIncrement) (hy : 0 < ps.yIncrement)
    (hbox : ∀ p ∈ polygons, (box p).Bounds ((transformed .longlat ps p.exteriorRing).map Rounding.exact.corner)) :
    KeptAlone .exact .longlat ps polygons b box ∧ KeptTogether .exact .longlat ps polygons b box := by
  refine ⟨fun q hq => ?_, fun p hp i j hgrid hin _ => ?_⟩
  · obtain ⟨-, ⟨p, hp, hin⟩, -⟩ := hq
    exact ⟨p, hp, hin, (inRange_of_pos hx hy (hbox p hp) hin).1⟩
  · obtain ⟨-, hright, htop⟩ := inRange_of_pos hx hy (hbox p hp) hin
    have hi : (0 : ℚ) ≤ i := by exact_mod_cast hgrid.1.1
    have hj : (0 : ℚ) ≤ j := by exact_mod_cast hgrid.2.1
    have hnever {x : ℚ} (hx : 0 ≤ x) (h : x + 1 ≤ -1) : False := by linarith
    exact ⟨fun h => (h.elim hx.not_gt (hnever (hi.trans hright))).elim,
      fun h => (h.elim hy.not_gt (hnever (hj.trans htop))).elim⟩

end Boxes

end Union

/-- The bounds of a rectangle. -/
def rectangleBox (p : Polygon) : BoundingBox :=
  (getBounds .exact .longlat ⟨0, 0, 3, 1, 1, 1, 4030, ""⟩ (.polygon p)).toOption.getD ⟨0, 0, 0, 0⟩

/-- Numbers from 1 to 2 as a `float` has them, with 23 binary places. -/
def places23 : Rounding where
  float q := ⌊q * 2 ^ 23 + 1 / 2⌋ / 2 ^ 23
  double := id
  float_mono _ _ h := by
    dsimp only
    gcongr
  double_mono := monotone_id
  float_float q := by
    have hint (n : ℤ) : ⌊(n / 2 ^ 23 * 2 ^ 23 + 1 / 2 : ℚ)⌋ = n := by
      rw [div_mul_cancel₀ _ (by norm_num), Int.floor_intCast_add]
      norm_num
    rw [hint]

/-- The right bound of the first rectangle is rounded to 1, and its node is lost unless the second one is
    there. -/
theorem not_readsUnion_rounded : ¬ ReadsUnion places23 .longlat ⟨1 / 2 ^ 30, 0, 3, 1, 1, 1, 4030, ""⟩
    (fun _ => some 1) (gridFile [0, 0, 128, 63, 0, 0, 128, 63, 0, 0, 128, 63]) 7
    [.rectangle ⟨1 / 2, -1⟩ ⟨1 + 1 / 2 ^ 30, 1⟩, .rectangle ⟨3 / 2, -1⟩ ⟨3, 1⟩] := by
  rintro ⟨⟨whole, parts, hwhole, hparts, -, hunion⟩, -⟩
  have hfound : polygonRead ⟨1 / 2 ^ 30, 0, 3, 1, 1, 1, 4030, ""⟩ (fun _ => some 1)
      (gridFile [0, 0, 128, 63, 0, 0, 128, 63, 0, 0, 128, 63]) 7 places23 .longlat
      (.multipolygon [.rectangle ⟨1 / 2, -1⟩ ⟨1 + 1 / 2 ^ 30, 1⟩, .rectangle ⟨3 / 2, -1⟩ ⟨3, 1⟩]) =
        .ok [some ⟨1, 0, some 1⟩, some ⟨2, 0, some 1⟩] := by decide +kernel
  have halone : (([.rectangle ⟨1 / 2, -1⟩ ⟨1 + 1 / 2 ^ 30, 1⟩, .rectangle ⟨3 / 2, -1⟩ ⟨3, 1⟩] : List Polygon).mapM
      fun p => polygonRead ⟨1 / 2 ^ 30, 0, 3, 1, 1, 1, 4030, ""⟩ (fun _ => some 1)
        (gridFile [0, 0, 128, 63, 0, 0, 128, 63, 0, 0, 128, 63]) 7 places23 .longlat (.polygon p)) =
          .ok [[], [some ⟨2, 0, some 1⟩]] := by decide +kernel
  obtain rfl := Except.ok.inj (hfound.symm.trans hwhole)
  obtain rfl := Except.ok.inj (halone.symm.trans hparts)
  exact absurd ((hunion (some ⟨1, 0, some 1⟩)).1 (by decide)) (by decide)

end Wdb.Read
