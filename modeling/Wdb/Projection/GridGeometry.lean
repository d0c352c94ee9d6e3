import Wdb.Lib.Rows
import Wdb.Projection.Transform
import Wdb.Query.Specifications

/-! `GridGeometry`: the fields of a grid and the orientation of its rows.

    A change of the orientation starts from the other end of the columns and goes in the other direction.
    Together with a swap of the rows of the values it leaves every value at its location. -/

namespace Wdb.Projection
open MachineInt Rows
open Read (PlaceSpecification LonLat)
open Query (showFloat)

/-- The orientations that are in use. -/
inductive Orientation where
  | leftUpperHorizontal | leftLowerHorizontal
  deriving DecidableEq

inductive Corner where
  | upperLeft | upperRight | lowerLeft | lowerRight
  deriving DecidableEq

/-- The fields of a `PlaceSpecification`, with an orientation. `srid_` has no value before it is set. -/
structure Fields where
  startX_ : ℚ
  startY_ : ℚ
  xNumber_ : UInt32
  yNumber_ : UInt32
  xIncrement_ : ℚ
  yIncrement_ : ℚ
  srid_ : Option ℤ
  projDefinition_ : String
  orientation_ : Orientation
  deriving DecidableEq

namespace Fields

/-- The place that the macros for indices see. -/
def place (f : Fields) : PlaceSpecification :=
  ⟨f.startX_, f.startY_, f.xNumber_.toNat, f.yNumber_.toNat, f.xIncrement_, f.yIncrement_,
    f.srid_.getD 0, f.projDefinition_⟩

def setOrientation (f : Fields) (o : Orientation) : Fields :=
  if o = f.orientation_ then f
  else
    { f with
      orientation_ := o
      startY_ := f.startY_ + f.yIncrement_ * (f.yNumber_ - 1).toNat
      yIncrement_ := -f.yIncrement_ }

/-- A node before the projection. -/
def node (f : Fields) (x y : ℚ) : LonLat := ⟨f.startX_ + x * f.xIncrement_, f.startY_ + y * f.yIncrement_⟩

/-! ### Corners -/

section Corners
variable (pj : Proj) (f : Fields)

/-- `getIndex`, whatever the orientation. -/
def getIndex : Corner → ℤ
  | .upperLeft => size (indexFromXy 0 (ofUnsigned (f.yNumber_ - 1).toNat) f.place)
  | .upperRight =>
    size (indexFromXy (ofUnsigned (f.xNumber_ - 1).toNat) (ofUnsigned (f.yNumber_ - 1).toNat) f.place)
  | .lowerLeft => size (indexFromXy 0 0 f.place)
  | .lowerRight => size (indexFromXy (ofUnsigned (f.xNumber_ - 1).toNat) 0 f.place)

def unprojectedLonLat_ (p : LonLat) : LonLat :=
  if isMetric f.projDefinition_ then f.node p.lon p.lat else toRadians pj (f.node p.lon p.lat)

def project_ (p : LonLat) : Except String Located := do
  let targetProjection ← wdbProjection pj "+proj=longlat +ellps=WGS84 +no_defs"
  let projection ← wdbProjection pj f.projDefinition_
  let images ← wdbProjectionTransform pj projection targetProjection [p]
  let image := images.headD hugeVal
  return ⟨toDegrees pj image.lon, toDegrees pj image.lat⟩

def lonLatFromIndex (x y : ℤ) : Except String Located := f.project_ pj (f.unprojectedLonLat_ pj ⟨x, y⟩)

/-- The location of a corner, when it is computed. -/
def cornerPoint (c : Corner) : Except String Located :=
  let idx := ofUnsigned (f.getIndex c)
  f.lonLatFromIndex pj (size (xFromIndex idx f.place)) (size (yFromIndex idx f.place))

end Corners

end Fields

/-- `operator<<`, for a `double`. -/
def showDouble : WithTop ℚ → String
  | none => "inf"
  | some q => if q < 0 then "-" ++ showFloat (-q) else showFloat q

def showPoint (p : Located) : String := showDouble p.lon ++ " " ++ showDouble p.lat

/-- A ring through some points. -/
def showRing (points : List Located) : String :=
  "POLYGON((" ++ ",".intercalate ((points ++ points.take 1).map showPoint) ++ "))"

/-- The corners in the order of the ring. -/
def outlineCorners : List Corner := [.lowerLeft, .lowerRight, .upperRight, .upperLeft]

/-- The text of a grid, when it is computed. -/
def Fields.outline (pj : Proj) (f : Fields) : Except String String :=
  (outlineCorners.mapM (f.cornerPoint pj)).map showRing

/-! ### Orientation -/

section Orientation
variable {α : Type} {f : Fields} {o : Orientation} {values : List α}

/-- A value is stored for a location. -/
def Stored (f : Fields) (values : List α) (location : LonLat) (v : α) : Prop :=
  ∃ x y : ℕ, x < f.xNumber_.toNat ∧ y < f.yNumber_.toNat ∧ f.node x y = location ∧
    values[y * f.xNumber_.toNat + x]? = some v

theorem toNat_sub_one {n : UInt32} (h : 1 ≤ n.toNat) : (n - 1).toNat = n.toNat - 1 :=
  UInt32.toNat_sub_of_le n 1 (UInt32.le_iff_toNat_le.2 h)

/-- A node is where the opposite node was. -/
theorem node_setOrientation (ho : o ≠ f.orientation_) {y : ℕ} (hy : y < f.yNumber_.toNat) (x : ℕ) :
    (f.setOrientation o).node x (f.yNumber_.toNat - 1 - y : ℕ) = f.node x y := by
  have hlast : (f.yNumber_ - 1).toNat = f.yNumber_.toNat - 1 := toNat_sub_one (by omega)
  have hsub : ((f.yNumber_.toNat - 1 - y : ℕ) : ℚ) = ((f.yNumber_.toNat - 1 : ℕ) : ℚ) - y :=
    Nat.cast_sub (by omega)
  rw [Fields.setOrientation, if_neg ho]
  simp only [Fields.node, hlast, hsub, LonLat.mk.injEq, true_and]
  ring

theorem numbers_setOrientation (f : Fields) (o : Orientation) :
    (f.setOrientation o).xNumber_ = f.xNumber_ ∧ (f.setOrientation o).yNumber_ = f.yNumber_ := by
  unfold Fields.setOrientation
  split <;> exact ⟨rfl, rfl⟩

theorem orientation_setOrientation (f : Fields) (o : Orientation) :
    (f.setOrientation o).orientation_ = o := by
  unfold Fields.setOrientation
  split
  · next heq => exact heq.symm
  · rfl

/-- Back to the orientation that it had. -/
theorem setOrientation_setOrientation (f : Fields) (o : Orientation) :
    (f.setOrientation o).setOrientation f.orientation_ = f := by
  by_cases ho : o = f.orientation_
  · simp [Fields.setOrientation, ho]
  · rw [Fields.setOrientation, orientation_setOrientation, if_neg (Ne.symm ho), Fields.setOrientation,
      if_neg ho]
    obtain ⟨startX_, startY_, xNumber_, yNumber_, xIncrement_, yIncrement_, srid_, projDefinition_, o'⟩ := f
    simp only [Fields.mk.injEq, true_and, and_true, neg_neg]
    ring

/-- What is stored for a location before is stored for it after. -/
theorem stored_of_stored (hvalues : values.length = f.xNumber_.toNat * f.yNumber_.toNat)
    (ho : o ≠ f.orientation_) {location : LonLat} {v : α} (h : Stored f values location v) :
    Stored (f.setOrientation o) (swapRows f.xNumber_.toNat values) location v := by
  obtain ⟨x, y, hx, hy, rfl, hv⟩ := h
  obtain ⟨hxNumber, hyNumber⟩ := numbers_setOrientation f o
  rw [Nat.mul_comm] at hvalues
  refine ⟨x, f.yNumber_.toNat - 1 - y, by rwa [hxNumber], by rw [hyNumber]; omega,
    node_setOrientation ho hy x, ?_⟩
  rw [hxNumber, getElem?_swapRows hvalues hx hy, hv]

/-- For every grid and every vector of its values: when the orientation is changed and the rows of the
    values are swapped, each node has the location and the value of the opposite node, so that the same
    values are stored for each location; and a second change restores the grid and the vector. -/
theorem setOrientation_swapRows (f : Fields) (o : Orientation) (values : List α)
    (hx : 1 ≤ f.xNumber_.toNat) (hvalues : values.length = f.xNumber_.toNat * f.yNumber_.toNat)
    (ho : o ≠ f.orientation_) :
    (∀ x y, x < f.xNumber_.toNat → y < f.yNumber_.toNat →
      (f.setOrientation o).node x (f.yNumber_.toNat - 1 - y : ℕ) = f.node x y ∧
      (swapRows f.xNumber_.toNat values)[(f.yNumber_.toNat - 1 - y) * f.xNumber_.toNat + x]? =
        values[y * f.xNumber_.toNat + x]?) ∧
    (∀ location v, Stored (f.setOrientation o) (swapRows f.xNumber_.toNat values) location v ↔
      Stored f values location v) ∧
    (f.setOrientation o).setOrientation f.orientation_ = f ∧
    swapRows (f.setOrientation o).xNumber_.toNat (swapRows f.xNumber_.toNat values) = values := by
  have hrows : values.length = f.yNumber_.toNat * f.xNumber_.toNat := by rwa [Nat.mul_comm]
  have hnumbers := numbers_setOrientation f o
  have htwice : swapRows (f.setOrientation o).xNumber_.toNat (swapRows f.xNumber_.toNat values) = values := by
    rw [hnumbers.1, swapRows_swapRows hx hrows]
  refine ⟨fun x y hlt hlt' => ⟨node_setOrientation ho hlt' x, getElem?_swapRows hrows hlt hlt'⟩,
    fun location v => ⟨fun h => ?_, stored_of_stored hvalues ho⟩, setOrientation_setOrientation f o, htwice⟩
  -- the way back is a change of the orientation too
  have hlength : (swapRows f.xNumber_.toNat values).length =
      (f.setOrientation o).xNumber_.toNat * (f.setOrientation o).yNumber_.toNat := by
    rw [length_swapRows hx hrows, hnumbers.1, hnumbers.2, Nat.mul_comm]
  have hback : f.orientation_ ≠ (f.setOrientation o).orientation_ := by
    rw [orientation_setOrientation]
    exact Ne.symm ho
  have hstored := stored_of_stored hlength hback h
  rwa [setOrientation_setOrientation, htwice] at hstored

/-- A grid of two rows. -/
theorem setOrientation_swapRows_two :
    Stored (Fields.setOrientation ⟨0, 10, 1, 2, 1, 5, none, "", .leftLowerHorizontal⟩ .leftUpperHorizontal)
      (swapRows 1 [7, 8]) ⟨0, 10⟩ 7 :=
  ((setOrientation_swapRows ⟨0, 10, 1, 2, 1, 5, none, "", .leftLowerHorizontal⟩ .leftUpperHorizontal [7, 8]
    (by decide) (by decide) (by decide)).2.1 ⟨0, 10⟩ 7).2
    ⟨0, 0, by decide, by decide, by decide +kernel, rfl⟩

end Orientation

end Wdb.Projection
