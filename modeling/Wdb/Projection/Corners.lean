import Wdb.Projection.Memo
import Wdb.Projection.Outline

/-! The corners of a grid of longitudes and latitudes.

    They are taken from the first and the last row by fixed indices, whatever the orientation is and the
    signs of the increments are, and the indices pass through the numbers of a machine. -/

namespace Wdb.Projection
open MachineInt
open Read (PlaceSpecification LonLat wdbRound InGrid)

def Corner.isLeft : Corner → Bool
  | .upperLeft | .lowerLeft => true
  | .upperRight | .lowerRight => false

def Corner.isUpper : Corner → Bool
  | .upperLeft | .upperRight => true
  | .lowerLeft | .lowerRight => false

namespace Fields
variable (f : Fields)

/-- The column and the row that `point` computes for a corner. -/
def cornerNode (c : Corner) : ℤ × ℤ :=
  let idx := ofUnsigned (f.getIndex c)
  (size (xFromIndex idx f.place), size (yFromIndex idx f.place))

/-- The place of a corner, before it is projected. -/
def cornerPlace (c : Corner) : LonLat := f.node (f.cornerNode c).1 (f.cornerNode c).2

end Fields

/-- A node is the corner of a grid that has the name: none is further to this side. -/
structure IsCorner (f : Fields) (c : Corner) (x y : ℤ) : Prop where
  inGrid : InGrid f.place x y
  lon : ∀ x' y' : ℤ, InGrid f.place x' y' → if c.isLeft then (f.node x y).lon ≤ (f.node x' y').lon
    else (f.node x' y').lon ≤ (f.node x y).lon
  lat : ∀ x' y' : ℤ, InGrid f.place x' y' → if c.isUpper then (f.node x' y').lat ≤ (f.node x y).lat
    else (f.node x y).lat ≤ (f.node x' y').lat

/-! ### Indices -/

section Indices
variable {f : Fields} {c : Corner} {n : ℤ}

/-- What is left of a number that passes through an `int` to a size. -/
theorem size_ofUnsigned (hlow : 0 ≤ n) (hhigh : n < 2 ^ 32) :
    size (ofUnsigned n) = if n < 2 ^ 31 then n else n + (2 ^ 64 - 2 ^ 32) := by
  split
  · next h => rw [ofUnsigned_eq hlow h, size, Int.emod_eq_of_lt hlow (by omega)]
  · next h =>
    have hbmod : ofUnsigned n = n - 2 ^ 32 := by
      rw [ofUnsigned, Int.bmod_def]
      omega
    rw [hbmod, size]
    omega

/-- A number that is still small was kept. -/
theorem of_size_lt (hlow : 0 ≤ n) (hhigh : n < 2 ^ 32) (h : size (ofUnsigned n) < 2 ^ 32) :
    n < 2 ^ 31 ∧ size (ofUnsigned n) = n := by
  rw [size_ofUnsigned hlow hhigh] at h ⊢
  split at h
  · next hlt => exact ⟨hlt, if_pos hlt⟩
  · omega

/-- The column and the row that a corner should have. -/
def Fields.column (f : Fields) (c : Corner) : ℤ := if c.isLeft then 0 else f.xNumber_.toNat - 1

def Fields.row (f : Fields) (c : Corner) : ℤ := if c.isUpper then f.yNumber_.toNat - 1 else 0

/-- The node of the index of a corner. -/
theorem cornerNode_eq (hx : 1 ≤ f.xNumber_.toNat) (hy : 1 ≤ f.yNumber_.toNat) (c : Corner) :
    f.cornerNode c =
      (size (ofUnsigned ((f.row c * f.xNumber_.toNat + f.column c) % 2 ^ 32 % f.xNumber_.toNat)),
        size (ofUnsigned ((f.row c * f.xNumber_.toNat + f.column c) % 2 ^ 32 / f.xNumber_.toNat))) := by
  have hheight := f.yNumber_.toNat_lt
  have hlastx : ((f.xNumber_ - 1).toNat : ℤ) = f.xNumber_.toNat - 1 := by rw [toNat_sub_one hx]; omega
  have hlasty : ((f.yNumber_ - 1).toNat : ℤ) = f.yNumber_.toNat - 1 := by rw [toNat_sub_one hy]; omega
  have hfits : ((f.yNumber_.toNat : ℤ) - 1) % 2 ^ 32 = f.yNumber_.toNat - 1 :=
    Int.emod_eq_of_lt (by omega) (by omega)
  have hindex : unsigned (ofUnsigned (f.getIndex c)) =
      (f.row c * f.xNumber_.toNat + f.column c) % 2 ^ 32 := by
    cases c
    all_goals
      simp only [Fields.getIndex, Fields.row, Fields.column, Corner.isLeft, Corner.isUpper, indexFromXy,
        unsigned_ofUnsigned, unsigned_size, unsigned_unsigned, hlastx, hlasty, Fields.place, if_true,
        Bool.false_eq_true, if_false]
      simp only [unsigned, Int.emod_add_emod, Int.add_emod_emod, Int.zero_emod, hfits]
  unfold Fields.cornerNode xFromIndex yFromIndex
  dsimp only
  rw [hindex]
  rfl

end Indices

/-! ### Which grids have their corners there -/

/-- The grid goes to the right and upwards, and is small enough for its indices. -/
structure UpRight (f : Fields) : Prop where
  columns : f.xNumber_.toNat = 1 ∨ 0 ≤ f.xIncrement_
  rows : f.yNumber_.toNat = 1 ∨ 0 ≤ f.yIncrement_
  width : f.xNumber_.toNat ≤ 2 ^ 31
  height : f.yNumber_.toNat ≤ 2 ^ 31
  nodes : f.xNumber_.toNat * f.yNumber_.toNat ≤ 2 ^ 32

section Which
variable {f : Fields} {c : Corner} {x y : ℤ}

theorem inGrid_iff : InGrid f.place x y ↔
    (0 ≤ x ∧ x < f.xNumber_.toNat) ∧ 0 ≤ y ∧ y < f.yNumber_.toNat := Iff.rfl

/-- The index of a corner of a small grid is that of its column and its row. -/
theorem cornerNode_of_small (hx : 1 ≤ f.xNumber_.toNat) (hy : 1 ≤ f.yNumber_.toNat)
    (hnodes : f.xNumber_.toNat * f.yNumber_.toNat ≤ 2 ^ 32) (c : Corner) :
    f.cornerNode c = (size (ofUnsigned (f.column c)), size (ofUnsigned (f.row c))) := by
  have hcolumn : 0 ≤ f.column c ∧ f.column c < f.xNumber_.toNat := by
    unfold Fields.column
    split <;> omega
  have hrow : 0 ≤ f.row c ∧ f.row c + 1 ≤ f.yNumber_.toNat := by
    unfold Fields.row
    split <;> omega
  have hindex : 0 ≤ f.row c * f.xNumber_.toNat + f.column c ∧
      f.row c * f.xNumber_.toNat + f.column c < 2 ^ 32 := by
    have hnonneg : 0 ≤ f.row c * f.xNumber_.toNat := mul_nonneg hrow.1 (by omega)
    have hle : (f.row c + 1) * f.xNumber_.toNat ≤ f.yNumber_.toNat * f.xNumber_.toNat :=
      mul_le_mul_of_nonneg_right hrow.2 (by omega)
    have hcast : (f.yNumber_.toNat : ℤ) * f.xNumber_.toNat ≤ 2 ^ 32 := by
      rw [mul_comm]
      exact_mod_cast hnodes
    rw [add_mul, one_mul] at hle
    omega
  rw [cornerNode_eq hx hy, Int.emod_eq_of_lt hindex.1 hindex.2, Int.mul_add_emod_self_right,
    Int.emod_eq_of_lt hcolumn.1 hcolumn.2, Int.add_comm, Int.add_mul_ediv_right _ _ (by omega),
    Int.ediv_eq_zero_of_lt hcolumn.1 hcolumn.2, zero_add]

/-- The first row has the indices up to the number of columns. -/
theorem cornerNode_lower (hx : 1 ≤ f.xNumber_.toNat) (hy : 1 ≤ f.yNumber_.toNat) (hc : c.isUpper = false) :
    f.cornerNode c = (size (ofUnsigned (f.column c)), 0) := by
  have hcolumn : 0 ≤ f.column c ∧ f.column c < f.xNumber_.toNat := by
    unfold Fields.column
    split <;> omega
  have hwidth := f.xNumber_.toNat_lt
  have hrow : f.row c = 0 := by rw [Fields.row, hc]; rfl
  rw [cornerNode_eq hx hy, hrow, zero_mul, zero_add, Int.emod_eq_of_lt hcolumn.1 (by omega),
    Int.emod_eq_of_lt hcolumn.1 hcolumn.2, Int.ediv_eq_zero_of_lt hcolumn.1 hcolumn.2]
  rfl

/-- The first of some numbers at equal distances is the least. -/
theorem first_le_iff (start : ℚ) {increment : ℚ} {n : ℕ} (hn : 1 ≤ n) :
    (∀ k : ℤ, 0 ≤ k ∧ k < n → start ≤ start + k * increment) ↔ n = 1 ∨ 0 ≤ increment := by
  constructor
  · intro h
    rcases hn.eq_or_lt with hone | hmore
    · exact Or.inl hone.symm
    · have hfirst := h 1 ⟨by omega, by omega⟩
      push_cast at hfirst
      exact Or.inr (by linarith)
  · rintro (rfl | hinc) k ⟨hlow, hhigh⟩
    · obtain rfl : k = 0 := by omega
      simp
    · have hk : (0 : ℚ) ≤ k := by exact_mod_cast hlow
      linarith [mul_nonneg hk hinc]

/-- The last one is the greatest. -/
theorem le_last (start : ℚ) {increment : ℚ} {n : ℕ} (h : n = 1 ∨ 0 ≤ increment) {k : ℤ} (hk : 0 ≤ k ∧ k < n) :
    start + k * increment ≤ start + ((n : ℤ) - 1 : ℤ) * increment := by
  rcases h with rfl | hinc
  · obtain rfl : k = 0 := by omega
    simp
  · have hlast : (k : ℚ) ≤ ((n : ℤ) - 1 : ℤ) := by exact_mod_cast (by omega : k ≤ (n : ℤ) - 1)
    linarith [mul_le_mul_of_nonneg_right hlast hinc]

/-- The corners of a grid that goes to the right and upwards. -/
theorem UpRight.isCorner (h : UpRight f) (hx : 1 ≤ f.xNumber_.toNat) (hy : 1 ≤ f.yNumber_.toNat)
    (c : Corner) : f.cornerNode c = (f.column c, f.row c) ∧ IsCorner f c (f.column c) (f.row c) := by
  have hwidth := h.width
  have hheight := h.height
  have hcolumn : 0 ≤ f.column c ∧ f.column c < f.xNumber_.toNat := by
    unfold Fields.column
    split <;> omega
  have hrow : 0 ≤ f.row c ∧ f.row c < f.yNumber_.toNat := by
    unfold Fields.row
    split <;> omega
  constructor
  · rw [cornerNode_of_small hx hy h.nodes, size_ofUnsigned hcolumn.1 (by omega), if_pos (by omega),
      size_ofUnsigned hrow.1 (by omega), if_pos (by omega)]
  · refine ⟨⟨hcolumn, hrow⟩, fun x' y' hin => ?_, fun x' y' hin => ?_⟩
    · have hfirst := (first_le_iff f.startX_ hx).2 h.columns x' hin.1
      have hlast := le_last f.startX_ h.columns hin.1
      simp only [Fields.node, Fields.column]
      cases c.isLeft
      · simpa using hlast
      · simpa using hfirst
    · have hfirst := (first_le_iff f.startY_ hy).2 h.rows y' hin.2
      have hlast := le_last f.startY_ h.rows hin.2
      simp only [Fields.node, Fields.row]
      cases c.isUpper
      · simpa using hfirst
      · simpa using hlast

/-- Where the corners are what their names say, the grid goes to the right and upwards. -/
theorem upRight_of_isCorner (hx : 1 ≤ f.xNumber_.toNat) (hy : 1 ≤ f.yNumber_.toNat) (hinc : f.yIncrement_ ≠ 0)
    (h : ∀ c, IsCorner f c (f.cornerNode c).1 (f.cornerNode c).2) : UpRight f := by
  have hxlt := f.xNumber_.toNat_lt
  have hylt := f.yNumber_.toNat_lt
  have hleft : f.cornerNode .lowerLeft = (0, 0) := cornerNode_lower hx hy rfl
  have hfirst := h .lowerLeft
  rw [hleft] at hfirst
  have hcolumns : f.xNumber_.toNat = 1 ∨ 0 ≤ f.xIncrement_ := by
    refine (first_le_iff f.startX_ hx).1 fun k hk => ?_
    simpa [Corner.isLeft, Fields.node] using hfirst.lon k 0 (inGrid_iff.2 ⟨hk, by omega⟩)
  have hrows : f.yNumber_.toNat = 1 ∨ 0 ≤ f.yIncrement_ := by
    refine (first_le_iff f.startY_ hy).1 fun k hk => ?_
    simpa [Corner.isUpper, Fields.node] using hfirst.lat 0 k (inGrid_iff.2 ⟨by omega, hk⟩)
  have hwidth : f.xNumber_.toNat ≤ 2 ^ 31 := by
    have hright := (inGrid_iff.1 (h .lowerRight).inGrid).1.2
    rw [cornerNode_lower hx hy rfl] at hright
    change size (ofUnsigned ((f.xNumber_.toNat : ℤ) - 1)) < _ at hright
    have hkept := of_size_lt (n := (f.xNumber_.toNat : ℤ) - 1) (by omega) (by omega) (by omega)
    omega
  have hnodes : f.xNumber_.toNat * f.yNumber_.toNat ≤ 2 ^ 32 := by
    by_contra hmany
    -- the index of the last node is reduced to that of an earlier row
    have hlast := h .upperRight
    rw [cornerNode_eq hx hy] at hlast
    change IsCorner f .upperRight (size (ofUnsigned ((((f.yNumber_.toNat : ℤ) - 1) * f.xNumber_.toNat +
      (f.xNumber_.toNat - 1)) % 2 ^ 32 % f.xNumber_.toNat))) (size (ofUnsigned ((((f.yNumber_.toNat : ℤ) - 1) *
      f.xNumber_.toNat + (f.xNumber_.toNat - 1)) % 2 ^ 32 / f.xNumber_.toNat))) at hlast
    have hindex : (2 : ℤ) ^ 32 ≤ ((f.yNumber_.toNat : ℤ) - 1) * f.xNumber_.toNat + (f.xNumber_.toNat - 1) := by
      have hmany' : (2 : ℤ) ^ 32 < f.xNumber_.toNat * f.yNumber_.toNat := by exact_mod_cast not_le.1 hmany
      linarith
    generalize hn : (((f.yNumber_.toNat : ℤ) - 1) * f.xNumber_.toNat + (f.xNumber_.toNat - 1)) % 2 ^ 32 = n
      at hlast
    have hrow : n / f.xNumber_.toNat < f.yNumber_.toNat - 1 := by
      refine Int.ediv_lt_of_lt_mul (by omega) ?_
      omega
    have hnonneg : 0 ≤ n / f.xNumber_.toNat := Int.ediv_nonneg (by omega) (by omega)
    have hin := (inGrid_iff.1 hlast.inGrid).2.2
    obtain ⟨-, hkept⟩ := of_size_lt hnonneg (by omega) (by omega)
    have hlat := hlast.lat 0 (f.yNumber_.toNat - 1) (inGrid_iff.2 ⟨by omega, by omega⟩)
    rw [hkept] at hlat
    simp only [Corner.isUpper, if_true, Fields.node, add_le_add_iff_left] at hlat
    have hpos : 0 < f.yIncrement_ := lt_of_le_of_ne (hrows.resolve_left (by omega)) hinc.symm
    have hle : (((f.yNumber_.toNat : ℤ) - 1 : ℤ) : ℚ) ≤ ((n / f.xNumber_.toNat : ℤ) : ℚ) :=
      le_of_mul_le_mul_right hlat hpos
    have hle' : (f.yNumber_.toNat : ℤ) - 1 ≤ n / f.xNumber_.toNat := by exact_mod_cast hle
    omega
  have hheight : f.yNumber_.toNat ≤ 2 ^ 31 := by
    have hupper := (inGrid_iff.1 (h .upperLeft).inGrid).2.2
    rw [cornerNode_of_small hx hy hnodes] at hupper
    change size (ofUnsigned ((f.yNumber_.toNat : ℤ) - 1)) < _ at hupper
    have hkept := of_size_lt (n := (f.yNumber_.toNat : ℤ) - 1) (by omega) (by omega) (by omega)
    omega
  exact ⟨hcolumns, hrows, hwidth, hheight, hnodes⟩

end Which

/-! ### Points and texts -/

/-- The projection library takes the definition of a grid for one of longitudes and latitudes, and leaves its
    nodes where they are. -/
structure Unprojected (pj : Proj) (f : Fields) : Prop where
  longlat : isMetric f.projDefinition_ = false
  source : pj.init f.projDefinition_ = true
  target : pj.init "+proj=longlat +ellps=WGS84 +no_defs" = true
  degrees : pj.degToRad * pj.radToDeg = 1
  image : ∀ x y : ℤ, InGrid f.place x y → pj.image f.projDefinition_ "+proj=longlat +ellps=WGS84 +no_defs"
    (toRadians pj (f.node x y)) = some (toRadians pj (f.node x y))

/-- The nodes have longitudes and latitudes. -/
def OnGlobe (f : Fields) : Prop :=
  ∀ x y : ℤ, InGrid f.place x y → |(f.node x y).lon| ≤ 180 ∧ |(f.node x y).lat| ≤ 90

/-- The order of the corners in the text, with the first one at the end again. -/
def closedRing : List Corner := outlineCorners ++ outlineCorners.take 1

/-- A new object has the corners of a grid where their names say, and a text that is the closed ring of them. -/
structure OutlinesGrid (pj : Proj) (f : Fields) : Prop where
  corner : ∀ c, IsCorner f c (f.cornerNode c).1 (f.cornerNode c).2
  point : ∀ c, ((fresh f).point pj c).1 = .ok (located (rounded (f.cornerPlace c)))
  text : ∃ text, ((fresh f).wktRepresentation pj).1 = .ok text ∧
    Denotes text (closedRing.map fun c => rounded (f.cornerPlace c))

section Outline
variable {pj : Proj} {f : Fields} {x y : ℤ}

/-- A node has its own place, rounded. -/
theorem Unprojected.lonLatFromIndex (h : Unprojected pj f) (hin : InGrid f.place x y) :
    f.lonLatFromIndex pj x y = .ok (located (rounded (f.node x y))) := by
  have hdegrees : ∀ q : ℚ, q * pj.degToRad * pj.radToDeg = q := fun q => by
    rw [mul_assoc, h.degrees, mul_one]
  have himage : (pj.image f.projDefinition_ "+proj=longlat +ellps=WGS84 +no_defs"
      (toRadians pj (f.node x y))) = _ := h.image x y hin
  unfold Fields.lonLatFromIndex Fields.project_ Fields.unprojectedLonLat_
  simp only [h.longlat, Bool.false_eq_true, if_false, wdbProjection, h.source, h.target, if_true,
    wdbProjectionTransform_eq, bind, Except.bind, pure, Except.pure, List.mem_singleton, forall_eq, himage,
    Option.isSome_some, List.map_cons, List.map_nil, Option.map_some, Option.getD_some, List.headD_cons]
  simp only [located, toDegrees, toRadians, WithTop.map_coe, hdegrees]
  rfl

/-- A corner in the grid has its own place, rounded. -/
theorem Unprojected.cornerPoint (h : Unprojected pj f) {c : Corner}
    (hin : InGrid f.place (f.cornerNode c).1 (f.cornerNode c).2) :
    f.cornerPoint pj c = .ok (located (rounded (f.cornerPlace c))) :=
  h.lonLatFromIndex hin

/-- The text of the rounded corners. -/
theorem outline_eq (hpoint : ∀ c, f.cornerPoint pj c = .ok (located (rounded (f.cornerPlace c)))) :
    f.outline pj = .ok (showRing ((outlineCorners.map fun c => rounded (f.cornerPlace c)).map located)) := by
  rw [Fields.outline]
  simp only [outlineCorners, List.mapM_cons, List.mapM_nil, hpoint]
  rfl

theorem rounded_onGlobe (hglobe : OnGlobe f) (hin : InGrid f.place x y) :
    Rounded (rounded (f.node x y)) ∧ Short (rounded (f.node x y)).lat := by
  obtain ⟨hlon, hlat⟩ := hglobe x y hin
  refine ⟨⟨coordinate_wdbRound hlon, coordinate_wdbRound (hlat.trans (by norm_num))⟩, Or.inl ?_⟩
  have hround := abs_le.1 (Read.abs_wdbRound_sub_le (f.node x y).lat 4)
  obtain ⟨hlow, hhigh⟩ := abs_le.1 hlat
  have hsmall : (1 : ℚ) / 2 / 10 ^ 4 < 1 := by norm_num
  rw [rounded, abs_lt]
  constructor <;> linarith [hround.1, hround.2]

/-- The text is read as what is printed for the corners. -/
theorem denotes_outline (h : ∀ c ∈ outlineCorners, Rounded (rounded (f.cornerPlace c))) :
    Denotes (showRing ((outlineCorners.map fun c => rounded (f.cornerPlace c)).map located))
      (closedRing.map fun c => shortened (rounded (f.cornerPlace c))) := by
  have hprinted := denotes_showRing (outlineCorners.map fun c => rounded (f.cornerPlace c))
    (List.cons_ne_nil _ _) fun p hp => by
      obtain ⟨c, hc, rfl⟩ := List.mem_map.1 hp
      exact h c hc
  rwa [← List.map_take, ← List.map_append, List.map_map] at hprinted

/-- A text that says where the corners are has digits enough for them. -/
theorem OutlinesGrid.short (h : OutlinesGrid pj f) (hglobe : OnGlobe f) {c : Corner} (hc : c ∈ closedRing) :
    Short (rounded (f.cornerPlace c)).lon := by
  obtain ⟨hcorner, hpoint, text, htext, hdenotes⟩ := h
  have hfresh := @sound_fresh pj f
  have hrounded : ∀ c, Rounded (rounded (f.cornerPlace c)) := fun c =>
    (rounded_onGlobe hglobe (hcorner c).inGrid).1
  rw [hfresh.wktRepresentation.1, outline_eq fun c => (hfresh.point c).1.symm.trans (hpoint c)] at htext
  obtain rfl := Except.ok.inj htext
  have hsame := hdenotes.unique (denotes_outline fun c _ => hrounded c)
  rw [← (hrounded c).lon.sixDigits_eq_iff]
  exact (congrArg LonLat.lon (List.map_inj_left.1 hsame c hc)).symm

/-- For every grid of longitudes and latitudes: its corners are where their names say, and its text is the
    closed ring of them, exactly when it goes to the right and upwards, is small enough for its indices, and
    has a first and a last column whose rounded longitudes are less than 100 or have three decimals. -/
theorem outlinesGrid_iff (pj : Proj) (f : Fields) (h : Unprojected pj f) (hglobe : OnGlobe f)
    (hx : 1 ≤ f.xNumber_.toNat) (hy : 1 ≤ f.yNumber_.toNat) (hinc : f.yIncrement_ ≠ 0) :
    OutlinesGrid pj f ↔ UpRight f ∧ Short (wdbRound f.startX_ 4) ∧
      Short (wdbRound (f.startX_ + (f.xNumber_.toNat - 1) * f.xIncrement_) 4) := by
  have hlon : ∀ {c}, UpRight f → (rounded (f.cornerPlace c)).lon =
      if c.isLeft then wdbRound f.startX_ 4
      else wdbRound (f.startX_ + (f.xNumber_.toNat - 1) * f.xIncrement_) 4 := by
    intro c hup
    rw [Fields.cornerPlace, (hup.isCorner hx hy c).1]
    simp only [rounded, Fields.node, Fields.column]
    cases c.isLeft <;> simp
  constructor
  · intro houtlines
    have hup := upRight_of_isCorner hx hy hinc houtlines.corner
    have hleft := houtlines.short hglobe (c := .lowerLeft) (by decide)
    have hright := houtlines.short hglobe (c := .lowerRight) (by decide)
    rw [hlon hup] at hleft hright
    exact ⟨hup, hleft, hright⟩
  · rintro ⟨hup, hfirst, hlast⟩
    have hcorner : ∀ c, IsCorner f c (f.cornerNode c).1 (f.cornerNode c).2 := by
      intro c
      obtain ⟨hnode, hc⟩ := hup.isCorner hx hy c
      rwa [hnode]
    have hpoint := fun c => h.cornerPoint (hcorner c).inGrid
    have hrounded := fun c => rounded_onGlobe hglobe (hcorner c).inGrid
    have hsame : ∀ c, shortened (rounded (f.cornerPlace c)) = rounded (f.cornerPlace c) := by
      intro c
      have hshort : Short (rounded (f.cornerPlace c)).lon := by
        rw [hlon hup]
        split
        · exact hfirst
        · exact hlast
      obtain ⟨hround, hlat⟩ := hrounded c
      exact congrArg₂ LonLat.mk (hround.lon.sixDigits_eq_iff.2 hshort) (hround.lat.sixDigits_eq_iff.2 hlat)
    have hdenotes := denotes_outline (f := f) fun c _ => (hrounded c).1
    simp only [hsame] at hdenotes
    have hfresh := @sound_fresh pj f
    exact ⟨hcorner, fun c => (hfresh.point c).1.trans (hpoint c), _,
      hfresh.wktRepresentation.1.trans (outline_eq hpoint), hdenotes⟩

end Outline

/-! ### Grids of two by two points -/

/-- Longitudes and latitudes that are not projected, with factors that are the inverse of each other. -/
def exactLonglat : Proj := { Proj.longlat with radToDeg := 10 ^ 19 / 174532925199432958 }

/-- A grid of two by two points. -/
def twoByTwoAt (startX_ startY_ yIncrement_ : ℚ) : Fields :=
  ⟨startX_, startY_, 2, 2, 1, yIncrement_, none, "+proj=longlat +ellps=WGS84 +no_defs", .leftLowerHorizontal⟩

section TwoByTwo
variable {startX_ startY_ yIncrement_ : ℚ}

theorem inGrid_twoByTwo {x y : ℤ} (h : InGrid (twoByTwoAt startX_ startY_ yIncrement_).place x y) :
    (x = 0 ∨ x = 1) ∧ (y = 0 ∨ y = 1) := by
  obtain ⟨⟨hx, hx'⟩, hy, hy'⟩ := h
  change x < 2 at hx'
  change y < 2 at hy'
  omega

theorem unprojected_twoByTwo (h : |startY_| ≤ 90 ∧ |startY_ + yIncrement_| ≤ 90) :
    Unprojected exactLonglat (twoByTwoAt startX_ startY_ yIncrement_) := by
  have hlonglat : isMetric "+proj=longlat +ellps=WGS84 +no_defs" = false := by decide +kernel
  refine ⟨hlonglat, rfl, rfl, by decide +kernel, fun x y hin => ?_⟩
  have hlat : |((twoByTwoAt startX_ startY_ yIncrement_).node x y).lat| ≤ 90 := by
    obtain ⟨-, rfl | rfl⟩ := inGrid_twoByTwo hin
    · simpa [Fields.node, twoByTwoAt] using h.1
    · simpa [Fields.node, twoByTwoAt] using h.2
  have hradians : |(toRadians exactLonglat ((twoByTwoAt startX_ startY_ yIncrement_).node x y)).lat| ≤
      15708 / 10 ^ 4 := by
    have hfactor : exactLonglat.degToRad = 174532925199432958 / 10 ^ 19 := rfl
    rw [toRadians, abs_mul, hfactor]
    norm_num
    linarith
  exact if_pos hradians

theorem onGlobe_twoByTwo (hx : |startX_| ≤ 180 ∧ |startX_ + 1| ≤ 180)
    (hy : |startY_| ≤ 90 ∧ |startY_ + yIncrement_| ≤ 90) : OnGlobe (twoByTwoAt startX_ startY_ yIncrement_) := by
  intro x y hin
  obtain ⟨rfl | rfl, rfl | rfl⟩ := inGrid_twoByTwo hin
  all_goals simp [Fields.node, twoByTwoAt, hx.1, hx.2, hy.1, hy.2]

end TwoByTwo

theorem outlinesGrid_iff_north : OutlinesGrid exactLonglat (twoByTwoAt 10 60 1) := by
  refine (outlinesGrid_iff exactLonglat (twoByTwoAt 10 60 1) (unprojected_twoByTwo (by norm_num))
    (onGlobe_twoByTwo (by norm_num) (by norm_num)) (by decide) (by decide) (by decide +kernel)).2 ⟨?_, ?_, ?_⟩
  · exact ⟨Or.inr (by decide +kernel), Or.inr (by decide +kernel), by decide, by decide, by decide⟩
  · exact Or.inl (by decide +kernel)
  · exact Or.inl (by decide +kernel)

/-- The upper corners of a grid that goes southwards are its lower ones. And 100.1234 is printed as 100.123. -/
theorem not_outlinesGrid :
    (Unprojected exactLonglat (twoByTwoAt 10 61 (-1)) ∧ OnGlobe (twoByTwoAt 10 61 (-1)) ∧
      ¬ OutlinesGrid exactLonglat (twoByTwoAt 10 61 (-1))) ∧
    Unprojected exactLonglat (twoByTwoAt (1001234 / 10000) 60 1) ∧
      OnGlobe (twoByTwoAt (1001234 / 10000) 60 1) ∧
      ¬ OutlinesGrid exactLonglat (twoByTwoAt (1001234 / 10000) 60 1) := by
  refine ⟨⟨unprojected_twoByTwo (by norm_num), onGlobe_twoByTwo (by norm_num) (by norm_num), fun h => ?_⟩,
    unprojected_twoByTwo (by norm_num), onGlobe_twoByTwo (by norm_num) (by norm_num), fun h => ?_⟩
  · have hlat := (h.corner .upperLeft).lat 0 0 (by decide)
    revert hlat
    decide +kernel
  · have hshort := h.short (onGlobe_twoByTwo (by norm_num) (by norm_num)) (c := .lowerLeft) (by decide)
    have hlon : (rounded (Fields.cornerPlace (twoByTwoAt (1001234 / 10000) 60 1) .lowerLeft)).lon =
        1001234 / 10000 := by
      decide +kernel
    rw [hlon] at hshort
    rcases hshort with hless | ⟨n, hn⟩
    · norm_num at hless
    · have hten : (n : ℚ) * 10 = 1001234 := by
        rw [← hn]
        norm_num
      have hten' : n * 10 = 1001234 := by exact_mod_cast hten
      omega

end Wdb.Projection
