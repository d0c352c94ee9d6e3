import Wdb.Blob.Reads
import Wdb.Read.Surround

/-! The indices of the nodes of a grid, in the arithmetic of the machine, and reading a node's value.

    The numbers of points are of type `unsigned int`, coordinates and indices are `int`s: an operation on
    both is one of `unsigned int`. A grid whose values fit in a file of less than 2³¹ bytes is small enough
    for every step to be exact. -/

namespace Wdb.Projection
open MachineInt Relational Blob
open Read (PlaceSpecification InGrid)

/-! ### The macros -/

def xFromIndex (index : ℤ) (ps : PlaceSpecification) : ℤ := ofUnsigned (unsigned index % ps.xNumber)

def yFromIndex (index : ℤ) (ps : PlaceSpecification) : ℤ := ofUnsigned (unsigned index / ps.xNumber)

def indexFromXy (x y : ℤ) (ps : PlaceSpecification) : ℤ :=
  ofUnsigned (unsigned (unsigned (unsigned y * ps.xNumber) + unsigned x))

/-- The values of a grid with a node fit in a file that an `int` can measure. -/
structure Small (ps : PlaceSpecification) : Prop where
  one_le_xNumber : 1 ≤ ps.xNumber
  one_le_yNumber : 1 ≤ ps.yNumber
  bytes : 4 * (ps.xNumber * ps.yNumber) < 2 ^ 31

section Index
variable {ps : PlaceSpecification} {x y index : ℤ}

/-- The index of a node in the rows before its own and in its row. -/
theorem index_mem (h : InGrid ps x y) :
    0 ≤ y * ps.xNumber + x ∧ y * ps.xNumber + x < ps.xNumber * ps.yNumber := by
  obtain ⟨⟨hx₀, hx⟩, hy₀, hy⟩ := h
  have hrows : 0 ≤ y * ps.xNumber := Int.mul_nonneg hy₀ (by omega)
  have hlast : (y + 1) * ps.xNumber ≤ ps.yNumber * ps.xNumber :=
    Int.mul_le_mul_of_nonneg_right (by omega) (by omega)
  constructor <;> nlinarith

/-- Nothing wraps around for a node of a small grid. -/
theorem indexFromXy_eq (hps : Small ps) (h : InGrid ps x y) :
    indexFromXy x y ps = y * ps.xNumber + x := by
  obtain ⟨hlow, hhigh⟩ := index_mem h
  obtain ⟨⟨hx₀, hx⟩, hy₀, hy⟩ := h
  have hbytes := hps.bytes
  have hrows : 0 ≤ y * ps.xNumber := Int.mul_nonneg hy₀ (by omega)
  have hyNumber : y ≤ y * ps.xNumber := le_mul_of_one_le_right hy₀ hps.one_le_xNumber
  rw [indexFromXy, unsigned_eq hy₀ (by omega), unsigned_eq hrows (by omega),
    unsigned_eq hx₀ (by omega), unsigned_eq hlow (by omega), ofUnsigned_eq hlow (by omega)]

theorem xFromIndex_eq (hps : Small ps) (hlow : 0 ≤ index) (hhigh : index < ps.xNumber * ps.yNumber) :
    xFromIndex index ps = index % ps.xNumber := by
  have hbytes := hps.bytes
  have hpos := hps.one_le_xNumber
  have hle : index % ps.xNumber ≤ index := by
    have hrows : 0 ≤ ps.xNumber * (index / ps.xNumber) :=
      Int.mul_nonneg (by omega) (Int.ediv_nonneg hlow (by omega))
    have hsplit := Int.mul_ediv_add_emod index ps.xNumber
    omega
  rw [xFromIndex, unsigned_eq hlow (by omega),
    ofUnsigned_eq (Int.emod_nonneg _ (by omega)) (by omega)]

theorem yFromIndex_eq (hps : Small ps) (hlow : 0 ≤ index) (hhigh : index < ps.xNumber * ps.yNumber) :
    yFromIndex index ps = index / ps.xNumber := by
  have hbytes := hps.bytes
  have hpos := hps.one_le_xNumber
  have hle := Int.ediv_le_self ps.xNumber hlow
  rw [yFromIndex, unsigned_eq hlow (by omega),
    ofUnsigned_eq (Int.ediv_nonneg hlow (by omega)) (by omega)]

/-- The node of an index is in the grid. -/
theorem inGrid_of_index (hps : Small ps) (hlow : 0 ≤ index) (hhigh : index < ps.xNumber * ps.yNumber) :
    InGrid ps (xFromIndex index ps) (yFromIndex index ps) := by
  have hpos := hps.one_le_xNumber
  rw [xFromIndex_eq hps hlow hhigh, yFromIndex_eq hps hlow hhigh]
  refine ⟨⟨Int.emod_nonneg _ (by omega), Int.emod_lt_of_pos _ (by omega)⟩,
    Int.ediv_nonneg hlow (by omega), ?_⟩
  exact Int.ediv_lt_of_lt_mul (by omega) (by rwa [mul_comm] at hhigh)

theorem indexFromXy_fromIndex (hps : Small ps) (hlow : 0 ≤ index)
    (hhigh : index < ps.xNumber * ps.yNumber) :
    indexFromXy (xFromIndex index ps) (yFromIndex index ps) ps = index := by
  rw [indexFromXy_eq hps (inGrid_of_index hps hlow hhigh), xFromIndex_eq hps hlow hhigh,
    yFromIndex_eq hps hlow hhigh, mul_comm, Int.mul_ediv_add_emod]

theorem fromIndex_indexFromXy (hps : Small ps) (h : InGrid ps x y) :
    xFromIndex (indexFromXy x y ps) ps = x ∧ yFromIndex (indexFromXy x y ps) ps = y := by
  obtain ⟨hlow, hhigh⟩ := index_mem h
  obtain ⟨⟨hx₀, hx⟩, hy₀, hy⟩ := h
  rw [indexFromXy_eq hps ⟨⟨hx₀, hx⟩, hy₀, hy⟩, xFromIndex_eq hps hlow hhigh,
    yFromIndex_eq hps hlow hhigh]
  constructor
  · rw [Int.mul_add_emod_self_right, Int.emod_eq_of_lt hx₀ hx]
  · rw [Int.add_comm, Int.add_mul_ediv_right _ _ (by omega), Int.ediv_eq_zero_of_lt hx₀ hx, zero_add]

end Index

/-! ### Reading a node -/

/-- A node's values, with a geometry for its location. -/
structure GridPointData (G α : Type) where
  x : ℤ
  y : ℤ
  location : G
  value : α
  deriving DecidableEq

/-- The coordinates are compared as numbers of type `double`. -/
def indexRefersToPointOutsideFile (ps : PlaceSpecification) (x y : ℚ) : Bool :=
  x < 0 ∨ y < 0 ∨ x ≥ ps.xNumber ∨ y ≥ ps.yNumber

section Read
variable {G α : Type} (getGeometry : ℚ → ℚ → G) (float : List UInt8 → α)

/-- `BaseDataReader::readPoint`: `none` when it returns `false`. -/
def readPoint (ps : PlaceSpecification) (d : Directory) (x y dataId : ℤ) :
    Except ReadError (Option (GridPointData G α)) :=
  if indexRefersToPointOutsideFile ps x y then .ok none
  else do
    let value ← readFloatFromFile float d dataId (indexFromXy x y ps)
    return some ⟨x, y, getGeometry x y, value⟩

variable {ps : PlaceSpecification} {x y : ℤ}

theorem outsideFile_iff : indexRefersToPointOutsideFile ps x y = true ↔ ¬ InGrid ps x y := by
  simp only [indexRefersToPointOutsideFile, InGrid, decide_eq_true_eq]
  norm_cast
  omega

/-- A point is read exactly in the grid, from the four bytes at its index. -/
theorem readPoint_eq (hps : Small ps) {d : Directory} {dataId : ℤ} {data : List UInt8}
    (hd : d.content dataId = some data) (hdata : (data.length : ℤ) = 4 * (ps.xNumber * ps.yNumber)) :
    readPoint getGeometry float ps d x y dataId =
      .ok (if InGrid ps x y then some ⟨x, y, getGeometry x y,
        float ((data.drop (4 * (y * ps.xNumber + x)).toNat).take 4)⟩ else none) := by
  unfold readPoint
  by_cases h : InGrid ps x y
  · obtain ⟨hlow, hhigh⟩ := index_mem h
    have hbytes := hps.bytes
    have hposition : -2 ^ 31 ≤ y * ps.xNumber + x ∧ y * ps.xNumber + x < 2 ^ 31 := ⟨by omega, by omega⟩
    have hread := (readFloatFromFile_of_content float hd hposition).1 ⟨hlow, by omega⟩
    rw [if_neg (mt outsideFile_iff.1 (not_not.2 h)), if_pos h, indexFromXy_eq hps h, hread]
    rfl
  · rw [if_pos (outsideFile_iff.2 h), if_neg h]

/-- The stream that a node's value is read from. -/
def nodeStream (ps : PlaceSpecification) (data : List UInt8) (x y : ℤ) : InputStream :=
  (InputStream.openAt data 0).seekg (offset (size (size (indexFromXy x y ps) * 4)))

theorem read_nodeStream (hps : Small ps) {data : List UInt8}
    (hdata : (data.length : ℤ) = 4 * (ps.xNumber * ps.yNumber)) (h : InGrid ps x y) :
    (nodeStream ps data x y).read 4 =
      ((data.drop (4 * (y * ps.xNumber + x)).toNat).take 4,
        InputStream.openAt data ((4 * (y * ps.xNumber + x)).toNat + 4)) := by
  obtain ⟨hlow, hhigh⟩ := index_mem h
  have hbytes := hps.bytes
  rw [nodeStream, indexFromXy_eq hps h, offset_size_mul (by omega) (by omega),
    InputStream.seekg_of_nonneg (by omega), mul_comm _ (4 : ℤ),
    InputStream.read_of_le (by decide) (by rw [List.length_drop]; omega)]
  rfl

/-- For every small grid, the index of a node and the node of an index are inverse to each other between
    the nodes and the first `xNumber * yNumber` indices. From a file with the values of the grid a point is
    read exactly when it is in the grid, from the four bytes at its index, and the end of the file is not
    met. -/
theorem index_readPoint (ps : PlaceSpecification) (hx : 1 ≤ ps.xNumber) (hy : 1 ≤ ps.yNumber)
    (hbytes : 4 * (ps.xNumber * ps.yNumber) < 2 ^ 31) :
    (Set.BijOn (fun p : ℤ × ℤ => indexFromXy p.1 p.2 ps) {p | InGrid ps p.1 p.2}
        (Set.Ico 0 (ps.xNumber * ps.yNumber)) ∧
      Set.BijOn (fun k => (xFromIndex k ps, yFromIndex k ps)) (Set.Ico 0 (ps.xNumber * ps.yNumber))
        {p | InGrid ps p.1 p.2} ∧
      Set.InvOn (fun k => (xFromIndex k ps, yFromIndex k ps)) (fun p : ℤ × ℤ => indexFromXy p.1 p.2 ps)
        {p | InGrid ps p.1 p.2} (Set.Ico 0 (ps.xNumber * ps.yNumber))) ∧
    ∀ (x y : ℤ) (d : Directory) (dataId : ℤ) (data : List UInt8), d.content dataId = some data →
      (data.length : ℤ) = 4 * (ps.xNumber * ps.yNumber) →
      (readPoint getGeometry float ps d x y dataId = .ok none ↔ ¬ InGrid ps x y) ∧
      (InGrid ps x y →
        readPoint getGeometry float ps d x y dataId = .ok (some ⟨x, y, getGeometry x y,
          float ((data.drop (4 * (y * ps.xNumber + x)).toNat).take 4)⟩) ∧
        (nodeStream ps data x y).read 4 = ((data.drop (4 * (y * ps.xNumber + x)).toNat).take 4,
          InputStream.openAt data ((4 * (y * ps.xNumber + x)).toNat + 4)) ∧
        ((nodeStream ps data x y).read 4).1.length = 4) := by
  have hps : Small ps := ⟨hx, hy, hbytes⟩
  have hto : Set.MapsTo (fun p : ℤ × ℤ => indexFromXy p.1 p.2 ps) {p | InGrid ps p.1 p.2}
      (Set.Ico 0 (ps.xNumber * ps.yNumber)) := fun p hp => by
    change _ ≤ indexFromXy p.1 p.2 ps ∧ indexFromXy p.1 p.2 ps < _
    rw [indexFromXy_eq hps hp]
    exact index_mem hp
  have hfrom : Set.MapsTo (fun k => (xFromIndex k ps, yFromIndex k ps))
      (Set.Ico 0 (ps.xNumber * ps.yNumber)) {p | InGrid ps p.1 p.2} :=
    fun k hk => inGrid_of_index hps hk.1 hk.2
  have hinv : Set.InvOn (fun k => (xFromIndex k ps, yFromIndex k ps))
      (fun p : ℤ × ℤ => indexFromXy p.1 p.2 ps) {p | InGrid ps p.1 p.2}
      (Set.Ico 0 (ps.xNumber * ps.yNumber)) := by
    refine ⟨fun p hp => ?_, fun k hk => indexFromXy_fromIndex hps hk.1 hk.2⟩
    obtain ⟨hpx, hpy⟩ := fromIndex_indexFromXy hps hp
    exact Prod.ext hpx hpy
  refine ⟨⟨hinv.bijOn hto hfrom, hinv.symm.bijOn hfrom hto, hinv⟩, fun x y d dataId data hd hdata => ?_⟩
  have hread := readPoint_eq getGeometry float (x := x) (y := y) hps hd hdata
  refine ⟨?_, fun h => ⟨by rw [hread, if_pos h], read_nodeStream hps hdata h, ?_⟩⟩
  · rw [hread]
    by_cases h : InGrid ps x y
    · simp [h]
    · simp [h]
  · obtain ⟨hlow, hhigh⟩ := index_mem h
    rw [read_nodeStream hps hdata h, List.length_take, List.length_drop]
    omega

/-- A grid of two by three nodes. -/
theorem index_readPoint_two_three : Set.InvOn
    (fun k => (xFromIndex k ⟨0, 0, 2, 3, 1, 1, 4030, ""⟩, yFromIndex k ⟨0, 0, 2, 3, 1, 1, 4030, ""⟩))
    (fun p : ℤ × ℤ => indexFromXy p.1 p.2 ⟨0, 0, 2, 3, 1, 1, 4030, ""⟩)
    {p | InGrid ⟨0, 0, 2, 3, 1, 1, 4030, ""⟩ p.1 p.2} (Set.Ico 0 (2 * 3)) :=
  (index_readPoint (fun x y => (x, y)) (fun bytes => bytes) ⟨0, 0, 2, 3, 1, 1, 4030, ""⟩
    (by decide) (by decide) (by decide)).1.2.2

end Read

end Wdb.Projection
