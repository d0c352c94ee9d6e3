import Wdb.Read.Surround

/-! What each interpolation returns at an exact index.

    `nearest` returns the node that is nearest in each coordinate, `exact` the same node when it is near
    enough, and `bilinear` the combination of the four nodes of the cell, weighted by the fractional
    parts. -/

namespace Wdb.Read

/-! ### One node -/

/-- The nearest integer is in a range that starts at 0 when the number is, up to a half. -/
theorem mathRound_mem_iff (e : ℚ) (n : ℤ) :
    0 ≤ mathRound e ∧ mathRound e < n ↔ -(1 / 2) ≤ e ∧ e < n - 1 / 2 := by
  rw [mathRound, Int.le_floor, Int.floor_lt, Int.cast_zero]
  constructor <;> rintro ⟨hlow, hhigh⟩ <;> constructor <;> linarith

theorem abs_sub_mathRound_le (e : ℚ) : |e - mathRound e| ≤ 1 / 2 := by
  have hle := Int.floor_le (e + 1 / 2)
  have hlt := Int.lt_floor_add_one (e + 1 / 2)
  rw [abs_le, mathRound]
  constructor <;> linarith

/-- No integer is nearer. -/
theorem abs_sub_mathRound_le_abs_sub (e : ℚ) (i : ℤ) : |e - mathRound e| ≤ |e - i| := by
  by_cases hi : mathRound e = i
  · rw [hi]
  · -- another integer is at least a half away
    have hone : (1 : ℚ) ≤ |(mathRound e : ℚ) - i| := by
      exact_mod_cast Int.one_le_abs (sub_ne_zero.2 hi)
    have htriangle : |(mathRound e : ℚ) - i| ≤ |mathRound e - e| + |e - i| := abs_sub_le _ _ _
    have hhalf := abs_sub_mathRound_le e
    rw [abs_sub_comm] at htriangle
    rw [abs_sub_comm (mathRound e : ℚ) e, abs_sub_comm (i : ℚ)] at htriangle
    linarith

section Nodes
variable (ps : PlaceSpecification) (readFloatFromFile : ℤ → Option ℚ) (exactX exactY : ℚ)

theorem mem_readNearest_ {p : GridPoint} : p ∈ readNearest_ ps readFloatFromFile exactX exactY ↔
    InGrid ps (mathRound exactX) (mathRound exactY) ∧ p = ⟨mathRound exactX, mathRound exactY,
      readFloatFromFile (indexFromXy ps (mathRound exactX) (mathRound exactY))⟩ := by
  rw [readNearest_, Option.mem_toList, readPoint_eq_some_iff]

theorem mem_readExact_ {p : GridPoint} : p ∈ readExact_ ps readFloatFromFile exactX exactY ↔
    (|exactX - mathRound exactX| ≤ 1 / 1000 ∧ |exactY - mathRound exactY| ≤ 1 / 1000) ∧
      p ∈ readNearest_ ps readFloatFromFile exactX exactY := by
  unfold readExact_ distanceToNearestInteger
  split
  · next hfar => exact iff_of_false List.not_mem_nil fun h => by rcases hfar with hfar | hfar <;> linarith
  · next hnear =>
    rw [not_or, not_lt, not_lt] at hnear
    rw [and_iff_right hnear]

/-- A point that is read is the only one. -/
theorem readNearest_eq_singleton {p : GridPoint}
    (h : p ∈ readNearest_ ps readFloatFromFile exactX exactY) :
    readNearest_ ps readFloatFromFile exactX exactY = [p] := by
  rw [readNearest_, Option.mem_toList] at h
  rw [readNearest_, h, Option.toList_some]

theorem readExact_eq_singleton {p : GridPoint}
    (h : p ∈ readExact_ ps readFloatFromFile exactX exactY) :
    readExact_ ps readFloatFromFile exactX exactY = [p] := by
  unfold readExact_ at h ⊢
  split at h
  · exact absurd h List.not_mem_nil
  · next hnear =>
    rw [if_neg hnear]
    exact readNearest_eq_singleton ps readFloatFromFile exactX exactY h

/-- For every grid and every index, in exact arithmetic: `nearest` returns at most one point, and one exactly when both
    coordinates are in the grid up to a half; it is a node that no node of the grid is nearer than in any
    coordinate. `exact` returns a point exactly when a node of the grid is within a thousandth in both
    coordinates; it is that node, and the one that `nearest` returns. -/
theorem nearest_exact_nodes :
    (readNearest_ ps readFloatFromFile exactX exactY).length ≤ 1 ∧
    (readNearest_ ps readFloatFromFile exactX exactY ≠ [] ↔
      (-(1 / 2) ≤ exactX ∧ exactX < ps.xNumber - 1 / 2) ∧
        -(1 / 2) ≤ exactY ∧ exactY < ps.yNumber - 1 / 2) ∧
    (∀ p ∈ readNearest_ ps readFloatFromFile exactX exactY, InGrid ps p.x p.y ∧
      p.value = readFloatFromFile (indexFromXy ps p.x p.y) ∧
      ∀ i j, InGrid ps i j → |exactX - p.x| ≤ |exactX - i| ∧ |exactY - p.y| ≤ |exactY - j|) ∧
    (readExact_ ps readFloatFromFile exactX exactY ≠ [] ↔
      ∃ i j, InGrid ps i j ∧ |exactX - i| ≤ 1 / 1000 ∧ |exactY - j| ≤ 1 / 1000) ∧
    ∀ p ∈ readExact_ ps readFloatFromFile exactX exactY,
      readExact_ ps readFloatFromFile exactX exactY = [p] ∧
      readNearest_ ps readFloatFromFile exactX exactY = [p] ∧
      ∀ i j, InGrid ps i j → |exactX - i| ≤ 1 / 1000 → |exactY - j| ≤ 1 / 1000 → p.x = i ∧ p.y = j := by
  have hnonempty : ∀ l : List GridPoint, l ≠ [] ↔ ∃ p, p ∈ l := fun l =>
    ⟨List.exists_mem_of_ne_nil l, fun ⟨_, hp⟩ => List.ne_nil_of_mem hp⟩
  have hround : ∀ {e : ℚ} {i : ℤ}, |e - i| ≤ 1 / 1000 → mathRound e = i := fun h =>
    ((nearest_iff _ _).2 h).2
  refine ⟨?_, ?_, fun p hp => ?_, ?_, fun p hp => ?_⟩
  · rw [readNearest_]
    cases readPoint ps readFloatFromFile (mathRound exactX) (mathRound exactY) <;> simp
  · simp only [hnonempty, mem_readNearest_, exists_and_left, exists_eq, and_true]
    rw [InGrid, mathRound_mem_iff, mathRound_mem_iff]
  · obtain ⟨hgrid, rfl⟩ := (mem_readNearest_ ps readFloatFromFile exactX exactY).1 hp
    exact ⟨hgrid, rfl, fun i j _ =>
      ⟨abs_sub_mathRound_le_abs_sub exactX i, abs_sub_mathRound_le_abs_sub exactY j⟩⟩
  · simp only [hnonempty, mem_readExact_, mem_readNearest_, exists_and_left, exists_eq, and_true]
    constructor
    · rintro ⟨hnear, hgrid⟩
      exact ⟨_, _, hgrid, hnear⟩
    · rintro ⟨i, j, hgrid, hi, hj⟩
      rw [hround hi, hround hj]
      exact ⟨⟨hi, hj⟩, hgrid⟩
  · obtain ⟨_, hnearest⟩ := (mem_readExact_ ps readFloatFromFile exactX exactY).1 hp
    refine ⟨readExact_eq_singleton ps readFloatFromFile exactX exactY hp,
      readNearest_eq_singleton ps readFloatFromFile exactX exactY hnearest, fun i j _ hi hj => ?_⟩
    obtain ⟨_, rfl⟩ := (mem_readNearest_ ps readFloatFromFile exactX exactY).1 hnearest
    exact ⟨hround hi, hround hj⟩

end Nodes

/-! ### The cell -/

section Cell
variable (ps : PlaceSpecification) (interpolationParam : ℤ)

/-- The four nodes of a cell of the grid, in the order in which they are read. -/
theorem readSurround_cell (readFloatFromFile : ℤ → Option ℚ) {exactX exactY : ℚ}
    (hx : 0 ≤ ⌊exactX⌋ ∧ ⌊exactX⌋ + 1 < ps.xNumber) (hy : 0 ≤ ⌊exactY⌋ ∧ ⌊exactY⌋ + 1 < ps.yNumber) :
    readSurround_ ps readFloatFromFile exactX exactY 1 =
      [(⌊exactX⌋, ⌊exactY⌋), (⌊exactX⌋ + 1, ⌊exactY⌋), (⌊exactX⌋, ⌊exactY⌋ + 1),
        (⌊exactX⌋ + 1, ⌊exactY⌋ + 1)].map fun q =>
          ⟨q.1, q.2, readFloatFromFile (indexFromXy ps q.1 q.2)⟩ := by
  have htwo : ∀ n : ℤ, indices (n - (1 - 1)) (n + 1) = [n, n + 1] := by
    intro n
    have hlen : (n + 1 + 1 - (n - (1 - 1))).toNat = 2 := by omega
    rw [indices_eq, hlen]
    simp [List.range_succ]
  have hread : ∀ {i j : ℤ}, InGrid ps i j → readPoint ps readFloatFromFile i j =
      some ⟨i, j, readFloatFromFile (indexFromXy ps i j)⟩ := fun h => readPoint_eq_some_iff.2 ⟨h, rfl⟩
  have h00 := hread (i := ⌊exactX⌋) (j := ⌊exactY⌋) (by unfold InGrid; omega)
  have h10 := hread (i := ⌊exactX⌋ + 1) (j := ⌊exactY⌋) (by unfold InGrid; omega)
  have h01 := hread (i := ⌊exactX⌋) (j := ⌊exactY⌋ + 1) (by unfold InGrid; omega)
  have h11 := hread (i := ⌊exactX⌋ + 1) (j := ⌊exactY⌋ + 1) (by unfold InGrid; omega)
  rw [readSurround_eq, htwo, htwo]
  simp [h00, h10, h01, h11]

/-- The fractional part, as `interpolate::bilinear` computes it. -/
theorem sub_trunc_eq_fract {e : ℚ} (he : 0 ≤ e) : e - trunc e = Int.fract e := by
  rw [trunc, if_neg (not_lt.2 he), Int.fract]

/-- The value between four corners. -/
def combination (v₀₀ v₁₀ v₀₁ v₁₁ x y : ℚ) : ℚ :=
  (v₀₀ * (1 - x) + v₁₀ * x) * (1 - y) + (v₀₁ * (1 - x) + v₁₁ * x) * y

/-- A weighted mean is between its two values. -/
theorem mean_mem_Icc {a b lo hi t : ℚ} (ha : lo ≤ a ∧ a ≤ hi) (hb : lo ≤ b ∧ b ≤ hi) (h₀ : 0 ≤ t)
    (h₁ : t ≤ 1) : lo ≤ a * (1 - t) + b * t ∧ a * (1 - t) + b * t ≤ hi := by
  constructor <;> nlinarith

/-- So is the value between four corners between the least and the greatest of them. -/
theorem combination_mem_Icc {v₀₀ v₁₀ v₀₁ v₁₁ lo hi x y : ℚ} (h₀₀ : lo ≤ v₀₀ ∧ v₀₀ ≤ hi)
    (h₁₀ : lo ≤ v₁₀ ∧ v₁₀ ≤ hi) (h₀₁ : lo ≤ v₀₁ ∧ v₀₁ ≤ hi) (h₁₁ : lo ≤ v₁₁ ∧ v₁₁ ≤ hi)
    (hx₀ : 0 ≤ x) (hx₁ : x ≤ 1) (hy₀ : 0 ≤ y) (hy₁ : y ≤ 1) :
    lo ≤ combination v₀₀ v₁₀ v₀₁ v₁₁ x y ∧ combination v₀₀ v₁₀ v₀₁ v₁₁ x y ≤ hi :=
  mean_mem_Icc (mean_mem_Icc h₀₀ h₁₀ hx₀ hx₁) (mean_mem_Icc h₀₁ h₁₁ hx₀ hx₁) hy₀ hy₁

/-- Reading with `bilinear` inside a cell. -/
theorem singlePointRead_bilinear (readFloatFromFile : ℤ → Option ℚ) {exactX exactY : ℚ}
    (hx : 0 ≤ exactX ∧ ⌊exactX⌋ + 1 < ps.xNumber) (hy : 0 ≤ exactY ∧ ⌊exactY⌋ + 1 < ps.yNumber) :
    singlePointRead ps readFloatFromFile .bilinear interpolationParam ⟨exactX, exactY⟩ =
      .bilinear (readSurround_ ps readFloatFromFile exactX exactY 1)
        (some (linear
          (linear (readFloatFromFile (indexFromXy ps ⌊exactX⌋ ⌊exactY⌋))
            (readFloatFromFile (indexFromXy ps (⌊exactX⌋ + 1) ⌊exactY⌋)) (Int.fract exactX))
          (linear (readFloatFromFile (indexFromXy ps ⌊exactX⌋ (⌊exactY⌋ + 1)))
            (readFloatFromFile (indexFromXy ps (⌊exactX⌋ + 1) (⌊exactY⌋ + 1))) (Int.fract exactX))
          (Int.fract exactY))) := by
  have hcell := readSurround_cell ps readFloatFromFile ⟨Int.floor_nonneg.2 hx.1, hx.2⟩
    ⟨Int.floor_nonneg.2 hy.1, hy.2⟩
  simp only [singlePointRead]
  rw [hcell]
  simp only [List.map_cons, List.map_nil, List.length_cons, List.length_nil, Reading.bilinear.injEq,
    true_and]
  rw [if_neg (by omega)]
  simp only [bilinear, sub_trunc_eq_fract hx.1, sub_trunc_eq_fract hy.1, Option.some_inj]
  rfl

/-- The value of the node at two indices. -/
def nodeValue {α : Type} (value : ℤ → α) (i j : ℤ) : α := value (indexFromXy ps i j)

/-- For every grid of numbers and every index in a cell of it, `bilinear` returns one point. Its value is
    the combination of the four corners with the fractional parts as weights; it is between the least and
    the greatest of them, and at a node it is the node's. -/
theorem bilinear_combines (value : ℤ → ℚ) (exactX exactY : ℚ)
    (hx : 0 ≤ exactX ∧ ⌊exactX⌋ + 1 < ps.xNumber) (hy : 0 ≤ exactY ∧ ⌊exactY⌋ + 1 < ps.yNumber) :
    ∃ surrounding v v₀₀ v₁₀ v₀₁ v₁₁,
      singlePointRead ps (fun n => some (value n)) .bilinear interpolationParam ⟨exactX, exactY⟩ =
        .bilinear surrounding (some (some v)) ∧
      (v₀₀ = nodeValue ps value ⌊exactX⌋ ⌊exactY⌋ ∧ v₁₀ = nodeValue ps value (⌊exactX⌋ + 1) ⌊exactY⌋ ∧
        v₀₁ = nodeValue ps value ⌊exactX⌋ (⌊exactY⌋ + 1) ∧
        v₁₁ = nodeValue ps value (⌊exactX⌋ + 1) (⌊exactY⌋ + 1)) ∧
      v = combination v₀₀ v₁₀ v₀₁ v₁₁ (Int.fract exactX) (Int.fract exactY) ∧
      min (min v₀₀ v₁₀) (min v₀₁ v₁₁) ≤ v ∧ v ≤ max (max v₀₀ v₁₀) (max v₀₁ v₁₁) ∧
      ∀ i j : ℤ, exactX = i → exactY = j → v = nodeValue ps value i j := by
  have hread := singlePointRead_bilinear ps interpolationParam (fun n => some (value n)) hx hy
  have hbetween (v₀₀ v₁₀ v₀₁ v₁₁ : ℚ) :
      min (min v₀₀ v₁₀) (min v₀₁ v₁₁) ≤
          combination v₀₀ v₁₀ v₀₁ v₁₁ (Int.fract exactX) (Int.fract exactY) ∧
        combination v₀₀ v₁₀ v₀₁ v₁₁ (Int.fract exactX) (Int.fract exactY) ≤
          max (max v₀₀ v₁₀) (max v₀₁ v₁₁) :=
    combination_mem_Icc (by simp) (by simp) (by simp) (by simp) (Int.fract_nonneg exactX)
      (Int.fract_lt_one exactX).le (Int.fract_nonneg exactY) (Int.fract_lt_one exactY).le
  refine ⟨_, _, _, _, _, _, hread, ⟨rfl, rfl, rfl, rfl⟩, rfl, (hbetween _ _ _ _).1,
    (hbetween _ _ _ _).2, ?_⟩
  rintro i j rfl rfl
  simp [nodeValue]

/-- In the middle of a cell of four nodes. -/
theorem bilinear_combines_middle :
    ∃ surrounding v v₀₀ v₁₀ v₀₁ v₁₁,
      singlePointRead ⟨0, 0, 2, 2, 1, 1, 4030, ""⟩ (fun n => some (n : ℚ)) .bilinear 1 ⟨1 / 2, 1 / 2⟩ =
        .bilinear surrounding (some (some v)) ∧
      (v₀₀ = nodeValue ⟨0, 0, 2, 2, 1, 1, 4030, ""⟩ (fun n => (n : ℚ)) ⌊(1 / 2 : ℚ)⌋ ⌊(1 / 2 : ℚ)⌋ ∧
        v₁₀ = nodeValue ⟨0, 0, 2, 2, 1, 1, 4030, ""⟩ (fun n => (n : ℚ)) (⌊(1 / 2 : ℚ)⌋ + 1)
          ⌊(1 / 2 : ℚ)⌋ ∧
        v₀₁ = nodeValue ⟨0, 0, 2, 2, 1, 1, 4030, ""⟩ (fun n => (n : ℚ)) ⌊(1 / 2 : ℚ)⌋
          (⌊(1 / 2 : ℚ)⌋ + 1) ∧
        v₁₁ = nodeValue ⟨0, 0, 2, 2, 1, 1, 4030, ""⟩ (fun n => (n : ℚ)) (⌊(1 / 2 : ℚ)⌋ + 1)
          (⌊(1 / 2 : ℚ)⌋ + 1)) ∧
      v = combination v₀₀ v₁₀ v₀₁ v₁₁ (Int.fract (1 / 2)) (Int.fract (1 / 2)) ∧
      min (min v₀₀ v₁₀) (min v₀₁ v₁₁) ≤ v ∧ v ≤ max (max v₀₀ v₁₀) (max v₀₁ v₁₁) ∧
      ∀ i j : ℤ, (1 / 2 : ℚ) = i → (1 / 2 : ℚ) = j →
        v = nodeValue ⟨0, 0, 2, 2, 1, 1, 4030, ""⟩ (fun n => (n : ℚ)) i j :=
  bilinear_combines ⟨0, 0, 2, 2, 1, 1, 4030, ""⟩ 1 (fun n => n) (1 / 2) (1 / 2)
    ⟨by norm_num, by norm_num⟩ ⟨by norm_num, by norm_num⟩

/-- A node itself, with the four values that are combined there. The others count for nothing, unless one
    of them is not a number. -/
theorem linear_linear_zero (v₀₀ v₁₀ v₀₁ v₁₁ : Option ℚ) :
    linear (linear v₀₀ v₁₀ 0) (linear v₀₁ v₁₁ 0) 0 = v₀₀ ↔
      v₀₀ = none ∨ v₁₀ ≠ none ∧ v₀₁ ≠ none ∧ v₁₁ ≠ none := by
  cases v₀₀ <;> cases v₁₀ <;> cases v₀₁ <;> cases v₁₁ <;> simp [linear]

/-- For every grid and every node of it that is not in the last row or column: `exact` returns the node's
    value at its index, and `bilinear` returns one point there. The values are equal exactly when the
    node's is not a number or the three following nodes' are numbers. -/
theorem bilinear_at_node (value : ℤ → Option ℚ) {i j : ℤ} (hi : 0 ≤ i ∧ i + 1 < ps.xNumber)
    (hj : 0 ≤ j ∧ j + 1 < ps.yNumber) :
    singlePointRead ps value .exact interpolationParam ⟨i, j⟩ =
        .points [⟨i, j, nodeValue ps value i j⟩] ∧
      ∃ surrounding v, singlePointRead ps value .bilinear interpolationParam ⟨i, j⟩ =
          .bilinear surrounding (some v) ∧
        (v = nodeValue ps value i j ↔ nodeValue ps value i j = none ∨
          nodeValue ps value (i + 1) j ≠ none ∧ nodeValue ps value i (j + 1) ≠ none ∧
            nodeValue ps value (i + 1) (j + 1) ≠ none) := by
  constructor
  · rw [singlePointRead, Reading.points.injEq, nodeValue,
      readExact_eq_singleton_iff ⟨hi.1, by omega⟩ ⟨hj.1, by omega⟩, nearest_iff, nearest_iff]
    simp
  · have hx : (0 : ℚ) ≤ i ∧ ⌊(i : ℚ)⌋ + 1 < ps.xNumber := by simpa using hi
    have hy : (0 : ℚ) ≤ j ∧ ⌊(j : ℚ)⌋ + 1 < ps.yNumber := by simpa using hj
    have hread := singlePointRead_bilinear ps interpolationParam value hx hy
    simp only [Int.floor_intCast, Int.fract_intCast] at hread
    exact ⟨_, _, hread, linear_linear_zero _ _ _ _⟩

/-- The first node of a grid of four. -/
theorem bilinear_at_node_corner :
    singlePointRead ⟨0, 0, 2, 2, 1, 1, 4030, ""⟩ (fun n => some (n : ℚ)) .exact 1
        ⟨(0 : ℤ), (0 : ℤ)⟩ =
          .points [⟨0, 0, nodeValue ⟨0, 0, 2, 2, 1, 1, 4030, ""⟩ (fun n => some (n : ℚ)) 0 0⟩] ∧
      ∃ surrounding v, singlePointRead ⟨0, 0, 2, 2, 1, 1, 4030, ""⟩ (fun n => some (n : ℚ)) .bilinear 1
          ⟨(0 : ℤ), (0 : ℤ)⟩ = .bilinear surrounding (some v) ∧
        (v = nodeValue ⟨0, 0, 2, 2, 1, 1, 4030, ""⟩ (fun n => some (n : ℚ)) 0 0 ↔
          nodeValue ⟨0, 0, 2, 2, 1, 1, 4030, ""⟩ (fun n => some (n : ℚ)) 0 0 = none ∨
          nodeValue ⟨0, 0, 2, 2, 1, 1, 4030, ""⟩ (fun n => some (n : ℚ)) (0 + 1) 0 ≠ none ∧
            nodeValue ⟨0, 0, 2, 2, 1, 1, 4030, ""⟩ (fun n => some (n : ℚ)) 0 (0 + 1) ≠ none ∧
            nodeValue ⟨0, 0, 2, 2, 1, 1, 4030, ""⟩ (fun n => some (n : ℚ)) (0 + 1) (0 + 1) ≠ none) :=
  bilinear_at_node ⟨0, 0, 2, 2, 1, 1, 4030, ""⟩ 1 (fun n => some n) (by decide) (by decide)

/-- On a grid of one node no four nodes are around it, and a neighbour that is not a number hides the
    node's value. -/
theorem bilinear_not_at_node :
    (singlePointRead ⟨0, 0, 1, 1, 1, 1, 4030, ""⟩ (fun _ => some 5) .exact 1 ⟨0, 0⟩ =
        .points [⟨0, 0, some 5⟩] ∧
      singlePointRead ⟨0, 0, 1, 1, 1, 1, 4030, ""⟩ (fun _ => some 5) .bilinear 1 ⟨0, 0⟩ =
        .bilinear [⟨0, 0, some 5⟩] none) ∧
    singlePointRead ⟨0, 0, 2, 2, 1, 1, 4030, ""⟩ (fun n => if n = 3 then none else some 5) .exact 1
        ⟨0, 0⟩ = .points [⟨0, 0, some 5⟩] ∧
      singlePointRead ⟨0, 0, 2, 2, 1, 1, 4030, ""⟩ (fun n => if n = 3 then none else some 5) .bilinear 1
        ⟨0, 0⟩ = .bilinear [⟨0, 0, some 5⟩, ⟨1, 0, some 5⟩, ⟨0, 1, some 5⟩, ⟨1, 1, none⟩] (some none) := by
  decide +kernel

end Cell

end Wdb.Read
