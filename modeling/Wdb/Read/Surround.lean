import Wdb.Lib.MachineInt
import Wdb.Read.GridPoints

/-! The nodes around a location: `readSurround_` with the integers and the buffer that it runs with, and
    what the four interpolations read.

    The window reaches from `n - 1` nodes before the integral part of the index to `n` nodes after it,
    also where the location is on a grid line. -/

namespace Wdb.Read
open MachineInt

/-! ### `readSurround_` as it runs -/

section Machine
variable (ps : PlaceSpecification) (readFloatFromFile : ℤ → Option ℚ)

/-- A coordinate that is moved by a half when it is on a grid line. -/
def offGridLine (exact : ℚ) : Option ℚ :=
  (int (trunc exact)).map fun n : ℤ => if exact = n then exact + 1 / 2 else exact

/-- The first and the last index of the window along one axis, as `int`s. -/
def bounds (exact : ℚ) (interpolationParam : ℤ) : Option (ℤ × ℤ) := do
  let n ← int (interpolationParam - 1)
  let first ← int (⌊exact⌋ - n)
  let last ← int (⌈exact⌉ + n)
  return (first, last)

/-- `readSurround_`: the points that are in the buffer at the end. -/
def surround (exactX exactY : ℚ) (interpolationParam : ℤ) : Option (List GridPoint) := do
  let exactX ← offGridLine exactX
  let exactY ← offGridLine exactY
  let side ← int (interpolationParam * 2)
  let sizeRet ← int (side * side)
  let (startX, endX) ← bounds exactX interpolationParam
  let (startY, endY) ← bounds exactY interpolationParam
  loop (fun y out => loop (fun x out =>
    (readPoint ps readFloatFromFile x y).elim (some out) (store sizeRet out)) startX endX out)
    startY endY []

/-- A node is in the grid. -/
def InGrid (x y : ℤ) : Prop := (0 ≤ x ∧ x < ps.xNumber) ∧ 0 ≤ y ∧ y < ps.yNumber

instance (x y : ℤ) : Decidable (InGrid ps x y) :=
  inferInstanceAs (Decidable ((0 ≤ x ∧ x < ps.xNumber) ∧ 0 ≤ y ∧ y < ps.yNumber))

/-- The nodes of the window that are in the grid, in the order of the rows, in a buffer for all nodes of
    the window. -/
structure Surrounds (exactX exactY : ℚ) (n : ℤ) (out : List GridPoint) : Prop where
  mem_iff : ∀ p, p ∈ out ↔
    (⌊exactX⌋ - (n - 1) ≤ p.x ∧ p.x ≤ ⌊exactX⌋ + n) ∧ (⌊exactY⌋ - (n - 1) ≤ p.y ∧ p.y ≤ ⌊exactY⌋ + n) ∧
      InGrid ps p.x p.y ∧ p.value = readFloatFromFile (indexFromXy ps p.x p.y)
  rows : out.Pairwise fun p q => p.y < q.y ∨ p.y = q.y ∧ p.x < q.x
  length_le : (out.length : ℤ) ≤ 4 * n ^ 2
  full : InGrid ps (⌊exactX⌋ - (n - 1)) (⌊exactY⌋ - (n - 1)) → InGrid ps (⌊exactX⌋ + n) (⌊exactY⌋ + n) →
    (out.length : ℤ) = 4 * n ^ 2

end Machine

/-! ### The window -/

/-- Off the grid lines, the nodes on both sides are those on both sides of the integral part. -/
theorem floor_ceil_offGridLine (e : ℚ) (c : ℚ)
    (hc : c = if e = trunc e then e + 1 / 2 else e) : ⌊c⌋ = ⌊e⌋ ∧ ⌈c⌉ = ⌊e⌋ + 1 := by
  have hle := Int.floor_le e
  have hlt := Int.lt_floor_add_one e
  by_cases he : e = trunc e
  · have hfloor : (⌊e⌋ : ℚ) = e := by
      rw [he, Int.floor_intCast]
    rw [hc, if_pos he, Int.floor_eq_iff, Int.ceil_eq_iff]
    push_cast
    refine ⟨⟨?_, ?_⟩, ?_, ?_⟩ <;> linarith
  · have hne : (⌊e⌋ : ℚ) ≠ e := by
      intro hfloor
      refine he ?_
      unfold trunc
      split
      · rw [← hfloor, Int.ceil_intCast]
      · exact hfloor.symm
    have hpos : (⌊e⌋ : ℚ) < e := lt_of_le_of_ne hle hne
    rw [hc, if_neg he, Int.ceil_eq_iff]
    push_cast
    exact ⟨rfl, by linarith, by linarith⟩

theorem indices_eq (start stop : ℤ) :
    indices start stop = (List.range (stop + 1 - start).toNat).map fun k : ℕ => start + k := by
  simp [indices, ← List.map_eq_flatMap]

theorem mem_indices {start stop i : ℤ} : i ∈ indices start stop ↔ start ≤ i ∧ i ≤ stop := by
  rw [indices_eq, List.mem_map]
  constructor
  · rintro ⟨n, hn, rfl⟩
    rw [List.mem_range] at hn
    omega
  · rintro ⟨hstart, hstop⟩
    exact ⟨(i - start).toNat, List.mem_range.2 (by omega), by omega⟩

theorem length_indices (start stop : ℤ) : (indices start stop).length = (stop + 1 - start).toNat := by
  simp [indices_eq]

theorem pairwise_indices (start stop : ℤ) : (indices start stop).Pairwise (· < ·) := by
  rw [indices_eq, List.pairwise_map]
  exact List.pairwise_lt_range.imp fun h => by omega

section Window
variable {ps : PlaceSpecification} {readFloatFromFile : ℤ → Option ℚ}

theorem readPoint_eq_some_iff {x y : ℤ} {p : GridPoint} :
    readPoint ps readFloatFromFile x y = some p ↔
      InGrid ps x y ∧ p = ⟨x, y, readFloatFromFile (indexFromXy ps x y)⟩ := by
  unfold readPoint InGrid indexRefersToPointOutsideFile
  split
  · next h =>
    simp only [decide_eq_true_eq] at h
    refine iff_of_false (fun h => nomatch h) fun hp => ?_
    omega
  · next h =>
    simp only [decide_eq_true_eq] at h
    rw [Option.some_inj, eq_comm, iff_and_self]
    intro
    omega

/-- What is read around a location is the window of the integral parts. -/
theorem readSurround_eq (exactX exactY : ℚ) (n : ℤ) :
    readSurround_ ps readFloatFromFile exactX exactY n =
      (indices (⌊exactY⌋ - (n - 1)) (⌊exactY⌋ + n)).flatMap fun y =>
        (indices (⌊exactX⌋ - (n - 1)) (⌊exactX⌋ + n)).filterMap fun x =>
          readPoint ps readFloatFromFile x y := by
  have hwindow : ∀ e c : ℚ, (c = if e = trunc e then e + 1 / 2 else e) →
      indices (⌊c⌋ - (n - 1)) (⌈c⌉ + (n - 1)) = indices (⌊e⌋ - (n - 1)) (⌊e⌋ + n) := by
    intro e c hc
    obtain ⟨hfloor, hceil⟩ := floor_ceil_offGridLine e c hc
    rw [hfloor, hceil]
    congr 1
    ring
  unfold readSurround_
  dsimp only
  rw [hwindow exactX _ rfl, hwindow exactY _ rfl]

variable (ps readFloatFromFile) in
/-- It is what the window and the grid have in common. -/
theorem readSurround_surrounds (exactX exactY : ℚ) {n : ℤ} (hn : 1 ≤ n) :
    Surrounds ps readFloatFromFile exactX exactY n (readSurround_ ps readFloatFromFile exactX exactY n) := by
  have hside : ∀ e : ℚ, ((indices (⌊e⌋ - (n - 1)) (⌊e⌋ + n)).length : ℤ) = 2 * n := by
    intro e
    rw [length_indices]
    omega
  rw [readSurround_eq]
  refine ⟨fun p => ?_, ?_, ?_, fun hfirst hlast => ?_⟩
  · simp only [List.mem_flatMap, List.mem_filterMap, mem_indices, readPoint_eq_some_iff]
    constructor
    · rintro ⟨y, hy, x, hx, hgrid, rfl⟩
      exact ⟨hx, hy, hgrid, rfl⟩
    · rintro ⟨hx, hy, hgrid, hvalue⟩
      exact ⟨p.y, hy, p.x, hx, hgrid, by rw [← hvalue]⟩
  · rw [List.pairwise_flatMap]
    constructor
    · intro y _
      rw [List.pairwise_filterMap]
      refine (pairwise_indices _ _).imp fun hlt p hp q hq => ?_
      obtain ⟨hpx, hpy⟩ := readPoint_eq_some hp
      obtain ⟨hqx, hqy⟩ := readPoint_eq_some hq
      exact Or.inr ⟨hpy.trans hqy.symm, by rw [hpx, hqx]; exact hlt⟩
    · refine (pairwise_indices _ _).imp fun hlt p hp q hq => ?_
      obtain ⟨_, _, hp⟩ := List.mem_filterMap.1 hp
      obtain ⟨_, _, hq⟩ := List.mem_filterMap.1 hq
      exact Or.inl (by rw [(readPoint_eq_some hp).2, (readPoint_eq_some hq).2]; exact hlt)
  · have hle := length_rows_le (fun y x => readPoint ps readFloatFromFile x y)
      (indices (⌊exactX⌋ - (n - 1)) (⌊exactX⌋ + n)) (indices (⌊exactY⌋ - (n - 1)) (⌊exactY⌋ + n))
    zify at hle
    rw [hside, hside] at hle
    linarith
  · have hevery : ∀ y ∈ indices (⌊exactY⌋ - (n - 1)) (⌊exactY⌋ + n),
        ∀ x ∈ indices (⌊exactX⌋ - (n - 1)) (⌊exactX⌋ + n),
          (readPoint ps readFloatFromFile x y).isSome := by
      intro y hy x hx
      obtain ⟨hyfirst, hylast⟩ := mem_indices.1 hy
      obtain ⟨hxfirst, hxlast⟩ := mem_indices.1 hx
      have hgrid : InGrid ps x y := by
        unfold InGrid at *
        omega
      exact Option.isSome_iff_exists.2 ⟨_, readPoint_eq_some_iff.2 ⟨hgrid, rfl⟩⟩
    have heq := length_rows_eq hevery
    zify at heq
    rw [hside, hside] at heq
    linarith

/-! ### When the integers fit -/

/-- The window along one axis is in the range of `int`, and there is one more `int` after it. -/
def Fits (e : ℚ) (n : ℤ) : Prop := -2 ^ 31 ≤ ⌊e⌋ - (n - 1) ∧ ⌊e⌋ + n + 1 < 2 ^ 31

/-- A coordinate and its window: both are defined, or one of them has an integer that does not fit. -/
theorem offGridLine_bounds (e : ℚ) {n : ℤ} (hn : 1 ≤ n) (hsize : 4 * n ^ 2 < 2 ^ 31) :
    (∃ c, offGridLine e = some c ∧ bounds c n = some (⌊e⌋ - (n - 1), ⌊e⌋ + n) ∧
      -2 ^ 31 ≤ ⌊e⌋ - (n - 1) ∧ ⌊e⌋ + n < 2 ^ 31) ∨
    (¬ Fits e n ∧ (offGridLine e).bind (bounds · n) = none) := by
  have hsmall : n < 2 ^ 31 := by nlinarith
  have htrunc : ⌊e⌋ ≤ trunc e ∧ trunc e ≤ ⌊e⌋ + 1 := by
    have hceil := Int.ceil_le_floor_add_one e
    have hfloor := Int.floor_le_ceil e
    unfold trunc
    split <;> omega
  cases hint : int (trunc e) with
  | none =>
    refine Or.inr ⟨fun hfits => int_eq_none_iff.1 hint ?_, by rw [offGridLine, hint]; rfl⟩
    obtain ⟨hlow, hhigh⟩ := hfits
    omega
  | some i =>
    obtain ⟨rfl, _⟩ := of_int_eq_some hint
    have hoff : offGridLine e = some (if e = trunc e then e + 1 / 2 else e) := by
      rw [offGridLine, hint, Option.map_some]
    obtain ⟨hfloor, hceil⟩ := floor_ceil_offGridLine e _ rfl
    have hlast : ⌊e⌋ + 1 + (n - 1) = ⌊e⌋ + n := by ring
    have hbounds : bounds (if e = trunc e then e + 1 / 2 else e) n =
        (int (⌊e⌋ - (n - 1))).bind fun first => (int (⌊e⌋ + n)).map fun last => (first, last) := by
      rw [bounds, int_eq_some (by omega) (by omega), hfloor, hceil]
      simp only [Option.bind_eq_bind, Option.bind_some, hlast, Option.pure_def]
      cases int (⌊e⌋ - (n - 1)) <;> cases int (⌊e⌋ + n) <;> rfl
    by_cases hrange : -2 ^ 31 ≤ ⌊e⌋ - (n - 1) ∧ ⌊e⌋ + n < 2 ^ 31
    · refine Or.inl ⟨_, hoff, ?_, hrange⟩
      rw [hbounds, int_eq_some hrange.1 (by omega), int_eq_some (by omega) hrange.2]
      rfl
    · refine Or.inr ⟨fun hfits => hrange ⟨hfits.1, by have := hfits.2; omega⟩, ?_⟩
      rw [hoff, Option.bind_some, hbounds]
      by_cases hlow : -2 ^ 31 ≤ ⌊e⌋ - (n - 1)
      · have hhigh : int (⌊e⌋ + n) = none := int_eq_none_iff.2 fun h => hrange ⟨hlow, h.2⟩
        rw [hhigh]
        cases int (⌊e⌋ - (n - 1)) <;> rfl
      · rw [int_eq_none_iff.2 fun h => hlow h.1]
        rfl

/-- `readSurround_` has a defined result exactly when the windows fit, and then it is what it is without
    regard to the range of integers. -/
theorem surround_cases (ps : PlaceSpecification) (readFloatFromFile : ℤ → Option ℚ)
    (exactX exactY : ℚ) {n : ℤ} (hn : 1 ≤ n) (hsize : 4 * n ^ 2 < 2 ^ 31) :
    (Fits exactX n ∧ Fits exactY n ∧ surround ps readFloatFromFile exactX exactY n =
      some (readSurround_ ps readFloatFromFile exactX exactY n)) ∨
    (¬ (Fits exactX n ∧ Fits exactY n) ∧ surround ps readFloatFromFile exactX exactY n = none) := by
  have hside : int (n * 2) = some (n * 2) := int_eq_some (by nlinarith) (by nlinarith)
  have hsizeRet : int (n * 2 * (n * 2)) = some (n * 2 * (n * 2)) :=
    int_eq_some (by nlinarith) (by nlinarith)
  rcases offGridLine_bounds exactX hn hsize with ⟨cx, hcx, hbx, hlowx, hhighx⟩ | ⟨hnot, hnone⟩
  · rcases offGridLine_bounds exactY hn hsize with ⟨cy, hcy, hby, hlowy, hhighy⟩ | ⟨hnot, hnone⟩
    · have hloop : surround ps readFloatFromFile exactX exactY n =
          loop (fun y out => loop (fun x out => (readPoint ps readFloatFromFile x y).elim (some out)
            (store (n * 2 * (n * 2)) out)) (⌊exactX⌋ - (n - 1)) (⌊exactX⌋ + n) out)
            (⌊exactY⌋ - (n - 1)) (⌊exactY⌋ + n) [] := by
        simp only [surround, hcx, hcy, hside, hsizeRet, hbx, hby, Option.bind_eq_bind, Option.bind_some]
      rw [hloop]
      by_cases hfitsx : Fits exactX n
      · by_cases hfitsy : Fits exactY n
        · refine Or.inl ⟨hfitsx, hfitsy, ?_⟩
          have hrow : (fun (y : ℤ) (out : List GridPoint) => loop (fun x out =>
              (readPoint ps readFloatFromFile x y).elim (some out) (store (n * 2 * (n * 2)) out))
              (⌊exactX⌋ - (n - 1)) (⌊exactX⌋ + n) out) = fun y out =>
                (indices (⌊exactX⌋ - (n - 1)) (⌊exactX⌋ + n)).foldlM (fun out x =>
                  (readPoint ps readFloatFromFile x y).elim (some out) (store (n * 2 * (n * 2)) out))
                  out := by
            funext y out
            rw [loop_eq_foldlM out hlowx (by omega) hfitsx.2, indices_eq]
          rw [hrow, loop_eq_foldlM [] hlowy (by omega) hfitsy.2, ← indices_eq,
            foldlM_rows (fun y x => readPoint ps readFloatFromFile x y), List.nil_append,
            readSurround_eq]
          rw [length_indices, length_indices, List.length_nil]
          have hlen : ∀ e : ℚ, ((⌊e⌋ + n + 1 - (⌊e⌋ - (n - 1))).toNat : ℤ) = n * 2 := fun e => by omega
          rw [hlen, hlen]
          simp
        · refine Or.inr ⟨fun h => hfitsy h.2, loop_eq_none [] (by omega) ?_⟩
          by_contra hlt
          exact hfitsy ⟨hlowy, by omega⟩
      · refine Or.inr ⟨fun h => hfitsx h.1, loop_eq_none_of_body [] (by omega) fun y out => ?_⟩
        refine loop_eq_none out (by omega) ?_
        by_contra hlt
        exact hfitsx ⟨hlowx, by omega⟩
    · refine Or.inr ⟨fun h => hnot h.2, ?_⟩
      simp only [surround, hcx, hside, hsizeRet, hbx, Option.bind_eq_bind, Option.bind_some]
      cases hcy : offGridLine exactY with
      | none => rfl
      | some cy =>
        rw [hcy, Option.bind_some] at hnone
        simp [hnone]
  · refine Or.inr ⟨fun h => hnot h.1, ?_⟩
    simp only [surround, hside, hsizeRet, Option.bind_eq_bind, Option.bind_some]
    cases hcx : offGridLine exactX with
    | none => rfl
    | some cx =>
      rw [hcx, Option.bind_some] at hnone
      cases offGridLine exactY with
      | none => rfl
      | some cy => simp [hnone]

end Window

/-- For every grid, every location and every `n` whose buffer has an `int` for its size: the points read
    are the nodes of the window that are in the grid, in a buffer that is large enough, exactly when the
    counters of both loops fit in an `int` to the end. -/
theorem readSurround_window_iff (ps : PlaceSpecification) (readFloatFromFile : ℤ → Option ℚ)
    (exactX exactY : ℚ) (n : ℤ) (hn : 1 ≤ n) (hsize : 4 * n ^ 2 < 2 ^ 31) :
    (∃ out, surround ps readFloatFromFile exactX exactY n = some out ∧
      Surrounds ps readFloatFromFile exactX exactY n out) ↔ Fits exactX n ∧ Fits exactY n := by
  rcases surround_cases ps readFloatFromFile exactX exactY hn hsize with ⟨hx, hy, hsome⟩ | ⟨hnot, hnone⟩
  · exact iff_of_true ⟨_, hsome, readSurround_surrounds ps readFloatFromFile exactX exactY hn⟩ ⟨hx, hy⟩
  · refine iff_of_false (fun h => ?_) hnot
    obtain ⟨out, hout, _⟩ := h
    rw [hnone] at hout
    cases hout

/-- Around a corner of a grid of two by two nodes. -/
theorem readSurround_window_corner :
    ∃ out, surround ⟨0, 0, 2, 2, 1, 1, 4030, ""⟩ (fun _ => some 0) 0 (1 / 2) 1 = some out ∧
      Surrounds ⟨0, 0, 2, 2, 1, 1, 4030, ""⟩ (fun _ => some 0) 0 (1 / 2) 1 out :=
  (readSurround_window_iff _ _ 0 (1 / 2) 1 (by decide) (by decide)).2
    ⟨by norm_num [Fits], by norm_num [Fits]⟩

/-- At an index whose window ends with the greatest `int`, the counter of the inner loop overflows. -/
theorem readSurround_overflows :
    ¬ ∃ out, surround ⟨0, 0, 2, 2, 1, 1, 4030, ""⟩ (fun _ => some 0) 2147483646 0 1 = some out ∧
      Surrounds ⟨0, 0, 2, 2, 1, 1, 4030, ""⟩ (fun _ => some 0) 2147483646 0 1 out := by
  rintro ⟨out, hout, _⟩
  rcases surround_cases ⟨0, 0, 2, 2, 1, 1, 4030, ""⟩ (fun _ => some 0) 2147483646 0 (n := 1) (by decide)
    (by decide) with ⟨hfits, _⟩ | ⟨_, hnone⟩
  · norm_num [Fits] at hfits
  · rw [hnone] at hout
    cases hout

end Wdb.Read
