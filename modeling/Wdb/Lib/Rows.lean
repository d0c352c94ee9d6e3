import Mathlib

/-! Lists that are read as rows of one length, and the rows in the opposite order. -/

namespace Rows

variable {α : Type} {w n : ℕ} {l : List α} {rows : List (List α)}

/-- The rows of a list from the last one to the first. What does not fill a row is left out. -/
def swapRows (w : ℕ) (l : List α) : List α :=
  (List.range (l.length / w)).reverse.flatMap fun y => (l.drop (y * w)).take w

/-- All rows have one length. -/
def Wide (w : ℕ) (rows : List (List α)) : Prop := ∀ r ∈ rows, r.length = w

theorem Wide.length_flatten (h : Wide w rows) : rows.flatten.length = rows.length * w := by
  induction rows with
  | nil => simp
  | cons r rows ih =>
    rw [List.flatten_cons, List.length_append, h r List.mem_cons_self,
      ih fun s hs => h s (List.mem_cons_of_mem r hs), List.length_cons, Nat.succ_mul, Nat.add_comm]

/-- A list of whole rows. -/
theorem exists_rows (h : l.length = n * w) : ∃ rows, rows.length = n ∧ Wide w rows ∧ rows.flatten = l := by
  induction n generalizing l with
  | zero =>
    rw [Nat.zero_mul, List.length_eq_zero_iff] at h
    exact ⟨[], rfl, fun _ hr => absurd hr List.not_mem_nil, h.symm⟩
  | succ n ih =>
    rw [Nat.succ_mul] at h
    obtain ⟨rows, hlen, hwide, hflat⟩ := ih (l := l.drop w) (by rw [List.length_drop]; omega)
    refine ⟨l.take w :: rows, by rw [List.length_cons, hlen], fun r hr => ?_, ?_⟩
    · rcases List.mem_cons.1 hr with rfl | hr
      · rw [List.length_take]
        omega
      · exact hwide r hr
    · rw [List.flatten_cons, hflat, List.take_append_drop]

/-- A row stands at its place. -/
theorem Wide.row (h : Wide w rows) {y : ℕ} (hy : y < rows.length) :
    (rows.flatten.drop (y * w)).take w = rows[y] := by
  induction rows generalizing y with
  | nil => exact absurd hy (Nat.not_lt_zero y)
  | cons r rows ih =>
    have hr : r.length = w := h r List.mem_cons_self
    cases y with
    | zero => simp [← hr]
    | succ y =>
      rw [List.flatten_cons, Nat.succ_mul, Nat.add_comm, ← List.drop_drop, List.drop_left' hr]
      exact ih (fun s hs => h s (List.mem_cons_of_mem r hs)) (Nat.lt_of_succ_lt_succ hy)

theorem Wide.swapRows_flatten (h : Wide w rows) (hw : 0 < w) :
    swapRows w rows.flatten = rows.reverse.flatten := by
  have hrows : (List.range rows.length).map (fun y => (rows.flatten.drop (y * w)).take w) = rows := by
    refine List.ext_getElem (by simp) fun y hy hy' => ?_
    rw [List.getElem_map, List.getElem_range]
    exact h.row hy'
  rw [swapRows, h.length_flatten, Nat.mul_div_cancel _ hw, List.flatMap_def, List.map_reverse, hrows]

/-- Swapping the rows twice restores the list. -/
theorem swapRows_swapRows (hw : 0 < w) (h : l.length = n * w) : swapRows w (swapRows w l) = l := by
  obtain ⟨rows, _, hwide, rfl⟩ := exists_rows h
  have hreverse : Wide w rows.reverse := fun r hr => hwide r (List.mem_reverse.1 hr)
  rw [hwide.swapRows_flatten hw, hreverse.swapRows_flatten hw, List.reverse_reverse]

/-- An element is in its row. -/
theorem Wide.getElem?_flatten (h : Wide w rows) {x y : ℕ} (hx : x < w) :
    rows.flatten[y * w + x]? = rows[y]?.bind (·[x]?) := by
  induction rows generalizing y with
  | nil => simp
  | cons r rows ih =>
    have hr : r.length = w := h r List.mem_cons_self
    cases y with
    | zero =>
      rw [List.flatten_cons, Nat.zero_mul, Nat.zero_add, List.getElem?_append_left (by omega)]
      simp
    | succ y =>
      have hplace : (y + 1) * w + x - r.length = y * w + x := by
        rw [hr, Nat.succ_mul]
        omega
      rw [List.flatten_cons, List.getElem?_append_right (by rw [hr, Nat.succ_mul]; omega), hplace,
        ih fun s hs => h s (List.mem_cons_of_mem r hs)]
      simp

/-- An element moves to the opposite row. -/
theorem getElem?_swapRows (h : l.length = n * w) {x y : ℕ} (hx : x < w) (hy : y < n) :
    (swapRows w l)[(n - 1 - y) * w + x]? = l[y * w + x]? := by
  obtain ⟨rows, hlen, hwide, rfl⟩ := exists_rows h
  have hreverse : Wide w rows.reverse := fun r hr => hwide r (List.mem_reverse.1 hr)
  rw [hwide.swapRows_flatten (by omega), hreverse.getElem?_flatten hx, hwide.getElem?_flatten hx,
    List.getElem?_reverse (by omega)]
  congr 2
  omega

theorem length_swapRows (hw : 0 < w) (h : l.length = n * w) : (swapRows w l).length = n * w := by
  obtain ⟨rows, hlen, hwide, rfl⟩ := exists_rows h
  have hreverse : Wide w rows.reverse := fun r hr => hwide r (List.mem_reverse.1 hr)
  rw [hwide.swapRows_flatten hw, hreverse.length_flatten, List.length_reverse, hlen]

end Rows
