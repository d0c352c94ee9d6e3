import Mathlib

/-! `wci.median`.

    The aggregate collects every input in an array, also `NULL`. Its final function takes the middle of the
    array, which is sorted with `NULL` last, and averages what is not `NULL` there. -/

namespace Wdb.Aggregate

/-! ### The aggregate -/

/-- `array_upper(a, 1)`: `NULL` for an array without elements. -/
def arrayUpper (a : List (Option ℚ)) : Option ℕ := if a = [] then none else some a.length

/-- `ORDER BY` puts `NULL` last. -/
def nullsLast : Option ℚ → Option ℚ → Bool
  | some a, some b => a ≤ b
  | _, none => true
  | none, some _ => false

/-- `LIMIT` and `OFFSET`; `NULL` is no limit, and no offset. -/
def limitOffset (limit offset : Option ℕ) (rows : List (Option ℚ)) : List (Option ℚ) :=
  let rows := rows.drop (offset.getD 0)
  limit.elim rows rows.take

/-- The mean of numbers; `NULL` when there are none. -/
def mean (vs : List ℚ) : Option ℚ := if vs = [] then none else some (vs.sum / vs.length)

/-- `AVG`: what is `NULL` does not count. -/
def avg (rows : List (Option ℚ)) : Option ℚ := mean rows.reduceOption

/-- `final_median`. -/
def finalMedian (a : List (Option ℚ)) : Option ℚ :=
  avg (limitOffset ((arrayUpper a).map fun n : ℕ => 2 - n % 2)
    ((arrayUpper a).map fun n : ℕ => (⌈(n : ℚ) / 2⌉ - 1).toNat) (a.mergeSort nullsLast))

/-- `wci.median` of the inputs, in the order they are fed in: `array_append` and `final_median`. -/
def median (inputs : List (Option ℚ)) : Option ℚ :=
  finalMedian (inputs.foldl (fun a x => a ++ [x]) [])

/-! ### The median -/

/-- The middle of sorted numbers, or the average of the two in the middle. -/
def middle (s : List ℚ) : Option ℚ :=
  if s.length % 2 = 1 then s[s.length / 2]?
  else do
    let a ← s[s.length / 2 - 1]?
    let b ← s[s.length / 2]?
    return (a + b) / 2

def sorted (vs : List ℚ) : List ℚ := vs.mergeSort fun a b => a ≤ b

/-- The median of the inputs that are not `NULL`. -/
def medianOf (inputs : List (Option ℚ)) : Option ℚ := middle (sorted inputs.reduceOption)

/-- In whatever order they are fed in, the aggregate is the median of the inputs that are not `NULL`. -/
def IsMedian (inputs : List (Option ℚ)) : Prop := ∀ l, l.Perm inputs → median l = medianOf inputs

/-! ### The rows that are averaged -/

section Sorted
variable {l l' inputs : List (Option ℚ)} {s : List ℚ} {n k : ℕ}

theorem nullsLast_trans (a b c : Option ℚ) (hab : nullsLast a b) (hbc : nullsLast b c) :
    nullsLast a c := by
  cases a <;> cases b <;> cases c <;> simp_all [nullsLast]
  exact hab.trans hbc

theorem nullsLast_total (a b : Option ℚ) : (nullsLast a b || nullsLast b a) = true := by
  cases a <;> cases b <;> simp [nullsLast]
  exact le_total _ _

theorem nullsLast_antisymm (a b : Option ℚ) (hab : nullsLast a b) (hba : nullsLast b a) : a = b := by
  cases a <;> cases b <;> simp_all [nullsLast]
  exact le_antisymm hab hba

theorem sorted_pairwise (vs : List ℚ) : (sorted vs).Pairwise (· ≤ ·) := by
  have h : (sorted vs).Pairwise fun a b => decide (a ≤ b) = true := List.pairwise_mergeSort
    (fun a b c hab hbc => by simpa using (of_decide_eq_true hab).trans (of_decide_eq_true hbc))
    (fun a b => by simpa using le_total a b) vs
  exact h.imp fun h => of_decide_eq_true h

theorem sorted_perm (vs : List ℚ) : (sorted vs).Perm vs := List.mergeSort_perm _ _

/-- Inputs are their numbers, and `NULL` as often as they are more. -/
theorem perm_reduceOption (inputs : List (Option ℚ)) : inputs.Perm (inputs.reduceOption.map some ++
    List.replicate (inputs.length - inputs.reduceOption.length) none) := by
  induction inputs with
  | nil => exact List.Perm.refl _
  | cons x inputs ih =>
    cases x with
    | some a => simpa [List.reduceOption_cons_of_some] using ih.cons (some a)
    | none =>
      have hle := List.reduceOption_length_le inputs
      rw [List.reduceOption_cons_of_none, List.length_cons, Nat.succ_sub hle, List.replicate_succ]
      exact (ih.cons none).trans List.perm_middle.symm

/-- Sorted numbers with `NULL` behind them are sorted. -/
theorem pairwise_nulls (hs : s.Pairwise (· ≤ ·)) :
    (s.map some ++ List.replicate k none).Pairwise fun a b => nullsLast a b = true := by
  refine List.pairwise_append.2 ⟨?_, ?_, ?_⟩
  · exact List.pairwise_map.2 (hs.imp fun h => by simpa [nullsLast] using h)
  · exact List.pairwise_replicate.2 (Or.inr rfl)
  · intro a ha b hb
    obtain ⟨a, -, rfl⟩ := List.mem_map.1 ha
    rw [List.eq_of_mem_replicate hb]
    rfl

/-- The sorted array: the sorted numbers, and `NULL` behind them. -/
theorem mergeSort_eq (inputs : List (Option ℚ)) : inputs.mergeSort nullsLast =
    (sorted inputs.reduceOption).map some ++
      List.replicate (inputs.length - inputs.reduceOption.length) none := by
  refine List.Perm.eq_of_pairwise (fun a b _ _ => nullsLast_antisymm a b)
    (List.pairwise_mergeSort nullsLast_trans nullsLast_total _) (pairwise_nulls (sorted_pairwise _)) ?_
  refine (List.mergeSort_perm _ _).trans ((perm_reduceOption inputs).trans ?_)
  exact ((sorted_perm _).symm.map some).append_right _

theorem foldl_append (a l : List (Option ℚ)) : l.foldl (fun a x => a ++ [x]) a = a ++ l := by
  induction l generalizing a with
  | nil => simp
  | cons x l ih => rw [List.foldl_cons, ih, List.append_assoc, List.singleton_append]

/-- What is not `NULL` in rows of the sorted array are the same rows of the numbers. -/
theorem reduceOption_rows (p q : ℕ) :
    (((s.map some ++ List.replicate k none).drop p).take q).reduceOption = (s.drop p).take q := by
  rw [List.drop_append, List.take_append, List.drop_replicate, List.take_replicate,
    List.reduceOption_append, List.reduceOption_replicate_none, List.append_nil, ← List.map_drop,
    ← List.map_take, List.reduceOption, List.filterMap_map]
  exact List.filterMap_some

/-- The first of the averaged rows: `ceil(n / 2.0) - 1`. -/
theorem offset_eq (n : ℕ) : (⌈(n : ℚ) / 2⌉ - 1).toNat = (n - 1) / 2 := by
  have h : ⌈(n : ℚ) / 2⌉ = ((n + 1) / 2 : ℕ) := by
    refine Int.ceil_eq_iff.2 ?_
    obtain ⟨m, rfl | rfl⟩ := n.even_or_odd'
    · rw [show (2 * m + 1) / 2 = m by omega]
      push_cast
      constructor <;> linarith
    · rw [show (2 * m + 1 + 1) / 2 = m + 1 by omega]
      push_cast
      constructor <;> linarith
  rw [h]
  omega

/-- The aggregate averages up to two of the sorted numbers, at places the number of inputs gives. -/
theorem median_eq (l : List (Option ℚ)) : median l =
    mean (((sorted l.reduceOption).drop ((l.length - 1) / 2)).take (2 - l.length % 2)) := by
  rw [median, foldl_append, List.nil_append, finalMedian, avg, mergeSort_eq]
  cases hl : l with
  | nil => simp [sorted, limitOffset, arrayUpper, mean]
  | cons x l => simp only [arrayUpper, reduceCtorEq, if_false, Option.map_some, limitOffset,
      Option.elim_some, Option.getD_some, offset_eq, reduceOption_rows]

/-! ### Against the median -/

/-- The numbers at two places, averaged. -/
def halfway (s : List ℚ) (i j : ℕ) : ℚ := (s.getD i 0 + s.getD j 0) / 2

theorem mean_one (a : ℚ) : mean [a] = some ((a + a) / 2) := by simp [mean]

theorem mean_two (a b : ℚ) : mean [a, b] = some ((a + b) / 2) := by simp [mean]

theorem getD_of_lt {i : ℕ} (hi : i < s.length) : s.getD i 0 = s[i] := by simp [hi]

/-- What is averaged when the first row is not `NULL`. -/
theorem mean_rows (hn : 0 < n) (hp : (n - 1) / 2 < s.length) :
    mean ((s.drop ((n - 1) / 2)).take (2 - n % 2)) =
      some (halfway s ((n - 1) / 2) (min (n / 2) (s.length - 1))) := by
  rw [List.drop_eq_getElem_cons hp, halfway, getD_of_lt hp]
  rcases Nat.mod_two_eq_zero_or_one n with he | ho
  · rw [he, List.take_succ_cons]
    rcases Nat.lt_or_ge ((n - 1) / 2 + 1) s.length with hlt | hge
    · rw [List.drop_eq_getElem_cons hlt, List.take_succ_cons, List.take_zero, mean_two,
        ← getD_of_lt hlt, show min (n / 2) (s.length - 1) = (n - 1) / 2 + 1 by omega]
    · rw [List.drop_eq_nil_of_le hge, List.take_nil, mean_one, ← getD_of_lt hp,
        show min (n / 2) (s.length - 1) = (n - 1) / 2 by omega]
  · rw [ho, List.take_succ_cons, List.take_zero, mean_one, ← getD_of_lt hp,
      show min (n / 2) (s.length - 1) = (n - 1) / 2 by omega]

theorem middle_eq (hs : s ≠ []) : middle s = some (halfway s ((s.length - 1) / 2) (s.length / 2)) := by
  have hpos := List.length_pos_iff.2 hs
  have hlt : s.length / 2 < s.length := by omega
  rw [middle, halfway]
  split
  · rw [show (s.length - 1) / 2 = s.length / 2 by omega, getD_of_lt hlt, List.getElem?_eq_getElem hlt]
    simp
  · rw [show (s.length - 1) / 2 = s.length / 2 - 1 by omega, getD_of_lt hlt, getD_of_lt (by omega),
      List.getElem?_eq_getElem hlt, List.getElem?_eq_getElem (show s.length / 2 - 1 < s.length by omega)]
    rfl

/-- Sorted numbers do not fall. -/
theorem getD_mono (hs : s.Pairwise (· ≤ ·)) {i j : ℕ} (hij : i ≤ j) (hj : j < s.length) :
    s.getD i 0 ≤ s.getD j 0 := by
  rw [getD_of_lt hj, getD_of_lt (hij.trans_lt hj)]
  rcases hij.eq_or_lt with rfl | hlt
  · exact le_rfl
  · exact List.pairwise_iff_getElem.1 hs i j _ hj hlt

/-- Two places further up average to the same only over a stretch of equal numbers. -/
theorem halfway_eq_iff (hs : s.Pairwise (· ≤ ·)) {i j i' j' : ℕ} (hij : i ≤ j) (hji : j ≤ i')
    (hij' : i' ≤ j') (hj : j' < s.length) : halfway s i j = halfway s i' j' ↔ s.getD i 0 = s.getD j' 0 := by
  have h₁ := getD_mono hs hij (by omega)
  have h₂ := getD_mono hs hji (by omega)
  have h₃ := getD_mono hs hij' hj
  unfold halfway
  constructor <;> intro h <;> linarith

/-- The median is `NULL` when there is no number, and only then. -/
theorem medianOf_eq_none_iff : medianOf inputs = none ↔ inputs.reduceOption = [] := by
  have hlen := (sorted_perm inputs.reduceOption).length_eq
  rcases eq_or_ne inputs.reduceOption [] with h0 | h0
  · simp [h0, medianOf, sorted, middle]
  · rw [medianOf, middle_eq (List.length_pos_iff.1 (hlen ▸ List.length_pos_iff.2 h0))]
    simp [h0]

theorem sorted_eq_of_perm {vs ws : List ℚ} (h : vs.Perm ws) : sorted vs = sorted ws :=
  have hp : (sorted vs).Perm (sorted ws) := (sorted_perm vs).trans (h.trans (sorted_perm ws).symm)
  hp.eq_of_pairwise (fun _ _ _ _ => le_antisymm) (sorted_pairwise vs) (sorted_pairwise ws)

/-- The order in which the inputs are fed in does not matter. -/
theorem median_perm (h : l.Perm l') : median l = median l' := by
  have hr : l.reduceOption.Perm l'.reduceOption := h.filterMap id
  rw [median_eq, median_eq, h.length_eq, sorted_eq_of_perm hr]

end Sorted

end Wdb.Aggregate
