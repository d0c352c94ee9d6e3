import Mathlib

/-! Programs over a machine's `int`: values that must fit, sizes that wrap around, loops whose counter
    must fit, and buffers of a fixed size.

    What the language leaves undefined is `none`: a value that does not fit, a counter that is stepped
    past the greatest one, an element stored past the end. -/

namespace MachineInt

/-- The value of an `int` expression, or of a conversion to `int`. -/
def int (n : ℤ) : Option ℤ := if -2 ^ 31 ≤ n ∧ n < 2 ^ 31 then some n else none

theorem int_eq_some {n : ℤ} (hlow : -2 ^ 31 ≤ n) (hhigh : n < 2 ^ 31) : int n = some n :=
  if_pos ⟨hlow, hhigh⟩

theorem int_eq_none_iff {n : ℤ} : int n = none ↔ ¬ (-2 ^ 31 ≤ n ∧ n < 2 ^ 31) := by
  unfold int
  split
  · next hfits => exact iff_of_false (fun h => nomatch h) (not_not.2 hfits)
  · next hfits => exact iff_of_true rfl hfits

theorem of_int_eq_some {n m : ℤ} (h : int n = some m) : m = n ∧ -2 ^ 31 ≤ n ∧ n < 2 ^ 31 := by
  unfold int at h
  split at h
  · next hfits =>
    cases h
    exact ⟨rfl, hfits⟩
  · cases h

/-- The value of an expression of the unsigned type `size_t`, which has 64 bits. -/
def size (n : ℤ) : ℤ := n % 2 ^ 64

/-- Its conversion to a signed type of 64 bits. -/
def offset (n : ℤ) : ℤ := Int.bmod n (2 ^ 64)

/-- An `int` that is multiplied as a size and converted back is the product. -/
theorem offset_size_mul {n k : ℤ} (hlow : -2 ^ 63 ≤ n * k) (hhigh : n * k < 2 ^ 63) :
    offset (size (size n * k)) = n * k := by
  have hmod : size (size n * k) = size (n * k) := by
    simp only [size, Int.mul_emod, Int.emod_emod]
  have hwords : (2 : ℤ) ^ 64 = ((2 ^ 64 : ℕ) : ℤ) := by norm_num
  rw [hmod, offset, size, hwords, Int.emod_bmod]
  exact Int.bmod_eq_of_le (by omega) (by omega)

/-- The conversion to `int` of an expression of type `unsigned int`. -/
def ofUnsigned (n : ℤ) : ℤ := Int.bmod n (2 ^ 32)

theorem ofUnsigned_eq {n : ℤ} (hlow : 0 ≤ n) (hhigh : n < 2 ^ 31) : ofUnsigned n = n :=
  Int.bmod_eq_of_le (by omega) (by omega)

/-- The value of an expression of type `unsigned int`, also when an operand is an `int`. -/
def unsigned (n : ℤ) : ℤ := n % 2 ^ 32

theorem unsigned_eq {n : ℤ} (hlow : 0 ≤ n) (hhigh : n < 2 ^ 32) : unsigned n = n :=
  Int.emod_eq_of_lt hlow hhigh

@[simp] theorem unsigned_unsigned (n : ℤ) : unsigned (unsigned n) = unsigned n := Int.emod_emod n _

/-- Conversions keep the low bits. -/
@[simp] theorem unsigned_ofUnsigned (n : ℤ) : unsigned (ofUnsigned n) = unsigned n := by
  have hwords : (2 : ℤ) ^ 32 = ((2 ^ 32 : ℕ) : ℤ) := by norm_num
  rw [unsigned, ofUnsigned, hwords, Int.bmod_emod, unsigned, hwords]

@[simp] theorem unsigned_size (n : ℤ) : unsigned (size n) = unsigned n :=
  Int.emod_emod_of_dvd n (by decide)

/-! ### Loops -/

section Loops
variable {σ : Type} (body : ℤ → σ → Option σ)

/-- That many turns of `for (…; x++)`. -/
def turns : ℕ → ℤ → σ → Option σ
  | 0, _, s => some s
  | n + 1, x, s => (body x s).bind fun s => (int (x + 1)).bind fun x => turns n x s

/-- `for (int x = first; x <= last; x++)`. -/
def loop (first last : ℤ) (s : σ) : Option σ := turns body (last + 1 - first).toNat first s

variable {body}

/-- When the counter fits to the end, the body is run for each of its values. -/
theorem turns_eq_foldlM (n : ℕ) {x : ℤ} (s : σ) (hlow : -2 ^ 31 ≤ x) (hhigh : x + n < 2 ^ 31) :
    turns body n x s = ((List.range n).map fun k : ℕ => x + k).foldlM (fun s x => body x s) s := by
  induction n generalizing x s with
  | zero => rfl
  | succ n ih =>
    push_cast at hhigh
    have hnext : (fun k : ℕ => x + k) ∘ Nat.succ = fun k : ℕ => x + 1 + k :=
      funext fun k => by simp only [Function.comp_apply, Nat.succ_eq_add_one]; push_cast; ring
    rw [turns, List.range_succ_eq_map, List.map_cons, List.map_map, hnext, List.foldlM_cons]
    simp only [Nat.cast_zero, add_zero]
    refine congrArg _ (funext fun s => ?_)
    rw [int_eq_some (by omega) (by omega), Option.bind_some, ih s (by omega) (by omega)]

theorem loop_eq_foldlM {first last : ℤ} (s : σ) (hlow : -2 ^ 31 ≤ first) (hfirst : first < 2 ^ 31)
    (hhigh : last + 1 < 2 ^ 31) : loop body first last s =
      ((List.range (last + 1 - first).toNat).map fun k : ℕ => first + k).foldlM (fun s x => body x s) s :=
  turns_eq_foldlM _ s hlow (by omega)

/-- A loop up to the greatest `int` has no defined result. -/
theorem turns_eq_none (n : ℕ) {x : ℤ} (s : σ) (hx : x < 2 ^ 31) (hhigh : 2 ^ 31 ≤ x + n) :
    turns body n x s = none := by
  induction n generalizing x s with
  | zero => simp at hhigh; omega
  | succ n ih =>
    push_cast at hhigh
    rw [turns, Option.bind_eq_none_iff]
    intro s _
    cases hint : int (x + 1) with
    | none => rfl
    | some y =>
      obtain ⟨rfl, _, hfits⟩ := of_int_eq_some hint
      exact ih s hfits (by omega)

theorem loop_eq_none {first last : ℤ} (s : σ) (hfirst : first < 2 ^ 31) (hhigh : 2 ^ 31 ≤ last + 1) :
    loop body first last s = none :=
  turns_eq_none _ s hfirst (by omega)

/-- Nor has one whose body has none. -/
theorem loop_eq_none_of_body {first last : ℤ} (s : σ) (hle : first ≤ last)
    (h : ∀ x s, body x s = none) : loop body first last s = none := by
  obtain ⟨n, hn⟩ : ∃ n, (last + 1 - first).toNat = n + 1 := ⟨(last - first).toNat, by omega⟩
  rw [loop, hn, turns, h, Option.bind_none]

end Loops

/-! ### Buffers -/

section Buffers
variable {α β : Type}

/-- Store in the next place of a buffer. -/
def store (size : ℤ) (out : List α) (a : α) : Option (List α) :=
  if (out.length : ℤ) < size then some (out ++ [a]) else none

/-- Storing what there is for each element fills the buffer in order. -/
theorem foldlM_store {size : ℤ} (g : β → Option α) (l : List β) (out : List α)
    (h : (out.length : ℤ) + l.length ≤ size) :
    l.foldlM (fun out b => (g b).elim (some out) (store size out)) out =
      some (out ++ l.filterMap g) := by
  induction l generalizing out with
  | nil => simp
  | cons b l ih =>
    rw [List.length_cons] at h
    push_cast at h
    rw [List.foldlM_cons, List.filterMap_cons]
    cases hg : g b with
    | none => exact ih out (by omega)
    | some a =>
      have hlt : (out.length : ℤ) < size := by omega
      simp only [Option.elim_some, store, if_pos hlt]
      rw [Option.bind_eq_bind, Option.bind_some, ih (out ++ [a]) (by simp; omega), List.append_assoc]
      rfl

/-- So do nested loops. -/
theorem foldlM_rows {γ : Type} {size : ℤ} (g : γ → β → Option α) (xs : List β) (ys : List γ)
    (out : List α) (h : (out.length : ℤ) + ys.length * xs.length ≤ size) :
    ys.foldlM (fun out y => xs.foldlM (fun out x => (g y x).elim (some out) (store size out)) out) out =
      some (out ++ ys.flatMap fun y => xs.filterMap (g y)) := by
  induction ys generalizing out with
  | nil => simp
  | cons y ys ih =>
    rw [List.length_cons] at h
    push_cast at h
    have hrow : ((xs.filterMap (g y)).length : ℤ) ≤ xs.length := by
      exact_mod_cast List.length_filterMap_le _ _
    have hrest : (0 : ℤ) ≤ ys.length * xs.length := by positivity
    rw [List.foldlM_cons, foldlM_store (g y) xs out (by linarith), Option.bind_eq_bind, Option.bind_some,
      ih (out ++ xs.filterMap (g y)) (by rw [List.length_append]; push_cast; linarith),
      List.flatMap_cons, List.append_assoc]

/-- Nested loops store at most one element a turn. -/
theorem length_rows_le {γ : Type} (g : γ → β → Option α) (xs : List β) (ys : List γ) :
    (ys.flatMap fun y => xs.filterMap (g y)).length ≤ ys.length * xs.length := by
  induction ys with
  | nil => simp
  | cons y ys ih =>
    have hrow := List.length_filterMap_le (g y) xs
    rw [List.flatMap_cons, List.length_append, List.length_cons, Nat.succ_mul]
    omega

/-- They store one element every turn when there is one for each. -/
theorem length_rows_eq {γ : Type} {g : γ → β → Option α} {xs : List β} {ys : List γ}
    (h : ∀ y ∈ ys, ∀ x ∈ xs, (g y x).isSome) :
    (ys.flatMap fun y => xs.filterMap (g y)).length = ys.length * xs.length := by
  induction ys with
  | nil => simp
  | cons y ys ih =>
    have hrow : (xs.filterMap (g y)).length = xs.length :=
      List.filterMap_length_eq_length.2 (h y List.mem_cons_self)
    rw [List.flatMap_cons, List.length_append, List.length_cons, Nat.succ_mul, hrow,
      ih fun y' hy' => h y' (List.mem_cons_of_mem y hy'), Nat.add_comm]

end Buffers

end MachineInt
