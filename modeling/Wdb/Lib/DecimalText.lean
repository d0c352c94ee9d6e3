import Mathlib

/-! Decimal numerals: digits with a point between them, a sign and an exponent.

    A numeral is read for its exact value. Zeros after the last digit behind the point do not count, nor do
    those before the first one, and a point moves a run of digits by a power of ten. -/

namespace DecimalText

/-- The value of the digits before and behind the point. -/
def value (a b : List Char) : ℚ := Nat.ofDigitChars 10 a 0 + Nat.ofDigitChars 10 b 0 / 10 ^ b.length

/-- The digits before the point; the point, and the digits behind it, if there are any. -/
def spell (a b : List Char) : List Char := a ++ if b = [] then [] else '.' :: b

/-! ### Reading -/

/-- What follows `e` and a sign. -/
def power (ds : List Char) : Option ℤ :=
  if ds ≠ [] ∧ ds.all Char.isDigit then some (Nat.ofDigitChars 10 ds 0) else none

def exponent : List Char → Option ℤ
  | [] => some 0
  | 'e' :: '-' :: ds => (power ds).map fun k => -k
  | 'e' :: '+' :: ds => power ds
  | _ => none

/-- The digits behind a point, and what follows. -/
def fraction : List Char → List Char × List Char
  | '.' :: s => (s.takeWhile Char.isDigit, s.dropWhile Char.isDigit)
  | s => ([], s)

def unsigned (s : List Char) : Option ℚ :=
  let a := s.takeWhile Char.isDigit
  let b := fraction (s.dropWhile Char.isDigit)
  if a = [] then none else (exponent b.2).map fun k => value a b.1 * 10 ^ k

/-- The value of a numeral. -/
def number : List Char → Option ℚ
  | '-' :: s => (unsigned s).map fun q => -q
  | s => unsigned s

/-! ### Reading what is spelled -/

section Spell
variable {a b : List Char}

/-- The characters of a numeral without sign and exponent. -/
theorem mem_spell (ha : ∀ c ∈ a, c.isDigit) (hb : ∀ c ∈ b, c.isDigit) {c : Char} (hc : c ∈ spell a b) :
    c.isDigit ∨ c = '.' := by
  rcases List.mem_append.1 hc with hc | hc
  · exact Or.inl (ha c hc)
  · split at hc
    · cases hc
    · rcases List.mem_cons.1 hc with rfl | hc
      · exact Or.inr rfl
      · exact Or.inl (hb c hc)

theorem unsigned_spell (hne : a ≠ []) (ha : ∀ c ∈ a, c.isDigit) (hb : ∀ c ∈ b, c.isDigit) :
    unsigned (spell a b) = some (value a b) := by
  have htail : ∀ c ∈ (if b = [] then [] else '.' :: b).head?, c.isDigit = false := by
    split
    · exact nofun
    · rintro c hc
      obtain rfl := Option.some.inj hc
      decide
  have hsplit : (spell a b).takeWhile Char.isDigit = a ∧
      (spell a b).dropWhile Char.isDigit = if b = [] then [] else '.' :: b := by
    unfold spell
    generalize (if b = [] then [] else '.' :: b) = s at htail
    rw [List.takeWhile_append_of_pos ha, List.dropWhile_append_of_pos ha]
    cases s with
    | nil => simp
    | cons c s => simp [htail c rfl]
  have hfraction : fraction (if b = [] then [] else '.' :: b) = (b, []) := by
    split
    · next hnil => rw [hnil, fraction]; exact nofun
    · rw [fraction, List.takeWhile_eq_self_iff.2 hb, List.dropWhile_eq_nil_iff.2 hb]
  unfold unsigned
  rw [hsplit.1, hsplit.2, hfraction]
  simp [hne, exponent]

theorem number_spell (hne : a ≠ []) (ha : ∀ c ∈ a, c.isDigit) (hb : ∀ c ∈ b, c.isDigit) :
    number (spell a b) = some (value a b) := by
  have hhead : ∀ s, spell a b ≠ '-' :: s := by
    intro s hs
    obtain ⟨c, a, rfl⟩ := List.exists_cons_of_ne_nil hne
    obtain ⟨rfl, -⟩ := List.cons.inj hs
    exact absurd (ha '-' List.mem_cons_self) (by decide)
  rw [number, unsigned_spell hne ha hb]
  exact hhead

theorem number_neg_spell (hne : a ≠ []) (ha : ∀ c ∈ a, c.isDigit) (hb : ∀ c ∈ b, c.isDigit) :
    number ('-' :: spell a b) = some (-value a b) := by
  rw [number, unsigned_spell hne ha hb, Option.map_some]

end Spell

/-! ### The value of digits -/

section Value

theorem ofDigitChars_append (u v : List Char) : Nat.ofDigitChars 10 (u ++ v) 0 =
    10 ^ v.length * Nat.ofDigitChars 10 u 0 + Nat.ofDigitChars 10 v 0 := by
  rw [Nat.ofDigitChars_append, Nat.ofDigitChars_eq_ofDigitChars_zero]

/-- Zeros at the end do not count behind the point. -/
theorem value_rdropWhile (a b : List Char) : value a (b.rdropWhile (· = '0')) = value a b := by
  induction b using List.reverseRecOn with
  | nil => rfl
  | append_singleton b c ih =>
    by_cases hc : c = '0'
    · rw [List.rdropWhile_concat_pos _ _ _ (by simpa using hc), ih, hc]
      unfold value
      rw [ofDigitChars_append, List.length_append, List.length_singleton, pow_succ]
      have hzero : Nat.ofDigitChars 10 ['0'] 0 = 0 := by decide
      rw [hzero]
      push_cast
      field_simp
      ring
    · rw [List.rdropWhile_concat_neg _ _ _ (by simpa using hc)]

/-- A point inside of a run of digits. -/
theorem value_take_drop (k : ℕ) (ds : List Char) :
    value (ds.take k) (ds.drop k) = Nat.ofDigitChars 10 ds 0 / 10 ^ (ds.length - k) := by
  have hall := ofDigitChars_append (ds.take k) (ds.drop k)
  rw [List.take_append_drop, List.length_drop] at hall
  unfold value
  rw [hall, List.length_drop]
  push_cast
  field_simp

/-- Digits behind the point only. -/
theorem value_zero (ds : List Char) : value ['0'] ds = Nat.ofDigitChars 10 ds 0 / 10 ^ ds.length := by
  have hzero : Nat.ofDigitChars 10 ['0'] 0 = 0 := by decide
  rw [value, hzero, Nat.cast_zero, zero_add]

/-- Zeros behind the point move the digits. -/
theorem value_zeros (k : ℕ) (ds : List Char) :
    value ['0'] (List.replicate k '0' ++ ds) = value ['0'] ds / 10 ^ k := by
  rw [value_zero, value_zero, ofDigitChars_append, Nat.ofDigitChars_replicate_zero, List.length_append,
    List.length_replicate, mul_zero, mul_zero, zero_add, pow_add, mul_comm ((10 : ℚ) ^ k), div_div]

end Value

end DecimalText
