import Mathlib

/-! Hexadecimal numerals of a fixed width, as they are written to and read from a stream. -/

namespace Hexadecimal

/-- A digit that is written. -/
def isLower (c : Char) : Bool := c.isDigit || ('a' ≤ c && c ≤ 'f')

/-- `[0-9a-fA-F]`: a digit that is read. -/
def isDigit (c : Char) : Bool := isLower c || ('A' ≤ c && c ≤ 'F')

/-- What a digit stands for. -/
def digit (c : Char) : ℕ := if c.isDigit then c.toNat - 48 else c.toLower.toNat - 87

/-- What a numeral stands for. -/
def value (t : List Char) : ℕ := t.foldl (fun n c => 16 * n + digit c) 0

/-- `setfill('0') << setw(width) << hex << n`. -/
def padded (width n : ℕ) : List Char := (Nat.toDigits 16 n).leftpad width '0'

/-! ### Digits -/

theorem digit_digitChar {d : ℕ} (hd : d < 16) : digit d.digitChar = d := by
  interval_cases d <;> decide

theorem isLower_digitChar {d : ℕ} (hd : d < 16) : isLower d.digitChar := by
  interval_cases d <;> decide

/-- A digit that is written is that of its value. -/
theorem exists_digitChar {c : Char} (hc : isLower c) : ∃ d < 16, c = d.digitChar := by
  have hchar : ∀ n d : ℕ, c.toNat = n → d < 16 → d.digitChar.toNat = n → ∃ d < 16, c = d.digitChar :=
    fun n d hn hd h => ⟨d, hd, Char.toNat_inj.1 (hn.trans h.symm)⟩
  simp only [isLower, Char.isDigit, Bool.or_eq_true, Bool.and_eq_true, decide_eq_true_eq, Char.le_def,
    UInt32.le_iff_toNat_le] at hc
  rcases hc with ⟨h₁, h₂⟩ | ⟨h₁, h₂⟩
  · have h₁ : 48 ≤ c.toNat := h₁
    have h₂ : c.toNat ≤ 57 := h₂
    generalize hn : c.toNat = n at h₁ h₂
    refine hchar n (n - 48) hn (by omega) ?_
    interval_cases n <;> rfl
  · have h₁ : 97 ≤ c.toNat := h₁
    have h₂ : c.toNat ≤ 102 := h₂
    generalize hn : c.toNat = n at h₁ h₂
    refine hchar n (n - 87) hn (by omega) ?_
    interval_cases n <;> rfl

theorem isDigit_of_isLower {c : Char} (hc : isLower c) : isDigit c := by simp [isDigit, hc]

theorem digit_lt {c : Char} (hc : isDigit c) : digit c < 16 := by
  rw [isDigit, Bool.or_eq_true] at hc
  rcases hc with hc | hc
  · obtain ⟨d, hd, rfl⟩ := exists_digitChar hc
    rwa [digit_digitChar hd]
  · simp only [Bool.and_eq_true, decide_eq_true_eq, Char.le_def, UInt32.le_iff_toNat_le] at hc
    have h₁ : 65 ≤ c.toNat := hc.1
    have h₂ : c.toNat ≤ 70 := hc.2
    generalize hn : c.toNat = n at h₁ h₂
    obtain rfl : c = Char.ofNat n := by rw [← hn, Char.ofNat_toNat]
    interval_cases n <;> decide

theorem digit_inj {c d : Char} (hc : isLower c) (hd : isLower d) (h : digit c = digit d) : c = d := by
  obtain ⟨m, hm, rfl⟩ := exists_digitChar hc
  obtain ⟨n, hn, rfl⟩ := exists_digitChar hd
  rw [digit_digitChar hm, digit_digitChar hn] at h
  rw [h]

/-! ### Numerals -/

section Numerals
variable {s t : List Char} {c : Char} {width n : ℕ}

theorem value_concat : value (t ++ [c]) = 16 * value t + digit c := by
  rw [value, List.foldl_append]
  rfl

theorem value_lt (ht : ∀ c ∈ t, isDigit c) : value t < 16 ^ t.length := by
  induction t using List.reverseRecOn with
  | nil => decide
  | append_singleton t c ih =>
    have hc := digit_lt (ht c (by simp))
    have ht := ih fun c hc => ht c (List.mem_append_left _ hc)
    rw [value_concat, List.length_append, List.length_singleton, pow_succ]
    omega

/-- Numerals of one width that are written differ in value. -/
theorem value_inj (hs : ∀ c ∈ s, isLower c) (ht : ∀ c ∈ t, isLower c) (hlen : s.length = t.length)
    (h : value s = value t) : s = t := by
  induction s using List.reverseRecOn generalizing t with
  | nil => exact (List.length_eq_zero_iff.1 hlen.symm).symm
  | append_singleton s c ih =>
    obtain rfl | ⟨t, d, rfl⟩ := List.eq_nil_or_concat t
    · simp at hlen
    · have hc : isLower c := hs c (by simp)
      have hd : isLower d := ht d (by simp)
      have hcl := digit_lt (isDigit_of_isLower hc)
      have hdl := digit_lt (isDigit_of_isLower hd)
      have hs : ∀ c ∈ s, isLower c := fun c hc => hs c (List.mem_append_left _ hc)
      have ht : ∀ c ∈ t, isLower c := fun c hc => ht c (by simp [hc])
      rw [List.concat_eq_append, value_concat, value_concat] at h
      rw [List.concat_eq_append, digit_inj hc hd (by omega), ih hs ht (by simpa using hlen) (by omega)]

theorem value_toDigits (n : ℕ) : value (Nat.toDigits 16 n) = n := by
  induction n using Nat.strongRecOn with
  | ind n ih =>
    rcases Nat.lt_or_ge n 16 with hn | hn
    · rw [Nat.toDigits_of_lt_base hn]
      simp [value, digit_digitChar hn]
    · rw [Nat.toDigits_of_base_le (by decide) hn, value_concat, ih _ (by omega),
        digit_digitChar (Nat.mod_lt _ (by decide))]
      omega

theorem isLower_of_mem_toDigits (n : ℕ) : ∀ c ∈ Nat.toDigits 16 n, isLower c := by
  induction n using Nat.strongRecOn with
  | ind n ih =>
    rcases Nat.lt_or_ge n 16 with hn | hn
    · rw [Nat.toDigits_of_lt_base hn]
      simpa using isLower_digitChar hn
    · rw [Nat.toDigits_of_base_le (by decide) hn]
      intro c hc
      rcases List.mem_append.1 hc with hc | hc
      · exact ih _ (by omega) c hc
      · rw [List.mem_singleton.1 hc]
        exact isLower_digitChar (Nat.mod_lt _ (by decide))

theorem value_replicate_append (k : ℕ) : value (List.replicate k '0' ++ t) = value t := by
  induction k with
  | zero => rfl
  | succ k ih => simpa [value, List.replicate_succ, digit] using ih

theorem value_padded : value (padded width n) = n := by
  rw [padded, List.leftpad, value_replicate_append, value_toDigits]

theorem isLower_padded : ∀ c ∈ padded width n, isLower c := by
  intro c hc
  rcases List.mem_append.1 hc with hc | hc
  · rw [List.eq_of_mem_replicate hc]
    decide
  · exact isLower_of_mem_toDigits n c hc

theorem length_padded (hw : 0 < width) (hn : n < 16 ^ width) : (padded width n).length = width := by
  rw [padded, List.length_leftpad]
  exact max_eq_left ((Nat.length_toDigits_le_iff (by decide) hw).2 hn)

/-- A numeral is that which is written for its value when all its digits are, and only then. -/
theorem padded_value (ht : ∀ c ∈ t, isDigit c) (hpos : 0 < t.length) :
    padded t.length (value t) = t ↔ ∀ c ∈ t, isLower c := by
  constructor
  · intro h
    rw [← h]
    exact isLower_padded
  · intro h
    exact value_inj isLower_padded h (length_padded hpos (value_lt ht)) value_padded

end Numerals

end Hexadecimal
