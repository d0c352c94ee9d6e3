import Wdb.Lib.SinglePrecision

/-! Numbers that are kept when they are printed with a few digits and read as double precision numbers.

    A double precision number is so near to the decimal number it is read from that no other decimal
    number of a few digits is nearer: these are the numbers that are read from so few digits at all. -/

namespace SqlTypes

/-- A decimal number of at most `n` significant digits. -/
def SignificantDigits (n : ℕ) (d : ℚ) : Prop := ∃ m : ℕ, ∃ k : ℤ, m < 10 ^ n ∧ d = m * 10 ^ k

/-! ### Near numbers -/

section Near
variable {x d q : ℚ} {m : ℤ} {n : ℕ}

theorem abs_roundHalfEven_sub_le (x : ℚ) : |(roundHalfEven x : ℚ) - x| ≤ 1 / 2 := by
  have hfloor : x.floor = ⌊x⌋ := rfl
  have hle := Int.floor_le x
  have hlt := Int.lt_floor_add_one x
  unfold roundHalfEven
  rw [hfloor, abs_le]
  split_ifs with hbelow habove heven <;> push_cast <;> constructor <;> linarith

/-- An integer nearer than a half is the nearest one. -/
theorem roundHalfEven_of_near (h : |x - m| < 1 / 2) : roundHalfEven x = m := by
  have hround := abs_le.1 (abs_roundHalfEven_sub_le x)
  obtain ⟨hlow, hhigh⟩ := abs_lt.1 h
  have hbelow : ((roundHalfEven x : ℤ) : ℚ) < m + 1 := by linarith
  have habove : (m : ℚ) < roundHalfEven x + 1 := by linarith
  have hbelow' : roundHalfEven x < m + 1 := by exact_mod_cast hbelow
  have habove' : m < roundHalfEven x + 1 := by exact_mod_cast habove
  omega

/-- What the last of `n` digits of a number is worth. -/
def unit (n : ℕ) (q : ℚ) : ℚ := 10 ^ (Int.log 10 |q| - (n - 1))

theorem unit_pos (n : ℕ) (q : ℚ) : 0 < unit n q := zpow_pos (by norm_num) _

theorem significant_eq (hq : q ≠ 0) : significant n q = roundHalfEven (q / unit n q) * unit n q := if_neg hq

theorem pow_mul_unit (n : ℕ) (q : ℚ) : 10 ^ n * unit n q = 10 ^ (Int.log 10 |q| + 1) := by
  rw [unit, ← zpow_natCast, ← zpow_add₀ (by norm_num)]
  congr 1
  ring

theorem abs_lt_pow_mul_unit (n : ℕ) (q : ℚ) : |q| < 10 ^ n * unit n q := by
  rw [pow_mul_unit]
  exact_mod_cast Int.lt_zpow_succ_log_self (b := 10) (by norm_num) |q|

/-- A number of at most `n` digits is a multiple of its last one. -/
theorem SignificantDigits.multiple (h : SignificantDigits n d) (hpos : 0 < d) :
    ∃ k : ℕ, k < 10 ^ n ∧ d = k * unit n d := by
  obtain ⟨m, e, hm, hd⟩ := h
  have hlog : Int.log 10 |d| < e + n := by
    rw [← Int.lt_zpow_iff_log_lt (by norm_num) (abs_pos.2 hpos.ne'), abs_of_pos hpos, hd, zpow_add₀ (by norm_num),
      mul_comm]
    refine mul_lt_mul_of_pos_left ?_ (zpow_pos (by norm_num) _)
    exact_mod_cast hm
  obtain ⟨k, hk⟩ : ∃ k : ℕ, d = k * unit n d := by
    refine ⟨m * 10 ^ (e - (Int.log 10 |d| - (n - 1))).toNat, ?_⟩
    have hpow : (10 : ℚ) ^ (e - (Int.log 10 |d| - (n - 1))).toNat * unit n d = 10 ^ e := by
      rw [unit, ← zpow_natCast, ← zpow_add₀ (by norm_num)]
      congr 1
      omega
    rw [Nat.cast_mul, Nat.cast_pow, Nat.cast_ofNat, mul_assoc, hpow]
    exact hd
  have hlt : (k : ℚ) < 10 ^ n := by
    have hlt := abs_lt_pow_mul_unit n d
    rw [abs_of_pos hpos] at hlt
    exact lt_of_mul_lt_mul_right (hk.symm.trans_lt hlt) (unit_pos n d).le
  exact ⟨k, by exact_mod_cast hlt, hk⟩

/-- A greater number has a last digit of at least the same worth, and is a multiple of a lesser one's. -/
theorem unit_dvd {k : ℕ} (h : Int.log 10 |q| ≤ Int.log 10 |d|) (hd : d = k * unit n d) :
    ∃ j : ℕ, d = j * unit n q := by
  refine ⟨k * 10 ^ (Int.log 10 |d| - Int.log 10 |q|).toNat, ?_⟩
  have hpow : (10 : ℚ) ^ (Int.log 10 |d| - Int.log 10 |q|).toNat * unit n q = unit n d := by
    rw [unit, unit, ← zpow_natCast, ← zpow_add₀ (by norm_num)]
    congr 1
    omega
  rw [Nat.cast_mul, Nat.cast_pow, Nat.cast_ofNat, mul_assoc, hpow]
  exact hd

/-- A number that is near to one of `n` digits has that one as the nearest of `n` digits. -/
theorem significant_of_near (hn : 0 < n) (hd : SignificantDigits n d) (hpos : 0 < d)
    (hnear : |q - d| < d / (2 * 10 ^ (n + 1))) : significant n q = d := by
  obtain ⟨k, hk, hdk⟩ := hd.multiple hpos
  have hd10 := abs_lt_pow_mul_unit n d
  rw [abs_of_pos hpos] at hd10
  have hunit := unit_pos n d
  have hten : (10 : ℚ) ≤ 10 ^ n := by exact_mod_cast Nat.le_self_pow hn.ne' 10
  obtain ⟨hlow, hhigh⟩ := abs_lt.1 hnear
  -- the distance is less than half of what the last digit of a shorter number is worth
  have hsmall : d / (2 * 10 ^ (n + 1)) < unit n d / 20 := by
    rw [div_lt_iff₀ (by positivity), pow_succ]
    linarith
  have hqpos : d / 10 ≤ q := by
    have hself : d / (2 * 10 ^ (n + 1)) ≤ d / 2 := by
      refine div_le_div_of_nonneg_left hpos.le (by norm_num) ?_
      rw [pow_succ]
      linarith
    linarith
  have hq : 0 < q := by linarith
  have hlog : Int.log 10 |q| ≤ Int.log 10 |d| := by
    rw [← Int.lt_add_one_iff, ← Int.lt_zpow_iff_log_lt (by norm_num) (abs_pos.2 hq.ne'), abs_of_pos hq]
    have hle : d ≤ 10 ^ n * unit n d - unit n d := by
      have hk' : ((k : ℚ) + 1) ≤ 10 ^ n := by exact_mod_cast hk
      have hmul := mul_le_mul_of_nonneg_right hk' hunit.le
      linarith [hdk]
    have hpow := pow_mul_unit n d
    push_cast
    linarith
  have hlog' : Int.log 10 |d| - 1 ≤ Int.log 10 |q| := by
    rw [← Int.zpow_le_iff_le_log (by norm_num) (abs_pos.2 hq.ne'), abs_of_pos hq]
    have hself := Int.zpow_log_le_self (b := 10) (by norm_num) hpos
    rw [abs_of_pos hpos, zpow_sub_one₀ (by norm_num)]
    push_cast at hself ⊢
    linarith
  obtain ⟨j, hj⟩ := unit_dvd hlog hdk
  have hunit' := unit_pos n q
  have hratio : unit n d ≤ 10 * unit n q := by
    rw [unit, unit, ← zpow_one_add₀ (by norm_num)]
    exact zpow_le_zpow_right₀ (by norm_num) (by omega)
  have hround : roundHalfEven (q / unit n q) = (j : ℤ) := by
    refine roundHalfEven_of_near ?_
    have hdiff : q / unit n q - ((j : ℤ) : ℚ) = (q - d) / unit n q := by
      rw [sub_div, sub_right_inj, eq_div_iff hunit'.ne']
      exact_mod_cast hj.symm
    rw [hdiff, abs_div, abs_of_pos hunit', div_lt_iff₀ hunit']
    linarith
  rw [significant_eq hq.ne', hround]
  exact_mod_cast hj.symm

/-- The nearest number of `n` digits has `n` digits. -/
theorem significantDigits_significant (hn : 0 < n) (hq : 0 ≤ q) : SignificantDigits n (significant n q) := by
  rcases hq.eq_or_lt with rfl | hpos
  · exact ⟨0, 0, by positivity, by simp [significant]⟩
  have hunit := unit_pos n q
  have hnonneg : 0 ≤ roundHalfEven (q / unit n q) := le_roundHalfEven (by push_cast; positivity)
  have hle : roundHalfEven (q / unit n q) ≤ 10 ^ n := by
    refine roundHalfEven_le ?_
    rw [div_le_iff₀ hunit]
    have hlt := abs_lt_pow_mul_unit n q
    rw [abs_of_pos hpos] at hlt
    exact_mod_cast hlt.le
  obtain ⟨m, hm⟩ := Int.eq_ofNat_of_zero_le hnonneg
  rw [significant_eq hpos.ne', hm]
  rw [hm] at hle
  have hmle : m ≤ 10 ^ n := by exact_mod_cast hle
  rcases hmle.eq_or_lt with heq | hlt
  · -- one more digit is a one with zeros
    refine ⟨1, n + (Int.log 10 |q| - (n - 1)), Nat.one_lt_pow hn.ne' (by norm_num), ?_⟩
    rw [zpow_add₀ (by norm_num), zpow_natCast, heq, unit]
    push_cast
    ring
  · exact ⟨m, _, hlt, by push_cast; rfl⟩

/-- The nearest number of `n` digits is between the powers of ten around a number. -/
theorem significant_bounds (hn : 0 < n) (hq : 0 < q) :
    10 ^ Int.log 10 q ≤ significant n q ∧ significant n q ≤ 10 ^ (Int.log 10 q + 1) := by
  have hunit := unit_pos n q
  have hself := Int.zpow_log_le_self (b := 10) (by norm_num) hq
  have hlt := abs_lt_pow_mul_unit n q
  have hscale : 10 ^ (n - 1) * unit n q = 10 ^ Int.log 10 q := by
    rw [unit, abs_of_pos hq, ← zpow_natCast, ← zpow_add₀ (by norm_num)]
    congr 1
    omega
  rw [abs_of_pos hq] at hlt
  rw [significant_eq hq.ne']
  constructor
  · rw [← hscale]
    refine mul_le_mul_of_nonneg_right ?_ hunit.le
    have hle : ((10 ^ (n - 1) : ℤ) : ℚ) ≤ q / unit n q := by
      rw [le_div_iff₀ hunit]
      push_cast at hself ⊢
      rwa [hscale]
    exact_mod_cast le_roundHalfEven hle
  · have hpow := pow_mul_unit n q
    rw [abs_of_pos hq] at hpow
    rw [← hpow]
    refine mul_le_mul_of_nonneg_right ?_ hunit.le
    have hle : q / unit n q ≤ ((10 ^ n : ℤ) : ℚ) := by
      rw [div_le_iff₀ hunit]
      exact_mod_cast hlt.le
    exact_mod_cast roundHalfEven_le hle

theorem significant_pos (hn : 0 < n) (hq : 0 < q) : 0 < significant n q :=
  (zpow_pos (by norm_num) _).trans_le (significant_bounds hn hq).1

/-- A number of `n` digits is its own nearest one. -/
theorem significant_eq_self (hn : 0 < n) (hd : SignificantDigits n d) (hpos : 0 < d) : significant n d = d := by
  refine significant_of_near hn hd hpos ?_
  rw [sub_self, abs_zero]
  positivity

end Near

/-! ### Double precision -/

section Double
variable {d q : ℚ}

/-- A double precision number is near to the number it is read from. -/
theorem abs_toDouble_sub_le (hd : 2 ^ (-1022 : ℤ) ≤ d) : |toDouble d - d| ≤ d / 2 ^ 53 := by
  have hpos : 0 < d := (zpow_pos (by norm_num) _).trans_le hd
  unfold toDouble
  rw [if_neg hpos.ne']
  have hlog : (-1022 : ℤ) ≤ Int.log 2 |d| := by
    rw [← Int.zpow_le_iff_le_log (by norm_num) (abs_pos.2 hpos.ne'), abs_of_pos hpos]
    exact_mod_cast hd
  have hself := Int.zpow_log_le_self (b := 2) (by norm_num) (abs_pos.2 hpos.ne')
  rw [max_eq_left hlog]
  generalize Int.log 2 |d| = e at hself
  have hulp : (0 : ℚ) < 2 ^ (e - 52) := zpow_pos (by norm_num) _
  have hround := abs_roundHalfEven_sub_le (d / 2 ^ (e - 52))
  have hscale : (2 : ℚ) ^ (e - 52) * 2 ^ 52 = 2 ^ e := by
    rw [← zpow_natCast, ← zpow_add₀ (by norm_num)]
    congr 1
    push_cast
    ring
  have hdiff : (roundHalfEven (d / 2 ^ (e - 52)) : ℚ) * 2 ^ (e - 52) - d =
      (roundHalfEven (d / 2 ^ (e - 52)) - d / 2 ^ (e - 52)) * 2 ^ (e - 52) := by
    rw [sub_mul, div_mul_cancel₀ _ hulp.ne']
  have hmul := mul_le_mul_of_nonneg_right hround hulp.le
  rw [abs_of_pos hpos] at hself
  push_cast at hself
  simp only
  rw [hdiff, abs_mul, abs_of_pos hulp, le_div_iff₀ (by norm_num)]
  linarith

/-- Small numbers are not read as greater ones. -/
theorem toDouble_le (hpos : 0 < d) (hd : d ≤ 2 ^ (-1022 : ℤ)) : toDouble d ≤ 2 ^ (-1022 : ℤ) := by
  unfold toDouble
  rw [if_neg hpos.ne']
  have hlog : Int.log 2 |d| ≤ -1022 := by
    rw [← Int.lt_add_one_iff, ← Int.lt_zpow_iff_log_lt (by norm_num) (abs_pos.2 hpos.ne'), abs_of_pos hpos]
    exact hd.trans_lt (zpow_lt_zpow_right₀ (by norm_num) (by norm_num))
  rw [max_eq_right hlog]
  have hscale : (2 : ℚ) ^ 52 * 2 ^ (-1022 - 52 : ℤ) = 2 ^ (-1022 : ℤ) := by
    rw [← zpow_natCast, ← zpow_add₀ (by norm_num)]
    norm_num
  have hulp : (0 : ℚ) < 2 ^ (-1022 - 52 : ℤ) := zpow_pos (by norm_num) _
  have hround : roundHalfEven (d / 2 ^ (-1022 - 52 : ℤ)) ≤ 2 ^ 52 := by
    refine roundHalfEven_le ?_
    rw [div_le_iff₀ hulp]
    exact hd.trans_eq (by exact_mod_cast hscale.symm)
  have hcast : (roundHalfEven (d / 2 ^ (-1022 - 52 : ℤ)) : ℚ) ≤ 2 ^ 52 := by exact_mod_cast hround
  simp only
  rw [← hscale]
  exact mul_le_mul_of_nonneg_right hcast hulp.le

/-- A number is kept when it is printed with `n` digits exactly when it is read from `n` digits at all. -/
theorem toDouble_significant_iff {n : ℕ} (hn : 0 < n) (hn' : n ≤ 14) (hq : q = 0 ∨ 2 ^ (-1022 : ℤ) < q) :
    toDouble (significant n q) = q ↔ ∃ d, SignificantDigits n d ∧ toDouble d = q := by
  constructor
  · intro h
    have hnonneg : 0 ≤ q := by
      rcases hq with rfl | hq
      · exact le_rfl
      · exact ((zpow_pos (by norm_num) _).trans hq).le
    exact ⟨_, significantDigits_significant hn hnonneg, h⟩
  · rintro ⟨d, hd, hdq⟩
    rcases hq with rfl | hq
    · rfl
    have hdnonneg : 0 ≤ d := by
      obtain ⟨m, k, -, rfl⟩ := hd
      positivity
    have hne : d ≠ 0 := by
      rintro rfl
      rw [← hdq] at hq
      exact absurd hq (not_lt.2 (zpow_pos (by norm_num) _).le)
    have hpos : 0 < d := lt_of_le_of_ne hdnonneg hne.symm
    have hge : 2 ^ (-1022 : ℤ) ≤ d := by
      by_contra hlt
      have hle := toDouble_le hpos (not_le.1 hlt).le
      linarith
    have hnear := abs_toDouble_sub_le hge
    rw [hdq] at hnear
    have hdigits : (10 : ℚ) ^ (n + 1) ≤ 10 ^ 15 := pow_le_pow_right₀ (by norm_num) (by omega)
    have hstrict : d / 2 ^ 53 < d / (2 * 10 ^ (n + 1)) := by
      refine div_lt_div_of_pos_left hpos (by positivity) ?_
      calc (2 : ℚ) * 10 ^ (n + 1) ≤ 2 * 10 ^ 15 := by linarith
        _ < 2 ^ 53 := by norm_num
    rw [significant_of_near hn hd hpos (hnear.trans_lt hstrict), hdq]

end Double

end SqlTypes
