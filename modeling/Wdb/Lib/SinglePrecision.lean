import Wdb.Lib.SqlTypes

/-! What the cast to `real` keeps: its own results, quarters of small numbers, and no quarter of a large
    number. -/

namespace SqlTypes

/-! ### The nearest integer -/

/-- A remainder of less than a half is dropped, and so is a half over an even integer. -/
theorem roundHalfEven_add {m : ℤ} {e : ℚ} (h₀ : 0 ≤ e) (h : e < 1 / 2 ∨ e = 1 / 2 ∧ m % 2 = 0) :
    roundHalfEven (m + e) = m := by
  have hfloor : (m + e : ℚ).floor = m := by
    change ⌊(m + e : ℚ)⌋ = m
    rw [Int.floor_eq_iff]
    rcases h with h | ⟨h, _⟩ <;> constructor <;> linarith
  unfold roundHalfEven
  rw [hfloor, add_sub_cancel_left]
  rcases h with h | ⟨h, heven⟩
  · rw [if_pos h]
  · rw [if_neg (by linarith), if_neg (by linarith), if_pos heven]

@[simp] theorem roundHalfEven_intCast (m : ℤ) : roundHalfEven (m : ℚ) = m := by
  have h := roundHalfEven_add (m := m) le_rfl (Or.inl (by norm_num : (0 : ℚ) < 1 / 2))
  rwa [add_zero] at h

/-- The nearest integer is the one below, or the one above a number that is no integer. -/
theorem roundHalfEven_cases (q : ℚ) :
    roundHalfEven q = ⌊q⌋ ∨ roundHalfEven q = ⌊q⌋ + 1 ∧ (⌊q⌋ : ℚ) < q := by
  have hfloor : q.floor = ⌊q⌋ := rfl
  unfold roundHalfEven
  rw [hfloor]
  split_ifs with hbelow habove heven
  · exact Or.inl rfl
  · exact Or.inr ⟨rfl, by linarith⟩
  · exact Or.inl rfl
  · exact Or.inr ⟨rfl, by linarith⟩

theorem roundHalfEven_le {q : ℚ} {n : ℤ} (h : q ≤ n) : roundHalfEven q ≤ n := by
  rcases roundHalfEven_cases q with heq | ⟨heq, hlt⟩
  · rw [heq]
    exact Int.floor_le_iff.2 (by linarith)
  · rw [heq]
    have hlt' : (⌊q⌋ : ℚ) < n := hlt.trans_le h
    have : ⌊q⌋ < n := by exact_mod_cast hlt'
    omega

theorem le_roundHalfEven {q : ℚ} {n : ℤ} (h : n ≤ q) : n ≤ roundHalfEven q := by
  have hfloor : n ≤ ⌊q⌋ := Int.le_floor.2 h
  rcases roundHalfEven_cases q with heq | ⟨heq, _⟩ <;> omega

/-! ### The cast -/

/-- What the last of 24 bits of a number is worth. -/
def ulp (q : ℚ) : ℚ := 2 ^ (max (Int.log 2 |q|) (-126) - 23)

theorem ulp_pos (q : ℚ) : 0 < ulp q := zpow_pos (by norm_num) _

section Cast
variable {q r : ℚ}

theorem toReal_eq_some_iff (hq : q ≠ 0) :
    toReal q = some r ↔ r = roundHalfEven (q / ulp q) * ulp q ∧ r ≠ 0 ∧ |r| < 2 ^ 128 := by
  unfold toReal
  rw [if_neg hq]
  change (if roundHalfEven (q / ulp q) * ulp q = 0 ∨ 2 ^ 128 ≤ |roundHalfEven (q / ulp q) * ulp q| then none
    else some (roundHalfEven (q / ulp q) * ulp q)) = some r ↔ _
  split
  · next hout =>
    refine iff_of_false (by simp) ?_
    rintro ⟨rfl, hne, hlt⟩
    rcases hout with hzero | hle
    · exact hne hzero
    · linarith
  · next hin =>
    rw [not_or, not_le] at hin
    rw [Option.some.injEq]
    constructor
    · rintro rfl
      exact ⟨rfl, hin⟩
    · rintro ⟨rfl, _⟩
      rfl

/-- A multiple of its last bit is kept. -/
theorem toReal_of_multiple {m : ℤ} (hq : q ≠ 0) (hm : q = m * ulp q) (hlt : |q| < 2 ^ 128) :
    toReal q = some q := by
  have hdiv : q / ulp q = m := by
    rw [div_eq_iff (ulp_pos q).ne']
    exact hm
  rw [toReal_eq_some_iff hq, hdiv, roundHalfEven_intCast]
  exact ⟨hm, hq, hlt⟩

theorem toReal_of_abs_multiple {m : ℤ} (hq : q ≠ 0) (hm : |q| = m * ulp q) (hlt : |q| < 2 ^ 128) :
    toReal q = some q := by
  rcases abs_choice q with hsign | hsign
  · exact toReal_of_multiple hq (hsign.symm.trans hm) hlt
  · refine toReal_of_multiple (m := -m) hq ?_ hlt
    push_cast
    linarith

theorem pow_mul_ulp (k : ℕ) (q : ℚ) : 2 ^ k * ulp q = 2 ^ (max (Int.log 2 |q|) (-126) - 23 + k) := by
  rw [ulp, ← zpow_natCast, ← zpow_add₀ (by norm_num), add_comm]

theorem abs_lt_ulp (q : ℚ) : |q| < 2 ^ 24 * ulp q := by
  have hlog := Int.lt_zpow_succ_log_self (b := 2) one_lt_two |q|
  rw [pow_mul_ulp]
  exact hlog.trans_le (zpow_le_zpow_right₀ (by norm_num) (by push_cast; omega))

/-- A greater number has a last bit of at least the same worth, and is a multiple of a lesser one's. -/
theorem ulp_dvd (h : ulp r ≤ ulp q) (m : ℤ) : ∃ k : ℤ, m * ulp q = k * ulp r := by
  unfold ulp at h ⊢
  generalize max (Int.log 2 |r|) (-126) - 23 = a at h ⊢
  generalize max (Int.log 2 |q|) (-126) - 23 = b at h ⊢
  have hab : a ≤ b := (zpow_le_zpow_iff_right₀ (by norm_num : (1 : ℚ) < 2)).1 h
  refine ⟨m * 2 ^ (b - a).toNat, ?_⟩
  have hpow : (2 : ℚ) ^ b = 2 ^ (b - a).toNat * 2 ^ a := by
    rw [← zpow_natCast, ← zpow_add₀ (by norm_num)]
    congr 1
    omega
  rw [hpow]
  push_cast
  ring

/-- The cast does not leave the numbers of the same length, up to a power of two. -/
theorem abs_toReal_le (hq : q ≠ 0) (h : toReal q = some r) : |r| ≤ 2 ^ 24 * ulp q := by
  obtain ⟨hr, _, _⟩ := (toReal_eq_some_iff hq).1 h
  have hpos := ulp_pos q
  have hdiv : |q / ulp q| < 2 ^ 24 := by
    rw [abs_div, abs_of_pos hpos, div_lt_iff₀ hpos]
    exact abs_lt_ulp q
  obtain ⟨hlow, hhigh⟩ := abs_lt.1 hdiv
  have hupper : roundHalfEven (q / ulp q) ≤ 2 ^ 24 := roundHalfEven_le (by push_cast; exact hhigh.le)
  have hlower : -2 ^ 24 ≤ roundHalfEven (q / ulp q) := le_roundHalfEven (by push_cast; exact hlow.le)
  have hinteger : |(roundHalfEven (q / ulp q) : ℚ)| ≤ 2 ^ 24 := by
    rw [abs_le]
    exact_mod_cast And.intro hlower hupper
  rw [hr, abs_mul, abs_of_pos hpos]
  exact mul_le_mul_of_nonneg_right hinteger hpos.le

/-- The cast keeps what it has made. -/
theorem toReal_idem (h : toReal q = some r) : toReal r = some r := by
  by_cases hq : q = 0
  · subst hq
    obtain rfl := Option.some.inj h
    rfl
  obtain ⟨hr, hne, hlt⟩ := (toReal_eq_some_iff hq).1 h
  by_cases hle : ulp r ≤ ulp q
  · obtain ⟨k, hk⟩ := ulp_dvd hle (roundHalfEven (q / ulp q))
    exact toReal_of_multiple hne (hr.trans hk) hlt
  · -- the result has become longer: it is the next power of two
    have hbound := abs_toReal_le hq h
    have hlog := Int.zpow_log_le_self (b := 2) one_lt_two (abs_pos.2 hne)
    rw [pow_mul_ulp] at hbound
    rw [ulp, ulp, zpow_le_zpow_iff_right₀ (by norm_num : (1 : ℚ) < 2)] at hle
    have hexponent := (zpow_le_zpow_iff_right₀ (by norm_num : (1 : ℚ) < 2)).1 (hlog.trans hbound)
    push_cast at hexponent
    have hcast : ((2 ^ 23 : ℤ) : ℚ) = 2 ^ 23 := by norm_num
    have habs : |r| = ((2 ^ 23 : ℤ) : ℚ) * ulp r := by
      rw [hcast, pow_mul_ulp]
      refine le_antisymm (hbound.trans_eq ?_) (Eq.trans_le ?_ hlog)
      · congr 1
        push_cast
        omega
      · push_cast
        congr 1
        omega
    exact toReal_of_abs_multiple hne habs hlt

/-! ### Quarters -/

/-- A quarter is kept below 2²². -/
theorem toReal_quarter {k : ℕ} (h : k < 2 ^ 24) : toReal ((k : ℚ) / 4) = some ((k : ℚ) / 4) := by
  rcases Nat.eq_zero_or_pos k with rfl | hpos
  · norm_num [toReal]
  have hk : (0 : ℚ) < k := Nat.cast_pos.2 hpos
  have hlt : (k : ℚ) < 2 ^ 24 := by exact_mod_cast h
  have habs : |(k : ℚ) / 4| = k / 4 := abs_of_pos (by positivity)
  have hlog : Int.log 2 |(k : ℚ) / 4| < 22 := by
    rw [habs, ← Int.lt_zpow_iff_log_lt one_lt_two (by positivity)]
    push_cast
    linarith
  refine toReal_of_multiple (m := k * 2 ^ (-2 - (max (Int.log 2 |(k : ℚ) / 4|) (-126) - 23)).toNat)
    (by positivity) ?_ (by rw [habs]; linarith)
  generalize hE : max (Int.log 2 |(k : ℚ) / 4|) (-126) - 23 = E
  have hpow : (2 : ℚ) ^ (-2 - E).toNat * 2 ^ E = 1 / 4 := by
    rw [← zpow_natCast, ← zpow_add₀ (by norm_num), Int.toNat_of_nonneg (by omega)]
    norm_num
  rw [ulp, hE]
  push_cast
  rw [mul_assoc, hpow]
  ring

/-- Numbers from a power of two on are not cast below it. -/
theorem le_toReal {e : ℤ} (he : -126 ≤ e) (hq : 2 ^ e ≤ q) (h : toReal q = some r) : 2 ^ e ≤ r := by
  have hpos : 0 < q := lt_of_lt_of_le (zpow_pos (by norm_num) e) hq
  obtain ⟨hr, _, _⟩ := (toReal_eq_some_iff hpos.ne').1 h
  have hlog : e ≤ Int.log 2 |q| := by
    rw [abs_of_pos hpos, ← Int.zpow_le_iff_le_log one_lt_two hpos]
    exact_mod_cast hq
  have hscale : (2 : ℚ) ^ 23 * ulp q = 2 ^ max (Int.log 2 |q|) (-126) := by
    rw [pow_mul_ulp]
    congr 1
    push_cast
    ring
  have hself : (2 : ℚ) ^ Int.log 2 |q| ≤ |q| := by
    exact_mod_cast Int.zpow_log_le_self (b := 2) one_lt_two (abs_pos.2 hpos.ne')
  have hinteger : (2 ^ 23 : ℤ) ≤ roundHalfEven (q / ulp q) := by
    have hcast : ((2 ^ 23 : ℤ) : ℚ) = 2 ^ 23 := by norm_num
    refine le_roundHalfEven ?_
    rw [le_div_iff₀ (ulp_pos q), hcast, hscale, max_eq_left (by omega)]
    exact hself.trans_eq (abs_of_pos hpos)
  have hcast : (2 : ℚ) ^ 23 ≤ roundHalfEven (q / ulp q) := by exact_mod_cast hinteger
  calc (2 : ℚ) ^ e ≤ 2 ^ max (Int.log 2 |q|) (-126) := zpow_le_zpow_right₀ (by norm_num) (by omega)
    _ = 2 ^ 23 * ulp q := hscale.symm
    _ ≤ r := hr ▸ mul_le_mul_of_nonneg_right hcast (ulp_pos q).le

theorem toReal_nonneg (hq : 0 ≤ q) (h : toReal q = some r) : 0 ≤ r := by
  rcases hq.eq_or_lt with rfl | hpos
  · obtain rfl := Option.some.inj h
    exact le_rfl
  obtain ⟨hr, _, _⟩ := (toReal_eq_some_iff hpos.ne').1 h
  have hinteger : (0 : ℤ) ≤ roundHalfEven (q / ulp q) :=
    le_roundHalfEven (by push_cast; exact (div_pos hpos (ulp_pos q)).le)
  rw [hr]
  exact mul_nonneg (by exact_mod_cast hinteger) (ulp_pos q).le

/-- The least number that the cast makes. -/
theorem le_of_toReal (hq : 0 < q) (h : toReal q = some r) : 2 ^ (-149 : ℤ) ≤ r := by
  obtain ⟨hr, hne, _⟩ := (toReal_eq_some_iff hq.ne').1 h
  have hnonneg := toReal_nonneg hq.le h
  have hpos : 0 < roundHalfEven (q / ulp q) := by
    have hmul : 0 < (roundHalfEven (q / ulp q) : ℚ) * ulp q := hr ▸ lt_of_le_of_ne hnonneg hne.symm
    exact_mod_cast (pos_iff_pos_of_mul_pos hmul).2 (ulp_pos q)
  have hone : (1 : ℚ) ≤ roundHalfEven (q / ulp q) := by exact_mod_cast hpos
  calc (2 : ℚ) ^ (-149 : ℤ) ≤ ulp q := zpow_le_zpow_right₀ (by norm_num) (by omega)
    _ ≤ roundHalfEven (q / ulp q) * ulp q := le_mul_of_one_le_left (ulp_pos q).le hone
    _ = r := hr.symm

/-- From 2²² on a quarter is lost. -/
theorem toReal_add_quarter {n : ℕ} (hn : 2 ^ 22 ≤ n) (h : toReal n = some (n : ℚ)) :
    toReal ((n : ℚ) + 1 / 4) = some (n : ℚ) := by
  have hge : (2 : ℚ) ^ 22 ≤ n := by exact_mod_cast hn
  have hpos : (0 : ℚ) < n := by linarith
  obtain ⟨hr, hne, hlt⟩ := (toReal_eq_some_iff hpos.ne').1 h
  obtain ⟨l, hl⟩ : ∃ l : ℕ, Int.log 2 (n : ℚ) = l := ⟨Nat.log 2 n, Int.log_natCast 2 n⟩
  have hl22 : 22 ≤ l := by
    have hlog : (22 : ℤ) ≤ Int.log 2 (n : ℚ) := by
      rw [← Int.zpow_le_iff_le_log one_lt_two hpos]
      exact_mod_cast hge
    omega
  -- the quarter makes the number no longer
  have hlog : Int.log 2 ((n : ℚ) + 1 / 4) = l := by
    have hself : (2 : ℚ) ^ (l : ℤ) ≤ n := by
      rw [← hl]
      exact_mod_cast Int.zpow_log_le_self (b := 2) one_lt_two hpos
    have hnext : (n : ℚ) + 1 ≤ 2 ^ ((l : ℤ) + 1) := by
      have hlt := Int.lt_zpow_succ_log_self (b := 2) one_lt_two (n : ℚ)
      rw [hl] at hlt
      have hnat : n < 2 ^ (l + 1) := by exact_mod_cast hlt
      exact_mod_cast Nat.succ_le_of_lt hnat
    refine le_antisymm (Int.lt_add_one_iff.1 ?_) ?_
    · rw [← Int.lt_zpow_iff_log_lt one_lt_two (by positivity)]
      push_cast
      linarith
    · rw [← Int.zpow_le_iff_le_log one_lt_two (by positivity)]
      push_cast at hself ⊢
      linarith
  have hulp : ulp (n : ℚ) = 2 ^ ((l : ℤ) - 23) := by
    rw [ulp, abs_of_pos hpos, hl, max_eq_left (by omega)]
  have hulp' : ulp ((n : ℚ) + 1 / 4) = 2 ^ ((l : ℤ) - 23) := by
    rw [ulp, abs_of_pos (by positivity), hlog, max_eq_left (by omega)]
  have hupos : (0 : ℚ) < 2 ^ ((l : ℤ) - 23) := zpow_pos (by norm_num) _
  rw [hulp] at hr
  generalize roundHalfEven ((n : ℚ) / 2 ^ ((l : ℤ) - 23)) = m at hr
  have hround : roundHalfEven (((n : ℚ) + 1 / 4) / 2 ^ ((l : ℤ) - 23)) = m := by
    have hdiv : ((n : ℚ) + 1 / 4) / 2 ^ ((l : ℤ) - 23) = m + 1 / 4 / 2 ^ ((l : ℤ) - 23) := by
      rw [add_div, div_eq_iff hupos.ne' |>.2 hr]
    rw [hdiv]
    refine roundHalfEven_add (by positivity) ?_
    rcases hl22.eq_or_lt with rfl | hlt'
    · refine Or.inr ⟨by norm_num, ?_⟩
      have htwice : (m : ℚ) = 2 * n := by
        norm_num at hr
        linarith
      have : m = 2 * n := by exact_mod_cast htwice
      omega
    · refine Or.inl ?_
      have hone : (1 : ℚ) ≤ 2 ^ ((l : ℤ) - 23) := one_le_zpow₀ (by norm_num) (by omega)
      rw [div_lt_iff₀ hupos]
      linarith
  rw [toReal_eq_some_iff (by positivity), hulp', hround]
  exact ⟨hr, hne, hlt⟩

end Cast

end SqlTypes
