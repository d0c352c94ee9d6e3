import Wdb.Lib.DecimalText
import Wdb.Lib.SignificantDigits
import Wdb.Projection.Memo

/-! What the text of a grid says of its corners.

    A coordinate is rounded to four decimals and printed with six digits, which are too few from 100 on. The
    text is read as the points of a ring, for the exact values of its numerals. -/

namespace Wdb.Projection
open SqlTypes DecimalText
open Read (LonLat wdbRound)
open Query (showFloat trimZeros)

/-! ### Printed coordinates -/

section Printed
variable {q : ℚ}

/-- A number is printed without an exponent from 0.0001 on and below a million. -/
structure Plainly (q : ℚ) : Prop where
  pos : 0 < q
  low : -4 ≤ Int.log 10 (significant 6 q)
  high : Int.log 10 (significant 6 q) < 6

/-- The six digits of a number. -/
theorem exists_digits (hq : 0 < q) : ∃ k : ℕ,
    significant 6 q / 10 ^ (Int.log 10 (significant 6 q) - 5) = k ∧ (Nat.toDigits 10 k).length = 6 := by
  have hpos := significant_pos (n := 6) (by decide) hq
  obtain ⟨k, hk, hs⟩ := (significantDigits_significant (n := 6) (by decide) hq.le).multiple hpos
  have hunit : unit 6 (significant 6 q) = 10 ^ (Int.log 10 (significant 6 q) - 5) := by
    rw [unit, abs_of_pos hpos]
    norm_num
  rw [hunit] at hs
  have hne : (10 : ℚ) ^ (Int.log 10 (significant 6 q) - 5) ≠ 0 := by positivity
  have hself := Int.zpow_log_le_self (b := 10) (by norm_num) hpos
  have hfive : 10 ^ 5 ≤ k := by
    have hsplit : ((10 : ℕ) : ℚ) ^ Int.log 10 (significant 6 q) =
        10 ^ 5 * 10 ^ (Int.log 10 (significant 6 q) - 5) := by
      rw [← zpow_natCast, ← zpow_add₀ (by norm_num)]
      push_cast
      congr 1
      ring
    rw [hsplit] at hself
    have hle := hself.trans_eq hs
    exact_mod_cast le_of_mul_le_mul_right hle (by positivity)
  refine ⟨k, (div_eq_iff hne).2 hs, le_antisymm ?_ (not_lt.1 fun hlt => ?_)⟩
  · exact (Nat.length_toDigits_le_iff (by decide) (by decide)).2 hk
  · have hshort := (Nat.length_toDigits_le_iff (b := 10) (k := 5) (by decide) (by decide)).1
      (Nat.le_of_lt_succ hlt)
    exact absurd hshort (not_lt.2 hfive)

/-- A text is a numeral of digits, for a value. -/
structure Spells (s : List Char) (q : ℚ) (a b : List Char) : Prop where
  text : s = spell a b
  ne_nil : a ≠ []
  before : ∀ c ∈ a, c.isDigit
  behind : ∀ c ∈ b, c.isDigit
  value : value a b = q

theorem trimZeros_subset (ds : List Char) : trimZeros ds ⊆ ds := by
  intro c hc
  exact List.mem_reverse.1 ((List.dropWhile_suffix _).subset (List.mem_reverse.1 hc))

theorem value_trimZeros (a b : List Char) : value a (trimZeros b) = value a b := value_rdropWhile a b

/-- A positive number is printed as its six digits. -/
theorem exists_spells (h : Plainly q) : ∃ a b, Spells (showFloat q).toList (significant 6 q) a b := by
  obtain ⟨k, hk, hlength⟩ := exists_digits h.pos
  have hpos := significant_pos (n := 6) (by decide) h.pos
  have hlow := h.low
  have hhigh := h.high
  have hs : significant 6 q = k * 10 ^ (Int.log 10 (significant 6 q) - 5) :=
    (div_eq_iff (by positivity)).1 hk
  have hshow : showFloat q = if Int.log 10 (significant 6 q) < 0 then
      String.ofList ('0' :: '.' :: (List.replicate (-Int.log 10 (significant 6 q) - 1).toNat '0' ++
        trimZeros (Nat.toDigits 10 k)))
    else String.ofList ((Nat.toDigits 10 k).take ((Int.log 10 (significant 6 q)).toNat + 1) ++
      Query.fraction ((Nat.toDigits 10 k).drop ((Int.log 10 (significant 6 q)).toNat + 1))) := by
    unfold showFloat
    simp only [if_neg h.pos.ne', hk, Rat.num_natCast, Int.toNat_natCast, Nat.toString_eq_repr, Nat.toList_repr,
      if_neg (not_lt.2 hlow), if_pos hhigh]
  have hdigits : ∀ c ∈ Nat.toDigits 10 k, c.isDigit := fun c hc =>
    Nat.isDigit_of_mem_toDigits (by decide) (by decide) hc
  rw [hshow]
  generalize Int.log 10 (significant 6 q) = e at *
  split
  · -- zeros behind the point
    next hneg =>
    have htrim : value ['0'] (trimZeros (Nat.toDigits 10 k)) = k / 10 ^ 6 := by
      rw [value_trimZeros, value_zero, hlength, Nat.ofDigitChars_ten_toDigits]
    have hvalue : value ['0'] (List.replicate (-e - 1).toNat '0' ++ trimZeros (Nat.toDigits 10 k)) =
        significant 6 q := by
      have hexponent : e - 5 = -(6 + ((-e - 1).toNat : ℕ) : ℕ) := by omega
      rw [value_zeros, htrim, hs, hexponent, zpow_neg, zpow_natCast, pow_add, div_div, div_eq_mul_inv]
    refine ⟨['0'], _, ?_, List.cons_ne_nil _ _, by simp, fun c hc => ?_, hvalue⟩
    · have hne : List.replicate (-e - 1).toNat '0' ++ trimZeros (Nat.toDigits 10 k) ≠ [] := by
        intro hnil
        rw [hnil] at hvalue
        have hzero : value ['0'] [] = 0 := by simp [value, Nat.ofDigitChars]
        exact hpos.ne' (hvalue.symm.trans hzero)
      rw [String.toList_ofList, spell, if_neg hne]
      rfl
    · rcases List.mem_append.1 hc with hc | hc
      · obtain rfl := List.eq_of_mem_replicate hc
        decide
      · exact hdigits c (trimZeros_subset _ hc)
  · next hnonneg =>
    refine ⟨(Nat.toDigits 10 k).take (e.toNat + 1), trimZeros ((Nat.toDigits 10 k).drop (e.toNat + 1)), ?_, ?_,
      fun c hc => hdigits c (List.mem_of_mem_take hc),
      fun c hc => hdigits c (List.mem_of_mem_drop (trimZeros_subset _ hc)), ?_⟩
    · rw [String.toList_ofList]
      rfl
    · rw [ne_eq, List.take_eq_nil_iff, not_or]
      exact ⟨Nat.succ_ne_zero _, Nat.toDigits_ne_nil⟩
    · have hexponent : e - 5 = -((6 - (e.toNat + 1) : ℕ) : ℤ) := by omega
      rw [value_trimZeros, value_take_drop, hlength, Nat.ofDigitChars_ten_toDigits, hs, hexponent, zpow_neg,
        zpow_natCast, div_eq_mul_inv]

end Printed

section Coordinates
variable {v : ℚ}

/-- A coordinate of four decimals, up to half a circle. -/
def Coordinate (v : ℚ) : Prop := ∃ n : ℤ, v = n / 10 ^ 4 ∧ |n| ≤ 1800000

/-- The number that is printed for a coordinate. -/
def sixDigits (v : ℚ) : ℚ := if v < 0 then -significant 6 (-v) else significant 6 v

/-- Six digits are enough for a coordinate: it is less than 100, or has three decimals. -/
def Short (v : ℚ) : Prop := |v| < 100 ∨ ∃ n : ℤ, v * 1000 = n

theorem Coordinate.neg (h : Coordinate v) : Coordinate (-v) := by
  obtain ⟨n, rfl, hn⟩ := h
  exact ⟨-n, by push_cast; ring, by rwa [abs_neg]⟩

theorem Short.neg (h : Short v) : Short (-v) := by
  rcases h with h | ⟨n, hn⟩
  · exact Or.inl (by rwa [abs_neg])
  · exact Or.inr ⟨-n, by push_cast; rw [← hn]; ring⟩

theorem coordinate_wdbRound {c : ℚ} (hc : |c| ≤ 180) : Coordinate (wdbRound c 4) := by
  have hround := Read.abs_wdbRound_sub_le c 4
  obtain ⟨n, hn⟩ : ∃ n : ℤ, wdbRound c 4 = n / 10 ^ 4 := ⟨_, rfl⟩
  rw [hn] at hround ⊢
  refine ⟨n, rfl, ?_⟩
  obtain ⟨hlow, hhigh⟩ := abs_le.1 hround
  obtain ⟨hlow', hhigh'⟩ := abs_le.1 hc
  have hup : (n : ℚ) < 1800001 := by
    norm_num at hhigh
    linarith
  have hdown : (-1800001 : ℚ) < n := by
    norm_num at hlow
    linarith
  have hup' : n < 1800001 := by exact_mod_cast hup
  have hdown' : -1800001 < n := by exact_mod_cast hdown
  rw [abs_le]
  omega

/-- A positive coordinate is printed without an exponent. -/
theorem Coordinate.plainly (h : Coordinate v) (hv : 0 < v) : Plainly v := by
  obtain ⟨n, rfl, hn⟩ := h
  have hpos : (0 : ℚ) < n := by
    by_contra hle
    exact hv.not_ge (div_nonpos_of_nonpos_of_nonneg (not_lt.1 hle) (by norm_num))
  have hone : (1 : ℚ) ≤ n := by exact_mod_cast hpos
  have hmax : (n : ℚ) ≤ 1800000 := by exact_mod_cast (abs_le.1 hn).2
  obtain ⟨hge, hle⟩ := significant_bounds (n := 6) (by decide) hv
  have hlow : -4 ≤ Int.log 10 ((n : ℚ) / 10 ^ 4) := by
    rw [← Int.zpow_le_iff_le_log (by norm_num) hv]
    norm_num
    linarith
  have hhigh : Int.log 10 ((n : ℚ) / 10 ^ 4) < 3 := by
    rw [← Int.lt_zpow_iff_log_lt (by norm_num) hv]
    norm_num
    linarith
  have hs := significant_pos (n := 6) (by decide) hv
  refine ⟨hv, hlow.trans ?_, ?_⟩
  · rw [← Int.zpow_le_iff_le_log (by norm_num) hs]
    exact_mod_cast hge
  · rw [← Int.lt_zpow_iff_log_lt (by norm_num) hs]
    have hpow : (10 : ℚ) ^ (Int.log 10 ((n : ℚ) / 10 ^ 4) + 1) < 10 ^ (6 : ℤ) :=
      zpow_lt_zpow_right₀ (by norm_num) (by omega)
    exact_mod_cast hle.trans_lt hpow

/-- A coordinate is printed as a numeral for its six digits. -/
theorem Coordinate.number_showDouble (h : Coordinate v) :
    number (showDouble v).toList = some (sixDigits v) ∧ ∀ c ∈ (showDouble v).toList, c ≠ ' ' ∧ c ≠ ',' := by
  have hplain : ∀ {c : Char}, c.isDigit ∨ c = '.' → c ≠ ' ' ∧ c ≠ ',' := by
    rintro c (hc | rfl)
    · constructor
      · rintro rfl
        exact absurd hc (by decide)
      · rintro rfl
        exact absurd hc (by decide)
    · decide
  change number (if v < 0 then "-" ++ showFloat (-v) else showFloat v).toList = _ ∧
    ∀ c ∈ (if v < 0 then "-" ++ showFloat (-v) else showFloat v).toList, _
  unfold sixDigits
  rcases lt_trichotomy v 0 with hneg | rfl | hpos
  · obtain ⟨a, b, hspells⟩ := exists_spells (h.neg.plainly (neg_pos.2 hneg))
    have htext : ("-" ++ showFloat (-v)).toList = '-' :: spell a b := by
      rw [String.toList_append, hspells.text]
      rfl
    rw [if_pos hneg, if_pos hneg, htext, number_neg_spell hspells.ne_nil hspells.before hspells.behind,
      hspells.value]
    refine ⟨rfl, fun c hc => ?_⟩
    rcases List.mem_cons.1 hc with rfl | hc
    · decide
    · exact hplain (mem_spell hspells.before hspells.behind hc)
  · have hzero : showFloat 0 = "0" := if_pos rfl
    have hsignificant : significant 6 0 = 0 := if_pos rfl
    have hvalue : value ['0'] [] = 0 := by simp [value, Nat.ofDigitChars]
    have hspell : "0".toList = spell ['0'] [] := rfl
    rw [if_neg (lt_irrefl _), if_neg (lt_irrefl _), hzero, hsignificant, hspell,
      number_spell (List.cons_ne_nil _ _) (by simp) (by simp), hvalue]
    exact ⟨rfl, by simp [spell]⟩
  · obtain ⟨a, b, hspells⟩ := exists_spells (h.plainly hpos)
    rw [if_neg hpos.not_gt, if_neg hpos.not_gt, hspells.text,
      number_spell hspells.ne_nil hspells.before hspells.behind, hspells.value]
    exact ⟨rfl, fun c hc => hplain (mem_spell hspells.before hspells.behind hc)⟩

theorem Coordinate.significant_eq_iff (h : Coordinate v) (hv : 0 < v) : significant 6 v = v ↔ Short v := by
  obtain ⟨n, hn, hmax⟩ := h
  have hnpos : (0 : ℚ) < n := by
    by_contra hle
    rw [hn] at hv
    exact hv.not_ge (div_nonpos_of_nonpos_of_nonneg (not_lt.1 hle) (by norm_num))
  have hle : v ≤ 180 := by
    have hmax' : (n : ℚ) ≤ 1800000 := by exact_mod_cast (abs_le.1 hmax).2
    rw [hn, div_le_iff₀ (by norm_num)]
    linarith
  have hdigits : ∀ (m k : ℤ), v = m * 10 ^ k → m < 10 ^ 6 → 0 < m → significant 6 v = v := by
    intro m k hm hlt hpos
    refine significant_eq_self (by decide) ⟨m.toNat, k, by omega, ?_⟩ hv
    have hcast : ((m.toNat : ℕ) : ℤ) = m := Int.toNat_of_nonneg hpos.le
    rw [hm]
    exact_mod_cast congrArg (fun m : ℤ => (m : ℚ) * 10 ^ k) hcast.symm
  constructor
  · intro hsame
    rw [Short, abs_of_pos hv]
    by_contra hlong
    obtain ⟨hge, hnot⟩ := not_or.1 hlong
    have hlog : Int.log 10 |v| = 2 := by
      rw [abs_of_pos hv]
      refine le_antisymm ?_ ?_
      · rw [← Int.lt_add_one_iff, ← Int.lt_zpow_iff_log_lt (by norm_num) hv]
        norm_num
        linarith
      · rw [← Int.zpow_le_iff_le_log (by norm_num) hv]
        norm_num
        exact not_lt.1 hge
    refine hnot ⟨roundHalfEven (v / unit 6 v), ?_⟩
    have hunit : unit 6 v = 1 / 1000 := by
      rw [unit, hlog]
      norm_num
    have hround := SqlTypes.significant_eq (n := 6) hv.ne'
    rw [hsame, hunit] at hround
    rw [hunit]
    linarith
  · rintro (hshort | ⟨m, hm⟩)
    · rw [abs_of_pos hv] at hshort
      refine hdigits n (-4) (by rw [hn, zpow_neg, div_eq_mul_inv]; norm_cast) ?_ (by exact_mod_cast hnpos)
      rw [hn, div_lt_iff₀ (by norm_num)] at hshort
      have hlt : (n : ℚ) < 10 ^ 6 := by linarith
      exact_mod_cast hlt
    · have hmpos : (0 : ℚ) < m := by
        rw [← hm]
        positivity
      refine hdigits m (-3) ?_ ?_ (by exact_mod_cast hmpos)
      · rw [← hm]
        norm_num
        ring
      · have hlt : (m : ℚ) < 10 ^ 6 := by
          rw [← hm]
          linarith
        exact_mod_cast hlt

/-- A coordinate is printed exactly when it is short. -/
theorem Coordinate.sixDigits_eq_iff (h : Coordinate v) : sixDigits v = v ↔ Short v := by
  unfold sixDigits
  rcases lt_trichotomy v 0 with hneg | rfl | hpos
  · rw [if_pos hneg, neg_eq_iff_eq_neg, h.neg.significant_eq_iff (neg_pos.2 hneg)]
    refine ⟨fun hs => ?_, Short.neg⟩
    have hs' := hs.neg
    rwa [neg_neg] at hs'
  · exact iff_of_true (by decide +kernel) (Or.inl (by norm_num))
  · rw [if_neg hpos.not_gt, h.significant_eq_iff hpos]

end Coordinates

/-! ### The ring -/

/-- The text of a point. -/
def IsPoint (s : List Char) (p : LonLat) : Prop :=
  ∃ x y, s.splitOn ' ' = [x, y] ∧ number x = some p.lon ∧ number y = some p.lat

/-- A text is that of a polygon with one ring. -/
def Denotes (text : String) (ring : List LonLat) : Prop :=
  ∃ inner, text.toList = "POLYGON((".toList ++ (inner ++ "))".toList) ∧
    List.Forall₂ IsPoint (inner.splitOn ',') ring

section Ring
variable {text : String} {ring ring' : List LonLat} {p q : LonLat} {s : List Char}

theorem IsPoint.unique (hp : IsPoint s p) (hq : IsPoint s q) : p = q := by
  obtain ⟨x, y, hs, hx, hy⟩ := hp
  obtain ⟨x', y', hs', hx', hy'⟩ := hq
  obtain ⟨rfl, rfl⟩ : x = x' ∧ y = y' := by simpa using hs.symm.trans hs'
  have hlon := Option.some.inj (hx.symm.trans hx')
  have hlat := Option.some.inj (hy.symm.trans hy')
  cases p
  cases q
  exact congrArg₂ LonLat.mk hlon hlat

theorem Denotes.unique (h : Denotes text ring) (h' : Denotes text ring') : ring = ring' := by
  obtain ⟨inner, htext, hpoints⟩ := h
  obtain ⟨inner', htext', hpoints'⟩ := h'
  rw [htext] at htext'
  obtain rfl := List.append_cancel_right (List.append_cancel_left htext')
  exact List.right_unique_forall₂' (fun _ _ _ hp hq => hp.unique hq) hpoints hpoints'

/-- A place in degrees, as it is rounded. -/
def rounded (p : LonLat) : LonLat := ⟨wdbRound p.lon 4, wdbRound p.lat 4⟩

/-- Both coordinates are rounded. -/
structure Rounded (p : LonLat) : Prop where
  lon : Coordinate p.lon
  lat : Coordinate p.lat

/-- What is printed for a point. -/
def shortened (p : LonLat) : LonLat := ⟨sixDigits p.lon, sixDigits p.lat⟩

theorem Rounded.showPoint (h : Rounded p) : IsPoint (showPoint (located p)).toList (shortened p) ∧
    ',' ∉ (showPoint (located p)).toList := by
  obtain ⟨hlon, hlonchars⟩ := h.lon.number_showDouble
  obtain ⟨hlat, hlatchars⟩ := h.lat.number_showDouble
  have htext : (Projection.showPoint (located p)).toList =
      [' '].intercalate [(showDouble p.lon).toList, (showDouble p.lat).toList] := by
    simp [Projection.showPoint, located, List.intercalate]
  have hblank : ∀ s ∈ [(showDouble p.lon).toList, (showDouble p.lat).toList], ' ' ∉ s := by
    simp only [List.mem_cons, List.not_mem_nil, or_false]
    rintro s (rfl | rfl) hs
    · exact (hlonchars ' ' hs).1 rfl
    · exact (hlatchars ' ' hs).1 rfl
  rw [htext]
  refine ⟨⟨_, _, List.splitOn_intercalate ' ' hblank (List.cons_ne_nil _ _), hlon, hlat⟩, fun hcomma => ?_⟩
  simp only [List.intercalate, List.intersperse, List.flatten_cons, List.flatten_nil, List.append_nil,
    List.mem_append, List.mem_singleton] at hcomma
  rcases hcomma with hcomma | hcomma | hcomma
  · exact (hlonchars ',' hcomma).2 rfl
  · exact absurd hcomma (by decide)
  · exact (hlatchars ',' hcomma).2 rfl

/-- The text of a ring is read as what is printed for its points. -/
theorem denotes_showRing (points : List LonLat) (hne : points ≠ []) (h : ∀ p ∈ points, Rounded p) :
    Denotes (showRing (points.map located)) ((points ++ points.take 1).map shortened) := by
  have hall : ∀ p ∈ points ++ points.take 1, Rounded p := by
    intro p hp
    rcases List.mem_append.1 hp with hp | hp
    · exact h p hp
    · exact h p (List.mem_of_mem_take hp)
  have htexts : (points.map located ++ (points.map located).take 1).map Projection.showPoint =
      (points ++ points.take 1).map fun p => Projection.showPoint (located p) := by
    rw [← List.map_take, ← List.map_append, List.map_map]
    rfl
  refine ⟨[','].intercalate ((points ++ points.take 1).map fun p => (Projection.showPoint (located p)).toList),
    ?_, ?_⟩
  · rw [showRing, htexts]
    simp only [String.toList_append, String.toList_intercalate, List.map_map, List.append_assoc]
    rfl
  · rw [List.splitOn_intercalate, List.forall₂_map_left_iff, List.forall₂_map_right_iff, List.forall₂_same]
    · exact fun p hp => (hall p hp).showPoint.1
    · intro s hs
      obtain ⟨p, hp, rfl⟩ := List.mem_map.1 hs
      exact (hall p hp).showPoint.2
    · simpa using hne

end Ring

end Wdb.Projection
