import Wdb.Lib.SqlRows
import Wdb.Projection.Outline
import Wdb.Query.DataVersions

/-! The numbers that are printed into a query.

    A `float` that is not negative is printed as a numeral for its six digits, with an exponent when it is small or
    great. A `real` is compared with the double precision number that is nearest to these. -/

namespace Wdb.Query
open SqlText SqlSelect SqlTypes DecimalText

/-! ### The tokens of a numeral -/

/-- The tokens from a mode to the end of the text. -/
def lexed (m : Mode) (cs : List Char) : List Token := (scan m cs).1 ++ (scan m cs).2.flush.getD []

def signChar : Sign → Char
  | .plus => '+'
  | .minus => '-'

/-- The characters of a numeral. -/
def numeralText (n : Numeral) : List Char :=
  spell n.whole n.fraction ++ n.exponent.elim [] fun x => 'e' :: signChar x.1 :: x.2

section Lexed
variable {w ds : List Char} {n : Numeral}

theorem lexed_cons (m : Mode) (c : Char) (cs : List Char) :
    lexed m (c :: cs) = (step m c).1 ++ lexed (step m c).2 cs := by
  simp [lexed, scan]

theorem lexed_digits (h : ∀ c ∈ ds, c.isDigit) (cs : List Char) :
    lexed (.word w) (ds ++ cs) = lexed (.word (w ++ ds)) cs := by
  rw [lexed, scan_append, scan_digits h, List.nil_append]
  rfl

theorem lexed_number (h : isDigits ds) (cs : List Char) : lexed .code (ds ++ cs) = lexed (.word ds) cs := by
  obtain ⟨hne, hdigits⟩ := isDigits_iff.1 h
  obtain ⟨c, ds, rfl⟩ := List.exists_cons_of_ne_nil hne
  have hstep : step .code c = ([], .word [c]) := start_digit (hdigits c List.mem_cons_self)
  rw [List.cons_append, lexed_cons, hstep, List.nil_append,
    lexed_digits fun d hd => hdigits d (List.mem_cons_of_mem c hd)]
  rfl

/-- A word goes on, or is over. -/
theorem step_word {c : Char} (h : isWord c) : step (.word w) c = ([], .word (w ++ [c])) := if_pos h

theorem step_over {c : Char} (h : ¬ isWord c) : step (.word w) c = (.word w :: (SqlText.start c).1, (SqlText.start c).2) := if_neg h

theorem lexed_nil_word : lexed (.word w) [] = [.word w] := rfl

/-- A numeral ends with its last word, and the exponent. -/
theorem lexed_exponent {x : Option (Sign × List Char)} (h : ∀ y ∈ x, isDigits y.2) :
    lexed (.word w) (x.elim [] fun y => 'e' :: signChar y.1 :: y.2) =
      .word (w ++ if x.isSome then ['e'] else []) :: x.elim [] fun y => [y.1.token, .word y.2] := by
  cases x with
  | none => simp [lexed_nil_word]
  | some y =>
    obtain ⟨s, ds⟩ := y
    have hds : isDigits ds := h _ rfl
    have hmark : step (.word w) 'e' = ([], .word (w ++ ['e'])) := step_word (by decide)
    have hplain := lexed_number hds []
    rw [List.append_nil, lexed_nil_word] at hplain
    simp only [Option.elim_some, Option.isSome_some, if_true]
    rw [lexed_cons, hmark, List.nil_append, lexed_cons]
    cases s with
    | plus =>
      have hsign : step (.word (w ++ ['e'])) '+' = ([.word (w ++ ['e']), .symbol '+'], .code) :=
        step_over (by decide)
      rw [signChar, hsign, hplain]
      rfl
    | minus =>
      -- a dash is a symbol once a digit follows
      obtain ⟨hne, hdigits⟩ := isDigits_iff.1 hds
      obtain ⟨c, ds, rfl⟩ := List.exists_cons_of_ne_nil hne
      have hc := hdigits c List.mem_cons_self
      have hdash : c ≠ '-' := by
        rintro rfl
        cases hc
      have hsign : step (.word (w ++ ['e'])) '-' = ([.word (w ++ ['e'])], .dash) := step_over (by decide)
      have hstep : step .dash c = ([.symbol '-'], .word [c]) := by
        rw [step, if_neg hdash, start_digit hc]
      have hrest := lexed_digits (w := [c]) (fun d hd => hdigits d (List.mem_cons_of_mem c hd)) []
      rw [List.append_nil, lexed_nil_word] at hrest
      rw [signChar, hsign, lexed_cons, hstep, hrest]
      rfl

/-- A numeral is read as its words and symbols. -/
theorem lexed_numeralText (h : n.Named) : lexed .code (numeralText n) = n.tokens := by
  obtain ⟨whole, fraction, x⟩ := n
  have hwhole : isDigits whole := h.whole
  unfold numeralText spell Numeral.tokens
  simp only [List.append_assoc]
  rw [lexed_number hwhole]
  by_cases hfraction : fraction = []
  · rw [if_pos hfraction, if_pos hfraction, List.nil_append, lexed_exponent h.exponent]
    rfl
  · have hdigits : isDigits fraction := isDigits_iff.2 ⟨hfraction, h.fraction⟩
    have hpoint : step (.word whole) '.' = ([.word whole, .symbol '.'], .code) := step_over (by decide)
    rw [if_neg hfraction, if_neg hfraction, List.cons_append, lexed_cons, hpoint, lexed_number hdigits,
      lexed_exponent h.exponent]
    rfl

theorem meant_numeral {s : String} (h : n.Named) (hs : s.toList = numeralText n) : meant (code s) = n.tokens := by
  rw [meant_code, Part.tokens, hs, ← lexed_numeralText h]
  rfl

end Lexed

/-! ### Printed numbers -/

/-- A text is a numeral for a value. -/
structure Prints (s : String) (n : Numeral) (q : ℚ) : Prop where
  named : n.Named
  text : s.toList = numeralText n
  value : n.value = q

section Printed
variable {q : ℚ} {n : Numeral}

/-- The digits of an exponent, of which there are two at least. -/
theorem exists_exponent (b : Prop) [Decidable b] (k : ℕ) : ∃ ds, isDigits ds ∧ Nat.ofDigitChars 10 ds 0 = k ∧
    ((if b then "0" else "") ++ toString k).toList = ds := by
  have hdigits : ∀ c ∈ Nat.toDigits 10 k, c.isDigit := fun c hc =>
    Nat.isDigit_of_mem_toDigits (by decide) (by decide) hc
  have htext : (toString k).toList = Nat.toDigits 10 k := by rw [Nat.toString_eq_repr, Nat.toList_repr]
  refine ⟨_, ?_, ?_, rfl⟩
  · rw [isDigits_iff, String.toList_append, htext]
    refine ⟨List.append_ne_nil_of_right_ne_nil _ Nat.toDigits_ne_nil, fun c hc => ?_⟩
    rcases List.mem_append.1 hc with hc | hc
    · split at hc
      · obtain rfl := List.mem_singleton.1 hc
        decide
      · cases hc
    · exact hdigits c hc
  · rw [String.toList_append, htext, ofDigitChars_append, Nat.ofDigitChars_ten_toDigits]
    have hzero : Nat.ofDigitChars 10 (if b then "0" else "").toList 0 = 0 := by split <;> decide
    rw [hzero, mul_zero, zero_add]

/-- Six digits with an exponent. -/
theorem prints_scientific {k : ℕ} (hlength : (Nat.toDigits 10 k).length = 6) (s : Sign) {ds : List Char}
    (hds : isDigits ds) {t : String} (ht : t.toList =
      (Nat.toDigits 10 k).take 1 ++ Query.fraction ((Nat.toDigits 10 k).drop 1) ++ 'e' :: signChar s :: ds) :
    Prints t ⟨(Nat.toDigits 10 k).take 1, trimZeros ((Nat.toDigits 10 k).drop 1), some (s, ds)⟩
      (k * 10 ^ (s.apply 0 (Nat.ofDigitChars 10 ds 0) - 5)) := by
  have hdigits : ∀ c ∈ Nat.toDigits 10 k, c.isDigit := fun c hc =>
    Nat.isDigit_of_mem_toDigits (by decide) (by decide) hc
  refine ⟨⟨?_, fun c hc => ?_, fun x hx => ?_⟩, ht, ?_⟩
  · refine isDigits_iff.2 ⟨?_, fun c hc => hdigits c (List.mem_of_mem_take hc)⟩
    rw [ne_eq, List.take_eq_nil_iff, not_or]
    exact ⟨Nat.one_ne_zero, Nat.toDigits_ne_nil⟩
  · exact hdigits c (List.mem_of_mem_drop (Projection.trimZeros_subset _ hc))
  · obtain rfl := Option.some.inj hx
    exact hds
  · rw [Numeral.value, Projection.value_trimZeros, value_take_drop, hlength, Nat.ofDigitChars_ten_toDigits,
      Option.elim_some, zpow_sub₀ (by norm_num)]
    norm_num
    ring

/-- A number that is not negative is printed as a numeral for its six digits. -/
theorem exists_prints (hq : 0 ≤ q) : ∃ n, Prints (showFloat q) n (significant 6 q) := by
  rcases hq.eq_or_lt with rfl | hpos
  · refine ⟨⟨['0'], [], none⟩, ⟨by decide, by simp, by simp⟩, by decide, ?_⟩
    simp [Numeral.value, DecimalText.value, Nat.ofDigitChars, significant]
  obtain ⟨k, hk, hlength⟩ := Projection.exists_digits hpos
  have hs : significant 6 q = k * 10 ^ (Int.log 10 (significant 6 q) - 5) := (div_eq_iff (by positivity)).1 hk
  by_cases hplain : Projection.Plainly q
  · obtain ⟨a, b, hspells⟩ := Projection.exists_spells hplain
    refine ⟨⟨a, b, none⟩, ⟨isDigits_iff.2 ⟨hspells.ne_nil, hspells.before⟩, hspells.behind, by simp⟩, ?_, ?_⟩
    · rw [hspells.text, numeralText]
      simp
    · rw [Numeral.value, hspells.value]
      simp
  have hshow : showFloat q =
      if Int.log 10 (significant 6 q) < -4 then
        String.ofList ((Nat.toDigits 10 k).take 1 ++ Query.fraction ((Nat.toDigits 10 k).drop 1)) ++ "e-" ++
          (if -Int.log 10 (significant 6 q) < 10 then "0" else "") ++ toString (-Int.log 10 (significant 6 q)).toNat
      else
        String.ofList ((Nat.toDigits 10 k).take 1 ++ Query.fraction ((Nat.toDigits 10 k).drop 1)) ++ "e+" ++
          (if Int.log 10 (significant 6 q) < 10 then "0" else "") ++ toString (Int.log 10 (significant 6 q)).toNat := by
    unfold showFloat
    simp only [if_neg hpos.ne', hk, Rat.num_natCast, Int.toNat_natCast, Nat.toString_eq_repr, Nat.toList_repr]
    split
    · rfl
    · next hlow =>
      have hhigh : ¬ Int.log 10 (significant 6 q) < 6 := fun hhigh => hplain ⟨hpos, not_lt.1 hlow, hhigh⟩
      rw [if_neg (by omega), if_neg hhigh]
  have hrange : Int.log 10 (significant 6 q) < -4 ∨ 6 ≤ Int.log 10 (significant 6 q) := by
    by_contra hno
    exact hplain ⟨hpos, by omega, by omega⟩
  rw [hshow]
  generalize Int.log 10 (significant 6 q) = e at hs hrange
  split
  · obtain ⟨ds, hds, hvalue, htext⟩ := exists_exponent (-e < 10) (-e).toNat
    have hprints := prints_scientific hlength .minus hds
      (t := String.ofList ((Nat.toDigits 10 k).take 1 ++ Query.fraction ((Nat.toDigits 10 k).drop 1)) ++ "e-" ++
        (if -e < 10 then "0" else "") ++ toString (-e).toNat) (by
        rw [String.append_assoc, String.toList_append, htext]
        simp [signChar])
    have hexponent : Sign.apply .minus 0 (Nat.ofDigitChars 10 ds 0 : ℤ) - 5 = e - 5 := by
      rw [hvalue, Sign.apply]
      omega
    rw [hexponent, ← hs] at hprints
    exact ⟨_, hprints⟩
  · obtain ⟨ds, hds, hvalue, htext⟩ := exists_exponent (e < 10) e.toNat
    have hprints := prints_scientific hlength .plus hds
      (t := String.ofList ((Nat.toDigits 10 k).take 1 ++ Query.fraction ((Nat.toDigits 10 k).drop 1)) ++ "e+" ++
        (if e < 10 then "0" else "") ++ toString e.toNat) (by
        rw [String.append_assoc, String.toList_append, htext]
        simp [signChar])
    have hexponent : Sign.apply .plus 0 (Nat.ofDigitChars 10 ds 0 : ℤ) - 5 = e - 5 := by
      rw [hvalue, Sign.apply]
      omega
    rw [hexponent, ← hs] at hprints
    exact ⟨_, hprints⟩

/-- A `real` is compared with the number that is read from the numeral. -/
theorem compare_datum (times : Times) (r : Relation) (a : ℚ) (n : Numeral) :
    r.compare times (.real a) n.datum = some (r.holds a (toDouble n.value)) := by
  unfold Numeral.datum
  split
  · next h =>
    have hvalue : n.value = (Nat.ofDigitChars 10 n.whole 0 : ℤ) := by
      simp [Numeral.value, h.1, h.2, DecimalText.value, Nat.ofDigitChars]
    rw [hvalue]
    rfl
  · rfl

end Printed

end Wdb.Query
