import Wdb.Lib.SignificantDigits
import Wdb.Read.Specifications

/-! Which rows the clause of a level selects.

    The levels of a row are `real`. A number in a specification is read as a `float` and printed into the
    clause with six digits; the clause compares with the double precision number that is read from these. -/

namespace Wdb.Read
open SqlTypes Store Write Perl

/-! ### The text -/

/-- `\d*\.?\d+`. -/
def Numeral (s : List Char) : Prop :=
  (s ≠ [] ∧ ∀ d ∈ s, d.isDigit) ∨
    ∃ u v, s = u ++ '.' :: v ∧ v ≠ [] ∧ (∀ d ∈ u, d.isDigit) ∧ ∀ d ∈ v, d.isDigit

/-- The codes that compare with the bounds. -/
def comparing : List (String × LevelCode) :=
  [("exact", .exact), ("below", .below), ("above", .above), ("inside", .inside)]

/-- `code a TO b p`. -/
def rangeText (code a b p : String) : String := code ++ " " ++ a ++ " TO " ++ b ++ " " ++ p

section Text
variable {a b s t p : List Char} {code : String} {c : LevelCode}

theorem dropWhile_digits (hs : ∀ d ∈ s, d.isDigit) {d : Char} (hd : d.isDigit = false) (t : List Char) :
    (s ++ d :: t).dropWhile Char.isDigit = d :: t := by
  rw [List.dropWhile_append_of_pos hs, List.dropWhile_cons, if_neg (by simp [hd])]

/-- A numeral before a blank is taken as a whole. -/
theorem Numeral.first (h : Numeral s) (t : List Char) : number.first (s ++ ' ' :: t) = some ⟨[], ' ' :: t⟩ := by
  rcases h with ⟨hne, hs⟩ | ⟨u, v, rfl, hne, hu, hv⟩
  · exact first_number hs hne t
  obtain ⟨d, v, rfl⟩ := List.exists_cons_of_ne_nil hne
  have htext : u ++ '.' :: (d :: v) ++ ' ' :: t = u ++ '.' :: (d :: (v ++ ' ' :: t)) := by simp
  have hdot : (opt (.char (· = '.'))).first ('.' :: (d :: (v ++ ' ' :: t))) =
      some ⟨[], d :: (v ++ ' ' :: t)⟩ := Regex.first_alt (by simp [Regex.first, Regex.results])
  have hdigits := Regex.first_plus (hv d List.mem_cons_self) (v ++ ' ' :: t)
  rw [dropWhile_digits (fun e he => hv e (List.mem_cons_of_mem d he)) (by decide)] at hdigits
  have hinteger := Regex.first_star Char.isDigit (u ++ '.' :: (d :: (v ++ ' ' :: t)))
  rw [dropWhile_digits hu (by decide)] at hinteger
  rw [htext, number]
  exact first_seqs_cons hinteger (first_seqs_cons hdot (first_seqs_cons hdigits (first_seqs_nil _)))

/-- No white space is in front of a numeral. -/
theorem Numeral.dropWhile (h : Numeral s) (t : List Char) : (s ++ t).dropWhile isSpace = s ++ t := by
  rcases h with ⟨hne, hs⟩ | ⟨u, v, rfl, hne, hu, hv⟩
  · obtain ⟨d, s, rfl⟩ := List.exists_cons_of_ne_nil hne
    simp [isSpace_of_isDigit (hs d List.mem_cons_self)]
  · cases u with
    | nil => simp [isSpace]
    | cons d u => simp [isSpace_of_isDigit (hu d List.mem_cons_self)]

/-- The code is taken with the blank after it. -/
theorem first_code (hc : (code, c) ∈ comparing) (ha : Numeral a) (t : List Char) :
    (opt (.group 1 (.seq (.group 2 (alts (["exact", "below", "above", "inside", "any"].map word)))
      (plus isSpace)))).first (code.toList ++ ' ' :: (a ++ t)) =
        some ⟨[(1, code.toList ++ [' ']), (2, code.toList)], a ++ t⟩ := by
  have hwords : (alts (["exact", "below", "above", "inside", "any"].map word)).first
      (code.toList ++ ' ' :: (a ++ t)) = some ⟨[], ' ' :: (a ++ t)⟩ := by
    simp only [comparing, List.mem_cons, Prod.mk.injEq, List.not_mem_nil, or_false] at hc
    rcases hc with ⟨rfl, -⟩ | ⟨rfl, -⟩ | ⟨rfl, -⟩ | ⟨rfl, -⟩
    · exact first_words [] ["below", "above", "inside", "any"] (by decide) (by decide) rfl _
    · exact first_words ["exact"] ["above", "inside", "any"] (by decide) (by decide) rfl _
    · exact first_words ["exact", "below"] ["inside", "any"] (by decide) (by decide) rfl _
    · exact first_words ["exact", "below", "above"] ["any"] (by decide) (by decide) rfl _
  have hblank : (plus isSpace).first (' ' :: (a ++ t)) = some ⟨[], a ++ t⟩ := by
    rw [Regex.first_plus rfl, ha.dropWhile]
  have htext : code.toList ++ ' ' :: (a ++ t) = (code.toList ++ [' ']) ++ (a ++ t) := by simp
  have hcode := Regex.first_seq (Regex.first_group_append (n := 2) hwords) hblank
  rw [htext] at hcode ⊢
  exact Regex.first_alt (Regex.first_group_append hcode)

/-- `TO` and the second numeral are taken. -/
theorem first_toNumber (hb : Numeral b) (p : List Char) :
    (opt (.group 4 toNumber)).first ("TO".toList ++ ' ' :: (b ++ ' ' :: p)) =
      some ⟨[(4, "TO".toList ++ ' ' :: b), (5, b)], ' ' :: p⟩ := by
  have hword : (word "TO").first ("TO".toList ++ ' ' :: (b ++ ' ' :: p)) = some ⟨[], ' ' :: (b ++ ' ' :: p)⟩ := by
    rw [Regex.first, results_word_append rfl]
    rfl
  have hblank : (plus isSpace).first (' ' :: (b ++ ' ' :: p)) = some ⟨[], b ++ ' ' :: p⟩ := by
    rw [Regex.first_plus rfl, hb.dropWhile]
  have hnumber : toNumber.first ("TO".toList ++ ' ' :: (b ++ ' ' :: p)) = some ⟨[(5, b)], ' ' :: p⟩ :=
    first_seqs_cons hword (first_seqs_cons hblank
      (first_seqs_cons (Regex.first_group_append (hb.first p)) (first_seqs_nil _)))
  have htext : "TO".toList ++ ' ' :: (b ++ ' ' :: p) = ("TO".toList ++ ' ' :: b) ++ ' ' :: p := by simp
  rw [htext] at hnumber ⊢
  exact Regex.first_alt (Regex.first_group_append hnumber)

/-- The level of two numerals and a name. -/
theorem levelSpecification_range {a b p : String} (hc : (code, c) ∈ comparing) (ha : Numeral a.toList)
    (hb : Numeral b.toList) : levelSpecification (rangeText code a b p) =
      (lexicalFloat (decimal a.toList)).bind fun from_ => (lexicalFloat (decimal b.toList)).map fun to_ =>
        ⟨c, printed from_, printed to_, lower (String.ofList (p.toList.dropWhile isSpace))⟩ := by
  have htext : (rangeText code a b p).toList = code.toList ++ ' ' :: (a.toList ++ ' ' ::
      ("TO".toList ++ ' ' :: (b.toList ++ ' ' :: p.toList))) := by
    simp [rangeText]
  have hnumber := Regex.first_group_append (n := 3)
    (ha.first ("TO".toList ++ ' ' :: (b.toList ++ ' ' :: p.toList)))
  have hblank : (plus isSpace).first (' ' :: ("TO".toList ++ ' ' :: (b.toList ++ ' ' :: p.toList))) =
      some ⟨[], "TO".toList ++ ' ' :: (b.toList ++ ' ' :: p.toList)⟩ := Regex.first_plus rfl _
  have hspaces : (Regex.star isSpace).first (' ' :: p.toList) = some ⟨[], p.toList.dropWhile isSpace⟩ :=
    Regex.first_star isSpace _
  have hall : (Regex.group 6 (.star fun _ => true)).first (p.toList.dropWhile isSpace) =
      some ⟨[(6, p.toList.dropWhile isSpace)], []⟩ := by
    have hdrop : (p.toList.dropWhile isSpace).dropWhile (fun _ => true) = [] :=
      List.dropWhile_eq_nil_iff.2 fun _ _ => rfl
    rw [Regex.first_group (Regex.first_star _ _), hdrop]
    simp
  have hmatch : regexMatch levelRe (rangeText code a b p).toList = some ⟨[(6, p.toList.dropWhile isSpace),
      (4, "TO".toList ++ ' ' :: b.toList), (5, b.toList), (3, a.toList), (1, code.toList ++ [' ']),
      (2, code.toList)], []⟩ := by
    rw [htext]
    exact regexMatch_of_first (first_seqs_cons (first_code hc ha _) (first_seqs_cons hnumber
      (first_seqs_cons hblank (first_seqs_cons (first_toNumber hb _) (first_seqs_cons hspaces
        (first_seqs_cons hall (first_seqs_nil _))))))) rfl
  have hcode : levelCode (if lower code = "" then "exact" else lower code) = some c := by
    simp only [comparing, List.mem_cons, Prod.mk.injEq, List.not_mem_nil, or_false] at hc
    rcases hc with ⟨rfl, rfl⟩ | ⟨rfl, rfl⟩ | ⟨rfl, rfl⟩ | ⟨rfl, rfl⟩ <;> decide
  have hne : b.toList.isEmpty = false := by
    rcases hb with ⟨hne, -⟩ | ⟨u, v, hb, -⟩
    · simpa using hne
    · simp [hb]
  generalize hm : (Result.mk [(6, p.toList.dropWhile isSpace), (4, "TO".toList ++ ' ' :: b.toList),
    (5, b.toList), (3, a.toList), (1, code.toList ++ [' ']), (2, code.toList)] []) = m at hmatch
  have h2 : m.group 2 = code.toList := by rw [← hm]; rfl
  have h3 : m.group 3 = a.toList := by rw [← hm]; rfl
  have h5 : m.group 5 = b.toList := by rw [← hm]; rfl
  have h6 : m.group 6 = p.toList.dropWhile isSpace := by rw [← hm]; rfl
  unfold levelSpecification
  rw [hmatch]
  simp only [Option.bind_eq_bind, Option.bind_some, h2, h3, h5, h6, String.ofList_toList, hcode, hne,
    Bool.false_eq_true, if_false]
  cases lexicalFloat (decimal a.toList) with
  | none => rfl
  | some from_ => cases lexicalFloat (decimal b.toList) <;> rfl

end Text

/-! ### The rows -/

/-- A `real`. -/
def IsReal (q : ℚ) : Prop := toReal q = some q

/-- A row meets the clause that is built for a text. -/
def Selects {β : Type} (spec : String) (w : ValueV β) : Prop :=
  ∃ clause, addLevelQuery ((levelSpecification spec).elim .invalid .value) = some clause ∧ clause w = some true

/-- The clauses for two numerals select a row by the single precision values of these. -/
structure SelectsRow {β : Type} (a b p : String) (from_ to_ : ℚ) (w : ValueV β) : Prop where
  exact : Selects (rangeText "exact" a b p) w ↔ w.levelfrom = from_ ∧ w.levelto = to_
  inside : Selects (rangeText "inside" a b p) w ↔ from_ ≤ w.levelfrom ∧ w.levelto ≤ to_
  below : Selects (rangeText "below" a b p) w ↔ w.levelfrom < from_
  above : Selects (rangeText "above" a b p) w ↔ to_ < w.levelto

/-- The clauses for two numerals select by their single precision values every row of the parameter. -/
def SelectsLevels (β : Type) (a b : String) : Prop :=
  ∀ from_ to_, lexicalFloat (decimal a.toList) = some from_ → lexicalFloat (decimal b.toList) = some to_ →
    ∀ (p : String) (w : ValueV β), IsReal w.levelfrom → IsReal w.levelto →
      nameLike w.names.lp.parametername (String.ofList (p.toList.dropWhile isSpace)) →
        SelectsRow a b p from_ to_ w

/-- The single precision value of a numeral is the double precision number of at most six digits. -/
def SixDigits (s : String) : Prop :=
  ∃ q, lexicalFloat (decimal s.toList) = some q ∧ ∃ d, SignificantDigits 6 d ∧ toDouble d = q

section Rows
variable {β : Type} {a b p code : String} {c : LevelCode} {from_ to_ : ℚ} {w : ValueV β}

theorem decimal_nonneg (s : List Char) : 0 ≤ decimal s := by
  unfold decimal
  positivity

/-- What is read as `float` is a `real`, and is no less than 0. -/
theorem of_lexicalFloat {q r : ℚ} (hq : 0 ≤ q) (h : lexicalFloat q = some r) :
    IsReal r ∧ (r = 0 ∨ 2 ^ (-149 : ℤ) ≤ r) := by
  have hreal : toReal q = some r ∨ r = 0 := by
    unfold lexicalFloat at h
    split at h
    · obtain rfl := Option.some.inj h
      cases hr : toReal q with
      | none => exact Or.inr rfl
      | some r => exact Or.inl rfl
    · exact Or.inl h
  rcases hreal with hreal | rfl
  · refine ⟨toReal_idem hreal, ?_⟩
    rcases hq.eq_or_lt with rfl | hpos
    · exact Or.inl (Option.some.inj hreal).symm
    · exact Or.inr (le_of_toReal hpos hreal)
  · exact ⟨rfl, Or.inl rfl⟩

/-- The number that a query compares with is the single precision value when six digits are enough. -/
theorem printed_iff {q : ℚ} (h : lexicalFloat (decimal a.toList) = some q) : printed q = q ↔ SixDigits a := by
  obtain ⟨-, hle⟩ := of_lexicalFloat (decimal_nonneg _) h
  have hpow : (2 : ℚ) ^ (-1022 : ℤ) < 2 ^ (-149 : ℤ) := zpow_lt_zpow_right₀ (by norm_num) (by norm_num)
  have hkept := toDouble_significant_iff (n := 6) (by norm_num) (by norm_num)
    (hle.imp_right fun hle => hpow.trans_le hle)
  rw [printed, hkept, SixDigits]
  constructor
  · exact fun hd => ⟨q, h, hd⟩
  · rintro ⟨r, hr, hd⟩
    rwa [Option.some.inj (h.symm.trans hr)]

/-- What the clause of a code selects. -/
theorem selects_iff (hc : (code, c) ∈ comparing) (ha : Numeral a.toList) (hb : Numeral b.toList)
    (hfrom : lexicalFloat (decimal a.toList) = some from_) (hto : lexicalFloat (decimal b.toList) = some to_)
    (hp : nameLike w.names.lp.parametername (String.ofList (p.toList.dropWhile isSpace))) :
    Selects (rangeText code a b p) w ↔
      (Level.mk c (printed from_) (printed to_) "").covers w.levelfrom w.levelto := by
  have hclause : addLevelQuery (β := β) ((levelSpecification (rangeText code a b p)).elim .invalid .value) =
      some fun w => some (nameLike w.names.lp.parametername (String.ofList (p.toList.dropWhile isSpace)) &&
        (Level.mk c (printed from_) (printed to_) "").covers w.levelfrom w.levelto) := by
    have hcomparable := comparable_of_nameLike hp
    rw [levelSpecification_range hc ha hb, hfrom, hto]
    simp only [comparable] at hcomparable
    simp only [Option.bind_some, Option.map_some, Option.elim_some, addLevelQuery_value, lower_lower, comparable,
      hcomparable, if_true, nameLike, Level.covers]
  rw [Selects, hclause]
  simp [hp]

/-- There is a row of a parameter without a name with every level. -/
theorem exists_row [Inhabited β] (levelfrom levelto : ℚ) : ∃ w : ValueV β, w.levelfrom = levelfrom ∧
    w.levelto = levelto ∧
      nameLike w.names.lp.parametername (String.ofList ("".toList.dropWhile isSpace)) := by
  have hname : nameLike "" (String.ofList ("".toList.dropWhile isSpace)) := by decide
  let series : Series := ⟨0, 0, 0, 0, 0, levelfrom, levelto, 0⟩
  let names : Names := ⟨⟨0, 0, "", 0, 0⟩, ⟨0, 0, "", .negInfinity, .infinity, "", 0⟩, ⟨0, 0, "", ""⟩, ⟨0, 0, "", ""⟩⟩
  exact ⟨⟨⟨series, 0, 0, 0⟩, default, names, 0, 0, 0, 0, 0⟩, rfl, rfl, hname⟩

/-- The clauses for two numerals select by their single precision values exactly when six digits are enough for
    both. -/
theorem selectsLevels_iff [Inhabited β] (ha : Numeral a.toList) (hb : Numeral b.toList)
    (hfrom : lexicalFloat (decimal a.toList) = some from_) (hto : lexicalFloat (decimal b.toList) = some to_) :
    SelectsLevels β a b ↔ SixDigits a ∧ SixDigits b := by
  have hexact : ("exact", LevelCode.exact) ∈ comparing := by decide
  rw [← printed_iff hfrom, ← printed_iff hto]
  constructor
  · intro h
    obtain ⟨w, hwfrom, hwto, hp⟩ := exists_row (β := β) from_ to_
    have hrealfrom := (of_lexicalFloat (decimal_nonneg _) hfrom).1
    have hrealto := (of_lexicalFloat (decimal_nonneg _) hto).1
    have hrow := h from_ to_ hfrom hto "" w (hwfrom ▸ hrealfrom) (hwto ▸ hrealto) hp
    have hselects := hrow.exact.2 ⟨hwfrom, hwto⟩
    rw [selects_iff hexact ha hb hfrom hto hp] at hselects
    simp only [Level.covers, decide_eq_true_eq, hwfrom, hwto] at hselects
    exact ⟨hselects.1.symm, hselects.2.symm⟩
  · rintro ⟨hkfrom, hkto⟩ f t hf ht p w - - hp
    obtain rfl := Option.some.inj (hfrom.symm.trans hf)
    obtain rfl := Option.some.inj (hto.symm.trans ht)
    refine ⟨?_, ?_, ?_, ?_⟩
    · rw [selects_iff hexact ha hb hfrom hto hp, hkfrom, hkto]
      simp [Level.covers]
    · rw [selects_iff (c := .inside) (by decide) ha hb hfrom hto hp, hkfrom, hkto]
      simp [Level.covers]
    · rw [selects_iff (c := .below) (by decide) ha hb hfrom hto hp, hkfrom, hkto]
      simp [Level.covers]
    · rw [selects_iff (c := .above) (by decide) ha hb hfrom hto hp, hkfrom, hkto]
      simp [Level.covers]

end Rows

theorem numeral_of_digits {s : List Char} (hne : s ≠ []) (h : s.all Char.isDigit) : Numeral s :=
  Or.inl ⟨hne, List.all_eq_true.1 h⟩

theorem selectsLevels_iff_2_10 : SelectsLevels ℤ "2" "10" := by
  have hfrom : lexicalFloat (decimal "2".toList) = some 2 := by decide +kernel
  have hto : lexicalFloat (decimal "10".toList) = some 10 := by decide +kernel
  refine (selectsLevels_iff (numeral_of_digits (by decide) (by decide))
    (numeral_of_digits (by decide) (by decide)) hfrom hto).2 ⟨⟨2, hfrom, 2, ?_, ?_⟩, ⟨10, hto, 10, ?_, ?_⟩⟩
  · exact ⟨2, 0, by decide, by norm_num⟩
  · decide +kernel
  · exact ⟨1, 1, by decide, by norm_num⟩
  · decide +kernel

/-- The number 0.1 that is read as a `float` is not the one that is read from the clause. -/
theorem not_selectsLevels_tenth : decimal "0.1".toList ≤ decimal "0.1".toList ∧ ¬ SelectsLevels ℤ "0.1" "0.1" := by
  have hfloat : lexicalFloat (decimal "0.1".toList) = some (13421773 / 134217728) := by decide +kernel
  have hnumeral : Numeral "0.1".toList :=
    Or.inr ⟨['0'], ['1'], by decide, by decide, by simp, by simp⟩
  refine ⟨le_rfl, fun h => ?_⟩
  obtain ⟨w, hwfrom, hwto, hname⟩ := exists_row (β := ℤ) (13421773 / 134217728) (13421773 / 134217728)
  have hreal := (of_lexicalFloat (decimal_nonneg _) hfloat).1
  have hrow := h _ _ hfloat hfloat "" w (by rwa [hwfrom]) (by rwa [hwto]) hname
  have hselects := hrow.exact.2 ⟨hwfrom, hwto⟩
  rw [selects_iff (c := .exact) (by decide) hnumeral hnumeral hfloat hfloat hname] at hselects
  simp only [Level.covers, decide_eq_true_eq, hwfrom, hwto] at hselects
  have hprinted : (13421773 / 134217728 : ℚ) ≠ printed (13421773 / 134217728) := by decide +kernel
  exact hprinted hselects.1

end Wdb.Read
