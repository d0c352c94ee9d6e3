import Wdb.Query.Builder
import Wdb.Read.Specifications

/-! How the times and the level of a call are read, and how numbers are printed into a query.

    The words of a specification may be in either case. The level is kept in lower case; the keyword of a
    time is kept as it is written. -/

namespace Wdb.Query
open SqlText SqlTypes Perl Wdb.Write Wdb.Read

/-! ### Times -/

structure TimeSpecification where
  indeterminate_ : String
  from_ : String
  other_ : String
  durationInsteadOfTo_ : Bool
  deriving DecidableEq

def timeCodes : List String := ["exact", "before", "after", "inside", "contains"]

/-- `-?\w.*?\w`. -/
def timeFrom : Regex := seqs [opt (.char (· = '-')), .char isWord, .lazyStar fun _ => true, .char isWord]

/-- `-?\w.*\w`. -/
def timeOther : Regex := seqs [opt (.char (· = '-')), .char isWord, .star fun _ => true, .char isWord]

/-- `(exact|before|after|inside|contains)?\s*(-?\w.*?\w)(\s+(TO|FOR)\s+(-?\w.*\w))?`, in either case. -/
def timeRe : Regex := seqs
  [opt (.group 1 (alts (timeCodes.map word))), .star isSpace, .group 2 timeFrom,
    opt (.group 3 (seqs [plus isSpace, .group 4 (alts (["TO", "FOR"].map word)), plus isSpace,
      .group 5 timeOther]))]

namespace TimeSpecification

/-- `TimeSpecification(spec)`. -/
def parse (spec : String) : Except Failure TimeSpecification :=
  match regexMatch timeRe spec.toList with
  | none => .error (.raised "Invalid time specification")
  | some m =>
    let indeterminate_ := String.ofList (m.group 1)
    let from_ := String.ofList (m.group 2)
    let other_ := String.ofList (m.group 5)
    let rangeQualifier := String.ofList (m.group 4)
    let read (durationInsteadOfTo_ : Bool) : TimeSpecification :=
      { indeterminate_ := if indeterminate_ = "" then "exact" else indeterminate_
        from_
        other_ := if other_ = "" then from_ else other_
        durationInsteadOfTo_ }
    if rangeQualifier = "FOR" then .ok (read true)
    else if rangeQualifier = "TO" || rangeQualifier = "" then .ok (read false)
    else .error (.raised ("Invalid time range qualifier: " ++ rangeQualifier))

def to_ (ts : TimeSpecification) : String := if ts.durationInsteadOfTo_ then "" else ts.other_

def interval (ts : TimeSpecification) : String := if ts.durationInsteadOfTo_ then ts.other_ else ""

/-- The keyword is one of the codes, in whatever case. -/
theorem parse_indeterminate {spec : String} {ts : TimeSpecification} (h : parse spec = .ok ts) :
    ts.indeterminate_.toList.map Char.toLower ∈ timeCodes.map String.toList := by
  have hcodes : timeCodes.map (fun w => w.toList.map Char.toLower) = timeCodes.map String.toList := by
    decide
  have hholds : timeRe.Holds 1 (fun g => g.map Char.toLower ∈ timeCodes.map String.toList) := by
    refine ⟨⟨⟨fun _ t x hx => hcodes ▸ taken_words (by decide) hx, ?_⟩, trivial⟩, ?_⟩
    · simp [timeCodes, alts, word, Regex.Holds]
    · simp [seqs, plus, opt, timeFrom, timeOther, alts, word, Regex.Holds]
  unfold parse at h
  cases hm : regexMatch timeRe spec.toList with
  | none => simp [hm] at h
  | some m =>
    have hkeyword : (if String.ofList (m.group 1) = "" then "exact" else String.ofList (m.group 1)).toList.map
        Char.toLower ∈ timeCodes.map String.toList := by
      split
      · decide
      · next hne =>
        rw [String.toList_ofList]
        refine (group_of_holds hholds hm).resolve_left fun hnil => hne ?_
        rw [hnil, String.ofList_nil]
    simp only [hm] at h
    by_cases hfor : String.ofList (m.group 4) = "FOR"
    · rw [if_pos hfor] at h
      obtain rfl := Except.ok.inj h
      exact hkeyword
    · rw [if_neg hfor] at h
      by_cases hto : (String.ofList (m.group 4) = "TO" || String.ofList (m.group 4) = "") = true
      · rw [if_pos hto] at h
        obtain rfl := Except.ok.inj h
        exact hkeyword
      · rw [if_neg hto] at h
        cases h

example : parse "Inside 2010-01-01 06:00 TO 2010-01-02" =
    .ok ⟨"Inside", "2010-01-01 06:00", "2010-01-02", false⟩ := by
  decide +kernel

end TimeSpecification

/-! ### Levels -/

structure LevelSpecification where
  indeterminate_ : String
  from_ : ℚ
  to_ : ℚ
  parameter_ : String
  deriving DecidableEq

/-- `LevelSpecification(spec)`. -/
def LevelSpecification.parse (spec : String) : Except Failure LevelSpecification :=
  match regexMatch levelRe spec.toList with
  | none => .error (.raised ("Invalid level specification: " ++ spec))
  | some m =>
    let indeterminate_ := lower (String.ofList (m.group 2))
    let numbers := (lexicalFloat (decimal (m.group 3))).bind fun from_ =>
      (if (m.group 5).isEmpty then some from_ else lexicalFloat (decimal (m.group 5))).map fun to_ =>
        (from_, to_)
    match numbers with
    | none => .error (.raised ("Unable to interpret level specification: " ++ spec))
    | some (from_, to_) =>
      .ok ⟨if indeterminate_ = "" then "exact" else indeterminate_, from_, to_,
        lower (String.ofList (m.group 6))⟩

def levelCodes : List String := ["exact", "below", "above", "inside", "any"]

section Level
variable {spec : String} {lvl : LevelSpecification}

/-- What a level is read from. -/
theorem LevelSpecification.parse_match (h : LevelSpecification.parse spec = .ok lvl) :
    ∃ m from_ to_, regexMatch levelRe spec.toList = some m ∧
      lexicalFloat (decimal (m.group 3)) = some from_ ∧
      (if (m.group 5).isEmpty then some from_ else lexicalFloat (decimal (m.group 5))) = some to_ ∧
      lvl = ⟨if lower (String.ofList (m.group 2)) = "" then "exact" else lower (String.ofList (m.group 2)),
        from_, to_, lower (String.ofList (m.group 6))⟩ := by
  unfold LevelSpecification.parse at h
  cases hm : regexMatch levelRe spec.toList with
  | none => simp [hm] at h
  | some m =>
    simp only [hm] at h
    split at h
    · cases h
    · next from_ to_ hnumbers =>
      obtain ⟨a, ha, hrest⟩ := Option.bind_eq_some_iff.1 hnumbers
      obtain ⟨b, hb, hab⟩ := Option.map_eq_some_iff.1 hrest
      obtain ⟨rfl, rfl⟩ := Prod.mk.inj hab
      exact ⟨m, a, b, rfl, ha, hb, (Except.ok.inj h).symm⟩

/-- The keyword is one of the codes. -/
theorem LevelSpecification.parse_indeterminate (h : LevelSpecification.parse spec = .ok lvl) :
    lvl.indeterminate_ ∈ levelCodes := by
  obtain ⟨m, from_, to_, hm, _, _, rfl⟩ := LevelSpecification.parse_match h
  have hcodes : ∀ g : List Char, g.map Char.toLower ∈ levelCodes.map (fun w => w.toList.map Char.toLower) →
      lower (String.ofList g) ∈ levelCodes := by
    intro g hg
    rw [lower, String.toList_ofList]
    have hof := List.mem_map_of_mem (f := String.ofList) hg
    have hlist : (levelCodes.map fun w => w.toList.map Char.toLower).map String.ofList = levelCodes := by
      decide
    rwa [hlist] at hof
  have hholds : levelRe.Holds 2
      (fun g => g.map Char.toLower ∈ levelCodes.map fun w => w.toList.map Char.toLower) := by
    refine ⟨⟨⟨by simp, ⟨fun _ t x hx => taken_words (by decide) hx, ?_⟩, ?_⟩, trivial⟩, ?_⟩
    · simp [alts, word, Regex.Holds]
    · simp [plus, Regex.Holds]
    · simp [seqs, plus, opt, number, toNumber, word, Regex.Holds]
  show (if _ then _ else _) ∈ levelCodes
  split
  · decide
  · next hne =>
    refine hcodes _ ((group_of_holds hholds hm).resolve_left fun hnil => hne ?_)
    rw [hnil]
    rfl

/-- The numbers of a query are those of the level. -/
theorem levelSpecification_parse (h : LevelSpecification.parse spec = .ok lvl) :
    levelSpecification spec = (levelCode lvl.indeterminate_).map fun code =>
      ⟨code, printed lvl.from_, printed lvl.to_, lvl.parameter_⟩ := by
  obtain ⟨m, from_, to_, hm, hfrom, hto, rfl⟩ := LevelSpecification.parse_match h
  simp only [levelSpecification, hm, hfrom, bind, Option.bind_some]
  cases hone : (m.group 5).isEmpty with
  | true =>
    rw [hone, if_pos rfl] at hto
    obtain rfl := Option.some.inj hto
    cases levelCode _ <;> rfl
  | false =>
    rw [hone, if_neg Bool.false_ne_true] at hto
    rw [if_neg Bool.false_ne_true, hto]
    cases levelCode _ <;> rfl

end Level

/-! ### Numbers -/

/-- The digits of a number, the last zeros left out. -/
def trimZeros (ds : List Char) : List Char := (ds.reverse.dropWhile (· = '0')).reverse

/-- The digits after the point, and the point. -/
def fraction (ds : List Char) : List Char := if trimZeros ds = [] then [] else '.' :: trimZeros ds

/-- `operator<<` with six digits, for a `float` that is not negative. -/
def showFloat (q : ℚ) : String :=
  if q = 0 then "0"
  else
    let e := Int.log 10 (significant 6 q)
    let ds := (toString (significant 6 q / 10 ^ (e - 5)).num.toNat).toList
    if e < -4 then
      String.ofList (ds.take 1 ++ fraction (ds.drop 1)) ++ "e-" ++
        (if -e < 10 then "0" else "") ++ toString (-e).toNat
    else if e < 0 then
      String.ofList ('0' :: '.' :: (List.replicate (-e - 1).toNat '0' ++ trimZeros ds))
    else if e < 6 then
      String.ofList (ds.take (e.toNat + 1) ++ fraction (ds.drop (e.toNat + 1)))
    else
      String.ofList (ds.take 1 ++ fraction (ds.drop 1)) ++ "e+" ++
        (if e < 10 then "0" else "") ++ toString e.toNat

/-- A character of a number, dashes apart. -/
def Numeric (c : Char) : Prop := c.isDigit ∨ c ∈ ['.', 'e', '+']

theorem Numeric.ne {c : Char} (h : Numeric c) : (c ≠ '\'' ∧ c ≠ '-') ∧ c ≠ '(' ∧ c ≠ ')' := by
  rcases h with h | h
  · refine ⟨⟨?_, ?_⟩, ?_, ?_⟩ <;>
    · rintro rfl
      exact absurd h (by decide)
  · simp only [List.mem_cons, List.not_mem_nil, or_false] at h
    rcases h with rfl | rfl | rfl <;> decide

theorem plain_of_numeric {cs : List Char} (h : ∀ c ∈ cs, Numeric c) : plain cs := by
  induction cs with
  | nil => rfl
  | cons c cs ih =>
    have hc := (h c List.mem_cons_self).ne.1
    simp [plain, hc.1, hc.2, ih fun d hd => h d (List.mem_cons_of_mem c hd)]

theorem spans_numeric {s : String} (h : ∀ c ∈ s.toList, Numeric c) (d : ℕ) :
    Spans (d + 1) (code s) (d + 1) :=
  spans_plain (plain_of_numeric h) fun c hc => (h c hc).ne.2

/-- A number with a dash in it. -/
theorem spans_dash {s t : String} (hs : ∀ c ∈ s.toList, Numeric c) (ht : ∀ c ∈ t.toList, Numeric c)
    (hne : t.toList ≠ []) (d : ℕ) : Spans (d + 1) (code (s ++ "-" ++ t)) (d + 1) := by
  have hlist : (s ++ "-" ++ t).toList = s.toList ++ '-' :: t.toList := by simp
  obtain ⟨c, cs, hcs⟩ := List.exists_cons_of_ne_nil hne
  refine spans_plain ?_ fun x hx => ?_
  · rw [hlist]
    refine plain_append (plain_of_numeric hs) ?_
    have hc := (ht c (hcs ▸ List.mem_cons_self)).ne.1
    have hplain := plain_of_numeric ht
    rw [hcs] at hplain ⊢
    simp [plain, hc.2] at hplain ⊢
    exact hplain
  · rw [hlist] at hx
    rcases List.mem_append.1 hx with hx | hx
    · exact (hs x hx).ne.2
    · rcases List.mem_cons.1 hx with rfl | hx
      · decide
      · exact (ht x hx).ne.2

theorem numeric_toString (n : ℕ) : ∀ c ∈ (toString n).toList, Numeric c := by
  intro c hc
  rw [Nat.toString_eq_repr, Nat.toList_repr] at hc
  exact Or.inl (Nat.isDigit_of_mem_toDigits (by decide) (by decide) hc)

theorem toString_ne_nil (n : ℕ) : (toString n).toList ≠ [] := by
  simp

theorem spans_nat (n d : ℕ) : Spans (d + 1) (code (toString n)) (d + 1) :=
  spans_numeric (numeric_toString n) d

theorem spans_int (n : ℤ) (d : ℕ) : Spans (d + 1) (code (toString n)) (d + 1) := by
  cases n with
  | ofNat n => exact spans_nat n d
  | negSucc n => exact spans_dash (s := "") (by simp) (numeric_toString (n + 1)) (toString_ne_nil _) d

theorem numeric_trimZeros {ds : List Char} (h : ∀ c ∈ ds, Numeric c) : ∀ c ∈ trimZeros ds, Numeric c := by
  intro c hc
  rw [trimZeros, List.mem_reverse] at hc
  exact h c (List.mem_reverse.1 ((List.dropWhile_suffix _).subset hc))

theorem numeric_fraction {ds : List Char} (h : ∀ c ∈ ds, Numeric c) :
    ∀ c ∈ fraction ds, Numeric c := by
  intro c hc
  rw [fraction] at hc
  split at hc
  · cases hc
  · rcases List.mem_cons.1 hc with rfl | hc
    · exact Or.inr (by decide)
    · exact numeric_trimZeros h c hc

/-- Printed numbers have no brackets. -/
theorem spans_showFloat (q : ℚ) (d : ℕ) : Spans (d + 1) (code (showFloat q)) (d + 1) := by
  unfold showFloat
  split
  · exact spans_numeric (by simp [Numeric]) d
  generalize Int.log 10 (significant 6 q) = e
  simp only
  generalize hds : (toString (significant 6 q / 10 ^ (e - 5)).num.toNat).toList = ds
  have hnumeric : ∀ c ∈ ds, Numeric c := hds ▸ numeric_toString _
  have htake : ∀ k, ∀ c ∈ ds.take k ++ fraction (ds.drop k), Numeric c := by
    intro k c hc
    rcases List.mem_append.1 hc with hc | hc
    · exact hnumeric c (List.mem_of_mem_take hc)
    · exact numeric_fraction (fun x hx => hnumeric x (List.mem_of_mem_drop hx)) c hc
  have hexponent : ∀ (b : Prop) [Decidable b] (n : ℕ), ∀ c ∈ ((if b then "0" else "") ++ toString n).toList,
      Numeric c := by
    intro b _ n c hc
    rcases List.mem_append.1 (String.toList_append ▸ hc) with hc | hc
    · split at hc
      · exact Or.inl (List.mem_singleton.1 hc ▸ by decide)
      · cases hc
    · exact numeric_toString n c hc
  split
  · have hsplit : ∀ x y z : String, x ++ "e-" ++ y ++ z = (x ++ "e") ++ "-" ++ (y ++ z) := by
      intro x y z
      rw [show "e-" = "e" ++ "-" from rfl]
      simp only [String.append_assoc]
    rw [hsplit]
    refine spans_dash (fun c hc => ?_) (hexponent _ _) (by simp) d
    rw [String.toList_append, String.toList_ofList] at hc
    rcases List.mem_append.1 hc with hc | hc
    · exact htake 1 c hc
    · exact Or.inr (List.mem_singleton.1 hc ▸ by decide)
  split
  · refine spans_numeric (fun c hc => ?_) d
    rw [String.toList_ofList] at hc
    rcases List.mem_cons.1 hc with rfl | hc
    · exact Or.inl (by decide)
    rcases List.mem_cons.1 hc with rfl | hc
    · exact Or.inr (by decide)
    rcases List.mem_append.1 hc with hc | hc
    · exact Or.inl ((List.mem_replicate.1 hc).2 ▸ by decide)
    · exact numeric_trimZeros hnumeric c hc
  split
  · refine spans_numeric (fun c hc => ?_) d
    rw [String.toList_ofList] at hc
    exact htake _ c hc
  · refine spans_numeric (fun c hc => ?_) d
    rw [String.append_assoc, String.toList_append, String.toList_append, String.toList_ofList] at hc
    rcases List.mem_append.1 hc with hc | hc
    · rcases List.mem_append.1 hc with hc | hc
      · exact htake 1 c hc
      · exact Or.inr (List.mem_cons_of_mem '.' hc)
    · exact hexponent _ _ c hc

example : (showFloat 2, showFloat (41 / 4), showFloat (1 / 1024), showFloat 1013250) =
    ("2", "10.25", "0.000976562", "1.01325e+06") := by
  decide +kernel

end Wdb.Query
