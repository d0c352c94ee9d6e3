import Wdb.Lib.Regex
import Wdb.Store.Read
import Wdb.Write.ParameterType

/-! `LevelSpecification`: how the text of a level is read.

    The text goes through a regular expression; the numbers are read as `float`, printed into the query
    with six digits, and compared there as double precision numbers. -/

namespace Wdb.Read
open SqlTypes Store Write Perl

/-! ### The text -/

/-- `\d*\.?\d+`. -/
def number : Regex := seqs [.star Char.isDigit, opt (.char (· = '.')), plus Char.isDigit]

/-- `TO\s+(\d*\.?\d+)`. -/
def toNumber : Regex := seqs [word "TO", plus isSpace, .group 5 number]

/-- `((exact|below|above|inside|any)\s+)?(\d*\.?\d+)\s+(TO\s+(\d*\.?\d+))?\s*(.*)`, in either case. -/
def levelRe : Regex := seqs
  [opt (.group 1 (.seq (.group 2 (alts (["exact", "below", "above", "inside", "any"].map word)))
      (plus isSpace))),
    .group 3 number, plus isSpace, opt (.group 4 toNumber), .star isSpace,
    .group 6 (.star fun _ => true)]

/-- The value of a run of digits. -/
def digits (s : List Char) : ℕ := s.foldl (fun n c => 10 * n + (c.toNat - '0'.toNat)) 0

/-- The decimal number of a text `\d*\.?\d+`. -/
def decimal (s : List Char) : ℚ :=
  let fraction := (s.dropWhile Char.isDigit).drop 1
  digits (s.takeWhile Char.isDigit) + digits fraction / 10 ^ fraction.length

/-- `lexical_cast<float>`: a number that is too large is no `float`, one that is too small is 0. -/
def lexicalFloat (q : ℚ) : Option ℚ := if |q| < 1 then some ((toReal q).getD 0) else toReal q

/-- The number that a query compares with, when a `float` is printed into it. -/
def printed (q : ℚ) : ℚ := toDouble (significant 6 q)

/-- The indeterminate codes by their names. -/
def levelCode (indeterminate_ : String) : Option LevelCode :=
  [("exact", LevelCode.exact), ("inside", .inside), ("below", .below), ("above", .above),
    ("any", .any)].lookup indeterminate_

deriving instance DecidableEq for Level

/-- `LevelSpecification(spec)`; `none` is the `logic_error`. -/
def levelSpecification (spec : String) : Option Level := do
  let m ← regexMatch levelRe spec.toList
  let indeterminate_ := lower (String.ofList (m.group 2))
  let from_ ← lexicalFloat (decimal (m.group 3))
  let to_ ← if (m.group 5).isEmpty then some from_ else lexicalFloat (decimal (m.group 5))
  let code ← levelCode (if indeterminate_ = "" then "exact" else indeterminate_)
  return ⟨code, printed from_, printed to_, lower (String.ofList (m.group 6))⟩

example : (levelSpecification "inside 2 TO 10.5 height above ground").map (fun l =>
    (l.indeterminate, l.levelFrom, l.levelTo, l.parameter)) =
      some (.inside, 2, 21 / 2, "height above ground") := by
  decide +kernel

/-! ### A number and a parameter -/

section Plain
variable {ds l : List Char}

theorem toLower_of_isDigit {d : Char} (hd : d.isDigit = true) : d.toLower = d := by
  refine Char.toLower_eq_of_not_isUpper fun hupper => ?_
  simp only [Char.isDigit, Char.isUpper, Bool.and_eq_true, decide_eq_true_eq] at hd hupper
  exact absurd (UInt32.le_trans hupper.1 hd.2) (by decide)

/-- No code starts with a digit. -/
theorem codes_results {d : Char} (hd : d.isDigit = true) (t : List Char) :
    (Regex.group 1 (.seq (.group 2 (alts (["exact", "below", "above", "inside", "any"].map word)))
      (plus isSpace))).results (d :: t) = [] := by
  have hword : ∀ {w : String} {c : Char} {v : List Char}, w.toList = c :: v →
      c.toLower.isDigit = false → (word w).results (d :: t) = [] := by
    intro w c v hw hc
    refine results_word hw (fun h => ?_) t
    rw [← h, toLower_of_isDigit hd, hd] at hc
    cases hc
  simp only [List.map_cons, List.map_nil, alts, Regex.results]
  rw [hword (c := 'e') rfl rfl, hword (c := 'b') rfl rfl, hword (w := "above") (c := 'a') rfl rfl,
    hword (c := 'i') rfl rfl, hword (w := "any") (c := 'a') rfl rfl]
  rfl

/-- A run of digits before a blank is taken as a whole: the last one is left for `\d+`. -/
theorem first_number (hds : ∀ d ∈ ds, d.isDigit = true) (hne : ds ≠ []) (t : List Char) :
    number.first (ds ++ ' ' :: t) = some ⟨[], ' ' :: t⟩ := by
  obtain ⟨s, d, rfl⟩ := (List.eq_nil_or_concat ds).resolve_left hne
  have hd : d.isDigit = true := hds d (by simp)
  obtain ⟨ts, hts⟩ := greedy_append (s := s) (t := ' ' :: t) (fun e he => hds e (by simp [he])) hd rfl
  have hnone : (seqs [opt (.char (· = '.')), plus Char.isDigit]).results (' ' :: t) = [] := by
    simp [seqs, opt, plus, Regex.results]
  have hdot : (Regex.char (· = '.')).results (d :: ' ' :: t) = [] := by
    rw [Regex.results, if_neg]
    intro hdot
    rw [of_decide_eq_true hdot] at hd
    exact absurd hd (by decide)
  have hlast : (seqs [plus Char.isDigit]).first (d :: ' ' :: t) = some ⟨[], ' ' :: t⟩ :=
    first_seqs_cons (Regex.first_plus hd _) (first_seqs_nil _)
  have hone : (seqs [opt (.char (· = '.')), plus Char.isDigit]).first (d :: ' ' :: t) =
      some ⟨[], ' ' :: t⟩ :=
    first_seqs_cons (Regex.first_opt_of_nil hdot) hlast
  obtain ⟨xs, hxs⟩ := List.head?_eq_some_iff.1 hone
  rw [List.concat_append, number, seqs, List.foldr_cons, Regex.first, Regex.results, Regex.results, hts]
  rw [List.map_cons, List.map_cons, List.flatMap_cons, List.flatMap_cons]
  change (List.map _ ((seqs _).results _) ++ (List.map _ ((seqs _).results _) ++ _)).head? = _
  rw [hnone, hxs]
  rfl

/-- A level given by a number and a name is at that number and of that name, in lower case, unless the
    name starts with white space or with a second number. -/
theorem levelSpecification_number (hds : ∀ d ∈ ds, d.isDigit = true) (hne : ds ≠ [])
    (hspace : l.dropWhile isSpace = l) (hto : toNumber.results l = []) :
    levelSpecification (String.ofList (ds ++ ' ' :: l)) =
      (lexicalFloat (decimal ds)).map fun from_ =>
        ⟨.exact, printed from_, printed from_, lower (String.ofList l)⟩ := by
  have hcodes : (opt (Regex.group 1 (.seq (.group 2 (alts (["exact", "below", "above", "inside",
      "any"].map word))) (plus isSpace)))).first (ds ++ ' ' :: l) = some ⟨[], ds ++ ' ' :: l⟩ := by
    obtain ⟨d, s, rfl⟩ := List.exists_cons_of_ne_nil hne
    exact Regex.first_opt_of_nil (codes_results (hds d List.mem_cons_self) _)
  have hnumber : (Regex.group 3 number).first (ds ++ ' ' :: l) = some ⟨[(3, ds)], ' ' :: l⟩ := by
    rw [Regex.first_group (first_number hds hne l)]
    simp
  have hblank : (plus isSpace).first (' ' :: l) = some ⟨[], l⟩ := by
    rw [Regex.first_plus rfl, hspace]
  have hall : (Regex.group 6 (.star fun _ => true)).first l = some ⟨[(6, l)], []⟩ := by
    have hdrop : l.dropWhile (fun _ => true) = [] := List.dropWhile_eq_nil_iff.2 fun _ _ => rfl
    rw [Regex.first_group (Regex.first_star _ _), hdrop]
    simp
  have hspaces : (Regex.star isSpace).first l = some ⟨[], l⟩ := by rw [Regex.first_star, hspace]
  have hto4 : (Regex.group 4 toNumber).results l = [] := by rw [Regex.results, hto]; rfl
  have hmatch : regexMatch levelRe (ds ++ ' ' :: l) = some ⟨[(6, l), (3, ds)], []⟩ :=
    regexMatch_of_first (first_seqs_cons hcodes (first_seqs_cons hnumber (first_seqs_cons hblank
      (first_seqs_cons (Regex.first_opt_of_nil hto4) (first_seqs_cons
        hspaces (first_seqs_cons hall (first_seqs_nil _))))))) rfl
  unfold levelSpecification
  rw [String.toList_ofList, hmatch]
  have hcode : levelCode (if lower (String.ofList []) = "" then "exact" else lower (String.ofList [])) =
      some .exact := by decide
  have h2 : (Result.mk [(6, l), (3, ds)] []).group 2 = [] := rfl
  have h5 : (Result.mk [(6, l), (3, ds)] []).group 5 = [] := rfl
  have h3 : (Result.mk [(6, l), (3, ds)] []).group 3 = ds := rfl
  have h6 : (Result.mk [(6, l), (3, ds)] []).group 6 = l := rfl
  simp only [Option.bind_eq_bind, Option.bind_some, h2, h3, h5, h6, hcode]
  cases lexicalFloat (decimal ds) with
  | none => rfl
  | some from_ => rfl

end Plain

end Wdb.Read

namespace Wdb.Store

/-- The levels of a row are those that a specification asks for. -/
def Level.covers (lvl : Level) (levelfrom levelto : ℚ) : Bool :=
  match lvl.indeterminate with
  | .exact => levelfrom = lvl.levelFrom ∧ levelto = lvl.levelTo
  | .inside => levelfrom ≥ lvl.levelFrom ∧ levelto ≤ lvl.levelTo
  | .below => levelfrom < lvl.levelFrom
  | .above => levelto > lvl.levelTo
  | .any => true

open SqlTypes

/-- A pattern that is like a name raises for no name. -/
theorem comparable_of_nameLike {name pattern : String} (h : nameLike name pattern = true) (s : String) :
    comparable s pattern = true := by
  obtain ⟨p, hp, -⟩ := like_eq_true_iff.1 (of_decide_eq_true h)
  rw [comparable, like_of_tokens hp, Option.isSome_some]

theorem addLevelQuery_value {β : Type} (lvl : Level) : addLevelQuery (β := β) (.value lvl) =
    some fun w => if comparable w.names.lp.parametername lvl.parameter then
      some (nameLike w.names.lp.parametername lvl.parameter && lvl.covers w.levelfrom w.levelto) else none := by
  unfold addLevelQuery Level.covers
  rfl

end Wdb.Store
