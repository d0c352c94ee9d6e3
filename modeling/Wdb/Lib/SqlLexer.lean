import Wdb.Lib.MarkedText

/-! A lexer of SQL text that knows what may follow a literal.

    A literal goes on after a second quote, which stands for one, and after white space with a line end and
    another quote (`standard_conforming_strings` is on). Literals with a prefix and dollar quotes are left out. -/

namespace SqlLexer
open SqlText (Text escape render characters code quoted)

/-- A token; digits are word characters, and an operator is a token for each of its symbols. -/
inductive Token where
  | literal (value : List Char)
  | word (name : List Char)
  | identifier (name : List Char)
  | symbol (c : Char)
  deriving DecidableEq

/-- Where the lexer is after the closing quote of a literal that may go on. -/
inductive Gap where
  | quote
  | space (newline : Bool)
  | dash (newline : Bool)
  | comment
  deriving DecidableEq

/-- Where the lexer is. In a block comment `last` is a character that may belong to a bracket of a comment. -/
inductive Mode where
  | code
  | word (name : List Char)
  | dash
  | slash
  | comment
  | block (depth : ℕ) (last : Option Char)
  | identifier (name : List Char)
  | identifierQuote (name : List Char)
  | literal (value : List Char)
  | gap (value : List Char) (g : Gap)
  deriving DecidableEq

def isNewline (c : Char) : Bool := c = '\n' || c = '\r'

def isSpace (c : Char) : Bool := c = ' ' || c = '\t' || c = '\x0c' || isNewline c

def isWord (c : Char) : Bool := c.isAlphanum || c = '_' || c = '$' || 128 ≤ c.toNat

/-- The first character of a token, or a blank. -/
def start (c : Char) : List Token × Mode :=
  if c = '\'' then ([], .literal [])
  else if c = '"' then ([], .identifier [])
  else if c = '-' then ([], .dash)
  else if c = '/' then ([], .slash)
  else if isWord c then ([], .word [c])
  else if isSpace c then ([], .code)
  else ([.symbol c], .code)

/-- One character in a block comment. -/
def block (depth : ℕ) (last : Option Char) (c : Char) : Mode :=
  if last = some '*' ∧ c = '/' then (if depth = 0 then .code else .block (depth - 1) none)
  else if last = some '/' ∧ c = '*' then .block (depth + 1) none
  else .block depth (some c)

/-- What a character is to a literal that may go on. -/
inductive Next where
  | goesOn
  | stays (g : Gap)
  | ends

def Gap.next : Gap → Char → Next
  | .quote, c =>
    if c = '\'' then .goesOn
    else if c = '-' then .stays (.dash false)
    else if isSpace c then .stays (.space (isNewline c))
    else .ends
  | .space newline, c =>
    if c = '\'' then (if newline then .goesOn else .ends)
    else if c = '-' then .stays (.dash newline)
    else if isSpace c then .stays (.space (newline || isNewline c))
    else .ends
  | .dash _, c => if c = '-' then .stays .comment else .ends
  | .comment, c => .stays (if isNewline c then .space true else .comment)

/-- The mode when the literal is over. -/
def Gap.mode : Gap → Mode
  | .quote => .code
  | .space _ => .code
  | .dash _ => .dash
  | .comment => .comment

/-- The value so far, when the literal goes on: a second quote is part of it. -/
def Gap.value (g : Gap) (v : List Char) : List Char := if g = .quote then v ++ ['\''] else v

/-- One character outside of literals. -/
def outside : Mode → Char → List Token × Mode
  | .word w, c => if isWord c then ([], .word (w ++ [c])) else (.word w :: (start c).1, (start c).2)
  | .dash, c => if c = '-' then ([], .comment) else (.symbol '-' :: (start c).1, (start c).2)
  | .slash, c => if c = '*' then ([], .block 0 none) else (.symbol '/' :: (start c).1, (start c).2)
  | .comment, c => ([], if isNewline c then .code else .comment)
  | .block depth last, c => ([], block depth last c)
  | .identifier n, c => ([], if c = '"' then .identifierQuote n else .identifier (n ++ [c]))
  | .identifierQuote n, c =>
    if c = '"' then ([], .identifier (n ++ [c])) else (.identifier n :: (start c).1, (start c).2)
  | _, c => start c

/-- One character. -/
def step : Mode → Char → List Token × Mode
  | .literal v, c => ([], if c = '\'' then .gap v .quote else .literal (v ++ [c]))
  | .gap v g, c =>
    match g.next c with
    | .goesOn => ([], .literal (g.value v))
    | .stays g => ([], .gap v g)
    | .ends => (.literal v :: (outside g.mode c).1, (outside g.mode c).2)
  | m, c => outside m c

/-- The token that ends with the text; literals, identifiers and block comments must not. -/
def Mode.flush : Mode → Option (List Token)
  | .code => some []
  | .word w => some [.word w]
  | .dash => some [.symbol '-']
  | .slash => some [.symbol '/']
  | .comment => some []
  | .block _ _ => none
  | .identifier _ => none
  | .identifierQuote n => some [.identifier n]
  | .literal _ => none
  | .gap v g => some (.literal v :: if g.mode = .dash then [.symbol '-'] else [])

/-- The tokens of a piece of text, and where it leaves the lexer. -/
def scan : Mode → List Char → List Token × Mode
  | m, [] => ([], m)
  | m, c :: cs => ((step m c).1 ++ (scan (step m c).2 cs).1, (scan (step m c).2 cs).2)

/-- The tokens of a text; `none` when it ends too early. -/
def tokens (m : Mode) (cs : List Char) : Option (List Token) :=
  (scan m cs).2.flush.map ((scan m cs).1 ++ ·)

example : tokens .code "x LIKE 'it''s' -- a comment\n 'b' AND \"y\" = 'c' 'd'".toList =
    some [.word ['x'], .word "LIKE".toList, .literal "it'sb".toList, .word "AND".toList, .identifier ['y'],
      .symbol '=', .literal ['c'], .literal ['d']] := by
  decide +kernel

@[simp] theorem tokens_nil : tokens .code [] = some [] := rfl

theorem scan_append (m : Mode) (a b : List Char) :
    scan m (a ++ b) = ((scan m a).1 ++ (scan (scan m a).2 b).1, (scan (scan m a).2 b).2) := by
  induction a generalizing m with
  | nil => simp [scan]
  | cons c a ih => simp [scan, ih]

theorem tokens_append (m : Mode) (a b : List Char) :
    tokens m (a ++ b) = (tokens (scan m a).2 b).map ((scan m a).1 ++ ·) := by
  simp [tokens, scan_append, Function.comp_def]

theorem tokens_cons (m : Mode) (c : Char) (cs : List Char) :
    tokens m (c :: cs) = (tokens (step m c).2 cs).map ((step m c).1 ++ ·) :=
  tokens_append m [c] cs |>.trans (by simp [scan])

/-! ### What follows a literal -/

/-- A text goes on with the literal before it. -/
def goesOn : Gap → List Char → Bool
  | _, [] => false
  | g, c :: cs =>
    match g.next c with
    | .goesOn => true
    | .stays g => goesOn g cs
    | .ends => false

/-- A literal is over within a text. -/
def ends : Gap → List Char → Bool
  | _, [] => false
  | g, c :: cs =>
    match g.next c with
    | .goesOn => false
    | .stays g => ends g cs
    | .ends => true

theorem goesOn_append {g : Gap} {a : List Char} (h : ends g a) (b : List Char) : goesOn g (a ++ b) = false := by
  induction a generalizing g with
  | nil => cases h
  | cons c a ih =>
    rw [List.cons_append, goesOn]
    unfold ends at h
    cases hnext : g.next c with
    | goesOn =>
      rw [hnext] at h
      cases h
    | stays g' =>
      rw [hnext] at h
      exact ih h
    | ends => rfl

theorem start_of_isSpace {c : Char} (h : isSpace c) : start c = ([], .code) := by
  simp only [isSpace, isNewline, Bool.or_eq_true, decide_eq_true_eq] at h
  obtain ((rfl | rfl) | rfl) | rfl | rfl := h <;> decide

/-- White space and comments are no tokens. -/
theorem step_of_stays {g g' : Gap} {c : Char} (h : g.next c = .stays g') : step g.mode c = ([], g'.mode) := by
  cases g with
  | quote =>
    simp only [Gap.next] at h
    split_ifs at h with hquote hdash hspace
    · cases h
      rw [hdash]
      rfl
    · cases h
      exact start_of_isSpace hspace
  | space newline =>
    simp only [Gap.next] at h
    split_ifs at h with hquote hnewline hdash hspace
    · cases h
      rw [hdash]
      rfl
    · cases h
      exact start_of_isSpace hspace
  | dash newline =>
    simp only [Gap.next] at h
    split_ifs at h with hdash
    cases h
    rw [hdash]
    rfl
  | comment =>
    cases h
    cases hc : isNewline c <;> simp [step, outside, Gap.mode, hc]

theorem step_of_ends {v : List Char} {g : Gap} {c : Char} (h : g.next c = .ends) :
    step (.gap v g) c = (.literal v :: (step g.mode c).1, (step g.mode c).2) := by
  have hmode : step g.mode c = outside g.mode c := by cases g <;> rfl
  rw [hmode]
  simp only [step, h]

/-- What does not go on with a literal is read as it is on its own. -/
theorem tokens_gap {v : List Char} {g : Gap} {cs : List Char} (h : goesOn g cs = false) :
    tokens (.gap v g) cs = (tokens g.mode cs).map (.literal v :: ·) := by
  induction cs generalizing g with
  | nil => cases g <;> rfl
  | cons c cs ih =>
    rw [tokens_cons, tokens_cons]
    unfold goesOn at h
    cases hnext : g.next c with
    | goesOn =>
      rw [hnext] at h
      cases h
    | stays g' =>
      rw [hnext] at h
      have hstep : step (.gap v g) c = ([], .gap v g') := by simp only [step, hnext]
      rw [hstep, step_of_stays hnext]
      simpa using ih h
    | ends =>
      rw [step_of_ends hnext]
      simp [Function.comp_def]

/-! ### Escaped values -/

/-- A literal reads an escaped value. -/
theorem scan_escape (u v : List Char) : scan (.literal u) (escape v) = ([], .literal (u ++ v)) := by
  induction v generalizing u with
  | nil => simp [scan]
  | cons c v ih =>
    by_cases hc : c = '\''
    · rw [hc, SqlText.escape_quote]
      simp [scan, step, Gap.next, Gap.value, ih]
    · rw [SqlText.escape_cons hc]
      simp [scan, step, hc, ih]

/-- An escaped value between quotes, and what follows it. -/
theorem tokens_escape (v rest : List Char) :
    tokens .code ('\'' :: (escape v ++ '\'' :: rest)) = tokens (.gap v .quote) rest := by
  have hopen : step .code '\'' = ([], .literal []) := rfl
  have hclose : step (.literal v) '\'' = ([], .gap v .quote) := rfl
  rw [tokens_cons, hopen, tokens_append, scan_escape, List.nil_append, tokens_cons, hclose]
  simp

/-- An escaped value between quotes is one literal, unless the text goes on with it. -/
theorem tokens_quoted {v rest : List Char} (h : goesOn .quote rest = false) :
    tokens .code ('\'' :: (escape v ++ '\'' :: rest)) = (tokens .code rest).map (.literal v :: ·) := by
  rw [tokens_escape, tokens_gap h]
  rfl

/-! ### The structure outside of the literals -/

/-- A token without the value of a literal. -/
def Token.blank : Token → Token
  | .literal _ => .literal []
  | t => t

def Mode.blank : Mode → Mode
  | .literal _ => .literal []
  | .gap _ g => .gap [] g
  | m => m

/-- The values of the literals. -/
def literals (ts : List Token) : List (List Char) :=
  ts.filterMap fun t => match t with
    | .literal v => some v
    | _ => none

/-- Two modes that differ in the value of a literal go on alike. -/
theorem step_blank {m n : Mode} (h : m.blank = n.blank) (c : Char) :
    (step m c).1.map Token.blank = (step n c).1.map Token.blank ∧ (step m c).2.blank = (step n c).2.blank := by
  suffices hstep : ∀ m : Mode, (step m c).1.map Token.blank = (step m.blank c).1.map Token.blank ∧
      (step m c).2.blank = (step m.blank c).2.blank by
    rw [(hstep m).1, (hstep m).2, (hstep n).1, (hstep n).2, h]
    exact ⟨rfl, rfl⟩
  intro m
  cases m with
  | literal v =>
    refine ⟨rfl, ?_⟩
    simp only [step, Mode.blank]
    split_ifs <;> rfl
  | gap v g =>
    simp only [step, Mode.blank]
    split <;> exact ⟨rfl, rfl⟩
  | _ => exact ⟨rfl, rfl⟩

theorem flush_blank {m n : Mode} (h : m.blank = n.blank) :
    m.flush.map (·.map Token.blank) = n.flush.map (·.map Token.blank) := by
  suffices hflush : ∀ m : Mode, m.flush.map (·.map Token.blank) = m.blank.flush.map (·.map Token.blank) by
    rw [hflush m, hflush n, h]
  intro m
  cases m <;> rfl

/-- The tokens after a mode depend on the value of its literal in that value only. -/
theorem tokens_blank {m n : Mode} (h : m.blank = n.blank) (cs : List Char) :
    (tokens m cs).map (·.map Token.blank) = (tokens n cs).map (·.map Token.blank) := by
  induction cs generalizing m n with
  | nil => simpa [tokens, scan] using flush_blank h
  | cons c cs ih =>
    obtain ⟨htokens, hmode⟩ := step_blank h c
    have hrest := ih hmode
    rw [tokens_cons, tokens_cons, Option.map_map, Option.map_map]
    cases hm : tokens (step m c).2 cs with
    | none =>
      rw [hm] at hrest
      rw [Option.map_eq_none_iff.1 hrest.symm]
      rfl
    | some ts =>
      rw [hm] at hrest
      obtain ⟨us, hus, husts⟩ := Option.map_eq_some_iff.1 hrest.symm
      rw [hus]
      simp [htokens, husts]

/-- What goes on with a literal has another literal when it is read on its own. -/
theorem exists_of_goesOn {g : Gap} {cs : List Char} (h : goesOn g cs) (v : List Char) :
    ∃ w cs', tokens (.gap v g) cs = tokens (.literal w) cs' ∧ tokens g.mode cs = tokens (.literal []) cs' := by
  induction cs generalizing g with
  | nil => cases h
  | cons c cs ih =>
    unfold goesOn at h
    rw [tokens_cons, tokens_cons]
    cases hnext : g.next c with
    | goesOn =>
      have hquote : c = '\'' ∧ g.mode = .code := by
        cases g with
        | quote =>
          simp only [Gap.next] at hnext
          split_ifs at hnext with hquote
          exact ⟨hquote, rfl⟩
        | space newline =>
          simp only [Gap.next] at hnext
          split_ifs at hnext with hquote
          exact ⟨hquote, rfl⟩
        | dash newline =>
          simp only [Gap.next] at hnext
          split_ifs at hnext
        | comment => cases hnext
      refine ⟨g.value v, cs, ?_, ?_⟩
      · simp [step, hnext]
      · rw [hquote.1, hquote.2]
        simp [step, outside, start]
    | stays g' =>
      rw [hnext] at h
      obtain ⟨w, cs', hon, hown⟩ := ih h
      refine ⟨w, cs', ?_, ?_⟩
      · simpa [step, hnext] using hon
      · rw [step_of_stays hnext]
        simpa using hown
    | ends =>
      rw [hnext] at h
      cases h

/-- What follows a literal is read as on its own exactly when it does not go on with the literal (or cannot be
    read). -/
theorem tokens_gap_iff {v : List Char} {g : Gap} {cs : List Char} :
    tokens (.gap v g) cs = (tokens g.mode cs).map (.literal v :: ·) ↔
      (goesOn g cs → tokens g.mode cs = none) := by
  constructor
  · intro h hgoesOn
    obtain ⟨w, cs', hon, hown⟩ := exists_of_goesOn hgoesOn v
    have hblank := tokens_blank (m := .literal w) (n := .literal []) rfl cs'
    rw [← hon, h, ← hown] at hblank
    -- there would be one token more
    cases htokens : tokens g.mode cs with
    | none => rfl
    | some ts =>
      rw [htokens] at hblank
      have hlength := congrArg List.length (Option.some.inj hblank)
      simp at hlength
  · intro h
    cases hgoesOn : goesOn g cs with
    | false => exact tokens_gap hgoesOn
    | true =>
      obtain ⟨w, cs', hon, hown⟩ := exists_of_goesOn hgoesOn v
      have hblank := tokens_blank (m := .literal w) (n := .literal []) rfl cs'
      rw [← hown, h hgoesOn] at hblank
      rw [h hgoesOn, hon, Option.map_eq_none_iff.1 hblank]
      rfl

/-! ### Values in a list -/

theorem characters_append (a b : Text) : characters (a ++ b) = characters a ++ characters b := by
  induction a with
  | nil => rfl
  | cons x a ih =>
    simp only [characters, SqlText.parts, List.cons_append, List.map_cons, List.map_append] at ih ⊢
    cases x.toPart <;> simp [render, ih]

@[simp] theorem characters_code (s : String) : characters (code s) = s.toList := List.append_nil _

theorem characters_quoted (v : String) : characters (quoted v) = '\'' :: (escape v.toList ++ ['\'']) := rfl

/-- Code that leaves the lexer between tokens, and that a literal does not go on with. -/
structure Separates (s : String) : Prop where
  leaves : (scan .code s.toList).2 = .code
  ends : ends .quote s.toList

section Values
variable {first next last : String}

/-- The tokens of some values, each after the same code. -/
def valueTokens (next : String) (vs : List String) : List Token :=
  vs.flatMap fun v => (scan .code next.toList).1 ++ [.literal v.toList]

theorem tokens_code {s : String} (h : (scan .code s.toList).2 = .code) (cs : List Char) :
    tokens .code (s.toList ++ cs) = (tokens .code cs).map ((scan .code s.toList).1 ++ ·) := by
  rw [tokens_append, h]

/-- Values, each after the same code, and the code after the last of them. -/
theorem tokens_values (hnext : Separates next) (hlast : Separates last) (vs : List String) (rest : List Char) :
    goesOn .quote (characters (vs.flatMap (fun v => code next ++ quoted v) ++ code last) ++ rest) = false ∧
      tokens .code (characters (vs.flatMap (fun v => code next ++ quoted v) ++ code last) ++ rest) =
        (tokens .code rest).map (valueTokens next vs ++ (scan .code last.toList).1 ++ ·) := by
  induction vs with
  | nil =>
    simp only [List.flatMap_nil, List.nil_append, characters_code, valueTokens]
    exact ⟨goesOn_append hlast.ends _, tokens_code hlast.leaves _⟩
  | cons v vs ih =>
    obtain ⟨hends, htokens⟩ := ih
    have hsplit : characters ((v :: vs).flatMap (fun v => code next ++ quoted v) ++ code last) ++ rest =
        next.toList ++ '\'' :: (escape v.toList ++ '\'' ::
          (characters (vs.flatMap (fun v => code next ++ quoted v) ++ code last) ++ rest)) := by
      simp only [List.flatMap_cons, characters_append, characters_code, characters_quoted, List.append_assoc,
        List.cons_append, List.nil_append]
    rw [hsplit]
    refine ⟨goesOn_append hnext.ends _, ?_⟩
    rw [tokens_code hnext.leaves, tokens_quoted hends, htokens]
    simp [valueTokens, Function.comp_def]

/-- The tokens of a list of values in code. -/
def listTokens (first next last v : String) (vs : List String) : List Token :=
  (scan .code first.toList).1 ++ [.literal v.toList] ++ valueTokens next vs ++ (scan .code last.toList).1

/-- A list of values in code is read as the code and the literals of the values, whatever follows. -/
theorem tokens_list (hfirst : (scan .code first.toList).2 = .code) (hnext : Separates next)
    (hlast : Separates last) (v : String) (vs : List String) (rest : List Char) :
    tokens .code (characters (code first ++ quoted v ++ vs.flatMap (fun v => code next ++ quoted v) ++ code last) ++
      rest) = (tokens .code rest).map (listTokens first next last v vs ++ ·) := by
  obtain ⟨hends, htokens⟩ := tokens_values hnext hlast vs rest
  have hsplit : characters (code first ++ quoted v ++ vs.flatMap (fun v => code next ++ quoted v) ++ code last) ++
      rest = first.toList ++ '\'' :: (escape v.toList ++ '\'' ::
        (characters (vs.flatMap (fun v => code next ++ quoted v) ++ code last) ++ rest)) := by
    simp only [characters_append, characters_code, characters_quoted, List.append_assoc, List.cons_append,
      List.nil_append]
  rw [hsplit, tokens_code hfirst, tokens_quoted hends, htokens]
  simp [listTokens, Function.comp_def]

/-- Their structure depends on the number of the values. -/
theorem listTokens_blank (first next last v : String) (vs : List String) :
    (listTokens first next last v vs).map Token.blank =
      (listTokens first next last "" (List.replicate vs.length "")).map Token.blank := by
  have hvalues : (valueTokens next vs).map Token.blank =
      (valueTokens next (List.replicate vs.length "")).map Token.blank := by
    induction vs with
    | nil => rfl
    | cons v vs ih =>
      simp only [valueTokens, List.flatMap_cons, List.length_cons, List.replicate_succ, List.map_append] at ih ⊢
      rw [ih]
      rfl
  simp only [listTokens, List.map_append, hvalues]
  rfl

theorem literals_append (a b : List Token) : literals (a ++ b) = literals a ++ literals b := List.filterMap_append

/-- The literals are the values. -/
theorem literals_listTokens (hfirst : literals (scan .code first.toList).1 = [])
    (hnext : literals (scan .code next.toList).1 = []) (hlast : literals (scan .code last.toList).1 = [])
    (v : String) (vs : List String) :
    literals (listTokens first next last v vs) = (v :: vs).map String.toList := by
  have hvalues : literals (valueTokens next vs) = vs.map String.toList := by
    induction vs with
    | nil => rfl
    | cons v vs ih =>
      simp only [valueTokens, List.flatMap_cons, literals_append, hnext] at ih ⊢
      rw [ih]
      rfl
  simp only [listTokens, literals_append, hfirst, hvalues, hlast, List.append_nil]
  rfl

end Values

end SqlLexer
