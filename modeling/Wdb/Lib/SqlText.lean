import Mathlib

/-! Tokens of SQL text, and text that is put together from code and values.

    The lexer is a fold of an automaton over the characters (`standard_conforming_strings` is on). It
    knows words, symbols, literals and comments to the end of the line; other forms of quoting are left
    out. A value is spliced between quotes as it is, or with its quotes doubled. Spliced values are
    read back as they are exactly when they have no quote. -/

namespace SqlText

/-- Words are looked up in several modules. -/
scoped instance lawfulBEq_chars : LawfulBEq (List Char) := inferInstance

/-! ### The lexer -/

/-- A token; digits are word characters, and an operator is a token for each of its symbols. -/
inductive Token where
  | literal (value : List Char)
  | word (name : List Char)
  | symbol (c : Char)
  deriving DecidableEq

/-- Where the lexer is: `quote` is a literal that is over unless another quote follows. -/
inductive Mode where
  | code
  | word (name : List Char)
  | dash
  | literal (value : List Char)
  | quote (value : List Char)
  | comment
  deriving DecidableEq

def isWord (c : Char) : Bool := c.isAlphanum || c = '_'

/-- The first character of a token, or a blank. -/
def start (c : Char) : List Token × Mode :=
  if c = '\'' then ([], .literal [])
  else if c = '-' then ([], .dash)
  else if isWord c then ([], .word [c])
  else if c.isWhitespace then ([], .code)
  else ([.symbol c], .code)

/-- The token that ends with the text; a literal must not. -/
def Mode.flush : Mode → Option (List Token)
  | .code => some []
  | .word w => some [.word w]
  | .dash => some [.symbol '-']
  | .literal _ => none
  | .quote v => some [.literal v]
  | .comment => some []

/-- One character. -/
def step : Mode → Char → List Token × Mode
  | .code, c => start c
  | .word w, c =>
    if isWord c then ([], .word (w ++ [c])) else (.word w :: (start c).1, (start c).2)
  | .dash, c => if c = '-' then ([], .comment) else (.symbol '-' :: (start c).1, (start c).2)
  | .literal v, c => if c = '\'' then ([], .quote v) else ([], .literal (v ++ [c]))
  | .quote v, c =>
    if c = '\'' then ([], .literal (v ++ [c])) else (.literal v :: (start c).1, (start c).2)
  | .comment, c => ([], if c = '\n' then .code else .comment)

/-- The tokens of a piece of text, and where it leaves the lexer. -/
def scan : Mode → List Char → List Token × Mode
  | m, [] => ([], m)
  | m, c :: cs => ((step m c).1 ++ (scan (step m c).2 cs).1, (scan (step m c).2 cs).2)

/-- The tokens of a text; `none` when a literal is left open. -/
def tokens (m : Mode) (cs : List Char) : Option (List Token) :=
  (scan m cs).2.flush.map ((scan m cs).1 ++ ·)

@[simp] theorem scan_nil {m : Mode} : scan m [] = ([], m) := rfl

theorem scan_append (m : Mode) (a b : List Char) :
    scan m (a ++ b) = ((scan m a).1 ++ (scan (scan m a).2 b).1, (scan (scan m a).2 b).2) := by
  induction a generalizing m with
  | nil => simp
  | cons c a ih => simp [scan, ih]

theorem tokens_append (m : Mode) (a b : List Char) :
    tokens m (a ++ b) = (tokens (scan m a).2 b).map ((scan m a).1 ++ ·) := by
  simp [tokens, scan_append, Function.comp_def]

theorem tokens_cons (m : Mode) (c : Char) (cs : List Char) :
    tokens m (c :: cs) = (tokens (step m c).2 cs).map ((step m c).1 ++ ·) := by
  simp [tokens, scan, Function.comp_def]

/-! ### Literals -/

/-- A value with its quotes doubled. -/
def escape (v : List Char) : List Char := v.flatMap fun c => if c = '\'' then ['\'', '\''] else [c]

@[simp] theorem escape_nil : escape [] = [] := rfl

theorem escape_quote (v : List Char) : escape ('\'' :: v) = '\'' :: '\'' :: escape v := rfl

theorem escape_cons {c : Char} (hc : c ≠ '\'') (v : List Char) : escape (c :: v) = c :: escape v := by
  simp [escape, hc]

/-- A value without quotes is as it stands. -/
theorem escape_eq_self {v : List Char} (h : '\'' ∉ v) : escape v = v := by
  induction v with
  | nil => rfl
  | cons c v ih =>
    simp only [List.mem_cons, not_or] at h
    rw [escape_cons (Ne.symm h.1), ih h.2]

/-- A literal reads an escaped value. -/
theorem scan_escape (u v : List Char) : scan (.literal u) (escape v) = ([], .literal (u ++ v)) := by
  induction v generalizing u with
  | nil => simp
  | cons c v ih =>
    by_cases hc : c = '\''
    · rw [hc, escape_quote]
      simp [scan, step, ih]
    · rw [escape_cons hc]
      simp [scan, step, hc, ih]

/-- The first token of a literal that is read to its end is the value before the closing quote. -/
theorem tokens_literal {u cs : List Char} {ts : List Token} (h : tokens (.literal u) cs = some ts) :
    ∃ w cs', cs = escape w ++ '\'' :: cs' ∧ cs'.head? ≠ some '\'' ∧
      ∃ ts', ts = .literal (u ++ w) :: ts' := by
  induction hn : cs.length using Nat.strong_induction_on generalizing u cs ts with
  | _ n ih =>
    cases cs with
    | nil => simp [tokens, Mode.flush] at h
    | cons c cs =>
      rw [tokens_cons] at h
      by_cases hc : c = '\''
      · subst hc
        simp only [step, ite_true, List.nil_append, Option.map_id'] at h
        cases cs with
        | nil =>
          refine ⟨[], [], rfl, by simp, [], ?_⟩
          simpa [tokens, Mode.flush, eq_comm] using h
        | cons d cs =>
          rw [tokens_cons] at h
          by_cases hd : d = '\''
          · -- a doubled quote
            subst hd
            simp only [step, ite_true, List.nil_append, Option.map_id'] at h
            obtain ⟨w, cs', rfl, hcs', ts', rfl⟩ := ih cs.length (by simp at hn; omega) h rfl
            exact ⟨'\'' :: w, cs', rfl, hcs', ts', by simp⟩
          · simp only [step, if_neg hd, Option.map_eq_some_iff] at h
            obtain ⟨ts', -, rfl⟩ := h
            exact ⟨[], d :: cs, rfl, by simpa using hd, (start d).1 ++ ts', by simp⟩
      · simp only [step, if_neg hc, List.nil_append, Option.map_id'] at h
        obtain ⟨w, cs', rfl, hcs', ts', rfl⟩ := ih cs.length (by simp at hn; omega) h rfl
        exact ⟨c :: w, cs', by rw [escape_cons hc]; rfl, hcs', ts', by simp⟩

/-- Quotes before a value would have to come from behind it. -/
theorem ne_replicate_escape {rest cs : List Char} (hrest : rest.head? ≠ some '\'') (v : List Char)
    (k : ℕ) : v ++ '\'' :: rest ≠ List.replicate (k + 1) '\'' ++ (escape v ++ '\'' :: cs) := by
  induction v generalizing k with
  | nil =>
    intro h
    rw [List.replicate_succ, escape_nil, List.nil_append, List.nil_append, List.cons_append] at h
    have hrest' := (List.cons.inj h).2
    cases k with
    | zero => simp [hrest'] at hrest
    | succ k => simp [hrest', List.replicate_succ] at hrest
  | cons c v ih =>
    intro h
    rw [List.replicate_succ, List.cons_append, List.cons_append] at h
    obtain ⟨rfl, h⟩ := List.cons.inj h
    refine ih (k + 1) (h.trans ?_)
    rw [escape_quote, List.replicate_succ', List.replicate_succ']
    simp

/-- A value that is spliced as it is, and read back, has no quote. -/
theorem not_mem_of_escape {v rest cs : List Char} (hrest : rest.head? ≠ some '\'')
    (h : v ++ '\'' :: rest = escape v ++ '\'' :: cs) : '\'' ∉ v := by
  induction v with
  | nil => simp
  | cons c v ih =>
    by_cases hc : c = '\''
    · subst hc
      rw [escape_quote, List.cons_append, List.cons_append] at h
      exact absurd (List.cons.inj h).2 (ne_replicate_escape hrest v 0)
    · rw [escape_cons hc, List.cons_append, List.cons_append] at h
      exact List.not_mem_cons_of_ne_of_not_mem (Ne.symm hc) (ih (List.cons.inj h).2)

/-! ### Text that is put together -/

/-- A part of a text: code, or a value between quotes, as it is or with its quotes doubled. -/
inductive Part where
  | code (text : String)
  | spliced (value : String)
  | quoted (value : String)
  deriving DecidableEq

/-- The text itself. -/
def render : List Part → List Char
  | [] => []
  | .code s :: ps => s.toList ++ render ps
  | .spliced v :: ps => '\'' :: (v.toList ++ '\'' :: render ps)
  | .quoted v :: ps => '\'' :: (escape v.toList ++ '\'' :: render ps)

/-- The tokens that are meant: those of the code, and a literal for each value. -/
def intended : Mode → List Part → Option (List Token)
  | m, [] => m.flush
  | m, .code s :: ps => (intended (scan m s.toList).2 ps).map ((scan m s.toList).1 ++ ·)
  | m, .spliced v :: ps => m.flush.bind fun ts => (intended (.quote v.toList) ps).map (ts ++ ·)
  | m, .quoted v :: ps => m.flush.bind fun ts => (intended (.quote v.toList) ps).map (ts ++ ·)

/-- The lexer is outside of literals and comments, and not after a dash. -/
def Mode.Between : Mode → Prop
  | .code => True
  | .word _ => True
  | _ => False

/-- Values stand where the lexer is between tokens, and code opens no literal. -/
def Fits : Mode → List Part → Prop
  | _, [] => True
  | m, .code s :: ps => '\'' ∉ s.toList ∧ Fits (scan m s.toList).2 ps
  | m, .spliced v :: ps => m.Between ∧ Fits (.quote v.toList) ps
  | m, .quoted v :: ps => m.Between ∧ Fits (.quote v.toList) ps

theorem tokens_quote {m : Mode} (hm : m.Between) (cs : List Char) :
    ∃ ts, m.flush = some ts ∧ tokens m ('\'' :: cs) = (tokens (.literal []) cs).map (ts ++ ·) := by
  rw [tokens_cons]
  cases m with
  | code => exact ⟨[], rfl, by simp [step, start]⟩
  | word w => exact ⟨[.word w], rfl, by simp [step, start, isWord]⟩
  | _ => exact absurd hm id

/-- An escaped value between quotes is a literal of it. -/
theorem tokens_quoted {m : Mode} (hm : m.Between) (v cs : List Char) :
    tokens m ('\'' :: (escape v ++ '\'' :: cs)) =
      m.flush.bind fun ts => (tokens (.quote v) cs).map (ts ++ ·) := by
  obtain ⟨ts, hts, h⟩ := tokens_quote hm (escape v ++ '\'' :: cs)
  rw [h, hts, tokens_append, scan_escape, tokens_cons]
  simp [step]

/-- After a value there is no quote. -/
theorem head_render {v : List Char} {ps : List Part} (h : Fits (.quote v) ps) :
    (render ps).head? ≠ some '\'' := by
  induction ps with
  | nil => simp [render]
  | cons p ps ih =>
    cases p with
    | code s =>
      cases hs : s.toList with
      | nil =>
        simp only [Fits, hs] at h
        simpa [render, hs] using ih h.2
      | cons c cs =>
        simp only [Fits, hs, List.mem_cons, not_or] at h
        simpa [render, hs] using Ne.symm h.1.1
    | spliced => exact absurd h.1 id
    | quoted => exact absurd h.1 id

/-- The literal of a value is the first token that is meant after it. -/
theorem intended_quote {v : List Char} {ps : List Part} (h : Fits (.quote v) ps) :
    ∀ ts, intended (.quote v) ps = some ts → ∃ ts', ts = .literal v :: ts' := by
  induction ps with
  | nil =>
    intro ts hts
    exact ⟨[], Option.some_inj.1 hts.symm⟩
  | cons p ps ih =>
    intro ts hts
    cases p with
    | code s =>
      cases hs : s.toList with
      | nil =>
        simp only [Fits, intended, hs, scan_nil] at h hts
        exact ih h.2 ts (by simpa using hts)
      | cons c cs =>
        simp only [Fits, hs, List.mem_cons, not_or] at h
        simp only [intended, hs, scan, step, if_neg (Ne.symm h.1.1), Option.map_eq_some_iff] at hts
        obtain ⟨ts', -, rfl⟩ := hts
        exact ⟨_, rfl⟩
    | spliced => exact absurd h.1 id
    | quoted => exact absurd h.1 id

/-- Code opens no literal. -/
theorem scan_flush {m : Mode} {cs : List Char} (h : '\'' ∉ cs) (hm : m.flush.isSome) :
    (scan m cs).2.flush.isSome := by
  induction cs generalizing m with
  | nil => exact hm
  | cons c cs ih =>
    simp only [List.mem_cons, not_or] at h
    refine ih h.2 ?_
    have hstart : (start c).2.flush.isSome := by
      unfold start
      rw [if_neg (Ne.symm h.1)]
      split_ifs <;> rfl
    cases m with
    | code => exact hstart
    | word w => simp only [step]; split_ifs <;> trivial
    | dash => simp only [step]; split_ifs <;> trivial
    | literal v => cases hm
    | quote v => simpa [step, Ne.symm h.1] using hstart
    | comment => simp only [step]; split_ifs <;> rfl

/-- What is meant is read to its end. -/
theorem intended_isSome {m : Mode} {ps : List Part} (h : Fits m ps) (hm : m.flush.isSome) :
    (intended m ps).isSome := by
  obtain ⟨ts, hts⟩ := Option.isSome_iff_exists.1 hm
  induction ps generalizing m ts with
  | nil => exact hm
  | cons p ps ih =>
    cases p with
    | code s =>
      obtain ⟨us, hus⟩ := Option.isSome_iff_exists.1 (scan_flush h.1 hm)
      simpa [intended] using ih h.2 (scan_flush h.1 hm) us hus
    | spliced v => simpa [intended, hts] using ih h.2 rfl _ rfl
    | quoted v => simpa [intended, hts] using ih h.2 rfl _ rfl

theorem map_append_inj {ts : List Token} {x y : Option (List Token)} :
    x.map (ts ++ ·) = y.map (ts ++ ·) ↔ x = y :=
  (Option.map_injective fun _ _ => List.append_cancel_left).eq_iff

/-- A text has the tokens that are meant exactly when no value that is spliced as it is has a quote. -/
theorem tokens_render_iff {m : Mode} {ps : List Part} (h : Fits m ps) (hm : m.flush.isSome) :
    tokens m (render ps) = intended m ps ↔ ∀ v, .spliced v ∈ ps → '\'' ∉ v.toList := by
  induction ps generalizing m with
  | nil => simp [render, tokens, intended]
  | cons p ps ih =>
    cases p with
    | code s =>
      rw [render, intended, tokens_append, map_append_inj, ih h.2 (scan_flush h.1 hm)]
      simp
    | quoted v =>
      obtain ⟨ts, hts⟩ := Option.isSome_iff_exists.1 hm
      rw [render, intended, tokens_quoted h.1, hts, Option.bind_some, Option.bind_some, map_append_inj,
        ih h.2 rfl]
      simp
    | spliced v =>
      by_cases hv : '\'' ∈ v.toList
      · refine iff_of_false (fun heq => ?_) fun hall => hall v List.mem_cons_self hv
        obtain ⟨ts, hts, htokens⟩ := tokens_quote h.1 (v.toList ++ '\'' :: render ps)
        rw [render, intended, htokens, hts, Option.bind_some, map_append_inj] at heq
        obtain ⟨us, hus⟩ := Option.isSome_iff_exists.1 (intended_isSome h.2 rfl)
        -- the literal that is read is not the value
        obtain ⟨us', rfl⟩ := intended_quote h.2 us hus
        obtain ⟨w, cs, hcs, -, ts', hw⟩ := tokens_literal (heq.trans hus)
        rw [List.nil_append] at hw
        obtain rfl : v.toList = w := Token.literal.inj (List.cons.inj hw).1
        exact not_mem_of_escape (head_render h.2) hcs hv
      · obtain ⟨ts, hts⟩ := Option.isSome_iff_exists.1 hm
        have htokens := tokens_quoted h.1 v.toList (render ps)
        rw [escape_eq_self hv, hts, Option.bind_some] at htokens
        rw [render, intended, htokens, hts, Option.bind_some, map_append_inj, ih h.2 rfl]
        simp [hv]

/-- The value that a spliced value denotes; `none` when it is not one literal. -/
def denoted (v : String) : Option String :=
  match tokens .code (render [.spliced v]) with
  | some [.literal w] => some (String.ofList w)
  | _ => none

/-! ### Pieces that fit anywhere -/

/-- Code without quotes and comments, that does not end after a dash. -/
def plain : List Char → Bool
  | [] => true
  | c :: cs => c ≠ '\'' && (c ≠ '-' || cs.head?.any (· ≠ '-')) && plain cs

theorem plain_append {a b : List Char} (ha : plain a) (hb : plain b) : plain (a ++ b) := by
  induction a with
  | nil => exact hb
  | cons c a ih =>
    simp only [plain, Bool.and_eq_true, Bool.or_eq_true] at ha
    simp only [List.cons_append, plain, Bool.and_eq_true, Bool.or_eq_true]
    refine ⟨⟨ha.1.1, ha.1.2.imp id fun hd => ?_⟩, ih ha.2⟩
    cases a with
    | nil => simp at hd
    | cons d a => exact hd

theorem not_mem_of_plain {cs : List Char} (h : plain cs) : '\'' ∉ cs := by
  induction cs with
  | nil => simp
  | cons c cs ih =>
    simp only [plain, Bool.and_eq_true, decide_eq_true_eq] at h
    exact List.not_mem_cons_of_ne_of_not_mem (Ne.symm h.1.1) (ih h.2)

/-- Plain code leaves the lexer between tokens. -/
theorem between_scan {m : Mode} {cs : List Char} (h : plain cs)
    (hm : m.Between ∨ (∃ v, m = .quote v) ∧ cs ≠ [] ∨ m = .dash ∧ cs.head?.any (· ≠ '-')) :
    (scan m cs).2.Between := by
  induction cs generalizing m with
  | nil => simpa using hm
  | cons c cs ih =>
    simp only [plain, Bool.and_eq_true, Bool.or_eq_true, decide_eq_true_eq] at h
    obtain ⟨⟨hquote, hdash⟩, h⟩ := h
    have hstart : (scan (start c).2 cs).2.Between := by
      refine ih h ?_
      unfold start
      rw [if_neg hquote]
      split_ifs with hd hw hs
      · exact Or.inr (Or.inr ⟨rfl, hdash.resolve_left fun hne => hne hd⟩)
      · exact Or.inl trivial
      · exact Or.inl trivial
      · exact Or.inl trivial
    rcases hm with hm | ⟨⟨v, rfl⟩, -⟩ | ⟨rfl, hne⟩
    · cases m with
      | code => exact hstart
      | word w =>
        simp only [scan, step]
        split_ifs with hw
        · exact ih h (Or.inl trivial)
        · exact hstart
      | _ => exact absurd hm id
    · simpa [scan, step, hquote] using hstart
    · have hne : c ≠ '-' := by simpa using hne
      simpa [scan, step, hne] using hstart

/-! ### The structure outside of the literals -/

/-- A token without the value of a literal. -/
def Token.blank : Token → Token
  | .literal _ => .literal []
  | t => t

/-- A part without its value. -/
def Part.blank : Part → Part
  | .code s => .code s
  | .spliced _ => .spliced ""
  | .quoted _ => .quoted ""

end SqlText
