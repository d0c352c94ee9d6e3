import Mathlib
import Wdb.Lib.SqlText

/-! SQL text that is put together by a program, with what its users supply marked.

    Where two parts meet there is usually the end of a token: code that follows starts with a blank or a
    symbol, or the code before has ended its last token. The tokens of such a text are those of its
    parts. A string of a user is contained when it is between quotes and is the literal that is read
    there. -/

namespace SqlText

/-! ### Where parts meet -/

/-- A character that ends a word, and is no quote. -/
def breaks (c : Char) : Bool := !isWord c && c ≠ '\''

/-- A next part starts with a new token. -/
def Mode.meets : Mode → Part → Bool
  | .code, _ => true
  | .word _, .code s => s.toList.head?.any breaks
  | .word _, _ => true
  | .quote _, .code s => s.toList.head?.any breaks
  | .dash, .code s => s.toList.head?.any (· ≠ '-')
  | _, _ => false

/-- Where a part that starts with a new token leaves the lexer. -/
def Part.leaves : Part → Mode
  | .code s => (scan .code s.toList).2
  | .spliced v => .quote v.toList
  | .quoted v => .quote v.toList

/-- The tokens of a part on its own. -/
def Part.tokens : Part → List Token
  | .code s => (scan .code s.toList).1 ++ (scan .code s.toList).2.flush.getD []
  | .spliced v => [.literal v.toList]
  | .quoted v => [.literal v.toList]

def Part.Meets (a b : Part) : Prop := a.leaves.meets b

instance (a b : Part) : Decidable (a.Meets b) := inferInstanceAs (Decidable (_ = true))

/-- Code opens no literal. -/
def Part.Quiet : Part → Prop
  | .code s => '\'' ∉ s.toList
  | _ => True

instance : (p : Part) → Decidable p.Quiet
  | .code s => inferInstanceAs (Decidable ('\'' ∉ s.toList))
  | .spliced _ => isTrue trivial
  | .quoted _ => isTrue trivial

theorem scan_meets {m : Mode} {s : String} (h : m.meets (.code s)) :
    ∃ ts, m.flush = some ts ∧
      scan m s.toList = (ts ++ (scan .code s.toList).1, (scan .code s.toList).2) := by
  cases hcs : s.toList with
  | nil =>
    cases m with
    | code => exact ⟨[], rfl, rfl⟩
    | _ => simp [Mode.meets, hcs] at h
  | cons c cs =>
    cases m with
    | code => exact ⟨[], rfl, rfl⟩
    | word w =>
      have hc : isWord c = false ∧ c ≠ '\'' := by simpa [Mode.meets, hcs, breaks] using h
      exact ⟨[.word w], rfl, by simp [scan, step, hc.1]⟩
    | quote v =>
      have hc : isWord c = false ∧ c ≠ '\'' := by simpa [Mode.meets, hcs, breaks] using h
      exact ⟨[.literal v], rfl, by simp [scan, step, hc.2]⟩
    | dash =>
      have hc : c ≠ '-' := by simpa [Mode.meets, hcs] using h
      exact ⟨[.symbol '-'], rfl, by simp [scan, step, hc]⟩
    | _ => cases h

theorem between_of_meets {m : Mode} {p : Part} (h : m.meets p) (hp : ∀ s, p ≠ .code s) : m.Between := by
  cases p with
  | code s => exact absurd rfl (hp s)
  | spliced v => cases m <;> trivial
  | quoted v => cases m <;> trivial

/-- Parts that meet at the ends of tokens, without literals in the code. -/
structure Meeting (ps : List Part) : Prop where
  chain : ps.IsChain Part.Meets
  quiet : ∀ p ∈ ps, p.Quiet

theorem Meeting.tail {p : Part} {ps : List Part} (h : Meeting (p :: ps)) : Meeting ps :=
  ⟨h.chain.tail, fun q hq => h.quiet q (List.mem_cons_of_mem p hq)⟩

theorem Meeting.head {p : Part} {ps : List Part} (h : Meeting (p :: ps)) :
    ∀ q ∈ ps.head?, p.leaves.meets q := by
  cases ps with
  | nil => simp
  | cons q ps => simpa [Part.Meets] using (List.isChain_cons_cons.1 h.chain).1

theorem flush_leaves {p : Part} (h : p.Quiet) : p.leaves.flush.isSome := by
  cases p with
  | code s => exact scan_flush h rfl
  | spliced v => rfl
  | quoted v => rfl

/-- The tokens that are meant are those of the parts. -/
theorem intended_of_meeting {m : Mode} {ps : List Part} {ts : List Token} (h : Meeting ps)
    (hm : m.flush = some ts) (hhead : ∀ p ∈ ps.head?, m.meets p) :
    Fits m ps ∧ intended m ps = some (ts ++ ps.flatMap Part.tokens) := by
  induction ps generalizing m ts with
  | nil => exact ⟨trivial, by simp [intended, hm]⟩
  | cons p ps ih =>
    have hquiet := h.quiet p List.mem_cons_self
    obtain ⟨us, hus⟩ := Option.isSome_iff_exists.1 (flush_leaves hquiet)
    obtain ⟨hfits, htokens⟩ := ih h.tail hus h.head
    have hmeets := hhead p (by simp)
    cases p with
    | code s =>
      obtain ⟨ts', hts, hscan⟩ := scan_meets hmeets
      obtain rfl := Option.some.inj (hm.symm.trans hts)
      simp only [Part.leaves] at hfits htokens hus
      refine ⟨⟨hquiet, by rw [hscan]; exact hfits⟩, ?_⟩
      rw [intended, hscan, htokens]
      simp [Part.tokens, hus]
    | spliced v =>
      obtain rfl := Option.some.inj hus
      refine ⟨⟨between_of_meets hmeets (by simp), hfits⟩, ?_⟩
      simp only [Part.leaves] at htokens
      simp [intended, hm, htokens, Part.tokens]
    | quoted v =>
      obtain rfl := Option.some.inj hus
      refine ⟨⟨between_of_meets hmeets (by simp), hfits⟩, ?_⟩
      simp only [Part.leaves] at htokens
      simp [intended, hm, htokens, Part.tokens]

/-! ### The structure outside of the literals -/

/-- The lexer is in no literal, nor right behind one. -/
def Mode.Outside : Mode → Prop
  | .literal _ => False
  | .quote _ => False
  | _ => True

theorem start_outside {c : Char} (hc : c ≠ '\'') :
    (start c).1.map Token.blank = (start c).1 ∧ (start c).2.Outside := by
  unfold start
  rw [if_neg hc]
  split_ifs <;> exact ⟨rfl, trivial⟩

theorem step_outside {m : Mode} {c : Char} (hm : m.Outside) (hc : c ≠ '\'') :
    (step m c).1.map Token.blank = (step m c).1 ∧ (step m c).2.Outside := by
  obtain ⟨hstart, houtside⟩ := start_outside hc
  cases m with
  | code => exact ⟨hstart, houtside⟩
  | word w =>
    simp only [step]
    split_ifs
    · exact ⟨rfl, trivial⟩
    · exact ⟨by simp [hstart, Token.blank], houtside⟩
  | dash =>
    simp only [step]
    split_ifs
    · exact ⟨rfl, trivial⟩
    · exact ⟨by simp [hstart, Token.blank], houtside⟩
  | comment =>
    simp only [step]
    split_ifs <;> exact ⟨rfl, trivial⟩
  | literal v => exact absurd hm id
  | quote v => exact absurd hm id

/-- Code without quotes has no literals. -/
theorem scan_outside {m : Mode} {cs : List Char} (hm : m.Outside) (h : '\'' ∉ cs) :
    (scan m cs).1.map Token.blank = (scan m cs).1 ∧ (scan m cs).2.Outside := by
  induction cs generalizing m with
  | nil => exact ⟨rfl, hm⟩
  | cons c cs ih =>
    rw [List.mem_cons, not_or] at h
    obtain ⟨hstep, houtside⟩ := step_outside hm (Ne.symm h.1)
    obtain ⟨hscan, hend⟩ := ih houtside h.2
    exact ⟨by rw [scan, List.map_append, hstep, hscan], hend⟩

/-- Without their values the parts have the same tokens, literals apart. -/
theorem tokens_blank {p : Part} (h : p.Quiet) : p.blank.tokens = p.tokens.map Token.blank := by
  cases p with
  | code s =>
    obtain ⟨hscan, houtside⟩ := scan_outside (m := .code) trivial h
    simp only [Part.blank, Part.tokens, List.map_append, hscan]
    congr 1
    generalize (scan .code s.toList).2 = m at houtside
    cases m with
    | literal v => exact absurd houtside id
    | quote v => exact absurd houtside id
    | _ => rfl
  | spliced v => rfl
  | quoted v => rfl

theorem meets_blank (m : Mode) (p : Part) : m.meets p.blank = m.meets p := by
  cases m <;> cases p <;> rfl

theorem meets_blank_iff {a b : Part} : a.blank.Meets b.blank ↔ a.Meets b := by
  unfold Part.Meets
  rw [meets_blank]
  cases a with
  | code s => rfl
  | spliced v => cases b <;> rfl
  | quoted v => cases b <;> rfl

theorem quiet_blank (p : Part) : p.blank.Quiet ↔ p.Quiet := by cases p <;> rfl

theorem meeting_blank_iff {ps : List Part} : Meeting (ps.map Part.blank) ↔ Meeting ps := by
  constructor
  · intro h
    refine ⟨List.isChain_of_isChain_map _ (fun _ _ => meets_blank_iff.1) h.chain, fun p hp => ?_⟩
    exact (quiet_blank p).1 (h.quiet _ (List.mem_map_of_mem hp))
  · intro h
    refine ⟨(List.isChain_map _).2 (h.chain.imp fun _ _ => meets_blank_iff.2), fun q hq => ?_⟩
    obtain ⟨p, hp, rfl⟩ := List.mem_map.1 hq
    exact (quiet_blank p).2 (h.quiet p hp)

/-! ### What users supply -/

/-- A piece of a text: a part, or a string of a user that stands in the code. -/
inductive Piece where
  | part (p : Part)
  | bare (value : String)
  deriving DecidableEq

abbrev Text := List Piece

def code (s : String) : Text := [.part (.code s)]

def spliced (v : String) : Text := [.part (.spliced v)]

def quoted (v : String) : Text := [.part (.quoted v)]

def bare (v : String) : Text := [.bare v]

/-- A piece as a part, whoever it is from. -/
def Piece.toPart : Piece → Part
  | .part p => p
  | .bare v => .code v

def parts (t : Text) : List Part := t.map Piece.toPart

/-- A text without the strings. -/
def skeleton (t : Text) : List Part := (parts t).map Part.blank

/-- The text itself. -/
def characters (t : Text) : List Char := render (parts t)

/-- Every string of a user is between quotes and is the literal that is read there, and the tokens
    are, literals apart, those of the text without the strings. -/
structure Contained (t : Text) : Prop where
  between : ∀ v, Piece.bare v ∉ t
  literals : tokens .code (characters t) = some ((parts t).flatMap Part.tokens)
  structure_ : (tokens .code (characters t)).map (List.map Token.blank) =
    tokens .code (render (skeleton t))

/-- A string that is spliced has no quote, and none stands in the code. -/
def Piece.Safe : Piece → Prop
  | .part (.spliced v) => '\'' ∉ v.toList
  | .part _ => True
  | .bare _ => False

/-- A string that is spliced has no quote. -/
def Piece.Unquoted : Piece → Prop
  | .part (.spliced v) => '\'' ∉ v.toList
  | _ => True

theorem code_meets (p : Part) : Mode.code.meets p := by cases p <;> rfl

theorem tokens_iff {ps : List Part} (h : Meeting ps) :
    tokens .code (render ps) = some (ps.flatMap Part.tokens) ↔ ∀ v, .spliced v ∈ ps → '\'' ∉ v.toList := by
  obtain ⟨hfits, hintended⟩ := intended_of_meeting h (m := .code) rfl fun p _ => code_meets p
  rw [← tokens_render_iff hfits rfl, hintended, List.nil_append]

theorem spliced_mem_parts {t : Text} {v : String} : .spliced v ∈ parts t ↔ .part (.spliced v) ∈ t := by
  constructor
  · intro h
    obtain ⟨x, hx, heq⟩ := List.mem_map.1 h
    cases x with
    | part p => exact heq ▸ hx
    | bare w => cases heq
  · exact fun h => List.mem_map.2 ⟨_, h, rfl⟩

theorem unquoted_iff {t : Text} :
    (∀ x ∈ t, x.Unquoted) ↔ ∀ v, .spliced v ∈ parts t → '\'' ∉ v.toList := by
  constructor
  · exact fun h v hv => h _ (spliced_mem_parts.1 hv)
  · intro h x hx
    cases x with
    | part p =>
      cases p with
      | spliced v => exact h v (spliced_mem_parts.2 hx)
      | _ => trivial
    | bare v => trivial

theorem safe_iff {x : Piece} : x.Safe ↔ x.Unquoted ∧ ∀ v, x ≠ .bare v := by
  cases x with
  | part p => cases p <;> simp [Piece.Safe, Piece.Unquoted]
  | bare v => simp [Piece.Safe]

/-- The tokens of a text are those of its parts exactly when no spliced string has a quote. -/
theorem tokens_characters_iff {t : Text} (h : Meeting (parts t)) :
    tokens .code (characters t) = some ((parts t).flatMap Part.tokens) ↔ ∀ x ∈ t, x.Unquoted := by
  rw [characters, tokens_iff h, unquoted_iff]

/-- The strings in a text are contained exactly when none of them is spliced with a quote or stands in
    the code. -/
theorem contained_iff {t : Text} (h : Meeting (parts t)) : Contained t ↔ ∀ x ∈ t, x.Safe := by
  constructor
  · intro hc x hx
    refine safe_iff.2 ⟨(tokens_characters_iff h).1 hc.literals x hx, ?_⟩
    rintro v rfl
    exact hc.between v hx
  · intro hsafe
    have htokens := (tokens_characters_iff h).2 fun x hx => (safe_iff.1 (hsafe x hx)).1
    refine ⟨fun v hv => hsafe _ hv, htokens, ?_⟩
    have hblank : tokens .code (render (skeleton t)) = some ((skeleton t).flatMap Part.tokens) := by
      refine (tokens_iff (meeting_blank_iff.2 h)).2 fun v hv => ?_
      obtain ⟨p, _, hp⟩ := List.mem_map.1 hv
      cases p with
      | spliced w =>
        obtain rfl : "" = v := Part.spliced.inj hp
        decide
      | _ => cases hp
    rw [htokens, hblank, Option.map_some, skeleton, List.flatMap_map, List.map_flatMap]
    exact congrArg some (List.flatMap_congr fun p hp => (tokens_blank (h.quiet p hp)).symm)

end SqlText
