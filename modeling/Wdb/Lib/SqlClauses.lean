import Mathlib
import Wdb.Lib.MarkedText

/-! Clauses of SQL queries.

    A query is read by the keywords outside of its brackets: each starts a clause, which lasts to the
    next one. A text has one reading at most. What is between brackets is only asked to have its own
    brackets closed. -/

namespace SqlText

/-! ### Brackets and keywords -/

/-- The words that start a clause, or another operand. -/
def keywords : List (List Char) := ["WITH", "SELECT", "FROM", "WHERE", "GROUP", "HAVING", "WINDOW", "UNION",
  "INTERSECT", "EXCEPT", "ORDER", "LIMIT", "OFFSET", "FETCH", "FOR"].map String.toList

def isKeyword (w : List Char) : Bool := w.map Char.toUpper ∈ keywords

/-- The brackets that are open after a token; `none` when there is none to close, or for a keyword outside
    of brackets. -/
def bracket (d : ℕ) : Token → Option ℕ
  | .symbol c =>
    if c = '(' then some (d + 1)
    else if c = ')' then (if d = 0 then none else some (d - 1))
    else some d
  | .word w => if d = 0 && isKeyword w then none else some d
  | .literal _ => some d

/-- The brackets that are open after several tokens. -/
def depth (d : ℕ) (ts : List Token) : Option ℕ := ts.foldlM bracket d

/-- Brackets are closed, and keywords are in brackets. -/
def Closed (ts : List Token) : Prop := depth 0 ts = some 0

instance (ts : List Token) : Decidable (Closed ts) := inferInstanceAs (Decidable (_ = _))

theorem depth_append (d : ℕ) (a b : List Token) : depth d (a ++ b) = (depth d a).bind (depth · b) :=
  List.foldlM_append

theorem Closed.append {a b : List Token} (ha : Closed a) (hb : Closed b) : Closed (a ++ b) := by
  rw [Closed, depth_append, ha]
  exact hb

theorem bracket_succ {d e : ℕ} {t : Token} (h : bracket d t = some e) : bracket (d + 1) t = some (e + 1) := by
  cases t with
  | literal v =>
    obtain rfl := Option.some.inj h
    rfl
  | word w =>
    simp only [bracket] at h
    split at h
    · cases h
    · obtain rfl := Option.some.inj h
      rfl
  | symbol c =>
    simp only [bracket, Nat.add_eq_zero_iff, one_ne_zero, and_false, if_false] at h ⊢
    split_ifs at h ⊢ with hopen hclose hzero
    · obtain rfl := Option.some.inj h
      rfl
    · obtain rfl := Option.some.inj h
      exact congrArg some (by omega)
    · obtain rfl := Option.some.inj h
      rfl

/-- Inside of brackets a text is as closed as outside. -/
theorem depth_succ {d e : ℕ} {ts : List Token} (h : depth d ts = some e) :
    depth (d + 1) ts = some (e + 1) := by
  induction ts generalizing d with
  | nil =>
    obtain rfl := Option.some.inj h
    rfl
  | cons t ts ih =>
    rw [depth, List.foldlM_cons] at h
    obtain ⟨d', hd', h⟩ := Option.bind_eq_some_iff.1 h
    rw [depth, List.foldlM_cons, bracket_succ hd']
    exact ih h

/-! ### Clauses -/

/-- The first keyword outside of brackets is where the first clause ends. -/
theorem cut {d : ℕ} {a a' rest rest' : List Token} {k k' : List Char} (ha : depth d a = some 0)
    (ha' : depth d a' = some 0) (hk : isKeyword k) (hk' : isKeyword k')
    (h : a ++ .word k :: rest = a' ++ .word k' :: rest') : a = a' ∧ k = k' ∧ rest = rest' := by
  have hstop : ∀ {k : List Char} {b : List Token}, isKeyword k → depth 0 (.word k :: b) = none := by
    intro k b hk
    simp [depth, bracket, hk]
  induction a generalizing d a' with
  | nil =>
    obtain rfl := Option.some.inj ha
    cases a' with
    | nil =>
      obtain ⟨hword, hrest⟩ := List.cons.inj h
      exact ⟨rfl, Token.word.inj hword, hrest⟩
    | cons t a' =>
      obtain ⟨rfl, _⟩ := List.cons.inj h
      rw [hstop hk] at ha'
      cases ha'
  | cons t a ih =>
    cases a' with
    | nil =>
      obtain rfl := Option.some.inj ha'
      obtain ⟨rfl, _⟩ := List.cons.inj h
      rw [hstop hk'] at ha
      cases ha
    | cons t' a' =>
      obtain ⟨rfl, htail⟩ := List.cons.inj h
      rw [depth, List.foldlM_cons] at ha ha'
      obtain ⟨e, he, ha⟩ := Option.bind_eq_some_iff.1 ha
      obtain ⟨e', he', ha'⟩ := Option.bind_eq_some_iff.1 ha'
      obtain rfl := Option.some.inj (he.symm.trans he')
      obtain ⟨rfl, hk, hrest⟩ := ih ha ha' htail
      exact ⟨rfl, hk, hrest⟩

/-- A keyword and what follows it. -/
structure Clause where
  keyword : List Char
  body : List Token
  deriving DecidableEq

def Clause.tokens (c : Clause) : List Token := .word c.keyword :: c.body

/-- A clause before `UNION`. -/
structure Clause.Proper (c : Clause) : Prop where
  keyword : isKeyword c.keyword
  ne_union : c.keyword ≠ "UNION".toList
  closed : Closed c.body

theorem clauses_injective {cs cs' : List Clause} (h : ∀ c ∈ cs, c.Proper) (h' : ∀ c ∈ cs', c.Proper)
    {rest rest' : List Token} (heq : cs.flatMap Clause.tokens ++ .word "UNION".toList :: rest =
      cs'.flatMap Clause.tokens ++ .word "UNION".toList :: rest') : cs = cs' ∧ rest = rest' := by
  have hfirst : ∀ (cs : List Clause), (∀ c ∈ cs, c.Proper) → ∀ rest, ∃ k b, isKeyword k ∧
      cs.flatMap Clause.tokens ++ .word "UNION".toList :: rest = .word k :: b := by
    intro cs h rest
    cases cs with
    | nil => exact ⟨_, rest, by decide, rfl⟩
    | cons c cs => exact ⟨_, _, (h c List.mem_cons_self).keyword, rfl⟩
  induction cs generalizing cs' with
  | nil =>
    cases cs' with
    | nil => exact ⟨rfl, (List.cons.inj heq).2⟩
    | cons c cs' =>
      have hword := Token.word.inj (List.cons.inj heq).1
      exact absurd hword.symm (h' c List.mem_cons_self).ne_union
  | cons c cs ih =>
    cases cs' with
    | nil =>
      have hword := Token.word.inj (List.cons.inj heq).1
      exact absurd hword (h c List.mem_cons_self).ne_union
    | cons c' cs' =>
      rw [List.flatMap_cons, List.flatMap_cons, List.append_assoc, List.append_assoc, Clause.tokens,
        Clause.tokens] at heq
      obtain ⟨hword, heq⟩ := List.cons.inj heq
      have htail : ∀ x ∈ cs, x.Proper := fun x hx => h x (List.mem_cons_of_mem c hx)
      have htail' : ∀ x ∈ cs', x.Proper := fun x hx => h' x (List.mem_cons_of_mem c' hx)
      obtain ⟨k, b, hk, hb⟩ := hfirst cs htail rest
      obtain ⟨k', b', hk', hb'⟩ := hfirst cs' htail' rest'
      rw [hb, hb'] at heq
      obtain ⟨hbody, rfl, rfl⟩ := cut (h c List.mem_cons_self).closed (h' c' List.mem_cons_self).closed
        hk hk' heq
      obtain ⟨rfl, hrest⟩ := ih htail htail' (hb.trans hb'.symm)
      obtain ⟨_, _⟩ := c
      obtain ⟨_, _⟩ := c'
      obtain rfl := Token.word.inj hword
      obtain rfl := hbody
      exact ⟨rfl, hrest⟩

/-! ### Queries -/

/-- The clauses of a query; all but two may be empty. -/
structure Operand where
  with_ : List Token
  what : List Token
  from_ : List Token
  where_ : List Token
  groupBy : List Token
  orderBy : List Token
  deriving DecidableEq

/-- A clause that is left out when it is empty; `words` belong to its keyword. -/
def optional (keyword : String) (words body : List Token) : List Clause :=
  if body = [] then [] else [⟨keyword.toList, words ++ body⟩]

def Operand.clauses (q : Operand) : List Clause :=
  optional "WITH" [] q.with_ ++ [⟨"SELECT".toList, q.what⟩, ⟨"FROM".toList, q.from_⟩] ++
    optional "WHERE" [] q.where_ ++ optional "GROUP" [.word "BY".toList] q.groupBy ++
    optional "ORDER" [.word "BY".toList] q.orderBy

def Operand.tokens (q : Operand) : List Token := q.clauses.flatMap Clause.tokens

/-- Something is selected, and what stands in a clause is closed. -/
structure Operand.WellFormed (q : Operand) : Prop where
  what : q.what ≠ []
  from_ : q.from_ ≠ []
  closed : ∀ c ∈ q.clauses, Closed c.body

/-- Two queries, the second one in brackets. -/
def unionAll (left right : Operand) : List Token :=
  left.tokens ++ .word "UNION".toList :: .word "ALL".toList :: .symbol '(' :: right.tokens ++ [.symbol ')']

theorem mem_optional {keyword : String} {words body : List Token} {c : Clause}
    (h : c ∈ optional keyword words body) : c.keyword = keyword.toList := by
  unfold optional at h
  split at h
  · cases h
  · rw [List.mem_singleton.1 h]

theorem Operand.WellFormed.proper {q : Operand} (h : q.WellFormed) : ∀ c ∈ q.clauses, c.Proper := by
  intro c hc
  have hkeyword : c.keyword ∈ ["WITH", "SELECT", "FROM", "WHERE", "GROUP", "ORDER"].map String.toList := by
    simp only [Operand.clauses, List.mem_append, List.mem_cons, List.not_mem_nil, or_false] at hc
    rcases hc with (((hc | rfl | rfl) | hc) | hc) | hc
    · exact mem_optional hc ▸ by decide
    · exact List.mem_map_of_mem (by decide)
    · exact List.mem_map_of_mem (by decide)
    · exact mem_optional hc ▸ by decide
    · exact mem_optional hc ▸ by decide
    · exact mem_optional hc ▸ by decide
  have hall : ∀ k ∈ ["WITH", "SELECT", "FROM", "WHERE", "GROUP", "ORDER"].map String.toList,
      isKeyword k ∧ k ≠ "UNION".toList := by decide
  exact ⟨(hall _ hkeyword).1, (hall _ hkeyword).2, h.closed c hc⟩

/-- The body of the first clause with a keyword. -/
def bodyOf (keyword : String) (cs : List Clause) : Option (List Token) :=
  (cs.find? fun c => c.keyword = keyword.toList).map Clause.body

theorem find?_optional_of_ne {keyword keyword' : String} (h : keyword.toList ≠ keyword'.toList)
    (words body : List Token) :
    (optional keyword words body).find? (fun c => c.keyword = keyword'.toList) = none := by
  rw [List.find?_eq_none]
  intro c hc
  rw [mem_optional hc]
  simpa using h

theorem bodyOf_what (q : Operand) : bodyOf "SELECT" q.clauses = some q.what := by
  have hwith : (optional "WITH" [] q.with_).find? (fun c => c.keyword = "SELECT".toList) = none :=
    find?_optional_of_ne (by decide) _ _
  rw [bodyOf, Operand.clauses]
  simp only [List.append_assoc, List.find?_append, hwith, Option.none_or]
  rfl

/-- A clause that is left out when it is empty, among clauses with other keywords. -/
theorem bodyOf_optional {keyword : String} {cs ds : List Clause} (words body : List Token)
    (hcs : ∀ c ∈ cs, c.keyword ≠ keyword.toList) (hds : ∀ c ∈ ds, c.keyword ≠ keyword.toList) :
    bodyOf keyword (cs ++ optional keyword words body ++ ds) = if body = [] then none else some (words ++ body) := by
  have hno : ∀ {cs : List Clause}, (∀ c ∈ cs, c.keyword ≠ keyword.toList) →
      cs.find? (fun c => c.keyword = keyword.toList) = none := by
    intro cs hcs
    rw [List.find?_eq_none]
    intro c hc
    simpa using hcs c hc
  rw [bodyOf, List.find?_append, List.find?_append, hno hcs, hno hds, Option.none_or, Option.or_none, optional]
  split
  · rfl
  · simp

theorem keyword_of_mem_start {q : Operand} {c : Clause} (h : c ∈ optional "WITH" [] q.with_ ++
    [⟨"SELECT".toList, q.what⟩, ⟨"FROM".toList, q.from_⟩] ++ optional "WHERE" [] q.where_) :
    c.keyword ∈ ["WITH", "SELECT", "FROM", "WHERE"].map String.toList := by
  simp only [List.mem_append, List.mem_cons, List.not_mem_nil, or_false] at h
  rcases h with (h | rfl | rfl) | h
  · exact mem_optional h ▸ by decide
  · exact List.mem_map_of_mem (by decide)
  · exact List.mem_map_of_mem (by decide)
  · exact mem_optional h ▸ by decide

theorem bodyOf_groupBy (q : Operand) :
    bodyOf "GROUP" q.clauses = if q.groupBy = [] then none else some (.word "BY".toList :: q.groupBy) := by
  refine bodyOf_optional [.word "BY".toList] q.groupBy (fun c hc => ?_) fun c hc => ?_
  · have hall : ∀ k ∈ ["WITH", "SELECT", "FROM", "WHERE"].map String.toList, k ≠ "GROUP".toList := by decide
    exact hall _ (keyword_of_mem_start hc)
  · rw [mem_optional hc]
    decide

theorem bodyOf_orderBy (q : Operand) :
    bodyOf "ORDER" q.clauses = if q.orderBy = [] then none else some (.word "BY".toList :: q.orderBy) := by
  rw [Operand.clauses, ← List.append_nil (_ ++ optional "ORDER" _ _)]
  refine bodyOf_optional [.word "BY".toList] q.orderBy (fun c hc => ?_) (by simp)
  rcases List.mem_append.1 hc with hc | hc
  · have hall : ∀ k ∈ ["WITH", "SELECT", "FROM", "WHERE"].map String.toList, k ≠ "ORDER".toList := by decide
    exact hall _ (keyword_of_mem_start hc)
  · rw [mem_optional hc]
    decide

/-- The clauses say what is selected, in which groups and in which order. -/
theorem Operand.eq_of_clauses {q q' : Operand} (h : q.clauses = q'.clauses) :
    q.what = q'.what ∧ q.groupBy = q'.groupBy ∧ q.orderBy = q'.orderBy := by
  have hbody : ∀ {b b' : List Token}, (if b = [] then none else some (Token.word "BY".toList :: b)) =
      (if b' = [] then none else some (Token.word "BY".toList :: b')) → b = b' := by
    intro b b' heq
    split_ifs at heq with hb hb'
    · rw [hb, hb']
    · exact (List.cons.inj (Option.some.inj heq)).2
  refine ⟨?_, hbody ?_, hbody ?_⟩
  · exact Option.some.inj (by rw [← bodyOf_what, ← bodyOf_what, h])
  · rw [← bodyOf_groupBy, ← bodyOf_groupBy, h]
  · rw [← bodyOf_orderBy, ← bodyOf_orderBy, h]

/-- A text is read as two queries in one way at most. -/
theorem unionAll_injective {l l' r r' : Operand} (hl : l.WellFormed) (hl' : l'.WellFormed)
    (hr : r.WellFormed) (hr' : r'.WellFormed) (h : unionAll l r = unionAll l' r') :
    l.clauses = l'.clauses ∧ r.clauses = r'.clauses := by
  rw [unionAll, unionAll, List.append_assoc, List.append_assoc] at h
  obtain ⟨hclauses, hrest⟩ := clauses_injective hl.proper hl'.proper h
  refine ⟨hclauses, ?_⟩
  have htokens : r.tokens = r'.tokens :=
    List.append_cancel_right (List.cons.inj (List.cons.inj hrest).2).2
  have hend := congrArg (· ++ [Token.word "UNION".toList]) htokens
  exact (clauses_injective hr.proper hr'.proper hend).1

/-! ### Texts that are put together -/

/-- The tokens of a text, as it is meant. -/
def meant (t : Text) : List Token := (parts t).flatMap Part.tokens

/-- The end of a text ends a token. -/
def Mode.ends : Mode → Bool
  | .code => true
  | .word _ => true
  | .quote _ => true
  | _ => false

/-- A text between tokens, from one number of open brackets to another. -/
structure Spans (d : ℕ) (t : Text) (e : ℕ) : Prop where
  meeting : Meeting (parts t)
  ends : (parts t).getLast?.all fun p => p.leaves.ends
  depth : depth d (meant t) = some e

/-- The same, where the strings of users do not matter. -/
def spans (d : ℕ) (ps : List Part) (e : ℕ) : Bool :=
  decide (ps.IsChain Part.Meets) && decide (∀ p ∈ ps, p.Quiet) &&
    (ps.getLast?.all fun p => p.leaves.ends) && depth d (ps.flatMap Part.tokens) = some e

/-- A text starts with code that ends the token before it. -/
def Begins (t : Text) : Prop := ∃ s, t.head? = some (.part (.code s)) ∧ s.toList.head?.any breaks

section Together
variable {d e f : ℕ} {a b t : Text} {s : String}

@[simp] theorem parts_append : parts (a ++ b) = parts a ++ parts b := List.map_append
@[simp] theorem parts_code : parts (code s) = [.code s] := rfl
@[simp] theorem parts_spliced : parts (spliced s) = [.spliced s] := rfl
@[simp] theorem parts_quoted : parts (quoted s) = [.quoted s] := rfl
@[simp] theorem parts_bare : parts (bare s) = [.code s] := rfl

@[simp] theorem skeleton_append : skeleton (a ++ b) = skeleton a ++ skeleton b := by simp [skeleton]
@[simp] theorem skeleton_code : skeleton (code s) = [.code s] := rfl
@[simp] theorem skeleton_spliced : skeleton (spliced s) = [.spliced ""] := rfl
@[simp] theorem skeleton_quoted : skeleton (quoted s) = [.quoted ""] := rfl

@[simp] theorem meant_append : meant (a ++ b) = meant a ++ meant b := by
  simp [meant]

theorem meant_code : meant (code s) = (Part.code s).tokens := by
  simp [meant]

theorem depth_blank (p : Part) (d : ℕ) : depth d p.blank.tokens = depth d p.tokens := by
  cases p <;> rfl

theorem ends_blank (p : Part) : p.blank.leaves.ends = p.leaves.ends := by cases p <;> rfl

/-- A text spans what it spans without the strings. -/
theorem spans_of_blank (h : spans d (skeleton t) e) : Spans d t e := by
  simp only [spans, Bool.and_eq_true, decide_eq_true_eq] at h
  obtain ⟨⟨⟨hchain, hquiet⟩, hends⟩, hdepth⟩ := h
  refine ⟨meeting_blank_iff.1 ⟨hchain, hquiet⟩, ?_, ?_⟩
  · rw [skeleton, List.getLast?_map] at hends
    cases hlast : (parts t).getLast? with
    | none => rfl
    | some p =>
      rw [hlast] at hends
      exact (ends_blank p).symm.trans hends
  · rw [← hdepth, meant, skeleton, List.flatMap_map]
    clear hchain hquiet hends hdepth
    induction parts t generalizing d with
    | nil => rfl
    | cons p ps ih =>
      rw [List.flatMap_cons, List.flatMap_cons, depth_append, depth_append, depth_blank]
      exact Option.bind_congr fun d' _ => ih

theorem Spans.nil : Spans d [] d := ⟨⟨by simp [parts], by simp [parts]⟩, rfl, rfl⟩

theorem Spans.append (ha : Spans d a e) (hb : Spans e b f)
    (hab : ∀ p ∈ (parts a).getLast?, ∀ q ∈ (parts b).head?, p.Meets q) : Spans d (a ++ b) f := by
  refine ⟨⟨?_, fun p hp => ?_⟩, ?_, ?_⟩
  · rw [parts_append]
    exact List.isChain_append.2 ⟨ha.meeting.chain, hb.meeting.chain, hab⟩
  · rw [parts_append] at hp
    exact (List.mem_append.1 hp).elim (ha.meeting.quiet p) (hb.meeting.quiet p)
  · rw [parts_append, List.getLast?_append]
    cases hlast : (parts b).getLast? with
    | none => exact ha.ends
    | some p =>
      have hends := hb.ends
      rw [hlast] at hends
      exact hends
  · rw [meant_append, depth_append, ha.depth]
    exact hb.depth

/-- What begins with a blank or a symbol can follow any text. -/
theorem Spans.append_begins (ha : Spans d a e) (hb : Spans e b f) (h : Begins b) :
    Spans d (a ++ b) f := by
  obtain ⟨s, hs, hbreaks⟩ := h
  refine ha.append hb fun p hp q hq => ?_
  have hhead : (parts b).head? = some (.code s) := by
    rw [parts, List.head?_map, hs]
    rfl
  obtain rfl := Option.some.inj (hhead.symm.trans hq)
  have hends := ha.ends
  rw [hp] at hends
  change p.leaves.meets (.code s)
  have hends : p.leaves.ends := hends
  generalize p.leaves = m at hends
  cases m with
  | code => rfl
  | word w => exact hbreaks
  | quote v => exact hbreaks
  | _ => cases hends

/-- Anything can follow code that has ended its last token. -/
theorem Spans.append_code (ha : Spans d (a ++ code s) e) (hs : (scan .code s.toList).2 = .code)
    (hb : Spans e b f) : Spans d (a ++ code s ++ b) f := by
  refine ha.append hb fun p hp q _ => ?_
  rw [parts_append, parts_code, List.getLast?_concat] at hp
  obtain rfl := Option.some.inj hp
  change (scan .code s.toList).2.meets q
  rw [hs]
  exact code_meets q

/-- Pieces that follow any text, one after the other. -/
theorem Spans.flatMap {α : Type} {g : α → Text} {l : List α} (ht : Spans d t e)
    (h : ∀ x ∈ l, Spans e (g x) e ∧ Begins (g x)) : Spans d (t ++ l.flatMap g) e := by
  induction l generalizing t with
  | nil => simpa using ht
  | cons x l ih =>
    obtain ⟨hx, hbegins⟩ := h x List.mem_cons_self
    rw [List.flatMap_cons, ← List.append_assoc]
    exact ih (ht.append_begins hx hbegins) fun y hy => h y (List.mem_cons_of_mem x hy)

/-- Inside of brackets a text spans the same. -/
theorem Spans.succ (h : Spans d t e) : Spans (d + 1) t (e + 1) := ⟨h.meeting, h.ends, depth_succ h.depth⟩

/-! Numbers and words -/

theorem symbol_of_mem_start {c x : Char} (h : .symbol x ∈ (start c).1) : x = c := by
  unfold start at h
  split_ifs at h <;> simp_all

/-- The symbols of a text are characters of it, or a dash before it. -/
theorem symbol_of_mem_scan {m : Mode} {cs : List Char} {x : Char} (h : .symbol x ∈ (scan m cs).1) :
    x ∈ cs ∨ x = '-' := by
  induction cs generalizing m with
  | nil => cases h
  | cons c cs ih =>
    rcases List.mem_append.1 h with hstep | hscan
    · cases m <;> simp only [step] at hstep
      case code => exact Or.inl (symbol_of_mem_start hstep ▸ List.mem_cons_self)
      case word w =>
        split_ifs at hstep
        · cases hstep
        · rcases List.mem_cons.1 hstep with heq | hstep
          · cases heq
          · exact Or.inl (symbol_of_mem_start hstep ▸ List.mem_cons_self)
      case dash =>
        split_ifs at hstep
        · cases hstep
        · rcases List.mem_cons.1 hstep with heq | hstep
          · exact Or.inr (Token.symbol.inj heq)
          · exact Or.inl (symbol_of_mem_start hstep ▸ List.mem_cons_self)
      case literal v => split_ifs at hstep <;> cases hstep
      case quote v =>
        split_ifs at hstep
        · cases hstep
        · rcases List.mem_cons.1 hstep with heq | hstep
          · cases heq
          · exact Or.inl (symbol_of_mem_start hstep ▸ List.mem_cons_self)
      case comment => cases hstep
    · exact (ih hscan).imp_left (List.mem_cons_of_mem c)

theorem depth_of_no_bracket {ts : List Token} (h : .symbol '(' ∉ ts ∧ .symbol ')' ∉ ts) (d : ℕ) :
    depth (d + 1) ts = some (d + 1) := by
  induction ts with
  | nil => rfl
  | cons t ts ih =>
    simp only [List.mem_cons, not_or] at h
    have ht : bracket (d + 1) t = some (d + 1) := by
      cases t with
      | literal v => rfl
      | word w => rfl
      | symbol c =>
        have hopen : c ≠ '(' := fun hc => h.1.1 (congrArg Token.symbol hc.symm)
        have hclose : c ≠ ')' := fun hc => h.2.1 (congrArg Token.symbol hc.symm)
        rw [bracket, if_neg hopen, if_neg hclose]
    rw [depth, List.foldlM_cons, ht]
    exact ih ⟨h.1.2, h.2.2⟩

/-- Plain text without brackets, inside of brackets. -/
theorem spans_plain (h : plain s.toList) (hno : ∀ c ∈ s.toList, c ≠ '(' ∧ c ≠ ')') :
    Spans (d + 1) (code s) (d + 1) := by
  have hbetween : (scan .code s.toList).2.Between := between_scan h (Or.inl trivial)
  have hflush : ∀ m : Mode, m.Between → ∀ x, Token.symbol x ∉ m.flush.getD [] := by
    intro m hm x hx
    cases m with
    | code => cases hx
    | word w => cases List.mem_singleton.1 hx
    | _ => exact hm
  have hsymbol : ∀ x, Token.symbol x ∈ meant (code s) → x ∈ s.toList ∨ x = '-' := by
    intro x hx
    rw [meant_code] at hx
    rcases List.mem_append.1 hx with hx | hx
    · exact symbol_of_mem_scan hx
    · exact absurd hx (hflush _ hbetween x)
  refine ⟨⟨List.isChain_singleton _, fun p hp => ?_⟩, ?_, depth_of_no_bracket ⟨fun hx => ?_, fun hx => ?_⟩ d⟩
  · rw [List.mem_singleton.1 hp]
    exact not_mem_of_plain h
  · change (scan .code s.toList).2.ends = true
    cases hm : (scan .code s.toList).2 with
    | code => rfl
    | word w => rfl
    | _ =>
      rw [hm] at hbetween
      exact absurd hbetween id
  · rcases hsymbol _ hx with hx | hx
    · exact (hno _ hx).1 rfl
    · cases hx
  · rcases hsymbol _ hx with hx | hx
    · exact (hno _ hx).2 rfl
    · cases hx

/-- A user's word spans what a word of the program does. -/
theorem Spans.bare (h : Spans d (code s) e) : Spans d (bare s) e := ⟨h.meeting, h.ends, h.depth⟩

end Together

end SqlText
