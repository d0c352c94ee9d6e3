import Wdb.Lib.DecimalText
import Wdb.Lib.SqlClauses
import Wdb.Lib.SqlConditions

/-! Queries of tables that are joined by commas, read from their tokens.

    A condition is a comparison, a pattern or a list of values, or alternatives of these in brackets. What is
    written for a query is read as that query. Keywords are in capitals and names are in lower case; what is
    selected, the groups and the order are not read. -/

namespace SqlSelect
open SqlText

/-! ### Syntax -/

/-- A column of one of the tables, or of the only one that has it. -/
structure Column where
  table : Option (List Char)
  name : List Char
  deriving DecidableEq

/-- Digits, digits behind a point, and an exponent. -/
structure Numeral where
  whole : List Char
  fraction : List Char := []
  exponent : Option (Sign × List Char) := none
  deriving DecidableEq

/-- A sum stands in brackets. -/
inductive Base where
  | column (c : Column)
  | null
  | literal (value : List Char)
  | numeral (n : Numeral)
  | sum (v : Value)
  deriving DecidableEq

/-- A value; an interval may be added to it, as a time. -/
structure Term where
  base : Base
  interval : Option (List Char) := none
  deriving DecidableEq

inductive Relation where
  | eq | lt | gt | le | ge
  deriving DecidableEq

inductive Test where
  | constant (b : Bool)
  | compare (a : Term) (r : Relation) (b : Term)
  | like (a b : Term)
  | isIn (a : Term) (bs : List Term)
  deriving DecidableEq

/-- A test, or alternatives in brackets, each of several tests. -/
inductive Condition where
  | test (t : Test)
  | anyOf (alternatives : List (List Test))
  deriving DecidableEq

/-- A table, under a name of its own or under another. -/
structure TableRef where
  schema : Option (List Char) := none
  name : List Char
  alias_ : Option (List Char) := none
  deriving DecidableEq

/-- The rows of a query, whatever is selected of them. -/
structure Select where
  from_ : List TableRef
  where_ : List Condition
  deriving DecidableEq

/-- A table of one column, that is selected first. -/
structure With where
  name : List Char
  column : Column
  as : List Char
  select : Select
  deriving DecidableEq

structure Query where
  with_ : Option With
  select : Select
  deriving DecidableEq

/-! ### Writing -/

/-- Several texts with a token between them. -/
def joined {α : Type} (sep : Token) (write : α → List Token) : List α → List Token
  | [] => []
  | a :: as => write a ++ as.flatMap fun b => sep :: write b

def Column.tokens (c : Column) : List Token :=
  c.table.elim [] (fun t => [.word t, .symbol '.']) ++ [.word c.name]

def Numeral.tokens (n : Numeral) : List Token :=
  let mark := if n.exponent.isSome then ['e'] else []
  (if n.fraction = [] then [.word (n.whole ++ mark)]
    else [.word n.whole, .symbol '.', .word (n.fraction ++ mark)]) ++
    n.exponent.elim [] fun x => [x.1.token, .word x.2]

def Base.tokens : Base → List Token
  | .column c => c.tokens
  | .null => [.word "NULL".toList]
  | .literal v => [.literal v]
  | .numeral n => n.tokens
  | .sum v => v.tokens

/-- `::timestamp with time zone+`. -/
def zone : List Token :=
  [.symbol ':', .symbol ':', .word "timestamp".toList, .word "with".toList, .word "time".toList,
    .word "zone".toList, .symbol '+']

def Term.tokens (t : Term) : List Token := t.base.tokens ++ t.interval.elim [] fun i => zone ++ [.literal i]

def Relation.tokens : Relation → List Token
  | .eq => [.symbol '=']
  | .lt => [.symbol '<']
  | .gt => [.symbol '>']
  | .le => [.symbol '<', .symbol '=']
  | .ge => [.symbol '>', .symbol '=']

def Test.tokens : Test → List Token
  | .constant b => [.word (if b then "TRUE" else "FALSE").toList]
  | .compare a r b => a.tokens ++ (r.tokens ++ b.tokens)
  | .like a b => a.tokens ++ (.word "LIKE".toList :: b.tokens)
  | .isIn a bs =>
    a.tokens ++ (.word "IN".toList :: .symbol '(' :: (joined (.symbol ',') Term.tokens bs ++ [.symbol ')']))

def conjoined : List Test → List Token := joined (.word "AND".toList) Test.tokens

def Condition.tokens : Condition → List Token
  | .test t => t.tokens
  | .anyOf cs => .symbol '(' :: (joined (.word "OR".toList) conjoined cs ++ [.symbol ')'])

def TableRef.tokens (r : TableRef) : List Token :=
  r.schema.elim [] (fun s => [.word s, .symbol '.']) ++ .word r.name :: r.alias_.toList.map .word

/-- The clauses of a query that selects something. -/
def Select.operand (s : Select) (what : List Token) : Operand where
  with_ := []
  what := what
  from_ := joined (.symbol ',') TableRef.tokens s.from_
  where_ := joined (.word "AND".toList) Condition.tokens s.where_
  groupBy := []
  orderBy := []

/-- The query of a table that is selected first. -/
def With.operand (w : With) : Operand :=
  w.select.operand (w.column.tokens ++ [.word "AS".toList, .word w.as])

def With.tokens (w : With) : List Token :=
  .word w.name :: .word "AS".toList :: .symbol '(' :: (w.operand.tokens ++ [.symbol ')'])

/-- Clauses that are written for a query, whatever is selected, in whatever groups and order. -/
structure Query.Spelled (q : Query) (o : Operand) : Prop where
  with_ : o.with_ = q.with_.elim [] With.tokens
  from_ : o.from_ = joined (.symbol ',') TableRef.tokens q.select.from_
  where_ : o.where_ = joined (.word "AND".toList) Condition.tokens q.select.where_

/-! ### Reading -/

/-- Words that are no names. -/
def reserved : List (List Char) :=
  ["null", "true", "false", "and", "or", "in", "like", "as"].map String.toList

def isLabel (w : List Char) : Bool :=
  w.head?.any Char.isLower && w.all (fun c => !c.isUpper) && w ∉ reserved

/-- Several of the same, with a token between them; at most that many. -/
def sepBy {α : Type} (p : List Token → Option (α × List Token)) (sep : Token) :
    ℕ → List Token → Option (List α × List Token)
  | 0, _ => none
  | n + 1, ts => (p ts).bind fun x =>
    if x.2.head? = some sep then (sepBy p sep n x.2.tail).map fun y => (x.1 :: y.1, y.2) else some ([x.1], x.2)

/-- A text is read to its end. -/
def toEnd {α : Type} (p : List Token → Option (α × List Token)) (ts : List Token) : Option α :=
  match p ts with
  | some (a, []) => some a
  | _ => none

def column : List Token → Option (Column × List Token)
  | .word t :: .symbol '.' :: .word c :: ts => if isLabel t ∧ isLabel c then some (⟨some t, c⟩, ts) else none
  | .word c :: ts => if isLabel c then some (⟨none, c⟩, ts) else none
  | _ => none

def isDigits (w : List Char) : Bool := w ≠ [] ∧ w.all Char.isDigit

/-- Digits, and whether an exponent follows. -/
def mantissa (w : List Char) : Option (List Char × Bool) :=
  if isDigits w then some (w, false)
  else if w.getLast? = some 'e' ∧ isDigits w.dropLast then some (w.dropLast, true)
  else none

def exponent : Bool → List Token → Option (Option (Sign × List Char) × List Token)
  | false, ts => some (none, ts)
  | true, .symbol c :: .word w :: ts =>
    (sign c).bind fun s => if isDigits w then some (some (s, w), ts) else none
  | true, _ => none

def numeral : List Token → Option (Numeral × List Token)
  | .word w :: .symbol '.' :: .word f :: ts =>
    if isDigits w then
      (mantissa f).bind fun m => (exponent m.2 ts).map fun x => (⟨w, m.1, x.1⟩, x.2)
    else none
  | .word w :: ts => (mantissa w).bind fun m => (exponent m.2 ts).map fun x => (⟨m.1, [], x.1⟩, x.2)
  | _ => none

def base : List Token → Option (Base × List Token)
  | .literal v :: ts => some (.literal v, ts)
  | .symbol '(' :: ts => (value (.symbol '(' :: ts)).map fun x => (.sum x.1, x.2)
  | .word w :: ts =>
    if w = "NULL".toList then some (.null, ts)
    else if isLabel w then (column (.word w :: ts)).map fun x => (.column x.1, x.2)
    else (numeral (.word w :: ts)).map fun x => (.numeral x.1, x.2)
  | _ => none

/-- What may be added to a value. -/
def interval (ts : List Token) : Option (Option (List Char) × List Token) :=
  if ts.take zone.length = zone then
    match ts.drop zone.length with
    | .literal i :: ts => some (some i, ts)
    | _ => none
  else some (none, ts)

def term (ts : List Token) : Option (Term × List Token) :=
  (base ts).bind fun b => (interval b.2).map fun i => (⟨b.1, i.1⟩, i.2)

def relation : List Token → Option (Relation × List Token)
  | .symbol '<' :: .symbol '=' :: ts => some (.le, ts)
  | .symbol '>' :: .symbol '=' :: ts => some (.ge, ts)
  | .symbol '=' :: ts => some (.eq, ts)
  | .symbol '<' :: ts => some (.lt, ts)
  | .symbol '>' :: ts => some (.gt, ts)
  | _ => none

/-- Several of the same, in brackets. -/
def bracketed {α : Type} (p : List Token → Option (α × List Token)) (sep : Token) :
    List Token → Option (List α × List Token)
  | .symbol '(' :: ts =>
    (sepBy p sep (ts.length + 1) ts).bind fun x => if x.2.head? = some (.symbol ')') then some (x.1, x.2.tail) else none
  | _ => none

/-- What is asked of a value. -/
def comparison (a : Term) : List Token → Option (Test × List Token)
  | .word w :: ts =>
    if w = "LIKE".toList then (term ts).map fun b => (.like a b.1, b.2)
    else if w = "IN".toList then (bracketed term (.symbol ',') ts).map fun bs => (.isIn a bs.1, bs.2)
    else none
  | ts => (relation ts).bind fun r => (term r.2).map fun b => (.compare a r.1 b.1, b.2)

def test (ts : List Token) : Option (Test × List Token) :=
  if ts.head? = some (.word "TRUE".toList) then some (.constant true, ts.tail)
  else if ts.head? = some (.word "FALSE".toList) then some (.constant false, ts.tail)
  else (term ts).bind fun a => comparison a.1 a.2

def tests (ts : List Token) : Option (List Test × List Token) :=
  sepBy test (.word "AND".toList) (ts.length + 1) ts

def condition (ts : List Token) : Option (Condition × List Token) :=
  if ts.head? = some (.symbol '(') then (bracketed tests (.word "OR".toList) ts).map fun cs => (.anyOf cs.1, cs.2)
  else (test ts).map fun x => (.test x.1, x.2)

def conditions (ts : List Token) : Option (List Condition) :=
  toEnd (fun ts => sepBy condition (.word "AND".toList) (ts.length + 1) ts) ts

/-- A name that may follow that of a table. -/
def tableAlias : List Token → Option (List Char) × List Token
  | .word w :: ts => if isLabel w then (some w, ts) else (none, .word w :: ts)
  | ts => (none, ts)

def tableRef : List Token → Option (TableRef × List Token)
  | .word s :: .symbol '.' :: .word n :: ts =>
    if isLabel s ∧ isLabel n then some (⟨some s, n, (tableAlias ts).1⟩, (tableAlias ts).2) else none
  | .word n :: ts => if isLabel n then some (⟨none, n, (tableAlias ts).1⟩, (tableAlias ts).2) else none
  | _ => none

def tableRefs (ts : List Token) : Option (List TableRef) :=
  toEnd (fun ts => sepBy tableRef (.symbol ',') (ts.length + 1) ts) ts

/-- A keyword outside of brackets. -/
def starts (d : ℕ) : Token → Option (List Char)
  | .word w => if d = 0 && isKeyword w then some w else none
  | _ => none

/-- The tokens before the first keyword outside of brackets, and the clauses. -/
def split : ℕ → List Token → List Token × List Clause
  | _, [] => ([], [])
  | d, t :: ts =>
    match starts d t with
    | some w => ([], ⟨w, (split 0 ts).1⟩ :: (split 0 ts).2)
    | none => (t :: (split ((bracket d t).getD d) ts).1, (split ((bracket d t).getD d) ts).2)

def select (cs : List Clause) : Option Select :=
  (bodyOf "FROM" cs).bind fun from_ => (tableRefs from_).bind fun refs =>
    ((bodyOf "WHERE" cs).elim (some []) conditions).map fun where_ => ⟨refs, where_⟩

/-- What is selected, under a name. -/
def selected : List Token → Option (Column × List Char)
  | ts => match column ts with
    | some (c, [.word w, .word n]) => if w = "AS".toList ∧ isLabel n then some (c, n) else none
    | _ => none

/-- A query in brackets, under a name. -/
def with_ : List Token → Option With
  | .word name :: .word w :: .symbol '(' :: ts =>
    if isLabel name ∧ w = "AS".toList ∧ ts.getLast? = some (.symbol ')') then
      let cs := (split 0 ts.dropLast).2
      (bodyOf "SELECT" cs).bind fun what => (selected what).bind fun s =>
        (select cs).map fun q => ⟨name, s.1, s.2, q⟩
    else none
  | _ => none

def query (ts : List Token) : Option Query :=
  let cs := (split 0 ts).2
  ((bodyOf "WITH" cs).elim (some none) fun w => (with_ w).map some).bind fun w =>
    (select cs).map fun q => ⟨w, q⟩

/-! ### Several of the same -/

section Joined
variable {α : Type} {p : List Token → Option (α × List Token)} {sep : Token} {write : α → List Token}
  {l : List α} {rest : List Token}

theorem joined_cons (a b : α) (l : List α) :
    joined sep write (a :: b :: l) = write a ++ sep :: joined sep write (b :: l) := by
  simp [joined]

theorem length_joined_ge (sep : Token) (write : α → List Token) (l : List α) :
    l.length ≤ (joined sep write l).length + 1 := by
  cases l with
  | nil => simp
  | cons a l =>
    have hge := length_flatMap_ge (g := fun b => sep :: write b) (by simp) l
    simp only [joined, List.length_append, List.length_cons]
    omega

/-- What is written with a token between is read, before anything that the last one can stand before. -/
theorem sepBy_joined (Follows : List Token → Prop) (hsep : ∀ ts, Follows (sep :: ts)) (hrest : Follows rest)
    (hne : rest.head? ≠ some sep) (hl : l ≠ [])
    (hp : ∀ a ∈ l, ∀ ts, Follows ts → p (write a ++ ts) = some (a, ts)) {n : ℕ} (hn : l.length ≤ n) :
    sepBy p sep n (joined sep write l ++ rest) = some (l, rest) := by
  induction l generalizing n with
  | nil => exact absurd rfl hl
  | cons a l ih =>
    obtain ⟨n, rfl⟩ := Nat.exists_eq_succ_of_ne_zero (Nat.ne_zero_of_lt hn)
    cases l with
    | nil =>
      have ha := hp a List.mem_cons_self rest hrest
      simp [joined, sepBy, ha, hne]
    | cons b l =>
      have ha := hp a List.mem_cons_self (sep :: (joined sep write (b :: l) ++ rest)) (hsep _)
      have hl := ih (List.cons_ne_nil b l) (fun x hx => hp x (List.mem_cons_of_mem a hx))
        (Nat.le_of_succ_le_succ hn)
      rw [joined_cons, List.append_assoc, List.cons_append, sepBy, ha]
      simp [hl]

/-- The same, with room for every element. -/
theorem sepBy_joined_length (Follows : List Token → Prop) (hsep : ∀ ts, Follows (sep :: ts)) (hrest : Follows rest)
    (hne : rest.head? ≠ some sep) (hl : l ≠ [])
    (hp : ∀ a ∈ l, ∀ ts, Follows ts → p (write a ++ ts) = some (a, ts)) :
    sepBy p sep ((joined sep write l ++ rest).length + 1) (joined sep write l ++ rest) = some (l, rest) := by
  refine sepBy_joined Follows hsep hrest hne hl hp ?_
  have hge := length_joined_ge sep write l
  rw [List.length_append]
  omega

theorem bracketed_joined (Follows : List Token → Prop) (hsep : ∀ ts, Follows (sep :: ts))
    (hclose : ∀ ts, Follows (.symbol ')' :: ts)) (hne : sep ≠ .symbol ')') (hl : l ≠ [])
    (hp : ∀ a ∈ l, ∀ ts, Follows ts → p (write a ++ ts) = some (a, ts)) :
    bracketed p sep (.symbol '(' :: (joined sep write l ++ .symbol ')' :: rest)) = some (l, rest) := by
  have hhead : (Token.symbol ')' :: rest).head? ≠ some sep := by simpa using hne.symm
  rw [bracketed, sepBy_joined_length Follows hsep (hclose rest) hhead hl hp]
  simp

theorem toEnd_joined (Follows : List Token → Prop) (hsep : ∀ ts, Follows (sep :: ts)) (hnil : Follows [])
    (hl : l ≠ []) (hp : ∀ a ∈ l, ∀ ts, Follows ts → p (write a ++ ts) = some (a, ts)) :
    toEnd (fun ts => sepBy p sep (ts.length + 1) ts) (joined sep write l) = some l := by
  have hread := sepBy_joined_length Follows hsep hnil (by simp) hl hp
  rw [List.append_nil] at hread
  simp [toEnd, hread]

end Joined

/-! ### Names and numerals -/

/-- A name or a number is over. -/
def Ends (ts : List Token) : Prop := ts.head? ≠ some (.symbol '.')

/-- A value is over, and no interval follows. -/
structure Stops (ts : List Token) : Prop where
  ends : Ends ts
  colon : ts.head? ≠ some (.symbol ':')

theorem stops_nil : Stops [] := ⟨by simp [Ends], by simp⟩

theorem stops_word (w : List Char) (ts : List Token) : Stops (.word w :: ts) := ⟨by simp [Ends], by simp⟩

theorem stops_symbol {c : Char} (h : c ≠ '.' ∧ c ≠ ':') (ts : List Token) : Stops (.symbol c :: ts) :=
  ⟨by simp [Ends, h.1], by simp [h.2]⟩

structure Column.Named (c : Column) : Prop where
  table : ∀ t ∈ c.table, isLabel t
  name : isLabel c.name

structure Numeral.Named (n : Numeral) : Prop where
  whole : isDigits n.whole
  fraction : ∀ c ∈ n.fraction, c.isDigit
  exponent : ∀ x ∈ n.exponent, isDigits x.2

def Base.Named : Base → Prop
  | .column c => c.Named
  | .null => True
  | .literal _ => True
  | .numeral n => n.Named
  | .sum v => v.Named ∧ v.rest ≠ []

section Words
variable {w k : List Char} {rest : List Token}

/-- A name is no keyword. -/
theorem ne_of_isLabel (h : isLabel w) (hk : k.any Char.isUpper) : w ≠ k := by
  rintro rfl
  simp only [isLabel, Bool.and_eq_true, List.all_eq_true, List.any_eq_true] at h hk
  obtain ⟨c, hc, hupper⟩ := hk
  simpa [hupper] using h.1.2 c hc

theorem isDigits_iff : isDigits w ↔ w ≠ [] ∧ ∀ c ∈ w, c.isDigit := by
  simp [isDigits]

/-- What starts with a digit is no name, nor a keyword. -/
theorem not_isLabel_of_isDigits (h : isDigits w) (s : List Char) : isLabel (w ++ s) = false := by
  obtain ⟨hne, hdigits⟩ := isDigits_iff.1 h
  obtain ⟨c, w, rfl⟩ := List.exists_cons_of_ne_nil hne
  have hc := hdigits c List.mem_cons_self
  have hlower : c.isLower = false := by
    simp only [Char.isDigit, Char.isLower, Bool.and_eq_true, decide_eq_true_eq, Bool.and_eq_false_iff,
      decide_eq_false_iff_not, ge_iff_le, UInt32.le_iff_toNat_le] at hc ⊢
    have hnine : '9'.val.toNat = 57 := rfl
    have ha : 'a'.val.toNat = 97 := rfl
    omega
  simp [isLabel, hlower]

theorem mantissa_digits (h : isDigits w) : mantissa w = some (w, false) := if_pos h

theorem mantissa_marked (h : isDigits w) : mantissa (w ++ ['e']) = some (w, true) := by
  have hno : ¬ isDigits (w ++ ['e']) := by simp [isDigits]
  rw [mantissa, if_neg hno, if_pos ⟨by simp, by simpa using h⟩]
  simp

theorem sign_token (s : Sign) : ∃ c, s.token = .symbol c ∧ sign c = some s := by
  cases s with
  | plus => exact ⟨'+', rfl, rfl⟩
  | minus => exact ⟨'-', rfl, rfl⟩

theorem exponent_tokens {x : Option (Sign × List Char)} (hx : ∀ y ∈ x, isDigits y.2) :
    exponent x.isSome (x.elim [] (fun y => [y.1.token, .word y.2]) ++ rest) = some (x, rest) := by
  cases x with
  | none => rfl
  | some y =>
    obtain ⟨s, w⟩ := y
    obtain ⟨c, hc, hs⟩ := sign_token s
    simp [hc, exponent, hs, hx _ rfl]

theorem column_tokens {c : Column} (h : c.Named) (hrest : Ends rest) : column (c.tokens ++ rest) = some (c, rest) := by
  obtain ⟨table, name⟩ := c
  cases table with
  | some t => simp [Column.tokens, column, h.table t rfl, h.name]
  | none =>
    have hname : isLabel name := h.name
    simp only [Column.tokens, Option.elim_none, List.nil_append, List.cons_append]
    unfold column
    split
    · next heq =>
      obtain ⟨-, rfl⟩ := List.cons.inj heq
      exact absurd rfl hrest
    · next heq =>
      obtain ⟨hword, rfl⟩ := List.cons.inj heq
      obtain rfl := Token.word.inj hword
      rw [if_pos hname]
    · next hno => exact absurd rfl (hno _ _)

theorem numeral_tokens {n : Numeral} (h : n.Named) (hrest : Ends rest) :
    numeral (n.tokens ++ rest) = some (n, rest) := by
  obtain ⟨whole, fraction, x⟩ := n
  have hwhole : isDigits whole := h.whole
  have hexponent : exponent x.isSome (x.elim [] (fun y => [y.1.token, .word y.2]) ++ rest) = some (x, rest) :=
    exponent_tokens h.exponent
  have hmantissa : ∀ {w : List Char}, isDigits w →
      mantissa (w ++ if x.isSome then ['e'] else []) = some (w, x.isSome) := by
    intro w hw
    cases x with
    | none => simpa using mantissa_digits hw
    | some y => exact mantissa_marked hw
  simp only [Numeral.tokens]
  by_cases hfraction : fraction = []
  · subst hfraction
    rw [if_pos rfl]
    -- an exponent is no point
    have hpoint : ∀ f ts, x.elim [] (fun y => [y.1.token, .word y.2]) ++ rest ≠ .symbol '.' :: .word f :: ts := by
      intro f ts heq
      cases x with
      | none =>
        rw [Option.elim_none, List.nil_append] at heq
        rw [heq] at hrest
        exact hrest rfl
      | some y =>
        obtain ⟨⟨⟩, w⟩ := y <;> simp [Sign.token] at heq
    rw [List.append_assoc, List.singleton_append, numeral, hmantissa hwhole]
    · simp [hexponent]
    · intro f ts heq
      exact absurd heq (hpoint f ts)
  · have hdigits : isDigits fraction := isDigits_iff.2 ⟨hfraction, h.fraction⟩
    rw [if_neg hfraction]
    simp [numeral, hwhole, hmantissa hdigits, hexponent]

end Words

/-! ### Conditions -/

structure Term.Named (t : Term) : Prop where
  base : t.base.Named

def Test.Named : Test → Prop
  | .constant _ => True
  | .compare a _ b => a.Named ∧ b.Named
  | .like a b => a.Named ∧ b.Named
  | .isIn a bs => a.Named ∧ bs ≠ [] ∧ ∀ b ∈ bs, b.Named

/-- There is something on either side of a keyword, and a bracket opens alternatives. -/
def Condition.Named : Condition → Prop
  | .test t => t.Named ∧ t.tokens.head? ≠ some (.symbol '(')
  | .anyOf cs => cs ≠ [] ∧ ∀ c ∈ cs, c ≠ [] ∧ ∀ t ∈ c, t.Named

section Conditions
variable {rest : List Token}

theorem isDigits_head {n : Numeral} (h : n.Named) : ∃ w ts, n.tokens = .word w :: ts ∧ isLabel w = false ∧
    w ≠ "NULL".toList ∧ w ≠ "TRUE".toList ∧ w ≠ "FALSE".toList := by
  have hdigit : ∀ s k : List Char, k.head?.any Char.isDigit = false → n.whole ++ s ≠ k := by
    intro s k hk heq
    obtain ⟨hne, hdigits⟩ := isDigits_iff.1 h.whole
    obtain ⟨c, w, hw⟩ := List.exists_cons_of_ne_nil hne
    rw [← heq, hw, List.cons_append] at hk
    have hc := hdigits c (hw ▸ List.mem_cons_self)
    simp [hc] at hk
  unfold Numeral.tokens
  extract_lets mark
  split
  · exact ⟨_, _, rfl, not_isLabel_of_isDigits h.whole _, hdigit _ _ (by decide), hdigit _ _ (by decide),
      hdigit _ _ (by decide)⟩
  · have hlabel := not_isLabel_of_isDigits h.whole []
    rw [List.append_nil] at hlabel
    refine ⟨_, _, rfl, hlabel, ?_, ?_, ?_⟩
    · simpa using hdigit [] "NULL".toList (by decide)
    · simpa using hdigit [] "TRUE".toList (by decide)
    · simpa using hdigit [] "FALSE".toList (by decide)

theorem base_tokens {b : Base} (h : b.Named) (hrest : Ends rest) : base (b.tokens ++ rest) = some (b, rest) := by
  cases b with
  | literal v => rfl
  | null => simp [Base.tokens, base]
  | sum v =>
    obtain ⟨hnamed, hne⟩ := h
    have hread := value_tokens hnamed rest
    obtain ⟨first, others⟩ := v
    obtain ⟨x, xs, rfl⟩ := List.exists_cons_of_ne_nil hne
    simp only [Base.tokens, Value.tokens, List.cons_append] at hread ⊢
    rw [base, hread]
    rfl
  | column c =>
    have hread := column_tokens h hrest
    have hfirst : ∃ w ts, c.tokens = .word w :: ts ∧ isLabel w := by
      obtain ⟨table, name⟩ := c
      cases table with
      | none => exact ⟨name, [], rfl, h.name⟩
      | some t => exact ⟨t, _, rfl, h.table t rfl⟩
    obtain ⟨w, ts, htokens, hw⟩ := hfirst
    have hnull : w ≠ "NULL".toList := ne_of_isLabel hw (by decide)
    rw [Base.tokens, htokens, List.cons_append, base, if_neg hnull, if_pos hw, ← List.cons_append, ← htokens, hread]
    rfl
  | numeral n =>
    have hread := numeral_tokens h hrest
    obtain ⟨w, ts, htokens, hw, hnull, -⟩ := isDigits_head h
    have hlabel : ¬ isLabel w := by simp [hw]
    rw [Base.tokens, htokens, List.cons_append, base, if_neg hnull, if_neg hlabel, ← List.cons_append, ← htokens,
      hread]
    rfl

theorem term_tokens {t : Term} (h : t.Named) (hrest : Stops rest) : term (t.tokens ++ rest) = some (t, rest) := by
  obtain ⟨b, i⟩ := t
  cases i with
  | none =>
    have hno : rest.take zone.length ≠ zone := by
      intro heq
      cases rest with
      | nil => cases heq
      | cons t ts => exact hrest.colon (congrArg List.head? heq)
    simp [Term.tokens, term, base_tokens h.base hrest.ends, interval, hno]
  | some i =>
    have hends : Ends (zone ++ .literal i :: rest) := by simp [Ends, zone]
    have hread := base_tokens h.base hends
    simp only [Term.tokens, Option.elim_some, List.append_assoc, List.singleton_append, term, hread, Option.bind_some,
      interval, List.take_left, List.drop_left, if_pos]
    rfl

/-- A value starts with something else than a relation, a keyword or a bracket for alternatives. -/
theorem exists_head_term {t : Term} (h : t.Named) : ∃ x ts, t.tokens = x :: ts ∧ x ≠ .symbol '=' ∧
    x ≠ .word "TRUE".toList ∧ x ≠ .word "FALSE".toList := by
  obtain ⟨b, i⟩ := t
  have hbase : ∃ x ts, b.tokens = x :: ts ∧ x ≠ .symbol '=' ∧ x ≠ .word "TRUE".toList ∧
      x ≠ .word "FALSE".toList := by
    have hb : b.Named := h.base
    cases b with
    | literal v => exact ⟨_, _, rfl, by simp, by simp, by simp⟩
    | null => exact ⟨_, _, rfl, by simp, by simp, by simp⟩
    | sum v =>
      obtain ⟨first, others⟩ := v
      obtain ⟨x, xs, rfl⟩ := List.exists_cons_of_ne_nil hb.2
      exact ⟨_, _, rfl, by simp, by simp, by simp⟩
    | column c =>
      obtain ⟨table, name⟩ := c
      have hlabel : ∀ {w : List Char}, isLabel w → Token.word w ≠ .word "TRUE".toList ∧
          Token.word w ≠ .word "FALSE".toList := fun hw =>
        ⟨fun heq => ne_of_isLabel hw (by decide) (Token.word.inj heq),
          fun heq => ne_of_isLabel hw (by decide) (Token.word.inj heq)⟩
      cases table with
      | none => exact ⟨_, _, rfl, by simp, hlabel hb.name⟩
      | some t => exact ⟨_, _, rfl, by simp, hlabel (hb.table t rfl)⟩
    | numeral n =>
      obtain ⟨w, ts, htokens, -, -, htrue, hfalse⟩ := isDigits_head hb
      exact ⟨_, _, htokens, by simp, fun heq => htrue (Token.word.inj heq), fun heq => hfalse (Token.word.inj heq)⟩
  obtain ⟨x, ts, hx, hne⟩ := hbase
  exact ⟨x, ts ++ i.elim [] fun i => zone ++ [.literal i], by rw [Term.tokens, hx, List.cons_append], hne⟩

theorem relation_tokens (r : Relation) {x : Token} (hx : x ≠ .symbol '=') (ts : List Token) :
    relation (r.tokens ++ x :: ts) = some (r, x :: ts) := by
  cases r with
  | eq => rfl
  | le => rfl
  | ge => rfl
  | lt =>
    simp only [Relation.tokens, List.singleton_append]
    unfold relation
    split <;> simp_all
  | gt =>
    simp only [Relation.tokens, List.singleton_append]
    unfold relation
    split <;> simp_all

/-- A value, and what is asked of it. -/
theorem test_of_term {a : Term} (h : a.Named) (hrest : Stops rest) :
    test (a.tokens ++ rest) = comparison a rest := by
  obtain ⟨x, ts, hx, -, htrue, hfalse⟩ := exists_head_term h
  have hhead : (a.tokens ++ rest).head? = some x := by rw [hx]; rfl
  rw [test, hhead, if_neg (by simpa using htrue), if_neg (by simpa using hfalse), term_tokens h hrest]
  rfl

theorem comparison_relation (a : Term) (r : Relation) {b : Term} (hb : b.Named) (hrest : Stops rest) :
    Stops (r.tokens ++ (b.tokens ++ rest)) ∧
      comparison a (r.tokens ++ (b.tokens ++ rest)) = some (.compare a r b, rest) := by
  obtain ⟨x, ts, hx, heq, -⟩ := exists_head_term hb
  have hread := relation_tokens r heq (ts ++ rest)
  have hterm := term_tokens hb hrest
  rw [hx, List.cons_append] at hterm ⊢
  have hsymbol : ∃ c us, r.tokens = .symbol c :: us ∧ c ≠ '.' ∧ c ≠ ':' := by
    cases r <;> exact ⟨_, _, rfl, by decide, by decide⟩
  obtain ⟨c, us, hr, hc⟩ := hsymbol
  rw [hr, List.cons_append] at hread ⊢
  refine ⟨stops_symbol hc _, ?_⟩
  rw [comparison, hread, Option.bind_some, hterm]
  · rfl
  · simp

theorem test_tokens {t : Test} (h : t.Named) (hrest : Stops rest) : test (t.tokens ++ rest) = some (t, rest) := by
  cases t with
  | constant b => cases b <;> simp [Test.tokens, test]
  | compare a r b =>
    obtain ⟨hstops, hread⟩ := comparison_relation a r h.2 hrest
    rw [Test.tokens, List.append_assoc, List.append_assoc, test_of_term h.1 hstops, hread]
  | like a b =>
    rw [Test.tokens, List.append_assoc, List.cons_append, test_of_term h.1 (stops_word _ _), comparison, if_pos rfl,
      term_tokens h.2 hrest, Option.map_some]
  | isIn a bs =>
    obtain ⟨ha, hne, hbs⟩ := h
    have hread : bracketed term (.symbol ',')
        (.symbol '(' :: (joined (.symbol ',') Term.tokens bs ++ .symbol ')' :: rest)) = some (bs, rest) :=
      bracketed_joined Stops (fun ts => stops_symbol (by decide) ts) (fun ts => stops_symbol (by decide) ts)
        (by simp) hne fun b hb ts hts => term_tokens (hbs b hb) hts
    have hlike : "IN".toList ≠ "LIKE".toList := by decide
    have htokens : (Test.isIn a bs).tokens ++ rest = a.tokens ++ .word "IN".toList :: .symbol '(' ::
        (joined (.symbol ',') Term.tokens bs ++ .symbol ')' :: rest) := by
      simp [Test.tokens]
    rw [htokens, test_of_term ha (stops_word _ _), comparison, if_neg hlike, if_pos rfl, hread, Option.map_some]

theorem tests_tokens {ts : List Test} (hne : ts ≠ []) (h : ∀ t ∈ ts, t.Named) (hrest : Stops rest)
    (hand : rest.head? ≠ some (.word "AND".toList)) : tests (conjoined ts ++ rest) = some (ts, rest) :=
  sepBy_joined_length Stops (fun _ => stops_word _ _) hrest hand hne fun t ht _ hstops => test_tokens (h t ht) hstops

theorem test_ne_nil {t : Test} (h : t.Named) : t.tokens ≠ [] := by
  have hterm : ∀ {a : Term} {ts : List Token}, a.Named → a.tokens ++ ts ≠ [] := by
    intro a ts ha
    obtain ⟨x, us, hx, -⟩ := exists_head_term ha
    simp [hx]
  cases t with
  | constant b => simp [Test.tokens]
  | compare a r b => exact hterm h.1
  | like a b => exact hterm h.1
  | isIn a bs => exact hterm h.1

theorem condition_tokens {c : Condition} (h : c.Named) (hrest : Stops rest) :
    condition (c.tokens ++ rest) = some (c, rest) := by
  cases c with
  | test t =>
    obtain ⟨x, ts, hx⟩ := List.exists_cons_of_ne_nil (test_ne_nil h.1)
    have hhead : (t.tokens ++ rest).head? ≠ some (.symbol '(') := by
      have hopen := h.2
      rw [hx] at hopen ⊢
      exact hopen
    rw [Condition.tokens, condition, if_neg hhead, test_tokens h.1 hrest, Option.map_some]
  | anyOf cs =>
    -- alternatives end before `OR` and before the bracket
    have hread : bracketed tests (.word "OR".toList)
        (.symbol '(' :: (joined (.word "OR".toList) conjoined cs ++ .symbol ')' :: rest)) = some (cs, rest) :=
      bracketed_joined (fun ts => Stops ts ∧ ts.head? ≠ some (.word "AND".toList)) (fun ts => ⟨stops_word _ ts, by simp⟩)
        (fun ts => ⟨stops_symbol (by decide) ts, by simp⟩) (by simp) h.1
        fun ts hts us hus => tests_tokens (h.2 ts hts).1 (h.2 ts hts).2 hus.1 hus.2
    have htokens : (Condition.anyOf cs).tokens ++ rest = .symbol '(' ::
        (joined (.word "OR".toList) conjoined cs ++ .symbol ')' :: rest) := by
      simp [Condition.tokens]
    rw [htokens, condition, List.head?_cons, if_pos rfl, hread, Option.map_some]

/-- What is written for several conditions is read as these. -/
theorem conditions_tokens {cs : List Condition} (hne : cs ≠ []) (h : ∀ c ∈ cs, c.Named) :
    conditions (joined (.word "AND".toList) Condition.tokens cs) = some cs :=
  toEnd_joined Stops (fun _ => stops_word _ _) stops_nil hne fun c hc _ hstops => condition_tokens (h c hc) hstops

end Conditions

/-! ### Tables and clauses -/

structure TableRef.Named (r : TableRef) : Prop where
  schema : ∀ s ∈ r.schema, isLabel s
  name : isLabel r.name
  alias_ : ∀ a ∈ r.alias_, isLabel a

structure Select.Named (s : Select) : Prop where
  ne_nil : s.from_ ≠ []
  from_ : ∀ r ∈ s.from_, r.Named
  where_ : ∀ c ∈ s.where_, c.Named

structure With.Named (w : With) : Prop where
  name : isLabel w.name
  column : w.column.Named
  as : isLabel w.as
  select : w.select.Named
  wellFormed : w.operand.WellFormed

structure Query.Named (q : Query) : Prop where
  with_ : ∀ w ∈ q.with_, w.Named
  select : q.select.Named

section Clauses
variable {rest : List Token}

/-- A table is over before a comma. -/
def EndsTable (ts : List Token) : Prop := ∀ t ∈ ts.head?, t = .symbol ','

theorem tableAlias_tokens {a : Option (List Char)} (h : ∀ w ∈ a, isLabel w) (hrest : EndsTable rest) :
    tableAlias (a.toList.map .word ++ rest) = (a, rest) := by
  cases a with
  | some w => simp [tableAlias, h w rfl]
  | none =>
    rw [Option.toList_none, List.map_nil, List.nil_append]
    unfold tableAlias
    split
    · next w ts => exact absurd (hrest _ rfl) (by simp)
    · rfl

theorem tableRef_tokens {r : TableRef} (h : r.Named) (hrest : EndsTable rest) :
    tableRef (r.tokens ++ rest) = some (r, rest) := by
  obtain ⟨schema, name, a⟩ := r
  have halias := tableAlias_tokens h.alias_ hrest
  have hname : isLabel name := h.name
  cases schema with
  | some s => simp [TableRef.tokens, tableRef, h.schema s rfl, hname, halias]
  | none =>
    simp only [TableRef.tokens, Option.elim_none, List.nil_append, List.cons_append]
    rw [tableRef, if_pos hname, halias]
    intro n ts heq
    cases a with
    | some w => simp at heq
    | none =>
      rw [Option.toList_none, List.map_nil, List.nil_append] at heq
      exact absurd (hrest (.symbol '.') (by rw [heq]; rfl)) (by decide)

theorem tableRefs_tokens {rs : List TableRef} (hne : rs ≠ []) (h : ∀ r ∈ rs, r.Named) :
    tableRefs (joined (.symbol ',') TableRef.tokens rs) = some rs :=
  toEnd_joined EndsTable (fun ts t ht => by simpa using ht.symm) (by simp [EndsTable]) hne
    fun r hr _ hts => tableRef_tokens (h r hr) hts

/-- What is closed is no clause. -/
theorem split_closed {d : ℕ} {body : List Token} (h : depth d body = some 0) (rest : List Token) :
    split d (body ++ rest) = (body ++ (split 0 rest).1, (split 0 rest).2) := by
  induction body generalizing d with
  | nil =>
    obtain rfl := Option.some.inj h
    rfl
  | cons t body ih =>
    rw [depth, List.foldlM_cons] at h
    obtain ⟨e, he, h⟩ := Option.bind_eq_some_iff.1 h
    have hno : starts d t = none := by
      cases t with
      | word w =>
        simp only [bracket] at he
        split at he
        · cases he
        · next hno => exact if_neg hno
      | _ => rfl
    rw [List.cons_append, split, hno, he]
    simp only [Option.getD_some, ih h, List.cons_append]

/-- Clauses are found where they are written. -/
theorem split_clauses {cs : List Clause} (h : ∀ c ∈ cs, c.Proper) : split 0 (cs.flatMap Clause.tokens) = ([], cs) := by
  induction cs with
  | nil => rfl
  | cons c cs ih =>
    have hc := h c List.mem_cons_self
    have hrest := ih fun x hx => h x (List.mem_cons_of_mem c hx)
    have hstarts : starts 0 (.word c.keyword) = some c.keyword := by simp [starts, hc.keyword]
    rw [List.flatMap_cons, Clause.tokens, List.cons_append, split, hstarts]
    simp only [split_closed hc.closed, hrest, List.append_nil]

theorem bodyOf_from (q : Operand) : bodyOf "FROM" q.clauses = some q.from_ := by
  have hwith : (optional "WITH" [] q.with_).find? (fun c => c.keyword = "FROM".toList) = none :=
    find?_optional_of_ne (by decide) _ _
  rw [bodyOf, Operand.clauses]
  simp only [List.append_assoc, List.find?_append, hwith, Option.none_or]
  rfl

theorem bodyOf_where (q : Operand) : bodyOf "WHERE" q.clauses = if q.where_ = [] then none else some q.where_ := by
  rw [Operand.clauses, List.append_assoc]
  refine bodyOf_optional [] q.where_ (fun c hc => ?_) fun c hc => ?_
  · simp only [List.mem_append, List.mem_cons, List.not_mem_nil, or_false] at hc
    rcases hc with hc | rfl | rfl
    · rw [mem_optional hc]
      decide
    · simp
    · simp
  · rcases List.mem_append.1 hc with hc | hc
    · rw [mem_optional hc]
      decide
    · rw [mem_optional hc]
      decide

theorem bodyOf_with (q : Operand) : bodyOf "WITH" q.clauses = if q.with_ = [] then none else some q.with_ := by
  rw [Operand.clauses, List.append_assoc, List.append_assoc, List.append_assoc,
    ← List.nil_append (optional "WITH" [] q.with_ ++ _), ← List.append_assoc]
  refine bodyOf_optional [] q.with_ (by simp) fun c hc => ?_
  simp only [List.mem_append, List.mem_cons, List.not_mem_nil, or_false] at hc
  rcases hc with (rfl | rfl) | hc | hc | hc
  · simp
  · simp
  · rw [mem_optional hc]
    decide
  · rw [mem_optional hc]
    decide
  · rw [mem_optional hc]
    decide

theorem condition_ne_nil {c : Condition} (h : c.Named) : c.tokens ≠ [] := by
  cases c with
  | test t => exact test_ne_nil h.1
  | anyOf cs => simp [Condition.tokens]

theorem select_operand {s : Select} {o : Operand} (h : s.Named)
    (hfrom : o.from_ = joined (.symbol ',') TableRef.tokens s.from_)
    (hwhere : o.where_ = joined (.word "AND".toList) Condition.tokens s.where_) : select o.clauses = some s := by
  have hconditions : (bodyOf "WHERE" o.clauses).elim (some []) conditions = some s.where_ := by
    rw [bodyOf_where, hwhere]
    cases hs : s.where_ with
    | nil => rfl
    | cons c cs =>
      have hc := condition_ne_nil (h.where_ c (hs ▸ List.mem_cons_self))
      have hne : joined (.word "AND".toList) Condition.tokens (c :: cs) ≠ [] :=
        List.append_ne_nil_of_left_ne_nil hc _
      rw [if_neg hne, Option.elim_some, conditions_tokens (List.cons_ne_nil c cs) (hs ▸ h.where_)]
  rw [select, bodyOf_from, hfrom, Option.bind_some, tableRefs_tokens h.ne_nil h.from_, Option.bind_some, hconditions]
  rfl

theorem with_tokens {w : With} (h : w.Named) : with_ w.tokens = some w := by
  have hclauses : (split 0 w.operand.tokens).2 = w.operand.clauses :=
    congrArg Prod.snd (split_clauses h.wellFormed.proper)
  have hselect : select w.operand.clauses = some w.select := select_operand h.select rfl rfl
  have hcolumn : column (w.column.tokens ++ [.word "AS".toList, .word w.as]) =
      some (w.column, [.word "AS".toList, .word w.as]) := column_tokens h.column (by simp [Ends])
  have hselected : selected (w.column.tokens ++ [.word "AS".toList, .word w.as]) = some (w.column, w.as) := by
    rw [selected, hcolumn]
    simp [h.as]
  have hwhat : bodyOf "SELECT" w.operand.clauses = some (w.column.tokens ++ [.word "AS".toList, .word w.as]) :=
    bodyOf_what _
  have hopen : isLabel w.name ∧ "AS".toList = "AS".toList ∧
      (w.operand.tokens ++ [Token.symbol ')']).getLast? = some (.symbol ')') := ⟨h.name, rfl, by simp⟩
  rw [With.tokens, with_, if_pos hopen, List.dropLast_concat]
  simp only [hclauses, hwhat, hselected, hselect, Option.bind_some, Option.map_some]

/-- What is written for a query is read as that query. -/
theorem query_tokens {q : Query} {o : Operand} (ho : o.WellFormed) (hq : q.Named) (h : q.Spelled o) :
    query o.tokens = some q := by
  have hclauses : (split 0 o.tokens).2 = o.clauses := congrArg Prod.snd (split_clauses ho.proper)
  have hselect := select_operand hq.select h.from_ h.where_
  have hwith : (bodyOf "WITH" o.clauses).elim (some none) (fun w => (with_ w).map some) = some q.with_ := by
    rw [bodyOf_with, h.with_]
    cases hw : q.with_ with
    | none => rfl
    | some w =>
      have hne : w.tokens ≠ [] := List.cons_ne_nil _ _
      rw [Option.elim_some, if_neg hne, Option.elim_some, with_tokens (hq.with_ w hw)]
      rfl
  unfold query
  simp only [hclauses, hwith, hselect, Option.bind_some, Option.map_some]

end Clauses

end SqlSelect
