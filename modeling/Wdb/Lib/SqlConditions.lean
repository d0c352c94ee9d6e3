import Mathlib
import Wdb.Lib.MachineInt
import Wdb.Lib.SqlText
import Wdb.Lib.Traverse

/-! Conditions on the integer columns of a row: `(column IN (value, …) OR …)`, where a value is a name, a
    number, or a sum in brackets.

    A condition is read from its tokens, and what is written for a condition is read as that condition.
    Arithmetic is that of the type `integer`, and the order in which operands are evaluated is not
    defined: there is no result when one of them has none. -/

namespace SqlText
open MachineInt Traverse

inductive Atom where
  | column (name : List Char)
  | number (n : ℕ)
  deriving DecidableEq

inductive Sign where
  | plus | minus
  deriving DecidableEq

/-- A name or a number, with what is added to it. -/
structure Value where
  first : Atom
  rest : List (Sign × Atom) := []
  deriving DecidableEq

/-- `column IN (…)`. -/
structure Membership where
  column : List Char
  head : Value
  others : List Value
  deriving DecidableEq

/-! ### Reading -/

/-- Words that are no names. -/
def reserved : List (List Char) := ["IN", "OR"].map String.toList

def isName (w : List Char) : Bool := w.head?.any Char.isAlpha && w ∉ reserved

def atom (w : List Char) : Option Atom :=
  if w ≠ [] ∧ w.all Char.isDigit then some (.number (Nat.ofDigitChars 10 w 0))
  else if isName w then some (.column w)
  else none

def sign (c : Char) : Option Sign :=
  if c = '+' then some .plus else if c = '-' then some .minus else none

/-- What is added, to the closing bracket. -/
def addends : List Token → Option (List (Sign × Atom) × List Token)
  | .symbol ')' :: ts => some ([], ts)
  | .symbol c :: .word w :: ts => do
    let s ← sign c
    let a ← atom w
    let (rest, ts) ← addends ts
    return ((s, a) :: rest, ts)
  | _ => none

def value : List Token → Option (Value × List Token)
  | .symbol '(' :: .word w :: ts => do
    let first ← atom w
    let (rest, ts) ← addends ts
    return (⟨first, rest⟩, ts)
  | .word w :: ts => (atom w).map fun first => (⟨first, []⟩, ts)
  | _ => none

/-- Values to the closing bracket, at most that many. -/
def values : ℕ → List Token → Option (Value × List Value × List Token)
  | 0, _ => none
  | n + 1, ts => do
    let (v, ts) ← value ts
    match ts with
    | .symbol ',' :: ts => do
      let (u, vs, ts) ← values n ts
      return (v, u :: vs, ts)
    | .symbol ')' :: ts => some (v, [], ts)
    | _ => none

def membership : List Token → Option (Membership × List Token)
  | .word column :: .word ['I', 'N'] :: .symbol '(' :: ts =>
    if isName column then (values ts.length ts).map fun (v, vs, ts) => (⟨column, v, vs⟩, ts) else none
  | _ => none

def alternatives : ℕ → List Token → Option (List Membership × List Token)
  | 0, _ => none
  | n + 1, ts => do
    let (m, ts) ← membership ts
    match ts with
    | .word ['O', 'R'] :: ts => do
      let (ms, ts) ← alternatives n ts
      return (m :: ms, ts)
    | ts => some ([m], ts)

/-- A condition in brackets. -/
def condition : List Token → Option (List Membership)
  | .symbol '(' :: ts =>
    match alternatives ts.length ts with
    | some (ms, [.symbol ')']) => some ms
    | _ => none
  | _ => none

/-! ### Writing -/

def Atom.token : Atom → Token
  | .column name => .word name
  | .number n => .word (Nat.toDigits 10 n)

def Sign.token : Sign → Token
  | .plus => .symbol '+'
  | .minus => .symbol '-'

def Value.tokens (v : Value) : List Token :=
  match v.rest with
  | [] => [v.first.token]
  | s => .symbol '(' :: v.first.token :: s.flatMap (fun x => [x.1.token, x.2.token]) ++ [.symbol ')']

def Membership.tokens (m : Membership) : List Token :=
  .word m.column :: .word ['I', 'N'] :: .symbol '(' :: m.head.tokens ++
    m.others.flatMap (fun v => .symbol ',' :: v.tokens) ++ [.symbol ')']

/-- A condition of one or more alternatives. -/
def conditionTokens (m : Membership) (ms : List Membership) : List Token :=
  .symbol '(' :: m.tokens ++ ms.flatMap (fun m => .word ['O', 'R'] :: m.tokens) ++ [.symbol ')']

/-! ### What is written is read -/

/-- Columns have names. -/
def Atom.Named : Atom → Prop
  | .column name => isName name
  | .number _ => True

structure Value.Named (v : Value) : Prop where
  first : v.first.Named
  rest : ∀ x ∈ v.rest, x.2.Named

structure Membership.Named (m : Membership) : Prop where
  column : isName m.column
  head : m.head.Named
  others : ∀ v ∈ m.others, v.Named

/-- The word of a name or a number. -/
def Atom.word : Atom → List Char
  | .column name => name
  | .number n => Nat.toDigits 10 n

@[simp] theorem Atom.token_eq (a : Atom) : a.token = .word a.word := by cases a <;> rfl

theorem atom_word {a : Atom} (h : a.Named) : atom a.word = some a := by
  cases a with
  | number n =>
    have hdigits : (Nat.toDigits 10 n).all Char.isDigit := by
      rw [List.all_eq_true]
      exact fun c hc => Nat.isDigit_of_mem_toDigits (by decide) (by decide) hc
    rw [atom, Atom.word, if_pos ⟨Nat.toDigits_ne_nil, hdigits⟩, Nat.ofDigitChars_ten_toDigits]
  | column name =>
    have hname : isName name := h
    obtain ⟨c, cs, rfl⟩ : ∃ c cs, name = c :: cs := by
      cases name with
      | nil => cases hname
      | cons c cs => exact ⟨c, cs, rfl⟩
    have halpha : c.isAlpha := (Bool.and_eq_true_iff.1 hname).1
    have hdigit : c.isDigit = false := by
      simp only [Char.isAlpha, Char.isUpper, Char.isLower, Char.isDigit, Bool.or_eq_true, Bool.and_eq_true,
        decide_eq_true_eq, Bool.and_eq_false_iff, decide_eq_false_iff_not, ge_iff_le] at halpha ⊢
      simp only [UInt32.le_iff_toNat_le] at halpha ⊢
      have hupper : 'A'.val.toNat = 65 := rfl
      have hlower : 'a'.val.toNat = 97 := rfl
      have hnine : '9'.val.toNat = 57 := rfl
      omega
    rw [atom, Atom.word, if_neg (by simp [hdigit]), if_pos hname]

theorem addends_cons {s : Sign} {a : Atom} (ha : a.Named) (ts : List Token) :
    addends (s.token :: .word a.word :: ts) = (addends ts).map fun x => ((s, a) :: x.1, x.2) := by
  have hword := atom_word ha
  cases s with
  | plus => simp [Sign.token, addends, sign, hword, Option.map_eq_bind]
  | minus => simp [Sign.token, addends, sign, hword, Option.map_eq_bind]

theorem addends_tokens {rest : List (Sign × Atom)} (h : ∀ x ∈ rest, x.2.Named) (ts : List Token) :
    addends (rest.flatMap (fun x => [x.1.token, x.2.token]) ++ .symbol ')' :: ts) = some (rest, ts) := by
  induction rest with
  | nil => rfl
  | cons x rest ih =>
    have hrest := ih fun y hy => h y (List.mem_cons_of_mem x hy)
    simp only [Atom.token_eq] at hrest ⊢
    simp [addends_cons (h x List.mem_cons_self), hrest]

theorem value_tokens {v : Value} (h : v.Named) (ts : List Token) :
    value (v.tokens ++ ts) = some (v, ts) := by
  obtain ⟨first, rest⟩ := v
  have hfirst : atom first.word = some first := atom_word h.first
  cases rest with
  | nil => simp [Value.tokens, value, hfirst]
  | cons x rest =>
    have hrest := addends_tokens h.rest ts
    simp only [Value.tokens, List.cons_append, Atom.token_eq, List.append_assoc, List.nil_append] at hrest ⊢
    simp only [value, hfirst, hrest, Option.bind_eq_bind, Option.bind_some, Option.pure_def]

theorem values_tokens {v : Value} {vs : List Value} (hv : v.Named) (hvs : ∀ u ∈ vs, u.Named) {n : ℕ}
    (hn : vs.length < n) (ts : List Token) :
    values n (v.tokens ++ vs.flatMap (fun v => .symbol ',' :: v.tokens) ++ .symbol ')' :: ts) =
      some (v, vs, ts) := by
  induction vs generalizing v n with
  | nil =>
    obtain ⟨n, rfl⟩ := Nat.exists_eq_succ_of_ne_zero (Nat.ne_zero_of_lt hn)
    simp [values, value_tokens hv]
  | cons u vs ih =>
    obtain ⟨n, rfl⟩ := Nat.exists_eq_succ_of_ne_zero (Nat.ne_zero_of_lt hn)
    have hrest := ih (hvs u List.mem_cons_self) (fun w hw => hvs w (List.mem_cons_of_mem u hw))
      (Nat.lt_of_succ_lt_succ hn)
    simp only [List.append_assoc] at hrest
    simp [values, value_tokens hv, hrest]

theorem length_flatMap_ge {α : Type} {g : α → List Token} (hg : ∀ x, g x ≠ []) (l : List α) :
    l.length ≤ (l.flatMap g).length := by
  induction l with
  | nil => rfl
  | cons x l ih =>
    have hx := List.length_pos_of_ne_nil (hg x)
    rw [List.flatMap_cons, List.length_append, List.length_cons]
    omega

theorem membership_tokens {m : Membership} (h : m.Named) (ts : List Token) :
    membership (m.tokens ++ ts) = some (m, ts) := by
  have hlength := length_flatMap_ge (g := fun v : Value => .symbol ',' :: v.tokens) (by simp) m.others
  have hvalues := values_tokens h.head h.others
    (n := (m.head.tokens ++ m.others.flatMap (fun v => .symbol ',' :: v.tokens) ++ .symbol ')' :: ts).length)
    (by simp only [List.length_append, List.length_cons]; omega) ts
  have htokens : m.tokens ++ ts = .word m.column :: .word ['I', 'N'] :: .symbol '(' ::
      (m.head.tokens ++ m.others.flatMap (fun v => .symbol ',' :: v.tokens) ++ .symbol ')' :: ts) := by
    simp [Membership.tokens]
  rw [htokens, membership, if_pos h.column, hvalues]
  rfl

theorem alternatives_tokens {m : Membership} {ms : List Membership} (hm : m.Named)
    (hms : ∀ u ∈ ms, u.Named) {n : ℕ} (hn : ms.length < n) :
    alternatives n (m.tokens ++ ms.flatMap (fun m => .word ['O', 'R'] :: m.tokens) ++ [.symbol ')']) =
      some (m :: ms, [.symbol ')']) := by
  induction ms generalizing m n with
  | nil =>
    obtain ⟨n, rfl⟩ := Nat.exists_eq_succ_of_ne_zero (Nat.ne_zero_of_lt hn)
    simp [alternatives, membership_tokens hm]
  | cons u ms ih =>
    obtain ⟨n, rfl⟩ := Nat.exists_eq_succ_of_ne_zero (Nat.ne_zero_of_lt hn)
    have hrest := ih (hms u List.mem_cons_self) (fun w hw => hms w (List.mem_cons_of_mem u hw))
      (Nat.lt_of_succ_lt_succ hn)
    simp only [List.append_assoc] at hrest
    simp [alternatives, membership_tokens hm, hrest]

/-- What is written for a condition is read as that condition. -/
theorem condition_tokens {m : Membership} {ms : List Membership} (h : ∀ u ∈ m :: ms, u.Named) :
    condition (conditionTokens m ms) = some (m :: ms) := by
  have hlength := length_flatMap_ge (g := fun m : Membership => Token.word ['O', 'R'] :: m.tokens) (by simp) ms
  have hothers : ∀ u ∈ ms, u.Named := fun u hu => h u (List.mem_cons_of_mem m hu)
  rw [conditionTokens, List.cons_append, List.cons_append, condition,
    alternatives_tokens (h m List.mem_cons_self) hothers]
  · rfl
  · -- there is fuel for every token
    simp only [List.length_append, List.length_singleton]
    omega

/-! ### Meaning -/

section Meaning
variable (row : List Char → Option ℤ)

def Atom.eval : Atom → Option ℤ
  | .column name => row name
  | .number n => int n

def Sign.apply : Sign → ℤ → ℤ → ℤ
  | .plus, a, b => a + b
  | .minus, a, b => a - b

def Value.eval (v : Value) : Option ℤ := do
  let first ← v.first.eval row
  v.rest.foldlM (fun a (s, b) => do int (Sign.apply s a (← b.eval row))) first

def Membership.eval (m : Membership) : Option Bool := do
  let a ← row m.column
  let vs ← (m.head :: m.others).mapM (Value.eval row)
  return decide (a ∈ vs)

/-- The alternatives of a condition. -/
def conditionHolds (ms : List Membership) : Option Bool := do
  let bs ← ms.mapM (Membership.eval row)
  return bs.any id

variable {row} {m : Membership} {ms : List Membership}

theorem Membership.eval_eq_some {a : ℤ} {bs : List ℤ} (ha : row m.column = some a)
    (h : (m.head :: m.others).mapM (Value.eval row) = some bs) : m.eval row = some (decide (a ∈ bs)) := by
  rw [Membership.eval, ha, h]
  rfl

@[simp] theorem conditionHolds_nil : conditionHolds row [] = some false := rfl

@[simp] theorem conditionHolds_singleton : conditionHolds row [m] = m.eval row := by
  cases h : m.eval row <;> simp [conditionHolds, h]

theorem conditionHolds_append {ns : List Membership} {a b : Bool} (ha : conditionHolds row ms = some a)
    (hb : conditionHolds row ns = some b) : conditionHolds row (ms ++ ns) = some (a || b) := by
  simp only [conditionHolds, Option.bind_eq_bind, Option.bind_eq_some_iff] at ha hb
  obtain ⟨as, has, ha⟩ := ha
  obtain ⟨bs, hbs, hb⟩ := hb
  simp only [Option.pure_def, Option.some.injEq] at ha hb
  rw [conditionHolds, List.mapM_append, has, hbs, ← ha, ← hb, ← List.any_append]
  rfl

/-- With a result every value has one. -/
theorem isSome_of_conditionHolds {b : Bool} (h : conditionHolds row ms = some b) :
    ∀ m ∈ ms, ∀ v ∈ m.head :: m.others, (v.eval row).isSome := by
  intro m hm
  simp only [conditionHolds, Option.bind_eq_bind, Option.bind_eq_some_iff] at h
  obtain ⟨bs, hbs, -⟩ := h
  obtain ⟨c, hc⟩ := Option.isSome_iff_exists.1 (isSome_of_mapM hbs m hm)
  simp only [Membership.eval, Option.bind_eq_bind, Option.bind_eq_some_iff] at hc
  obtain ⟨a, -, vs, hvs, -⟩ := hc
  exact isSome_of_mapM hvs

end Meaning

end SqlText
