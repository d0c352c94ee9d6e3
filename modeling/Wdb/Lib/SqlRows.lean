import Wdb.Lib.SqlSelect
import Wdb.Lib.SqlTypes

/-! The rows that queries select.

    A condition is true or false, or neither where a value is missing; a row is selected when all conditions are
    true. There is no result when one of the operands has none, since it is not defined which of them are
    evaluated. The rows come in the order of the tables, which is one of those that are allowed. -/

namespace SqlSelect
open SqlText SqlTypes

/-- A value; the type of an `unknown` literal is that of what it is compared with. -/
inductive Datum where
  | int (n : ℤ)
  | real (q : ℚ)
  | numeric (q : ℚ)
  | text (s : String)
  | time (t : ℤ)
  | unknown (s : String)
  deriving DecidableEq

/-- How literals are read as finite times, and as intervals, which move a time. -/
structure Times where
  timestamptzIn : String → Option ℤ
  intervalIn : String → Option (ℤ → ℤ)

/-- The columns of a row; a value may be missing. -/
abbrev Row := List (List Char × Option Datum)

/-- A row of each table, under the table's name. -/
abbrev Scope := List (List Char × Row)

/-- The rows of the tables, by schema and name. -/
abbrev Tables := Option (List Char) → List Char → Option (List Row)

/-! ### Values -/

/-- A column must be in one table only. -/
def Column.value (c : Column) (scope : Scope) : Option (Option Datum) :=
  match (scope.filter fun x => c.table.all (· = x.1)).filterMap fun x => x.2.lookup c.name with
  | [d] => some d
  | _ => none

def Numeral.value (n : Numeral) : ℚ :=
  DecimalText.value n.whole n.fraction *
    10 ^ n.exponent.elim 0 fun x => x.1.apply 0 (Nat.ofDigitChars 10 x.2 0)

/-- A number with a point or an exponent is `numeric`. -/
def Numeral.datum (n : Numeral) : Datum :=
  if n.fraction = [] ∧ n.exponent = none then .int (Nat.ofDigitChars 10 n.whole 0) else .numeric n.value

/-- A column that is an integer, and not missing. -/
def integer (scope : Scope) (name : List Char) : Option ℤ :=
  match Column.value ⟨none, name⟩ scope with
  | some (some (.int n)) => some n
  | _ => none

/-- A sum is of integers that are not missing. -/
def Base.value (scope : Scope) : Base → Option (Option Datum)
  | .column c => c.value scope
  | .null => some none
  | .literal v => some (some (.unknown (String.ofList v)))
  | .numeral n => some (some n.datum)
  | .sum v => (v.eval (integer scope)).map fun n => some (.int n)

section Evaluation
variable (times : Times)

/-- `::timestamp with time zone`. -/
def Datum.time? : Datum → Option ℤ
  | .time t => some t
  | .unknown s => times.timestamptzIn s
  | _ => none

def Term.value (scope : Scope) (t : Term) : Option (Option Datum) :=
  match t.interval with
  | none => t.base.value scope
  | some i => (times.intervalIn (String.ofList i)).bind fun move => (t.base.value scope).bind fun d =>
    match d with
    | none => some none
    | some d => (d.time? times).map fun time => some (.time (move time))

/-! ### Conditions -/

def Relation.holds {α : Type} [LinearOrder α] (r : Relation) (a b : α) : Bool :=
  match r with
  | .eq => a = b
  | .lt => a < b
  | .gt => b < a
  | .le => a ≤ b
  | .ge => b ≤ a

/-- A `real` is compared with a number as a double precision number; texts are only asked to be equal. -/
def Relation.compare (r : Relation) : Datum → Datum → Option Bool
  | .int a, .int b => some (r.holds a b)
  | .real a, .real b => some (r.holds a b)
  | .real a, .int b => some (r.holds a (toDouble b))
  | .real a, .numeric b => some (r.holds a (toDouble b))
  | .time a, .time b => some (r.holds a b)
  | .time a, .unknown s => (times.timestamptzIn s).map (r.holds a)
  | .text a, .unknown s => if r = .eq then some (a = s) else none
  | _, _ => none

/-- What is asked of a missing value is neither true nor false. -/
def Relation.asked (r : Relation) (a b : Option (Option Datum)) : Option (Option Bool) :=
  a.bind fun a => b.bind fun b =>
    match a, b with
    | some a, some b => (r.compare times a b).map some
    | _, _ => some none

@[simp] theorem asked_some (r : Relation) (a b : Datum) :
    r.asked times (some (some a)) (some (some b)) = (r.compare times a b).map some := rfl

@[simp] theorem asked_missing (r : Relation) (a : Datum) : r.asked times (some (some a)) (some none) = some none := rfl

def liked : Datum → Datum → Option Bool
  | .text s, .unknown pattern => like s pattern
  | _, _ => none

/-- `AND`. -/
def allTrue (bs : List (Option Bool)) : Option Bool :=
  if some false ∈ bs then some false else if none ∈ bs then none else some true

/-- `OR`. -/
def anyTrue (bs : List (Option Bool)) : Option Bool :=
  if some true ∈ bs then some true else if none ∈ bs then none else some false

def conj (es : List (Option (Option Bool))) : Option (Option Bool) := (es.mapM id).map allTrue

def disj (es : List (Option (Option Bool))) : Option (Option Bool) := (es.mapM id).map anyTrue

def Test.eval (scope : Scope) : Test → Option (Option Bool)
  | .constant b => some (some b)
  | .compare a r b => r.asked times (a.value times scope) (b.value times scope)
  | .like a b => (a.value times scope).bind fun a => (b.value times scope).bind fun b =>
    match a, b with
    | some a, some b => (liked a b).map some
    | _, _ => some none
  | .isIn a bs => disj (bs.map fun b => Relation.eq.asked times (a.value times scope) (b.value times scope))

def Condition.eval (scope : Scope) : Condition → Option (Option Bool)
  | .test t => t.eval times scope
  | .anyOf cs => disj (cs.map fun c => conj (c.map (Test.eval times scope)))

/-! ### Rows -/

/-- A row of every table. -/
def product : List (List Char × List Row) → List Scope
  | [] => [[]]
  | (name, rows) :: sources => rows.flatMap fun row => (product sources).map fun scope => (name, row) :: scope

def sources (tables : Tables) (refs : List TableRef) : Option (List (List Char × List Row)) :=
  refs.mapM fun r => (tables r.schema r.name).map fun rows => (r.alias_.getD r.name, rows)

def Select.rows (tables : Tables) (s : Select) : Option (List Scope) :=
  (sources tables s.from_).bind fun srcs => ((product srcs).mapM fun scope =>
    (conj (s.where_.map (Condition.eval times scope))).map fun b =>
      if b = some true then [scope] else []).map List.flatten

def With.rows (tables : Tables) (w : With) : Option (List Row) :=
  (w.select.rows times tables).bind fun scopes =>
    scopes.mapM fun scope => (w.column.value scope).map fun d => [(w.as, d)]

/-- The tables with another one among them. -/
def Tables.add (tables : Tables) (name : List Char) (rows : List Row) : Tables := fun s n =>
  if s = none ∧ n = name then some rows else tables s n

def Query.rows (tables : Tables) (q : Query) : Option (List Scope) :=
  match q.with_ with
  | none => q.select.rows times tables
  | some w => (w.rows times tables).bind fun rows => q.select.rows times (tables.add w.name rows)

/-- The rows that a text selects. -/
def selects (tables : Tables) (text : List Char) : Option (List Scope) :=
  (tokens .code text).bind fun ts => (query ts).bind (Query.rows times tables)

end Evaluation

/-! ### What conditions decide -/

/-- A condition has a value, which is true exactly when something holds. -/
def Decides (e : Option (Option Bool)) (P : Prop) : Prop := ∃ b, e = some b ∧ (b = some true ↔ P)

section Decides
variable {e : Option (Option Bool)} {es : List (Option (Option Bool))} {P Q : Prop}

theorem decides_some (b : Bool) : Decides (some (some b)) (b = true) := ⟨some b, rfl, by simp⟩

theorem decides_none : Decides (some none) False := ⟨none, rfl, by simp⟩

theorem Decides.congr (h : Decides e P) (hPQ : P ↔ Q) : Decides e Q := by
  obtain ⟨b, he, hb⟩ := h
  exact ⟨b, he, hb.trans hPQ⟩

theorem allTrue_eq_true_iff {bs : List (Option Bool)} : allTrue bs = some true ↔ ∀ b ∈ bs, b = some true := by
  unfold allTrue
  split
  · next h => exact iff_of_false (by simp) fun hall => by simpa using hall _ h
  · next hfalse =>
    split
    · next h => exact iff_of_false (by simp) fun hall => by simpa using hall _ h
    · next hnone =>
      refine iff_of_true rfl fun b hb => ?_
      rcases b with _ | _ | _
      · exact absurd hb hnone
      · exact absurd hb hfalse
      · rfl

theorem anyTrue_eq_true_iff {bs : List (Option Bool)} : anyTrue bs = some true ↔ some true ∈ bs := by
  unfold anyTrue
  split
  · next h => exact iff_of_true rfl h
  · next h =>
    refine iff_of_false ?_ h
    split <;> simp

theorem decides_conj_nil : Decides (conj []) True := ⟨some true, rfl, by simp⟩

theorem Decides.conj_cons (h : Decides e P) (hs : Decides (conj es) Q) : Decides (conj (e :: es)) (P ∧ Q) := by
  obtain ⟨b, rfl, hb⟩ := h
  obtain ⟨c, hc, hQ⟩ := hs
  obtain ⟨bs, hbs, rfl⟩ := Option.map_eq_some_iff.1 hc
  refine ⟨allTrue (b :: bs), by simp [conj, hbs], ?_⟩
  rw [← hb, ← hQ, allTrue_eq_true_iff, allTrue_eq_true_iff]
  simp

theorem decides_disj_nil : Decides (disj []) False := ⟨some false, rfl, by simp⟩

theorem Decides.disj_cons (h : Decides e P) (hs : Decides (disj es) Q) : Decides (disj (e :: es)) (P ∨ Q) := by
  obtain ⟨b, rfl, hb⟩ := h
  obtain ⟨c, hc, hQ⟩ := hs
  obtain ⟨bs, hbs, rfl⟩ := Option.map_eq_some_iff.1 hc
  refine ⟨anyTrue (b :: bs), by simp [disj, hbs], ?_⟩
  rw [← hb, ← hQ, anyTrue_eq_true_iff, anyTrue_eq_true_iff, List.mem_cons, eq_comm]

theorem Decides.conj_append {fs : List (Option (Option Bool))} (h : Decides (conj es) P) (h' : Decides (conj fs) Q) :
    Decides (conj (es ++ fs)) (P ∧ Q) := by
  obtain ⟨b, hb, hP⟩ := h
  obtain ⟨c, hc, hQ⟩ := h'
  obtain ⟨bs, hbs, rfl⟩ := Option.map_eq_some_iff.1 hb
  obtain ⟨cs, hcs, rfl⟩ := Option.map_eq_some_iff.1 hc
  refine ⟨allTrue (bs ++ cs), by simp [conj, List.mapM_append, hbs, hcs], ?_⟩
  rw [← hP, ← hQ, allTrue_eq_true_iff, allTrue_eq_true_iff, allTrue_eq_true_iff, List.forall_mem_append]

/-- One of several alternatives. -/
theorem decides_disj_map {α : Type} {l : List α} {f : α → Option (Option Bool)} {p : α → Prop}
    (h : ∀ a ∈ l, Decides (f a) (p a)) : Decides (disj (l.map f)) (∃ a ∈ l, p a) := by
  induction l with
  | nil => exact decides_disj_nil.congr (by simp)
  | cons a l ih =>
    have hl := ih fun b hb => h b (List.mem_cons_of_mem a hb)
    exact ((h a List.mem_cons_self).disj_cons hl).congr (by simp)

end Decides

/-! ### Conditions on integers -/

section Integers

/-- A sum, or what is not one. -/
def ofValue (v : Value) : Term :=
  match v.first, v.rest with
  | .number n, [] => ⟨.numeral ⟨Nat.toDigits 10 n, [], none⟩, none⟩
  | .column c, [] => ⟨.column ⟨none, c⟩, none⟩
  | _, _ => ⟨.sum v, none⟩

def ofMembership (m : Membership) : Test :=
  .isIn ⟨.column ⟨none, m.column⟩, none⟩ ((m.head :: m.others).map ofValue)

/-- Memberships as alternatives. -/
def ofMemberships (ms : List Membership) : Condition := .anyOf (ms.map fun m => [ofMembership m])

variable {row : List Char → Option ℤ} {scope : Scope} {times : Times} {v : Value} {m : Membership}
  {ms : List Membership}

theorem tokens_ofValue (v : Value) : (ofValue v).tokens = v.tokens := by
  obtain ⟨first, rest⟩ := v
  cases rest with
  | nil =>
    cases first with
    | column c => rfl
    | number n => simp [ofValue, Term.tokens, Base.tokens, Numeral.tokens, Value.tokens, Atom.word]
  | cons x rest => cases first <;> simp [ofValue, Term.tokens, Base.tokens]

theorem tokens_ofMembership (m : Membership) : (ofMembership m).tokens = m.tokens := by
  have hcolumn : Term.tokens ⟨.column ⟨none, m.column⟩, none⟩ = [.word m.column] := rfl
  simp only [ofMembership, Test.tokens, hcolumn, List.map_cons, joined, tokens_ofValue, Membership.tokens,
    List.flatMap_map]
  simp

/-- Alternatives are written as a condition. -/
theorem tokens_ofMemberships (m : Membership) (ms : List Membership) :
    (ofMemberships (m :: ms)).tokens = conditionTokens m ms := by
  simp [ofMemberships, Condition.tokens, joined, conjoined, tokens_ofMembership, conditionTokens, List.flatMap_map]

/-- A column that stands alone has a label. -/
theorem named_ofValue (h : v.Named) (hlabel : ∀ c, v.first = .column c → isLabel c) : (ofValue v).Named := by
  obtain ⟨first, rest⟩ := v
  cases rest with
  | cons x rest => cases first <;> exact ⟨h, List.cons_ne_nil x rest⟩
  | nil =>
    cases first with
    | column c => exact ⟨⟨by simp, hlabel c rfl⟩⟩
    | number n =>
      have hdigits : isDigits (Nat.toDigits 10 n) := isDigits_iff.2 ⟨Nat.toDigits_ne_nil, fun c hc =>
        Nat.isDigit_of_mem_toDigits (by decide) (by decide) hc⟩
      exact ⟨⟨hdigits, by simp, by simp⟩⟩

theorem named_ofMemberships (hne : ms ≠ []) (h : ∀ m ∈ ms, m.Named ∧ isLabel m.column ∧
    ∀ v ∈ m.head :: m.others, ∀ c, v.first = .column c → isLabel c) : (ofMemberships ms).Named := by
  refine ⟨by simpa using hne, fun ts hts => ?_⟩
  obtain ⟨m, hm, rfl⟩ := List.mem_map.1 hts
  obtain ⟨hnamed, hcolumn, hlabels⟩ := h m hm
  refine ⟨List.cons_ne_nil _ _, fun t ht => ?_⟩
  obtain rfl := List.mem_singleton.1 ht
  refine ⟨⟨⟨by simp, hcolumn⟩⟩, List.cons_ne_nil _ _, fun b hb => ?_⟩
  obtain ⟨v, hv, rfl⟩ := List.mem_map.1 hb
  have hvalue : v.Named := by
    rcases List.mem_cons.1 hv with rfl | hv
    · exact hnamed.head
    · exact hnamed.others v hv
  exact named_ofValue hvalue (hlabels v hv)

/-- The integers of a row are the columns of the tables. -/
def HasIntegers (row : List Char → Option ℤ) (scope : Scope) : Prop :=
  ∀ name n, row name = some n → Column.value ⟨none, name⟩ scope = some (some (.int n))

variable (hrow : HasIntegers row scope)
include hrow

theorem value_ofValue {n : ℤ} (h : v.eval row = some n) : (ofValue v).value times scope = some (some (.int n)) := by
  have hatom : ∀ {a : Atom} {k : ℤ}, a.eval row = some k → a.eval (integer scope) = some k := by
    intro a k ha
    cases a with
    | column name => simp [Atom.eval, integer, hrow name k ha]
    | number k' => exact ha
  obtain ⟨first, rest⟩ := v
  obtain ⟨k, hk, hfold⟩ := Option.bind_eq_some_iff.1 h
  have hsum : ∀ {l : List (Sign × Atom)} {a : ℤ},
      l.foldlM (fun a x => do MachineInt.int (Sign.apply x.1 a (← x.2.eval row))) a = some n →
      l.foldlM (fun a x => do MachineInt.int (Sign.apply x.1 a (← x.2.eval (integer scope)))) a = some n := by
    intro l
    induction l with
    | nil => exact id
    | cons x l ih =>
      intro a ha
      obtain ⟨b, hb, ha⟩ := Option.bind_eq_some_iff.1 ha
      obtain ⟨c, hc, hint⟩ := Option.bind_eq_some_iff.1 hb
      rw [List.foldlM_cons]
      simp only [hatom hc, Option.bind_eq_bind, Option.bind_some, hint]
      exact ih ha
  cases rest with
  | nil =>
    obtain rfl := Option.some.inj hfold
    cases first with
    | column c => exact hrow c _ hk
    | number k' =>
      obtain ⟨rfl, -, -⟩ := MachineInt.of_int_eq_some hk
      simp [ofValue, Term.value, Base.value, Numeral.datum, Nat.ofDigitChars_ten_toDigits]
  | cons x rest =>
    have heval := hsum hfold
    have hvalue : Value.eval (integer scope) ⟨first, x :: rest⟩ = some n := by
      rw [Value.eval, hatom hk]
      exact heval
    cases first <;> simp [ofValue, Term.value, Base.value, hvalue]

theorem decides_ofMembership {b : Bool} (h : m.eval row = some b) :
    Decides ((ofMembership m).eval times scope) (b = true) := by
  obtain ⟨a, ha, h⟩ := Option.bind_eq_some_iff.1 h
  obtain ⟨vs, hvs, h⟩ := Option.bind_eq_some_iff.1 h
  obtain rfl := Option.some.inj h
  have hcolumn : Term.value times scope ⟨.column ⟨none, m.column⟩, none⟩ = some (some (.int a)) := hrow _ _ ha
  have hlist : ∀ {l : List Value} {vs : List ℤ}, l.mapM (Value.eval row) = some vs →
      Decides (disj (l.map fun v => Relation.eq.asked times (some (some (.int a))) ((ofValue v).value times scope)))
        (a ∈ vs) := by
    intro l
    induction l with
    | nil =>
      intro vs hvs
      obtain rfl := Option.some.inj hvs
      exact decides_disj_nil.congr (by simp)
    | cons v l ih =>
      intro vs hvs
      rw [List.mapM_cons] at hvs
      obtain ⟨n, hn, hvs⟩ := Option.bind_eq_some_iff.1 hvs
      obtain ⟨ns, hns, hvs⟩ := Option.bind_eq_some_iff.1 hvs
      obtain rfl := Option.some.inj hvs
      have hv : Decides (Relation.eq.asked times (some (some (.int a))) ((ofValue v).value times scope)) (a = n) := by
        rw [value_ofValue hrow hn]
        exact (decides_some _).congr (by simp [Relation.holds])
      exact (hv.disj_cons (ih hns)).congr (by simp)
  rw [ofMembership, Test.eval, hcolumn, List.map_map]
  exact (hlist hvs).congr (by simp)

/-- Alternatives decide what the condition does. -/
theorem decides_ofMemberships {b : Bool} (h : conditionHolds row ms = some b) :
    Decides ((ofMemberships ms).eval times scope) (b = true) := by
  obtain ⟨bs, hbs, hany⟩ := Option.bind_eq_some_iff.1 h
  obtain rfl := Option.some.inj hany
  rw [ofMemberships, Condition.eval, List.map_map]
  clear h hany
  induction ms generalizing bs with
  | nil =>
    obtain rfl := Option.some.inj hbs
    exact decides_disj_nil.congr (by simp)
  | cons m ms ih =>
    rw [List.mapM_cons] at hbs
    obtain ⟨c, hc, hbs⟩ := Option.bind_eq_some_iff.1 hbs
    obtain ⟨cs, hcs, hbs⟩ := Option.bind_eq_some_iff.1 hbs
    obtain rfl := Option.some.inj hbs
    have hm : Decides (conj [(ofMembership m).eval times scope]) (c = true ∧ True) :=
      (decides_ofMembership hrow hc).conj_cons decides_conj_nil
    exact (hm.disj_cons (ih cs hcs)).congr (by simp)

end Integers

/-! ### What is selected -/

section Rows
variable {times : Times} {tables : Tables}

theorem sources_nil : sources tables [] = some [] := rfl

theorem sources_cons {r : TableRef} {refs : List TableRef} {rows : List Row} {srcs : List (List Char × List Row)}
    (h : tables r.schema r.name = some rows) (hs : sources tables refs = some srcs) :
    sources tables (r :: refs) = some ((r.alias_.getD r.name, rows) :: srcs) := by
  have hrest : refs.mapM (fun r => (tables r.schema r.name).map fun rows => (r.alias_.getD r.name, rows)) = some srcs := hs
  simp [sources, h, hrest]

theorem mapM_filter {α β : Type} {l : List α} {f : α → Option (Option Bool)} {g : α → β} {p : α → Prop}
    [DecidablePred p] (h : ∀ a ∈ l, Decides (f a) (p a)) :
    (l.mapM fun a => (f a).map fun b => if b = some true then [g a] else []).map List.flatten =
      some ((l.filter fun a => p a).map g) := by
  induction l with
  | nil => rfl
  | cons a l ih =>
    obtain ⟨b, hb, hp⟩ := h a List.mem_cons_self
    have hl := ih fun c hc => h c (List.mem_cons_of_mem a hc)
    obtain ⟨ks, hks, hflat⟩ := Option.map_eq_some_iff.1 hl
    rw [List.mapM_cons, hb, hks]
    by_cases hpa : p a
    · simp [hp.2 hpa, hpa, hflat]
    · have hfalse : b ≠ some true := fun heq => hpa (hp.1 heq)
      simp [hfalse, hpa, hflat]

/-- The rows for which all conditions are true. -/
theorem rows_eq {s : Select} {srcs : List (List Char × List Row)} (hsources : sources tables s.from_ = some srcs)
    {α : Type} {l : List α} {g : α → Scope} (hproduct : product srcs = l.map g) {p : α → Prop}
    [DecidablePred p]
    (h : ∀ a ∈ l, Decides (conj (s.where_.map (Condition.eval times (g a)))) (p a)) :
    s.rows times tables = some ((l.filter fun a => p a).map g) := by
  rw [Select.rows, hsources, Option.bind_some, hproduct, List.mapM_map]
  exact mapM_filter h

section Product
variable {α β : Type} {name name' : List Char} {l : List α} {l' : List β} {f : α → Row} {g : β → Row}

theorem product_singleton : product [(name, l.map f)] = l.map fun a => [(name, f a)] := by
  rw [product, List.flatMap_map]
  exact List.map_eq_flatMap.symm

theorem product_pair : product [(name, l.map f), (name', l'.map g)] =
    (l ×ˢ l').map fun x => [(name, f x.1), (name', g x.2)] := by
  rw [product, product_singleton, List.flatMap_map]
  simp [SProd.sprod, List.product, List.map_flatMap, Function.comp_def]

/-! A column of one of two tables. -/

theorem value_first {a b c : List Char} {r r' : Row} {d : Option Datum} (hne : b ≠ a) (h : r.lookup c = some d) :
    Column.value ⟨some a, c⟩ [(a, r), (b, r')] = some d := by
  simp [Column.value, hne.symm, h]

theorem value_second {a b c : List Char} {r r' : Row} {d : Option Datum} (hne : b ≠ a) (h : r'.lookup c = some d) :
    Column.value ⟨some b, c⟩ [(a, r), (b, r')] = some d := by
  simp [Column.value, hne, h]

theorem filter_product {p : α × β → Bool} : (l ×ˢ l').filter p =
    l.flatMap fun a => (l'.filter fun b => p (a, b)).map fun b => (a, b) := by
  simp [SProd.sprod, List.product, List.filter_flatMap, List.filter_map, Function.comp_def]

end Product

/-- What is written for a query selects the rows of the query. -/
theorem selects_eq {q : Query} {o : Operand} {text : List Char} (ho : o.WellFormed) (hq : q.Named)
    (h : q.Spelled o) (htext : tokens .code text = some o.tokens) :
    selects times tables text = q.rows times tables := by
  rw [selects, htext, Option.bind_some, query_tokens ho hq h, Option.bind_some]

end Rows

end SqlSelect
