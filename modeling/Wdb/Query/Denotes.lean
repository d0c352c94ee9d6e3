import Wdb.Query.PrintedNumbers
import Wdb.Store.Read

/-! The conditions of a query that come from the arguments of a call, one by one.

    An argument denotes a specification, once its times are read, and asks for the rows that the specification
    covers. What is written for it is a condition that decides just that. -/

namespace Wdb.Query
open SqlText SqlSelect SqlTypes Wdb.Read
open Store (Arg ReadParameters ReferenceTime ValidTime TimeCode LevelCode Level ValueV)

/-! ### What the arguments denote -/

/-- The name of a code. -/
def codeName : TimeCode → String
  | .exact => "exact"
  | .inside => "inside"
  | .contains => "contains"
  | .before => "before"
  | .after => "after"

def timeCode (w : String) : Option TimeCode :=
  [TimeCode.exact, .inside, .contains, .before, .after].find? fun c => w = codeName c

/-- A code with the ends that it asks for: a time before another has no second end, one after it no first. -/
def withEnds {α β : Type} (make : α → α → β) (c : TimeCode) (timeFrom timeTo : Option α) : Option β :=
  match c with
  | .before => timeFrom.map fun t => make t t
  | .after => timeTo.map fun t => make t t
  | _ => timeFrom.bind fun f => timeTo.map (make f)

namespace TimeSpecification
variable (times : Times) (ts : TimeSpecification)

/-- The second end of a specification, from how an end is read and moved. -/
def timeTo {α : Type} (read : String → Option α) (moved : (ℤ → ℤ) → α → α) : Option α :=
  if ts.durationInsteadOfTo_ then (times.intervalIn ts.interval).bind fun move => (read ts.from_).map (moved move)
  else read ts.to_

def denotesReference : Option ReferenceTime :=
  (timeCode ts.indeterminate_).bind fun c => withEnds (ReferenceTime.mk c) c (times.timestamptzIn ts.from_)
    (ts.timeTo times times.timestamptzIn id)

/-- An end of a valid time may be that of the row, or missing. -/
def bound (time : String) : Option (ℤ → Option ℤ) :=
  if time = "referencetime" then some some
  else if time = "NULL" then some fun _ => none
  else (times.timestamptzIn time).map fun t _ => some t

def denotesValid : Option ValidTime :=
  (timeCode ts.indeterminate_).bind fun c => withEnds (ValidTime.mk c) c (bound times ts.from_)
    (ts.timeTo times (bound times) fun move b r => (b r).map move)

end TimeSpecification

/-- An argument that is missing, or that is read. -/
def argument {α β : Type} (read : α → Option β) : Option α → Arg β
  | none => .null
  | some a => (read a).elim .invalid .value

/-- What an argument asks for that raises no error. -/
theorem of_argument {α β γ : Type} {read : α → Option β} {a : α} {ask : Arg β → Option γ} {f : γ}
    (hinvalid : ask .invalid = none) (h : ask (argument read (some a)) = some f) :
    ∃ x, read a = some x ∧ ask (.value x) = some f := by
  rw [argument] at h
  cases hread : read a with
  | none =>
    rw [hread, Option.elim_none, hinvalid] at h
    cases h
  | some x =>
    rw [hread] at h
    exact ⟨x, rfl, h⟩

/-- What the arguments of a call ask for, the location apart. -/
def WciReadParameterCollection.denotes (p : WciReadParameterCollection) (times : Times) : ReadParameters where
  dataProvider := argument some p.dataProvider
  referenceTime := argument (fun timeSpec => (TimeSpecification.parse timeSpec).toOption.bind
    (TimeSpecification.denotesReference times)) p.referenceTime
  validTime := argument (fun timeSpec => (TimeSpecification.parse timeSpec).toOption.bind
    (TimeSpecification.denotesValid times)) p.validTime
  parameter := argument some p.parameter
  level := argument levelSpecification p.level
  dataVersion := argument some p.dataVersion

/-! ### The rows of a value view -/

/-- The columns of a row, geometries and the code of a place apart; the value is of the view's type. -/
def columns {β : Type} (value : β → Datum) (w : ValueV β) : List (String × Datum) :=
  [("value", value w.value), ("dataproviderid", .int w.dataproviderid),
    ("dataprovidername", .text w.names.dp.dataprovidername),
    ("dataprovidernameleftset", .int w.names.dp.dataprovidernameleftset),
    ("dataprovidernamerightset", .int w.names.dp.dataprovidernamerightset),
    ("placename", .text w.names.pl.placename), ("placeid", .int w.placeid),
    ("originalsrid", .int w.names.pl.originalsrid), ("referencetime", .time w.referencetime),
    ("validtimefrom", .time w.validtimefrom), ("validtimeto", .time w.validtimeto),
    ("validtimeindeterminatecode", .int w.validtimeindeterminatecode),
    ("valueparameterid", .int w.valueparameterid), ("valueparametername", .text w.names.vp.parametername),
    ("valueunitname", .text w.names.vp.unitname), ("levelparameterid", .int w.levelparameterid),
    ("levelparametername", .text w.names.lp.parametername), ("levelunitname", .text w.names.lp.unitname),
    ("levelfrom", .real w.levelfrom), ("levelto", .real w.levelto),
    ("levelindeterminatecode", .int w.levelindeterminatecode), ("dataversion", .int w.dataversion),
    ("maxdataversion", .int w.maxdataversion), ("confidencecode", .int w.confidencecode),
    ("valuestoretime", .time w.valuestoretime), ("valueid", .int w.valueid)]

/-- A row whose values are there. -/
def full (l : List (String × Datum)) : Row := l.map fun c => (c.1.toList, some c.2)

def row {β : Type} (value : β → Datum) (w : ValueV β) : Row := full (columns value w)

theorem lookup_full (l : List (String × Datum)) (name : String) :
    (full l).lookup name.toList = (l.lookup name).map some := by
  induction l with
  | nil => rfl
  | cons c l ih =>
    have hbeq : (name.toList == c.1.toList) = (name == c.1) := by
      rw [Bool.eq_iff_iff, beq_iff_eq, beq_iff_eq, String.toList_inj]
    rw [full, List.map_cons, List.lookup_cons, List.lookup_cons, hbeq]
    cases name == c.1 with
    | true => rfl
    | false => exact ih

/-- The columns of a row are those that a query finds without the name of their table. -/
def Shows {β : Type} (value : β → Datum) (scope : Scope) (w : ValueV β) : Prop :=
  ∀ name d, (row value w).lookup name = some d → Column.value ⟨none, name⟩ scope = some d

/-- A column without its table. -/
def columnTerm (name : String) : Term := ⟨.column ⟨none, name.toList⟩, none⟩

section Shows
variable {β : Type} {value : β → Datum} {scope : Scope} {w : ValueV β} {times : Times} {name : String}
  {d : Option Datum}

theorem Shows.term {d : Datum} (h : Shows value scope w) (hd : (columns value w).lookup name = some d) :
    (columnTerm name).value times scope = some (some d) := by
  refine h _ _ ?_
  rw [row, lookup_full, hd]
  rfl

/-- In a query of the view alone. -/
theorem shows_singleton (a : List Char) (w : ValueV β) : Shows value [(a, row value w)] w := by
  intro name d hd
  simp [Column.value, hd]

/-- In a query of the view and of a table whose column the view does not have. -/
theorem shows_pair (a b c : List Char) (e : Option Datum) (hc : (row value w).lookup c = none) :
    Shows value [(a, row value w), (b, [(c, e)])] w := by
  intro name d hd
  have hne : name ≠ c := by
    rintro rfl
    rw [hc] at hd
    cases hd
  have hother : [(c, e)].lookup name = none := by
    rw [List.lookup_cons, beq_false_of_ne hne]
    rfl
  simp [Column.value, hd, hother]

end Shows

/-! ### Conditions that are added -/

/-- A step adds conditions to a query, which decide what holds of a row. -/
structure Restricts {β : Type} (times : Times) (value : β → Datum) (dom : ValueV β → Prop) (b b' : Builder)
    (P : ValueV β → Prop) (cs : List Condition) : Prop where
  clauses : b' = { b with where_ := b'.where_ }
  written : b'.where_.map meant = b.where_.map meant ++ cs.map Condition.tokens
  named : ∀ c ∈ cs, c.Named
  decides : ∀ scope w, Shows value scope w → dom w → Decides (conj (cs.map (Condition.eval times scope))) (P w)

section Restricts
variable {β : Type} {times : Times} {value : β → Datum} {dom : ValueV β → Prop} {b b' b'' : Builder}
  {P Q : ValueV β → Prop} {cs cs' : List Condition} {c : Condition} {t : Text}

theorem Restricts.refl (b : Builder) : Restricts times value dom b b (fun _ => True) [] :=
  ⟨rfl, by simp, by simp, fun _ _ _ _ => decides_conj_nil⟩

theorem Restricts.trans (h : Restricts times value dom b b' P cs) (h' : Restricts times value dom b' b'' Q cs') :
    Restricts times value dom b b'' (fun w => P w ∧ Q w) (cs ++ cs') where
  clauses := by
    rw [h'.clauses, h.clauses]
  written := by rw [h'.written, h.written, List.map_append, List.append_assoc]
  named := List.forall_mem_append.2 ⟨h.named, h'.named⟩
  decides scope w hw hdom := by
    rw [List.map_append]
    exact (h.decides scope w hw hdom).conj_append (h'.decides scope w hw hdom)

theorem Restricts.congr (h : Restricts times value dom b b' P cs) (hPQ : ∀ w, P w ↔ Q w) :
    Restricts times value dom b b' Q cs :=
  ⟨h.clauses, h.written, h.named, fun scope w hw hdom => (h.decides scope w hw hdom).congr (hPQ w)⟩

/-- One condition. -/
theorem restricts_where (b : Builder) (ht : meant t = c.tokens) (hc : c.Named)
    (h : ∀ scope w, Shows value scope w → dom w → Decides (c.eval times scope) (P w)) :
    Restricts times value dom b (b.where' t) P [c] := by
  refine ⟨rfl, by simp [Builder.where', ht], by simpa using hc, fun scope w hw hdom => ?_⟩
  exact ((h scope w hw hdom).conj_cons decides_conj_nil).congr (by simp)

/-- `FALSE`. -/
theorem restricts_false (b : Builder) (ht : meant t = [.word "FALSE".toList]) :
    Restricts times value dom b (b.where' t) (fun _ => False) [.test (.constant false)] :=
  restricts_where b ht ⟨trivial, by simp [Test.tokens]⟩ fun _ _ _ _ => (decides_some false).congr (by simp)

end Restricts

/-! ### Times -/

/-- A column is compared with a value. -/
def compares (name : String) (r : Relation) (b : Term) : Test := .compare (columnTerm name) r b

/-- What a time is compared with is at a time, or is missing. -/
def Ends (times : Times) (scope : Scope) (b : Term) (bound : Option ℤ) : Prop :=
  b.value times scope = some none ∧ bound = none ∨
    ∃ d t, b.value times scope = some (some d) ∧ d.time? times = some t ∧ bound = some t

section Ends
variable {times : Times} {scope : Scope} {a b : Term} {base : Base} {bound : Option ℤ} {t : ℤ} {s i : String}
  {move : ℤ → ℤ}

theorem decides_compare (r : Relation) (ha : a.value times scope = some (some (.time t)))
    (hb : Ends times scope b bound) :
    Decides ((Test.compare a r b).eval times scope) (bound.any (r.holds t) = true) := by
  rcases hb with ⟨hb, rfl⟩ | ⟨d, u, hb, hd, rfl⟩
  · rw [Test.eval, ha, hb, asked_missing]
    exact decides_none.congr (by simp)
  · have hcompare : r.compare times (.time t) d = some (r.holds t u) := by
      cases d with
      | time v =>
        obtain rfl := Option.some.inj hd
        rfl
      | unknown s =>
        change (times.timestamptzIn s).map (r.holds t) = _
        have hread : times.timestamptzIn s = some u := hd
        rw [hread, Option.map_some]
      | _ => cases hd
    rw [Test.eval, ha, hb, asked_some, hcompare]
    exact decides_some _

theorem ends_literal (h : times.timestamptzIn s = some t) : Ends times scope ⟨.literal s.toList, none⟩ (some t) := by
  refine Or.inr ⟨.unknown s, t, ?_, h, rfl⟩
  simp [Term.value, Base.value]

theorem Ends.interval (h : Ends times scope ⟨base, none⟩ bound) (hi : times.intervalIn i = some move) :
    Ends times scope ⟨base, some i.toList⟩ (bound.map move) := by
  rcases h with ⟨hb, rfl⟩ | ⟨d, t, hb, hd, rfl⟩
  · have hbase : base.value scope = some none := hb
    exact Or.inl ⟨by simp [Term.value, hi, hbase], rfl⟩
  · have hbase : base.value scope = some (some d) := hb
    exact Or.inr ⟨.time (move t), move t, by simp [Term.value, hi, hbase, hd], rfl, rfl⟩

end Ends

/-- The second end, as it is written. -/
def endTerm (base : String → Base) (ts : TimeSpecification) : Term :=
  if ts.durationInsteadOfTo_ then ⟨base ts.from_, some ts.interval.toList⟩ else ⟨base ts.to_, none⟩

/-- Two columns that are compared with the ends of a specification: how, for every code. -/
structure Compared where
  columnFrom : String
  columnTo : String
  contains : Relation × Relation

def Compared.relations (m : Compared) : TimeCode → Option Relation × Option Relation
  | .exact => (some .eq, some .eq)
  | .inside => (some .ge, some .le)
  | .contains => (some m.contains.1, some m.contains.2)
  | .before => (some .lt, none)
  | .after => (none, some .gt)

def Compared.tests (m : Compared) (c : TimeCode) (timeFrom timeTo : Term) : List Test :=
  (m.relations c).1.toList.map (fun r => compares m.columnFrom r timeFrom) ++
    (m.relations c).2.toList.map (fun r => compares m.columnTo r timeTo)

section Compared
variable {times : Times} {scope : Scope} {m : Compared} {c : TimeCode} {timeFrom timeTo : Term}
  {boundFrom boundTo : Option ℤ} {a b : ℤ}

/-- A comparison, if there is one. -/
theorem decides_relations {o : Option Relation} {f : Relation → Test} {p : Relation → Prop}
    (h : ∀ r ∈ o, Decides ((f r).eval times scope) (p r)) :
    Decides (conj ((o.toList.map f).map (Test.eval times scope))) (∀ r ∈ o, p r) := by
  cases o with
  | none => exact decides_conj_nil.congr (by simp)
  | some r => exact ((h r rfl).conj_cons decides_conj_nil).congr (by simp)

theorem decides_tests (ha : (columnTerm m.columnFrom).value times scope = some (some (.time a)))
    (hb : (columnTerm m.columnTo).value times scope = some (some (.time b)))
    (hfrom : ∀ r ∈ (m.relations c).1, Ends times scope timeFrom boundFrom)
    (hto : ∀ r ∈ (m.relations c).2, Ends times scope timeTo boundTo) :
    Decides (conj ((m.tests c timeFrom timeTo).map (Test.eval times scope)))
      ((∀ r ∈ (m.relations c).1, boundFrom.any (r.holds a)) ∧ ∀ r ∈ (m.relations c).2, boundTo.any (r.holds b)) := by
  rw [Compared.tests, List.map_append]
  exact (decides_relations fun r hr => decides_compare r ha (hfrom r hr)).conj_append
    (decides_relations fun r hr => decides_compare r hb (hto r hr))

end Compared

/-! Their texts. -/

section Texts
variable {name name' opening sep : String} {r r' : Relation} {t u : Text} {a b : Term} {ts : TimeSpecification}
  {base : String → Base} {write : String → Text}

theorem meant_comparison (ho : meant (code opening) = (columnTerm name).tokens ++ r.tokens) (ht : meant t = a.tokens) :
    meant (code opening ++ t) = conjoined [compares name r a] := by
  rw [meant_append, ho, ht]
  simp [compares, conjoined, joined, Test.tokens]

theorem meant_comparisons (ho : meant (code opening) = (columnTerm name).tokens ++ r.tokens) (ht : meant t = a.tokens)
    (hs : meant (code sep) = .word "AND".toList :: ((columnTerm name').tokens ++ r'.tokens))
    (hu : meant u = b.tokens) :
    meant (code opening ++ t ++ code sep ++ u) = conjoined [compares name r a, compares name' r' b] := by
  rw [meant_append, meant_append, meant_append, ho, ht, hs, hu]
  simp [compares, conjoined, joined, Test.tokens]

theorem meant_endTerm (ts : TimeSpecification) (h : ∀ s, meant (write s) = (base s).tokens) :
    meant (if ts.durationInsteadOfTo_ then write ts.from_ ++ code "::timestamp with time zone+" ++ spliced ts.interval
      else write ts.to_) = (endTerm base ts).tokens := by
  unfold endTerm
  split
  · have hzone : meant (code "::timestamp with time zone+") = zone := by decide
    have hinterval : meant (spliced ts.interval) = [.literal ts.interval.toList] := rfl
    rw [meant_append, meant_append, h, hzone, hinterval]
    simp [Term.tokens]
  · rw [h]
    simp [Term.tokens]

/-- Alternatives of one conjoined. -/
theorem meant_brackets (opening closing : String) {tests : List Test} (ho : meant (code opening) = [.symbol '('])
    (hc : meant (code closing) = [.symbol ')']) (ht : meant t = conjoined tests) :
    meant (code opening ++ t ++ code closing) = (Condition.anyOf [tests]).tokens := by
  rw [meant_append, meant_append, ho, hc, ht]
  simp [Condition.tokens, joined]

end Texts

theorem eq_codeName {w : String} {c : TimeCode} (h : timeCode w = some c) : w = codeName c := by
  simpa using List.find?_some h

/-- A code needs the ends that its relations compare with. -/
theorem of_withEnds {α β : Type} {make : α → α → β} {c : TimeCode} {timeFrom timeTo : Option α} {x : β}
    (h : withEnds make c timeFrom timeTo = some x) :
    ∃ f t, x = make f t ∧ (c ≠ .after → timeFrom = some f) ∧ (c ≠ .before → timeTo = some t) := by
  have hboth : (timeFrom.bind fun f => timeTo.map (make f)) = some x →
      ∃ f t, x = make f t ∧ timeFrom = some f ∧ timeTo = some t := by
    intro h
    obtain ⟨f, hf, h⟩ := Option.bind_eq_some_iff.1 h
    obtain ⟨t, ht, rfl⟩ := Option.map_eq_some_iff.1 h
    exact ⟨f, t, rfl, hf, ht⟩
  cases c with
  | before =>
    obtain ⟨f, hf, rfl⟩ := Option.map_eq_some_iff.1 h
    exact ⟨f, f, rfl, fun _ => hf, fun hne => absurd rfl hne⟩
  | after =>
    obtain ⟨t, ht, rfl⟩ := Option.map_eq_some_iff.1 h
    exact ⟨t, t, rfl, fun hne => absurd rfl hne, fun _ => ht⟩
  | _ =>
    obtain ⟨f, t, rfl, hf, ht⟩ := hboth h
    exact ⟨f, t, rfl, fun _ => hf, fun _ => ht⟩

/-! Reference times -/

/-- How a reference time is compared. -/
def referenceTimes : Compared := ⟨"referencetime", "referencetime", (.eq, .eq)⟩

def literalBase (s : String) : Base := .literal s.toList

/-- A time that is equal to both ends is compared once when these are written alike. -/
def referenceTests (ts : TimeSpecification) (c : TimeCode) : List Test :=
  if c = .exact ∧ ts.durationInsteadOfTo_ = false ∧ ts.from_ = ts.to_ then
    [compares "referencetime" .eq ⟨literalBase ts.from_, none⟩]
  else referenceTimes.tests c ⟨literalBase ts.from_, none⟩ (endTerm literalBase ts)

section ReferenceTime
variable {times : Times} {ts : TimeSpecification} {c : TimeCode}

theorem literalBase_named (s : String) : (literalBase s).Named := trivial

theorem meant_literal (s : String) : meant (spliced s) = (literalBase s).tokens := rfl

theorem meant_referenceTime (h : timeCode ts.indeterminate_ = some c) :
    meant (referenceTime ts) = conjoined (referenceTests ts c) := by
  have hfrom : meant (spliced ts.from_) = Term.tokens ⟨literalBase ts.from_, none⟩ := rfl
  have hto := meant_endTerm ts meant_literal
  have hname := eq_codeName h
  unfold referenceTime referenceTests
  extract_lets timeFrom timeTo
  cases c with
  | exact =>
    have hcode : ts.indeterminate_ = "exact" := hname
    have halike : timeFrom = timeTo ↔ ts.durationInsteadOfTo_ = false ∧ ts.from_ = ts.to_ := by
      cases hd : ts.durationInsteadOfTo_ <;> simp [timeFrom, timeTo, hd, spliced, code]
    simp only [hcode, if_true, true_and, ← halike]
    split
    · exact meant_comparison (by decide) hfrom
    · exact meant_comparisons (by decide) hfrom (by decide) hto
  | inside =>
    have hcode : ts.indeterminate_ = "inside" := hname
    simp only [hcode, reduceIte, String.reduceEq]
    exact meant_comparisons (by decide) hfrom (by decide) hto
  | contains =>
    have hcode : ts.indeterminate_ = "contains" := hname
    simp only [hcode, reduceIte, String.reduceEq]
    exact meant_comparisons (by decide) hfrom (by decide) hto
  | before =>
    have hcode : ts.indeterminate_ = "before" := hname
    simp only [hcode, reduceIte, String.reduceEq]
    exact meant_comparison (by decide) hfrom
  | after =>
    have hcode : ts.indeterminate_ = "after" := hname
    simp only [hcode, reduceIte, String.reduceEq]
    exact meant_comparison (by decide) hto

theorem named_compares (name : String) (r : Relation) {b : Term} (hname : isLabel name.toList) (hb : b.Named) :
    (compares name r b).Named := ⟨⟨⟨by simp, hname⟩⟩, hb⟩

theorem named_endTerm (ts : TimeSpecification) {base : String → Base} (h : ∀ s, (base s).Named) : (endTerm base ts).Named := by
  unfold endTerm
  split
  · exact ⟨h _⟩
  · exact ⟨h _⟩

/-- Comparisons are tests, one at least. -/
theorem named_tests {m : Compared} {timeFrom timeTo : Term} (hfrom : isLabel m.columnFrom.toList)
    (hto : isLabel m.columnTo.toList) (htimeFrom : timeFrom.Named) (htimeTo : timeTo.Named) :
    m.tests c timeFrom timeTo ≠ [] ∧ ∀ t ∈ m.tests c timeFrom timeTo, t.Named := by
  constructor
  · cases c <;> simp [Compared.tests, Compared.relations]
  · intro t ht
    rcases List.mem_append.1 ht with ht | ht
    · obtain ⟨r, -, rfl⟩ := List.mem_map.1 ht
      exact named_compares _ r hfrom htimeFrom
    · obtain ⟨r, -, rfl⟩ := List.mem_map.1 ht
      exact named_compares _ r hto htimeTo

theorem named_referenceTests : referenceTests ts c ≠ [] ∧ ∀ t ∈ referenceTests ts c, t.Named := by
  unfold referenceTests
  split
  · exact ⟨by simp, by simpa using named_compares "referencetime" .eq (by decide) ⟨literalBase_named _⟩⟩
  · exact named_tests (by decide) (by decide) ⟨literalBase_named _⟩ (named_endTerm ts literalBase_named)

/-- The second end is where the specification says. -/
theorem ends_timeTo {scope : Scope} {t : ℤ} (h : ts.timeTo times times.timestamptzIn id = some t) :
    Ends times scope (endTerm literalBase ts) (some t) := by
  unfold TimeSpecification.timeTo at h
  unfold endTerm
  split at h
  · next hd =>
    obtain ⟨move, hmove, h⟩ := Option.bind_eq_some_iff.1 h
    obtain ⟨u, hu, rfl⟩ := Option.map_eq_some_iff.1 h
    rw [if_pos hd]
    exact (ends_literal hu).interval hmove
  · next hd =>
    rw [if_neg hd]
    exact ends_literal h

theorem decides_referenceTests {β : Type} {value : β → Datum} {scope : Scope} {w : ValueV β} {rt : ReferenceTime}
    (h : ts.denotesReference times = some rt) (hc : timeCode ts.indeterminate_ = some c) (hw : Shows value scope w)
    {f : ValueV β → Bool} (hf : Store.addReferenceTimeQuery (.value rt) = some f) :
    Decides (conj ((referenceTests ts c).map (Test.eval times scope))) (f w = true) := by
  rw [TimeSpecification.denotesReference, hc, Option.bind_some] at h
  obtain ⟨a, b, rfl, ha, hb⟩ := of_withEnds h
  obtain rfl := Option.some.inj hf
  have hcolumn : (columnTerm "referencetime").value times scope = some (some (.time w.referencetime)) :=
    hw.term rfl
  unfold referenceTests
  split
  · next halike =>
    obtain ⟨rfl, hd, heq⟩ := halike
    have hfrom := ha (by simp)
    have hto := hb (by simp)
    rw [TimeSpecification.timeTo, hd, if_neg Bool.false_ne_true, ← heq] at hto
    obtain rfl := Option.some.inj (hfrom.symm.trans hto)
    refine ((decides_compare .eq hcolumn (ends_literal hfrom)).conj_cons decides_conj_nil).congr ?_
    simp [Relation.holds]
  · have hfrom : ∀ r ∈ (referenceTimes.relations c).1, Ends times scope ⟨literalBase ts.from_, none⟩ (some a) := by
      intro r hr
      refine ends_literal (ha ?_)
      rintro rfl
      cases hr
    have hto : ∀ r ∈ (referenceTimes.relations c).2, Ends times scope (endTerm literalBase ts) (some b) := by
      intro r hr
      refine ends_timeTo (hb ?_)
      rintro rfl
      cases hr
    refine (decides_tests (m := referenceTimes) hcolumn hcolumn hfrom hto).congr ?_
    cases c <;> simp [Compared.relations, referenceTimes, Relation.holds]

/-- The condition for a reference time decides which rows it asks for. -/
theorem restricts_referenceTime {β : Type} {value : β → Datum} {dom : ValueV β → Prop} {b b' : Builder}
    {spec : Option String} (h : addReferenceTimeQuery b spec = .ok b') {f : ValueV β → Bool}
    (hf : Store.addReferenceTimeQuery (argument (fun timeSpec => (TimeSpecification.parse timeSpec).toOption.bind
      (TimeSpecification.denotesReference times)) spec) = some f) :
    ∃ cs, Restricts times value dom b b' (fun w => f w = true) cs := by
  cases spec with
  | none =>
    obtain rfl := Except.ok.inj h
    obtain rfl := Option.some.inj hf
    exact ⟨[], (Restricts.refl b).congr fun w => by simp⟩
  | some timeSpec =>
    obtain ⟨ts, hts, h⟩ := Traverse.of_bind_eq_ok h
    obtain rfl := Except.ok.inj h
    obtain ⟨rt, hrt, hf⟩ := of_argument rfl hf
    rw [hts] at hrt
    have hrt : ts.denotesReference times = some rt := hrt
    obtain ⟨c, hc, -⟩ := Option.bind_eq_some_iff.1 hrt
    have htests : (referenceTests ts c) ≠ [] ∧ ∀ t ∈ referenceTests ts c, t.Named := named_referenceTests
    have hmeant := meant_brackets "(" ") " (by decide) (by decide) (meant_referenceTime hc)
    refine ⟨_, restricts_where b hmeant ⟨by simp, by simpa using htests⟩ fun scope w hw _ => ?_⟩
    exact ((decides_referenceTests hrt hc hw hf).disj_cons decides_disj_nil).congr (by simp)

end ReferenceTime

/-! Valid times -/

/-- How a valid time is compared. -/
def validTimes : Compared := ⟨"validtimefrom", "validtimeto", (.le, .ge)⟩

/-- An end of a valid time, as it is written. -/
def quoteBase (s : String) : Base :=
  if s = "referencetime" then .column ⟨none, "referencetime".toList⟩ else if s = "NULL" then .null
  else literalBase s

section ValidTime
variable {times : Times} {ts : TimeSpecification} {c : TimeCode}

theorem meant_quoteValidTime (s : String) : meant (quoteValidTime s) = (quoteBase s).tokens := by
  unfold quoteValidTime isSpecialValue quoteBase
  by_cases hreference : s = "referencetime"
  · subst hreference
    decide
  · by_cases hnull : s = "NULL"
    · subst hnull
      decide
    · simp only [hreference, hnull, decide_false, Bool.or_self, Bool.false_eq_true, if_false]
      exact meant_literal s

theorem named_quoteBase (s : String) : (quoteBase s).Named := by
  unfold quoteBase
  split
  · exact ⟨by simp, by decide⟩
  · split
    · trivial
    · exact literalBase_named s

theorem meant_validTime {q : Text} (h : timeCode ts.indeterminate_ = some c) (hq : validTime ts = .ok q) :
    meant q = conjoined (validTimes.tests c ⟨quoteBase ts.from_, none⟩ (endTerm quoteBase ts)) := by
  have hfrom : meant (quoteValidTime ts.from_) = Term.tokens ⟨quoteBase ts.from_, none⟩ := by
    rw [meant_quoteValidTime, Term.tokens, Option.elim_none, List.append_nil]
  have hto := meant_endTerm ts meant_quoteValidTime
  have hname := eq_codeName h
  unfold validTime at hq
  extract_lets timeFrom timeTo at hq
  cases c with
  | exact =>
    have hcode : ts.indeterminate_ = "exact" := hname
    simp only [hcode, reduceIte] at hq
    obtain rfl := Except.ok.inj hq
    exact meant_comparisons (by decide) hfrom (by decide) hto
  | inside =>
    have hcode : ts.indeterminate_ = "inside" := hname
    simp only [hcode, reduceIte, String.reduceEq] at hq
    obtain rfl := Except.ok.inj hq
    exact meant_comparisons (by decide) hfrom (by decide) hto
  | contains =>
    have hcode : ts.indeterminate_ = "contains" := hname
    simp only [hcode, reduceIte, String.reduceEq] at hq
    obtain rfl := Except.ok.inj hq
    exact meant_comparisons (by decide) hfrom (by decide) hto
  | before =>
    have hcode : ts.indeterminate_ = "before" := hname
    simp only [hcode, reduceIte, String.reduceEq] at hq
    obtain rfl := Except.ok.inj hq
    exact meant_comparison (by decide) hfrom
  | after =>
    have hcode : ts.indeterminate_ = "after" := hname
    simp only [hcode, reduceIte, String.reduceEq] at hq
    obtain rfl := Except.ok.inj hq
    exact meant_comparison (by decide) hto

section Rows
variable {β : Type} {value : β → Datum} {scope : Scope} {w : ValueV β} {bound : ℤ → Option ℤ} {s : String}

theorem ends_bound (hw : Shows value scope w) (h : TimeSpecification.bound times s = some bound) :
    Ends times scope ⟨quoteBase s, none⟩ (bound w.referencetime) := by
  unfold TimeSpecification.bound at h
  unfold quoteBase
  split at h
  · next hreference =>
    obtain rfl := Option.some.inj h
    rw [if_pos hreference]
    have hcolumn : (columnTerm "referencetime").value times scope = some (some (.time w.referencetime)) := hw.term rfl
    exact Or.inr ⟨_, _, hcolumn, rfl, rfl⟩
  · next hreference =>
    rw [if_neg hreference]
    split at h
    · next hnull =>
      obtain rfl := Option.some.inj h
      rw [if_pos hnull]
      exact Or.inl ⟨rfl, rfl⟩
    · next hnull =>
      obtain ⟨t, ht, rfl⟩ := Option.map_eq_some_iff.1 h
      rw [if_neg hnull]
      exact ends_literal ht

theorem ends_boundTo (hw : Shows value scope w)
    (h : ts.timeTo times (TimeSpecification.bound times) (fun move b r => (b r).map move) = some bound) :
    Ends times scope (endTerm quoteBase ts) (bound w.referencetime) := by
  unfold TimeSpecification.timeTo at h
  unfold endTerm
  split at h
  · next hd =>
    obtain ⟨move, hmove, h⟩ := Option.bind_eq_some_iff.1 h
    obtain ⟨bound', hbound, rfl⟩ := Option.map_eq_some_iff.1 h
    rw [if_pos hd]
    exact (ends_bound hw hbound).interval hmove
  · next hd =>
    rw [if_neg hd]
    exact ends_bound hw h

theorem decides_validTests {vt : ValidTime} (h : ts.denotesValid times = some vt)
    (hc : timeCode ts.indeterminate_ = some c) (hw : Shows value scope w) {f : ValueV β → Bool}
    (hf : Store.addValidTimeQuery (.value vt) = some f) :
    Decides (conj ((validTimes.tests c ⟨quoteBase ts.from_, none⟩ (endTerm quoteBase ts)).map
      (Test.eval times scope))) (f w = true) := by
  rw [TimeSpecification.denotesValid, hc, Option.bind_some] at h
  obtain ⟨a, b, rfl, ha, hb⟩ := of_withEnds h
  obtain rfl := Option.some.inj hf
  have hcolumnFrom : (columnTerm "validtimefrom").value times scope = some (some (.time w.validtimefrom)) :=
    hw.term rfl
  have hcolumnTo : (columnTerm "validtimeto").value times scope = some (some (.time w.validtimeto)) := hw.term rfl
  have hfrom : ∀ r ∈ (validTimes.relations c).1, Ends times scope ⟨quoteBase ts.from_, none⟩ (a w.referencetime) := by
    intro r hr
    refine ends_bound hw (ha ?_)
    rintro rfl
    cases hr
  have hto : ∀ r ∈ (validTimes.relations c).2, Ends times scope (endTerm quoteBase ts) (b w.referencetime) := by
    intro r hr
    refine ends_boundTo hw (hb ?_)
    rintro rfl
    cases hr
  refine (decides_tests (m := validTimes) hcolumnFrom hcolumnTo hfrom hto).congr ?_
  cases c <;>
  · simp [Compared.relations, validTimes, Store.compares]
    rfl

end Rows

/-- The condition for a valid time decides which rows it asks for. -/
theorem restricts_validTime {β : Type} {value : β → Datum} {dom : ValueV β → Prop} {b b' : Builder}
    {spec : Option String} (h : addValidTimeQuery b spec = .ok b') {f : ValueV β → Bool}
    (hf : Store.addValidTimeQuery (argument (fun timeSpec => (TimeSpecification.parse timeSpec).toOption.bind
      (TimeSpecification.denotesValid times)) spec) = some f) :
    ∃ cs, Restricts times value dom b b' (fun w => f w = true) cs := by
  cases spec with
  | none =>
    obtain rfl := Except.ok.inj h
    obtain rfl := Option.some.inj hf
    exact ⟨[], (Restricts.refl b).congr fun w => by simp⟩
  | some timeSpec =>
    obtain ⟨ts, hts, h⟩ := Traverse.of_bind_eq_ok h
    obtain ⟨q, hq, h⟩ := Traverse.of_bind_eq_ok h
    obtain rfl := Except.ok.inj h
    obtain ⟨vt, hvt, hf⟩ := of_argument rfl hf
    rw [hts] at hvt
    have hvt : ts.denotesValid times = some vt := hvt
    obtain ⟨c, hc, -⟩ := Option.bind_eq_some_iff.1 hvt
    have htests := named_tests (c := c) (m := validTimes) (by decide) (by decide) (⟨named_quoteBase ts.from_⟩ :
      Term.Named ⟨quoteBase ts.from_, none⟩)
      (named_endTerm ts named_quoteBase)
    have hmeant := meant_brackets "(" ")" (by decide) (by decide) (meant_validTime hc hq)
    refine ⟨_, restricts_where b hmeant ⟨by simp, by simpa using htests⟩ fun scope w hw _ => ?_⟩
    exact ((decides_validTests hvt hc hw hf).disj_cons decides_disj_nil).congr (by simp)

end ValidTime

end Wdb.Query
