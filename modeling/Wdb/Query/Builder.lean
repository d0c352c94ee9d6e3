import Wdb.Lib.SqlClauses

/-! `query::Builder`: the clauses of a query, each a list of texts, and the query that is made of them.

    A query that is made of closed texts is read as the clauses they stand in. -/

namespace Wdb.Query
open SqlText

/-- Why a query is not built: an error is raised, or the program has no defined behaviour. -/
inductive Failure where
  | raised (what : String)
  | undefined
  deriving DecidableEq

structure Builder where
  what_ : List Text := []
  from_ : List Text := []
  where_ : List Text := []
  with_ : List Text := []
  orderBy_ : List Text := []
  groupBy_ : List Text := []
  deriving DecidableEq

/-- Several texts with a separator between them. -/
def list (data : List Text) (separator : String := ", ") : Text :=
  match data with
  | [] => []
  | t :: ts => t ++ ts.flatMap fun u => code separator ++ u

namespace Builder

/-- `what(std::ostream &)`. -/
def whatText (b : Builder) : Text := if b.what_ = [] then code "*" else list b.what_

def str (b : Builder) : Except Failure Text :=
  if b.from_ = [] then .error (.raised "Object is not complete")
  else .ok <|
    (if b.with_ = [] then [] else code "WITH " ++ list b.with_ ++ code " ") ++
    code "SELECT " ++ b.whatText ++ code " FROM " ++ list b.from_ ++
    (if b.where_ = [] then [] else code " WHERE " ++ list b.where_ " AND ") ++
    (if b.groupBy_ = [] then [] else code " GROUP BY " ++ list b.groupBy_) ++
    (if b.orderBy_ = [] then [] else code " ORDER BY " ++ list b.orderBy_)

def what (b : Builder) (item : Text) : Builder := { b with what_ := b.what_ ++ [item] }

def from' (b : Builder) (table : Text) : Builder := { b with from_ := b.from_ ++ [table] }

def where' (b : Builder) (clause : Text) : Builder := { b with where_ := b.where_ ++ [clause] }

def with' (b statement : Builder) (alias_ : String) : Except Failure Builder := do
  let query ← statement.str
  return { b with with_ := b.with_ ++ [code (alias_ ++ " AS (") ++ query ++ code ")"] }

def orderBy (b : Builder) (clause : Text) : Builder := { b with orderBy_ := b.orderBy_ ++ [clause] }

def groupBy (b : Builder) (clause : Text) : Builder := { b with groupBy_ := b.groupBy_ ++ [clause] }

end Builder

/-! ### Closed texts -/

/-- A text that can stand in a clause. -/
structure Item (t : Text) : Prop where
  spans : Spans 0 t 0
  ne : meant t ≠ []

/-- Text that stands between others. -/
structure Separator (s : String) : Prop where
  spans : spans 0 [.code s] 0
  breaks : s.toList.head?.any breaks
  leaves : (scan .code s.toList).2 = .code

theorem comma : Separator ", " := ⟨by decide, by decide, by decide⟩

theorem conjunction : Separator " AND " := ⟨by decide, by decide, by decide⟩

section Clauses
variable {data : List Text} {t : Text} {s : String}

theorem Separator.item (hs : Separator s) (ht : Item t) : Spans 0 (code s ++ t) 0 ∧ Begins (code s ++ t) :=
  ⟨Spans.append_code (a := []) (spans_of_blank hs.spans) hs.leaves ht.spans, s, rfl, hs.breaks⟩

/-- A list of closed texts is one. -/
theorem item_list (hs : Separator s) (hne : data ≠ []) (h : ∀ t ∈ data, Item t) : Item (list data s) := by
  obtain ⟨t, ts, rfl⟩ := List.exists_cons_of_ne_nil hne
  have ht := h t List.mem_cons_self
  refine ⟨ht.spans.flatMap fun u hu => hs.item (h u (List.mem_cons_of_mem t hu)), ?_⟩
  rw [list, meant_append]
  exact List.append_ne_nil_of_left_ne_nil ht.ne _

end Clauses

namespace Builder

/-- What stands in the clauses is closed. -/
structure Sound (b : Builder) : Prop where
  what_ : ∀ t ∈ b.what_, Item t
  from_ : ∀ t ∈ b.from_, Item t
  where_ : ∀ t ∈ b.where_, Item t
  with_ : ∀ t ∈ b.with_, Item t
  orderBy_ : ∀ t ∈ b.orderBy_, Item t
  groupBy_ : ∀ t ∈ b.groupBy_, Item t

/-- The clauses of the query. -/
def operand (b : Builder) : Operand where
  with_ := meant (list b.with_)
  what := meant b.whatText
  from_ := meant (list b.from_)
  where_ := meant (list b.where_ " AND ")
  groupBy := meant (list b.groupBy_)
  orderBy := meant (list b.orderBy_)

variable {b : Builder} {t : Text}

theorem Sound.whatText (h : b.Sound) : Item b.whatText := by
  unfold Builder.whatText
  split
  · exact ⟨spans_of_blank (by decide), by decide⟩
  · next hne => exact item_list comma hne h.what_

/-- The keyword of a clause, with blanks on both sides. -/
structure Keyword (first : String) : Prop where
  spans : spans 1 [.code first] 1
  breaks : first.toList.head?.any breaks
  leaves : (scan .code first.toList).2 = .code

theorem keyword_from : Keyword " FROM " := ⟨by decide, by decide, by decide⟩
theorem keyword_where : Keyword " WHERE " := ⟨by decide, by decide, by decide⟩
theorem keyword_groupBy : Keyword " GROUP BY " := ⟨by decide, by decide, by decide⟩
theorem keyword_orderBy : Keyword " ORDER BY " := ⟨by decide, by decide, by decide⟩

/-- A clause follows any text. -/
theorem Keyword.clause {first : String} {u : Text} (hf : Keyword first) (ht : Spans 1 t 1)
    (hu : Item u) : Spans 1 (t ++ code first ++ u) 1 := by
  have hcode : Spans 1 (code first) 1 := spans_of_blank hf.spans
  exact (ht.append_begins hcode ⟨first, rfl, hf.breaks⟩).append_code hf.leaves hu.spans.succ

section Optional
variable {data : List Text} {s first : String}

theorem Keyword.optional (hf : Keyword first) (hs : Separator s) (h : ∀ t ∈ data, Item t)
    (ht : Spans 1 t 1) : Spans 1 (t ++ if data = [] then [] else code first ++ list data s) 1 := by
  split
  · rwa [List.append_nil]
  · next hne =>
    rw [← List.append_assoc]
    exact hf.clause ht (item_list hs hne h)

theorem closed_list (hs : Separator s) (h : ∀ t ∈ data, Item t) : Closed (meant (list data s)) := by
  cases data with
  | nil => rfl
  | cons t ts => exact (item_list hs (List.cons_ne_nil t ts) h).spans.depth

theorem meant_list_eq_nil (hs : Separator s) (h : ∀ t ∈ data, Item t) :
    meant (list data s) = [] ↔ data = [] := by
  constructor
  · intro hnil
    by_contra hne
    exact (item_list hs hne h).ne hnil
  · rintro rfl
    rfl

/-- A clause that may be left out. -/
theorem meant_optional (first keyword : String) (words : List Token)
    (hfirst : (Part.code first).tokens = .word keyword.toList :: words) (hs : Separator s)
    (h : ∀ t ∈ data, Item t) :
    meant (if data = [] then [] else code first ++ list data s) =
      (SqlText.optional keyword words (meant (list data s))).flatMap Clause.tokens := by
  rw [SqlText.optional]
  by_cases hdata : data = []
  · rw [if_pos hdata, if_pos ((meant_list_eq_nil hs h).2 hdata)]
    rfl
  · rw [if_neg hdata, if_neg fun hnil => hdata ((meant_list_eq_nil hs h).1 hnil), meant_append, meant_code,
      hfirst]
    simp [Clause.tokens]

theorem closed_of_mem_optional {keyword : String} {words body : List Token} {c : Clause}
    (hwords : Closed words) (hbody : Closed body) (h : c ∈ SqlText.optional keyword words body) :
    Closed c.body := by
  unfold SqlText.optional at h
  split at h
  · cases h
  · rw [List.mem_singleton.1 h]
    exact hwords.append hbody

end Optional

/-- A query is read as its clauses. -/
theorem Sound.str (h : b.Sound) (hstr : b.str = .ok t) :
    Spans 1 t 1 ∧ meant t = b.operand.tokens ∧ b.operand.WellFormed := by
  unfold Builder.str at hstr
  split at hstr
  · cases hstr
  next hfrom =>
  obtain rfl := Except.ok.inj hstr
  have hfroms : Item (list b.from_) := item_list comma hfrom h.from_
  refine ⟨?_, ?_, ?_⟩
  · have hwith : Spans 1 ((if b.with_ = [] then [] else code "WITH " ++ list b.with_ ++ code " ") ++
        code "SELECT ") 1 := by
      split
      · exact spans_of_blank (by decide)
      · next hne =>
        have hlist : Spans 1 (code "WITH " ++ list b.with_) 1 :=
          Spans.append_code (a := []) (spans_of_blank (by decide)) (by decide)
            (item_list comma hne h.with_).spans.succ
        have hblank : Spans 1 (code " ") 1 := spans_of_blank (by decide)
        have hcode : Spans 1 (code "SELECT ") 1 := spans_of_blank (by decide)
        exact (hlist.append_begins hblank ⟨" ", rfl, by decide⟩).append_code (by decide) hcode
    have hselect := hwith.append_code (by decide) h.whatText.spans.succ
    have hbody := keyword_from.clause hselect hfroms
    exact keyword_orderBy.optional comma h.orderBy_ (keyword_groupBy.optional comma h.groupBy_
      (keyword_where.optional conjunction h.where_ hbody))
  · have hwith : meant (if b.with_ = [] then [] else code "WITH " ++ list b.with_ ++ code " ") =
        (SqlText.optional "WITH" [] (meant (list b.with_))).flatMap Clause.tokens := by
      rw [← meant_optional "WITH " "WITH" [] (by decide) comma h.with_]
      split
      · rfl
      · rw [meant_append, meant_code]
        exact List.append_nil _
    have hwhere := meant_optional " WHERE " "WHERE" [] (by decide) conjunction h.where_
    have hgroupBy := meant_optional " GROUP BY " "GROUP" [.word "BY".toList] (by decide) comma h.groupBy_
    have horderBy := meant_optional " ORDER BY " "ORDER" [.word "BY".toList] (by decide) comma h.orderBy_
    have hselect : meant (code "SELECT ") = [.word "SELECT".toList] := by decide
    have hfromword : meant (code " FROM ") = [.word "FROM".toList] := by decide
    rw [Operand.tokens, Operand.clauses, meant_append, meant_append, meant_append, meant_append, meant_append,
      meant_append, meant_append, hwith, hwhere, hgroupBy, horderBy, hselect, hfromword]
    simp [operand, Clause.tokens]
  · refine ⟨h.whatText.ne, hfroms.ne, fun c hc => ?_⟩
    have hno : Closed [] := by decide
    have hby : Closed [.word "BY".toList] := by decide
    simp only [operand, Operand.clauses, List.mem_append, List.mem_cons, List.not_mem_nil, or_false] at hc
    rcases hc with (((hc | rfl | rfl) | hc) | hc) | hc
    · exact closed_of_mem_optional hno (closed_list comma h.with_) hc
    · exact h.whatText.spans.depth
    · exact hfroms.spans.depth
    · exact closed_of_mem_optional hno (closed_list conjunction h.where_) hc
    · exact closed_of_mem_optional hby (closed_list comma h.groupBy_) hc
    · exact closed_of_mem_optional hby (closed_list comma h.orderBy_) hc

section Operations
variable {b' statement : Builder} {alias_ : String}

theorem forall_mem_concat {P : Text → Prop} {l : List Text} (h : ∀ u ∈ l, P u) (ht : P t) :
    ∀ u ∈ l ++ [t], P u := by
  intro u hu
  rcases List.mem_append.1 hu with hu | hu
  · exact h u hu
  · rwa [List.mem_singleton.1 hu]

theorem Sound.what (h : b.Sound) (ht : Item t) : (b.what t).Sound :=
  { h with what_ := forall_mem_concat h.what_ ht }

theorem Sound.from' (h : b.Sound) (ht : Item t) : (b.from' t).Sound :=
  { h with from_ := forall_mem_concat h.from_ ht }

theorem Sound.where' (h : b.Sound) (ht : Item t) : (b.where' t).Sound :=
  { h with where_ := forall_mem_concat h.where_ ht }

theorem Sound.orderBy (h : b.Sound) (ht : Item t) : (b.orderBy t).Sound :=
  { h with orderBy_ := forall_mem_concat h.orderBy_ ht }

theorem Sound.groupBy (h : b.Sound) (ht : Item t) : (b.groupBy t).Sound :=
  { h with groupBy_ := forall_mem_concat h.groupBy_ ht }

theorem with'_eq_ok (h : b.with' statement alias_ = .ok b') : ∃ query, statement.str = .ok query ∧
    b' = { b with with_ := b.with_ ++ [code (alias_ ++ " AS (") ++ query ++ code ")"] } := by
  cases hstr : statement.str with
  | error e => simp [Builder.with', hstr, bind, Except.bind] at h
  | ok query =>
    refine ⟨query, rfl, ?_⟩
    simp only [Builder.with', hstr, bind, Except.bind, pure, Except.pure, Except.ok.injEq] at h
    exact h.symm

/-- A query in brackets, under a name. -/
theorem Sound.with' (h : b.Sound) (hs : statement.Sound)
    (hspans : spans 0 [.code (alias_ ++ " AS (")] 1 ∧ (scan .code (alias_ ++ " AS (").toList).2 = .code)
    (hb' : b.with' statement alias_ = .ok b') : b'.Sound := by
  obtain ⟨query, hquery, rfl⟩ := with'_eq_ok hb'
  obtain ⟨hinner, _, _⟩ := hs.str hquery
  refine { h with with_ := forall_mem_concat h.with_ ⟨?_, ?_⟩ }
  · have hopen : Spans 0 ([] ++ code (alias_ ++ " AS (")) 1 := spans_of_blank hspans.1
    have hclose : Spans 1 (code ")") 0 := spans_of_blank (by decide)
    exact (hopen.append_code hspans.2 hinner).append_begins hclose ⟨")", rfl, by decide⟩
  · have hne : meant (code ")") ≠ [] := by decide
    rw [meant_append]
    exact List.append_ne_nil_of_right_ne_nil _ hne

end Operations

end Builder

/-! ### The strings of users -/

/-- A piece that could be read as something else than it is meant to be. -/
def Risky : Piece → Prop
  | .part (.spliced _) => True
  | .bare _ => True
  | _ => False

section Strings
variable {x : Piece} {data : List Text} {s : String}

theorem not_risky_code (h : Risky x) : x ∉ code s := by
  intro hx
  rw [List.mem_singleton.1 hx] at h
  exact h

/-- A piece stands in one of several texts. -/
def StandsIn (x : Piece) (data : List Text) : Prop := ∃ t ∈ data, x ∈ t

theorem standsIn_concat {t : Text} : StandsIn x (data ++ [t]) ↔ StandsIn x data ∨ x ∈ t := by
  simp [StandsIn, or_and_right, exists_or]

theorem mem_list (h : Risky x) : x ∈ list data s ↔ StandsIn x data := by
  cases data with
  | nil => simp [list, StandsIn]
  | cons t ts => simp [list, StandsIn, not_risky_code h]

theorem mem_clause (h : Risky x) {first : String} :
    x ∈ (if data = [] then [] else code first ++ list data s) ↔ StandsIn x data := by
  split
  · next hnil => simp [hnil, StandsIn]
  · simp [not_risky_code h, mem_list h]

namespace Builder
variable {b b' statement : Builder} {t : Text} {alias_ : String}

/-- A piece stands in a clause. -/
def Has (b : Builder) (x : Piece) : Prop :=
  StandsIn x b.with_ ∨ StandsIn x b.what_ ∨ StandsIn x b.from_ ∨ StandsIn x b.where_ ∨
    StandsIn x b.groupBy_ ∨ StandsIn x b.orderBy_

theorem mem_whatText (hx : Risky x) : x ∈ b.whatText ↔ StandsIn x b.what_ := by
  unfold Builder.whatText
  split
  · next hnil => simp [hnil, StandsIn, not_risky_code hx]
  · exact mem_list hx

/-- What stands in a query stands in its clauses. -/
theorem mem_str (hx : Risky x) (h : b.str = .ok t) : x ∈ t ↔ b.Has x := by
  unfold Builder.str at h
  split at h
  · cases h
  obtain rfl := Except.ok.inj h
  have hwith : x ∈ (if b.with_ = [] then [] else code "WITH " ++ list b.with_ ++ code " ") ↔
      StandsIn x b.with_ := by
    rw [← mem_clause hx (s := ", ")]
    split
    · rfl
    · rw [List.mem_append, or_iff_left (not_risky_code hx)]
  simp only [List.mem_append, hwith, mem_clause hx, mem_whatText hx, not_risky_code hx, mem_list hx,
    or_false, or_assoc, Has]

theorem has_what : (b.what t).Has x ↔ b.Has x ∨ x ∈ t := by
  simp only [Has, Builder.what, standsIn_concat]
  tauto

theorem has_from' : (b.from' t).Has x ↔ b.Has x ∨ x ∈ t := by
  simp only [Has, Builder.from', standsIn_concat]
  tauto

theorem has_where' : (b.where' t).Has x ↔ b.Has x ∨ x ∈ t := by
  simp only [Has, Builder.where', standsIn_concat]
  tauto

theorem has_orderBy : (b.orderBy t).Has x ↔ b.Has x ∨ x ∈ t := by
  simp only [Has, Builder.orderBy, standsIn_concat]
  tauto

theorem has_groupBy : (b.groupBy t).Has x ↔ b.Has x ∨ x ∈ t := by
  simp only [Has, Builder.groupBy, standsIn_concat]
  tauto

theorem has_with' (hx : Risky x) (h : b.with' statement alias_ = .ok b') :
    b'.Has x ↔ b.Has x ∨ statement.Has x := by
  obtain ⟨query, hquery, rfl⟩ := with'_eq_ok h
  rw [← mem_str hx hquery]
  simp only [Has, standsIn_concat, List.mem_append, not_risky_code hx, false_or, or_false]
  tauto

end Builder

end Strings

end Wdb.Query
