import Wdb.Query.Containment

/-! The texts of `wci.browse`: two queries, for grids and for point values, and their union.

    A text is read as two operands in one way at most. The select list and the groups are those of the
    kind of browse, unless the query for point values is replaced by one on the nearest points: then the
    select list is in a table of it, and its groups are outside. -/

namespace Wdb.Query
open SqlText Builder Wdb.Read

/-- What is browsed. -/
inductive BrowseKind where
  | dataProvider | place | referenceTime | validTime | valueParameter | levelParameter | dataVersion
  deriving DecidableEq

namespace BrowseKind

def selectWhat : BrowseKind → FixedText
  | .dataProvider => ⟨"dataprovidername, min(referencetime), max(referencetime), count(*)", by decide, by decide⟩
  | .place => ⟨"placename, min(referencetime), max(referencetime), count(*)", by decide, by decide⟩
  | .referenceTime => ⟨"referencetime, count(*)", by decide, by decide⟩
  | .validTime => ⟨"validtimefrom, validtimeto, count(*)", by decide, by decide⟩
  | .valueParameter => ⟨"valueparametername, valueunitname, count(*)", by decide, by decide⟩
  | .levelParameter =>
    ⟨"levelparametername, levelunitname, min(levelfrom), max(levelto), count(*)", by decide, by decide⟩
  | .dataVersion => ⟨"dataversion, count(*)", by decide, by decide⟩

def ordering : BrowseKind → Option FixedText
  | .dataVersion => some ⟨"1", by decide, by decide⟩
  | _ => none

def groupby : BrowseKind → FixedText
  | .dataProvider => ⟨"dataprovidername", by decide, by decide⟩
  | .place => ⟨"placename", by decide, by decide⟩
  | .referenceTime => ⟨"referencetime", by decide, by decide⟩
  | .validTime => ⟨"validtimefrom, validtimeto", by decide, by decide⟩
  | .valueParameter => ⟨"valueparametername, valueunitname", by decide, by decide⟩
  | .levelParameter => ⟨"levelparametername, levelunitname", by decide, by decide⟩
  | .dataVersion => ⟨"1", by decide, by decide⟩

end BrowseKind

/-- `getWciBrowse...QueryGrid`. -/
def getWciBrowseQueryGrid (kind : BrowseKind) (p : WciReadParameterCollection) : Except Failure Text :=
  build_query p .gridTable .outputGid kind.selectWhat kind.ordering (some kind.groupby)

/-- `getWciBrowse...QueryFloat`. -/
def getWciBrowseQueryFloat (kind : BrowseKind) (p : WciReadParameterCollection) : Except Failure Text :=
  build_query p .floatTable .outputFloat kind.selectWhat kind.ordering (some kind.groupby)

/-- The text that `wci.browse` executes. -/
def unionText (gridQuery floatQuery : Text) : Text :=
  gridQuery ++ code " UNION ALL (" ++ floatQuery ++ code ")"

/-- An operand selects what a kind of browse asks for, in its groups. -/
structure Asks (q : Operand) (kind : BrowseKind) : Prop where
  what : q.what = (Part.code kind.selectWhat.text).tokens
  groupBy : q.groupBy = (Part.code kind.groupby.text).tokens

/-- The text is the union of two queries that are well formed and select what is asked for; the first one has
    no order. -/
def Composes (kind : BrowseKind) (t : Text) : Prop := ∃ left right : Operand,
  left.WellFormed ∧ right.WellFormed ∧ tokens .code (characters t) = some (unionAll left right) ∧
    left.orderBy = [] ∧ Asks left kind ∧ Asks right kind

/-- In the strings that are spliced there is no quote. -/
structure Unquoted (p : WciReadParameterCollection) : Prop where
  referenceTime : ∀ ts ∈ p.readReferenceTime, ts.indeterminate_ ∈ timeCodes → NoQuotes ts.compared
  validTime : ∀ ts ∈ p.readValidTime, NoQuotes ts.compared
  placeName : ∀ loc ∈ p.readLocation, '\'' ∉ loc.placeName.toList

/-! ### The reading of a text -/

section Reading
variable {kind : BrowseKind} {t : Text} {left right : Operand}

/-- A text that is read as two queries composes when these do. -/
theorem composes_iff (hread : tokens .code (characters t) = some (unionAll left right)) (hl : left.WellFormed)
    (hr : right.WellFormed) : Composes kind t ↔ left.orderBy = [] ∧ Asks left kind ∧ Asks right kind := by
  constructor
  · rintro ⟨left', right', hl', hr', hread', horder, hleft, hright⟩
    obtain ⟨hclauses, hclauses'⟩ :=
      unionAll_injective hl hl' hr hr' (Option.some.inj (hread.symm.trans hread'))
    obtain ⟨hwhat, hgroupBy, horderBy⟩ := Operand.eq_of_clauses hclauses
    obtain ⟨hwhat', hgroupBy', -⟩ := Operand.eq_of_clauses hclauses'
    exact ⟨horderBy.trans horder, ⟨hwhat.trans hleft.what, hgroupBy.trans hleft.groupBy⟩,
      ⟨hwhat'.trans hright.what, hgroupBy'.trans hright.groupBy⟩⟩
  · rintro ⟨horder, hleft, hright⟩
    exact ⟨left, right, hl, hr, hread, horder, hleft, hright⟩

/-- Two queries whose spliced strings have no quote are read as their clauses. -/
theorem read_unionText {b b' : Builder} {g f : Text} (hb : b.Sound) (hg : b.str = .ok g) (hb' : b'.Sound)
    (hf : b'.str = .ok f) (hun : ∀ x ∈ g, x.Unquoted) (hun' : ∀ x ∈ f, x.Unquoted) :
    tokens .code (characters (unionText g f)) = some (unionAll b.operand b'.operand) := by
  obtain ⟨hspans, htokens, -⟩ := hb.str hg
  obtain ⟨hspans', htokens', -⟩ := hb'.str hf
  have hunion : Spans 1 (code " UNION ALL (") 2 := spans_of_blank (by decide)
  have hclose : Spans 2 (code ")") 1 := spans_of_blank (by decide)
  have hleft := hspans.append_begins hunion ⟨_, rfl, by decide⟩
  have hboth := (hleft.append_code (by decide) hspans'.succ).append_begins hclose ⟨_, rfl, by decide⟩
  have hunquoted : ∀ x ∈ unionText g f, x.Unquoted := by
    simp only [unionText, List.forall_mem_append]
    exact ⟨⟨⟨hun, unquoted_code _⟩, hun'⟩, unquoted_code _⟩
  have hwords : meant (code " UNION ALL (") = [.word "UNION".toList, .word "ALL".toList, .symbol '('] := by
    decide
  have hbracket : meant (code ")") = [.symbol ')'] := by decide
  refine ((tokens_characters_iff hboth.meeting).2 hunquoted).trans (congrArg some ?_)
  change meant (unionText g f) = _
  rw [unionText, meant_append, meant_append, meant_append, htokens, htokens', hwords, hbracket]
  simp [unionAll]

end Reading

/-! ### The two queries -/

section Queries
variable {p : WciReadParameterCollection} {dataSource : DataSource} {kind : BrowseKind} {b b' : Builder}
  {g f t u u' : Text}

theorem Built.unquoted {selectWhat : FixedText} {ordering groupby : Option FixedText}
    (h : Built p dataSource selectWhat ordering groupby t b u) (hun : Unquoted p) : ∀ x ∈ t, x.Unquoted := by
  intro x hx
  by_cases hrisky : Risky x
  · rcases (h.has hrisky).1 hx with hx | hx
    · rcases List.mem_append.1 hx with hx | hx
      · cases hread : p.readReferenceTime with
        | none =>
          rw [hread] at hx
          cases hx
        | some ts =>
          rw [hread] at hx
          by_cases hcode : ts.indeterminate_ ∈ timeCodes
          · have hsafe := (splices_referenceTime hcode).safe.2 (hun.referenceTime ts hread hcode)
            exact (SqlText.safe_iff.1 (hsafe x hx)).1
          · rw [Option.elim_some, referenceTime_of_not_mem (lower_of_read hread) hcode] at hx
            rw [List.mem_singleton.1 hx]
            trivial
      · exact (SqlText.safe_iff.1 ((safe_validTime_iff h.validTime).2 hun.validTime x hx)).1
    · exact (SqlText.safe_iff.1 (h.safe_places hun.placeName x hx)).1
  · exact (SqlText.safe_iff.1 (safe_of_not_risky hrisky)).1

theorem meant_list_code (s : String) : meant (list [code s]) = (Part.code s).tokens := by
  simp [list, meant_code]

/-- The groups are always those that are asked for; the select list is when the query is not replaced. -/
theorem Built.asks_iff (h : Built p dataSource kind.selectWhat kind.ordering (some kind.groupby) t b u) :
    Asks b.operand kind ↔ ¬ p.Wraps dataSource := by
  constructor
  · intro hasks hwraps
    have hwhat := hasks.what
    rw [operand, whatText, if_pos (h.replaced hwraps)] at hwhat
    have hstar : ∀ kind : BrowseKind, meant (code "*") ≠ (Part.code kind.selectWhat.text).tokens := by
      intro kind
      cases kind <;> decide
    exact hstar kind hwhat
  · intro hwraps
    refine ⟨?_, ?_⟩
    · rw [operand, whatText, h.narrowed hwraps, if_neg (List.cons_ne_nil _ _)]
      exact meant_list_code _
    · rw [operand, h.groupBy_]
      exact meant_list_code _

theorem Built.orderBy_iff (h : Built p dataSource kind.selectWhat kind.ordering (some kind.groupby) t b u) :
    b.operand.orderBy = [] ↔ kind ≠ .dataVersion := by
  rw [operand, h.orderBy_]
  cases kind with
  | dataVersion =>
    have hne : meant (list [code "1"]) ≠ [] := by decide
    exact iff_of_false hne fun h => h rfl
  | _ => exact iff_of_true rfl (by decide)

/-- When no spliced string has a quote, the text composes exactly for the kinds without an order and the
    locations for which the query for point values is not replaced. -/
theorem browse_composes_iff (hgrid : getWciBrowseQueryGrid kind p = .ok g)
    (hfloat : getWciBrowseQueryFloat kind p = .ok f) (hun : Unquoted p) :
    Composes kind (unionText g f) ↔ kind ≠ .dataVersion ∧ ∀ loc ∈ p.readLocation, ¬ Nearby loc := by
  obtain ⟨b, u, hb⟩ := build_query_built hgrid
  obtain ⟨b', u', hb'⟩ := build_query_built hfloat
  have hread := read_unionText hb.sound hb.str hb'.sound hb'.str (hb.unquoted hun) (hb'.unquoted hun)
  rw [composes_iff hread (hb.sound.str hb.str).2.2 (hb'.sound.str hb'.str).2.2, hb.orderBy_iff, hb.asks_iff,
    hb'.asks_iff]
  simp [WciReadParameterCollection.Wraps]

end Queries

/-- Both queries of a browse. -/
theorem exists_queries (kind : BrowseKind) (p : WciReadParameterCollection)
    (h : (getWciBrowseQueryGrid kind p).toOption.isSome ∧ (getWciBrowseQueryFloat kind p).toOption.isSome) :
    ∃ g f, getWciBrowseQueryGrid kind p = .ok g ∧ getWciBrowseQueryFloat kind p = .ok f := by
  cases hg : getWciBrowseQueryGrid kind p with
  | error e => simp [hg, Except.toOption] at h
  | ok g =>
    cases hf : getWciBrowseQueryFloat kind p with
    | error e => simp [hf, Except.toOption] at h
    | ok f => exact ⟨g, f, rfl, rfl⟩

theorem browse_composes_iff_oslo : ∃ g f, getWciBrowseQueryGrid .place (valuesAt "oslo") = .ok g ∧
    getWciBrowseQueryFloat .place (valuesAt "oslo") = .ok f ∧ Composes .place (unionText g f) := by
  have hun : Unquoted (valuesAt "oslo") := ⟨by decide +kernel, by decide +kernel, by decide +kernel⟩
  obtain ⟨g, f, hg, hf⟩ := exists_queries .place (valuesAt "oslo") (by decide +kernel)
  refine ⟨g, f, hg, hf, (browse_composes_iff hg hf hun).2 ⟨by decide, ?_⟩⟩
  have hexact : ∀ loc ∈ (valuesAt "oslo").readLocation, loc.interpolationType = .exact := by decide +kernel
  intro loc hloc hnear
  simp [Nearby, hexact loc hloc] at hnear

/-- A browse of data versions has an order in its first query. -/
theorem not_composes_dataVersion : ∃ g f, getWciBrowseQueryGrid .dataVersion {} = .ok g ∧
    getWciBrowseQueryFloat .dataVersion {} = .ok f ∧ ¬ Composes .dataVersion (unionText g f) := by
  obtain ⟨g, f, hg, hf⟩ := exists_queries .dataVersion {} (by decide +kernel)
  obtain ⟨b, u, hb⟩ := build_query_built hg
  obtain ⟨b', u', hb'⟩ := build_query_built hf
  have hun : Unquoted {} := ⟨by decide, by decide, by decide⟩
  have hread := read_unionText hb.sound hb.str hb'.sound hb'.str (hb.unquoted hun) (hb'.unquoted hun)
  refine ⟨g, f, hg, hf, fun hcomposes => ?_⟩
  have horder := ((composes_iff hread (hb.sound.str hb.str).2.2 (hb'.sound.str hb'.str).2.2).1 hcomposes).1
  exact hb.orderBy_iff.1 horder rfl

end Wdb.Query
