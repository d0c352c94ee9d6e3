import Wdb.Lib.SqlLexer
import Wdb.Lib.Traverse
import Wdb.Query.BuildQuery

/-! `quote` and `lquote`: what the lexer makes of the strings of a user.

    A quoted string is one literal that denotes it, unless the text goes on with the literal. In the clauses
    for parameters and data providers it never does, so that their tokens do not depend on the strings. -/

namespace Wdb.Query
open SqlText (Text code quoted escape characters escape_nil escape_quote escape_cons)
open SqlTypes SqlLexer Traverse

/-! ### The strings as they are written -/

namespace Util

/-- `boost::algorithm::replace_all` from where `skip` characters are left of the last match. -/
def replaceAll (search format : List Char) : ℕ → List Char → List Char
  | _, [] => []
  | skip + 1, _ :: input => replaceAll search format skip input
  | 0, c :: input =>
    if search.isPrefixOf (c :: input) then format ++ replaceAll search format (search.length - 1) input
    else c :: replaceAll search format 0 input

def replaceAllCopy (input search format : String) : String :=
  String.ofList (replaceAll search.toList format.toList 0 input.toList)

/-- `lquote`: in lower case after it is quoted. -/
def lquote (raw : String) : String := SqlTypes.lower ("'" ++ replaceAllCopy raw "'" "''" ++ "'")

/-- `quote`. -/
def quote (raw : String) : String := "'" ++ replaceAllCopy raw "'" "''" ++ "'"

theorem replaceAll_quote (input : List Char) : replaceAll ['\''] ['\'', '\''] 0 input = escape input := by
  induction input with
  | nil => rfl
  | cons c input ih =>
    by_cases hc : c = '\''
    · rw [hc, escape_quote, ← ih]
      rfl
    · have hprefix : ['\''].isPrefixOf (c :: input) = false := by
        simp [List.isPrefixOf, Ne.symm hc]
      rw [escape_cons hc, ← ih, replaceAll, hprefix]
      rfl

/-- The text between the quotes is what the queries have. -/
theorem toList_quote (raw : String) : (quote raw).toList = characters (Query.quote raw) := by
  have hquote : "'".toList = ['\''] := rfl
  have hdouble : "''".toList = ['\'', '\''] := rfl
  simp only [quote, replaceAllCopy, String.toList_append, String.toList_ofList, hquote, hdouble, replaceAll_quote,
    Query.quote, characters_quoted, List.cons_append, List.nil_append]

/-- A quote is in no case. -/
theorem map_toLower_escape (v : List Char) : (escape v).map Char.toLower = escape (v.map Char.toLower) := by
  induction v with
  | nil => rfl
  | cons c v ih =>
    by_cases hc : c = '\''
    · rw [hc, escape_quote, List.map_cons, List.map_cons, ih]
      exact (escape_quote _).symm
    · have hlower : c.toLower ≠ '\'' := fun h => hc ((toLower_eq_iff (by decide)).1 h)
      rw [escape_cons hc, List.map_cons, List.map_cons, escape_cons hlower, ih]

theorem toList_lquote (raw : String) : (lquote raw).toList = characters (Query.lquote raw) := by
  have hlower : (lquote raw).toList = ((quote raw).toList).map Char.toLower := String.toList_ofList
  rw [hlower, toList_quote, Query.quote, Query.lquote, characters_quoted, characters_quoted, List.map_cons,
    List.map_append, map_toLower_escape, SqlTypes.lower, String.toList_ofList]
  rfl

end Util

/-! ### What is read -/

/-- A text is one literal that denotes the value, whatever follows it. -/
def OneLiteral (text value : String) : Prop := ∀ rest,
  tokens .code (text.toList ++ rest) = (tokens .code rest).map (.literal value.toList :: ·)

/-- A text is one literal that denotes the value, whatever follows it and does not go on with the literal (but
    for what cannot be read). -/
def OneLiteralUnless (text value : String) : Prop := ∀ rest,
  tokens .code (text.toList ++ rest) = (tokens .code rest).map (.literal value.toList :: ·) ↔
    (goesOn .quote rest → tokens .code rest = none)

/-- Clauses that are added to a builder. -/
def Builder.Adds (b b' : Builder) (clauses : List Text) : Prop := ∃ with_ from_ where_ : List Text,
  b' = { b with with_ := b.with_ ++ with_, from_ := b.from_ ++ from_, where_ := b.where_ ++ where_ } ∧
    clauses = with_ ++ from_ ++ where_

/-- A text has these tokens. -/
def ReadsAs (t : Text) (ts : List Token) : Prop := tokens .code (characters t) = some ts

/-- The tokens of the clauses for a list of strings depend on their number only, but for the values of the
    literals, which are the strings in lower case. -/
def Uniform (add : Builder → Option (List String) → Except Failure Builder) : Prop :=
  ∃ shapes : ℕ → List (List Token), ∀ builder names b, add builder (some names) = .ok b →
    ∃ (clauses : List Text) (tss : List (List Token)), builder.Adds b clauses ∧ List.Forall₂ ReadsAs clauses tss ∧
      tss.map (·.map Token.blank) = shapes names.length ∧
        literals tss.flatten = names.map fun name => (lower name).toList

theorem oneLiteralUnless {text value : String} (h : text.toList = characters (quoted value)) :
    OneLiteralUnless text value := by
  intro rest
  have hsplit : text.toList ++ rest = '\'' :: (escape value.toList ++ '\'' :: rest) := by
    rw [h, characters_quoted]
    simp
  rw [hsplit, tokens_escape]
  exact tokens_gap_iff

/-! ### The clauses -/

section Clauses
variable {builder b : Builder} {name : String} {names : List String}

/-- The tokens of code on its own. -/
def codeTokens (s : String) : List Token := (tokens .code s.toList).getD []

theorem tokens_codeTokens {s : String} (h : (tokens .code s.toList).isSome) :
    tokens .code s.toList = some (codeTokens s) := by
  obtain ⟨ts, hts⟩ := Option.isSome_iff_exists.1 h
  rw [codeTokens, hts, Option.getD_some]

theorem readsAs_code {s : String} (h : (tokens .code s.toList).isSome) : ReadsAs (code s) (codeTokens s) := by
  rw [ReadsAs, characters_code, tokens_codeTokens h]

/-- The clause for parameters. -/
theorem addParameterQuery_uniform : Uniform addParameterQuery := by
  refine ⟨fun | 0 => [codeTokens "FALSE"] | n + 1 => [(listTokens "(valueparametername LIKE "
    " OR valueparametername LIKE " ")" "" (List.replicate n "")).map Token.blank], ?_⟩
  intro builder names b h
  cases names with
  | nil =>
    cases h
    exact ⟨[code "FALSE"], [codeTokens "FALSE"], ⟨[], [], [code "FALSE"], by simp [Builder.where'], rfl⟩,
      .cons (readsAs_code (by decide)) .nil, by decide, by decide⟩
  | cons name names =>
    have hnext : Separates " OR valueparametername LIKE " := ⟨by decide +kernel, by decide +kernel⟩
    have hlast : Separates ")" := ⟨by decide, by decide⟩
    have hfirst : (scan .code "(valueparametername LIKE ".toList).2 = .code := by decide +kernel
    have htokens := tokens_list hfirst hnext hlast (lower name) (names.map lower) []
    have hliterals : literals (listTokens "(valueparametername LIKE " " OR valueparametername LIKE " ")" (lower name)
        (names.map lower)) = (lower name :: names.map lower).map String.toList :=
      literals_listTokens (by decide +kernel) (by decide +kernel) (by decide +kernel) _ _
    rw [addParameterQuery_cons h]
    rw [List.append_nil, tokens_nil, Option.map_some, List.append_nil] at htokens
    exact ⟨[_], [listTokens _ _ _ (lower name) (names.map lower)], ⟨[], [], [_], by simp [Builder.where'], rfl⟩,
      .cons htokens .nil, by rw [List.map_singleton, listTokens_blank, List.length_map]; rfl,
      by rw [List.flatten_singleton, hliterals, ← List.map_cons, List.map_map]; rfl⟩

/-- The text before the list of data providers, as it stands in the table. -/
def beforeProviders : String :=
  "dataprovider AS (SELECT d.dataproviderid AS id FROM wci_int.dataprovider_mv d, " ++
    "wci_int.dataprovider_mv source WHERE (source.dataprovidername = "

/-- The text behind it. -/
def afterProviders : String :=
  " AND source.dataprovidernameleftset <= d.dataprovidernameleftset" ++
    " AND source.dataprovidernamerightset >= d.dataprovidernamerightset)"

theorem addDataProviderQuery_cons (h : addDataProviderQuery builder (some (name :: names)) = .ok b) :
    ∃ t, b = { builder with
      with_ := builder.with_ ++ [t]
      from_ := builder.from_ ++ [code "dataprovider"]
      where_ := builder.where_ ++ [code "v.dataproviderid IN (dataprovider.id)"] } ∧
    characters t = characters (code beforeProviders ++ quoted (lower name) ++
      (names.map lower).flatMap (fun v => code " OR source.dataprovidername = " ++ quoted v) ++ code ")") ++
        afterProviders.toList := by
  obtain ⟨query, hquery, hcharacters⟩ : ∃ query, (dataproviderTable name names).str = .ok query ∧
      characters (code ("dataprovider" ++ " AS (") ++ query ++ code ")") =
        characters (code beforeProviders ++ quoted (lower name) ++
          (names.map lower).flatMap (fun v => code " OR source.dataprovidername = " ++ quoted v) ++ code ")") ++
            afterProviders.toList := by
    refine ⟨_, rfl, ?_⟩
    have hbefore : beforeProviders.toList = ("dataprovider" ++ " AS (").toList ++ ("SELECT ".toList ++
        ("d.dataproviderid AS id".toList ++ (" FROM ".toList ++ ((wciSchema ++ ".dataprovider_mv d").toList ++
          (", ".toList ++ ((wciSchema ++ ".dataprovider_mv source").toList ++ (" WHERE ".toList ++
            "(source.dataprovidername = ".toList))))))) := by decide +kernel
    have hafter : afterProviders.toList = " AND ".toList ++
        ("source.dataprovidernameleftset <= d.dataprovidernameleftset".toList ++ (" AND ".toList ++
          ("source.dataprovidernamerightset >= d.dataprovidernamerightset".toList ++ ")".toList))) := by
      decide +kernel
    simp only [dataproviderTable, Builder.what, Builder.from', Builder.where', Builder.whatText, list, quote,
      List.nil_append, List.cons_append, reduceCtorEq, if_false, if_true, List.flatMap_cons, List.flatMap_nil,
      List.flatMap_map, characters_append, characters_code, hbefore, hafter, List.append_assoc, List.append_nil]
  simp only [addDataProviderQuery, Builder.with', hquery] at h
  cases h
  exact ⟨_, rfl, hcharacters⟩

/-- The clauses for data providers. -/
theorem addDataProviderQuery_uniform : Uniform addDataProviderQuery := by
  refine ⟨fun | 0 => [codeTokens "FALSE "] | n + 1 => [(listTokens beforeProviders
    " OR source.dataprovidername = " ")" "" (List.replicate n "") ++ codeTokens afterProviders).map Token.blank,
      codeTokens "dataprovider", codeTokens "v.dataproviderid IN (dataprovider.id)"], ?_⟩
  intro builder names b h
  cases names with
  | nil =>
    cases h
    exact ⟨[code "FALSE "], [codeTokens "FALSE "], ⟨[], [], [code "FALSE "], by simp [Builder.where'], rfl⟩,
      .cons (readsAs_code (by decide)) .nil, by decide, by decide⟩
  | cons name names =>
    have hnext : Separates " OR source.dataprovidername = " := ⟨by decide +kernel, by decide +kernel⟩
    have hlast : Separates ")" := ⟨by decide, by decide⟩
    have hfirst : (scan .code beforeProviders.toList).2 = .code := by decide +kernel
    have htokens := tokens_list hfirst hnext hlast (lower name) (names.map lower) afterProviders.toList
    have hliterals : literals (listTokens beforeProviders " OR source.dataprovidername = " ")" (lower name)
        (names.map lower)) = (lower name :: names.map lower).map String.toList :=
      literals_listTokens (by decide +kernel) (by decide +kernel) (by decide +kernel) _ _
    rw [tokens_codeTokens (s := afterProviders) (by decide +kernel), Option.map_some] at htokens
    obtain ⟨t, hb, hcharacters⟩ := addDataProviderQuery_cons h
    refine ⟨[t, code "dataprovider", code "v.dataproviderid IN (dataprovider.id)"],
      [listTokens _ _ _ (lower name) (names.map lower) ++ codeTokens afterProviders, codeTokens "dataprovider",
        codeTokens "v.dataproviderid IN (dataprovider.id)"], ⟨[_], [_], [_], hb, rfl⟩,
      .cons (by rw [ReadsAs, hcharacters, htokens]) (.cons (readsAs_code (by decide))
        (.cons (readsAs_code (by decide +kernel)) .nil)),
      ?_, ?_⟩
    · rw [List.map_cons, List.map_append, listTokens_blank, List.length_map, ← List.map_append]
      rfl
    · have hcode : literals (codeTokens afterProviders ++ (codeTokens "dataprovider" ++
          codeTokens "v.dataproviderid IN (dataprovider.id)")) = [] := by decide +kernel
      simp only [List.flatten_cons, List.flatten_nil, List.append_nil, List.append_assoc]
      rw [literals_append, hliterals, hcode, List.append_nil, ← List.map_cons, List.map_map]
      rfl

end Clauses

/-- A quoted string is one literal exactly when the text does not go on with it, and the strings do not change
    the tokens of the clauses, but for the values of the literals. -/
theorem quoted_lexes : (∀ raw, OneLiteralUnless (Util.quote raw) raw) ∧
    (∀ raw, OneLiteralUnless (Util.lquote raw) (lower raw)) ∧
      Uniform addParameterQuery ∧ Uniform addDataProviderQuery :=
  ⟨fun raw => oneLiteralUnless (Util.toList_quote raw), fun raw => oneLiteralUnless (Util.toList_lquote raw),
    addParameterQuery_uniform, addDataProviderQuery_uniform⟩

/-- Before a quote a quoted string is no literal of its own. -/
theorem not_quoted_lexes : ¬ ((∀ raw, OneLiteral (Util.quote raw) raw) ∧
    (∀ raw, OneLiteral (Util.lquote raw) (lower raw)) ∧ Uniform addParameterQuery ∧ Uniform addDataProviderQuery) := by
  rintro ⟨h, -⟩
  exact absurd (h "a" "'b'".toList) (by decide +kernel)

end Wdb.Query
