import Wdb.Query.Containment
import Wdb.Query.Filters
import Wdb.Store.DataProviderQuery

/-! What the text of a query selects.

    The text is read as clauses, these as tables and conditions, and the rows are those that the arguments ask
    for. Data providers are a table of the query's own, and a row is selected once for every row in it. -/

namespace Wdb.Query
open SqlText SqlSelect SqlTypes Traverse Builder Wdb.Read
open Store (Catalog ValueV)

/-! ### The tables -/

/-- The columns of a row of `dataprovider_mv`. -/
def providerRow (d : Store.DataProviderMv) : Row := full
  [("dataproviderid", .int d.dataproviderid), ("dataprovidernamespaceid", .int d.dataprovidernamespaceid),
    ("dataprovidername", .text d.dataprovidername), ("dataprovidernameleftset", .int d.dataprovidernameleftset),
    ("dataprovidernamerightset", .int d.dataprovidernamerightset)]

def viewName : DataSource → String
  | .floatTable => "floatvalue_v"
  | .gridTable => "gridvalue_v"

/-- The tables that a query may read. -/
def tables {β : Type} (cat : Catalog) (dataSource : DataSource) (value : β → Datum) (view : List (ValueV β)) : Tables :=
  fun schema name =>
    if schema ≠ some wciSchema.toList then none
    else if name = "dataprovider_mv".toList then some (cat.dataproviderMv.map providerRow)
    else if name = (viewName dataSource).toList then some (view.map (row value))
    else none

/-- The view that is queried. -/
def viewRef (dataSource : DataSource) : TableRef := ⟨some wciSchema.toList, (viewName dataSource).toList, some ['v']⟩

/-! ### What is written for a query -/

/-- The clauses of a builder are those of a query. -/
structure Writes (b : Builder) (q : SqlSelect.Query) : Prop where
  with_ : b.with_.map meant = q.with_.toList.map With.tokens
  from_ : b.from_.map meant = q.select.from_.map TableRef.tokens
  where_ : b.where_.map meant = q.select.where_.map Condition.tokens
  named : q.Named

section Writes
variable {b b' : Builder} {q : SqlSelect.Query} {t : Text} {times : Times} {db : Tables}

/-- Texts with a separator between them. -/
theorem meant_list {α : Type} {data : List Text} {l : List α} {write : α → List Token} {s : String} {k : Token}
    (hs : meant (code s) = [k]) (h : data.map meant = l.map write) : meant (list data s) = joined k write l := by
  cases data with
  | nil =>
    obtain rfl := List.map_eq_nil_iff.1 h.symm
    rfl
  | cons t ts =>
    cases l with
    | nil => cases h
    | cons a as =>
      obtain ⟨ht, hts⟩ := List.cons.inj h
      have hrest : ts.flatMap (fun u => k :: meant u) = as.flatMap fun b => k :: write b := by
        rw [← List.flatMap_map (f := meant) (g := fun u => k :: u), hts, List.flatMap_map]
      rw [list, meant_append, ht, meant_flatMap, joined, ← hrest]
      simp only [meant_append, hs, List.singleton_append]

theorem Writes.spelled (h : Writes b q) : q.Spelled b.operand where
  with_ := by
    have hlist := meant_list (s := ", ") (k := .symbol ',') (by decide) h.with_
    rw [operand, hlist]
    cases q.with_ <;> simp [joined]
  from_ := meant_list (by decide) h.from_
  where_ := meant_list (by decide) h.where_

/-- A text selects the rows of the query that it is written for. -/
theorem Writes.selects_eq (h : Writes b q) (hb : b.Sound) (hstr : b.str = .ok t) (ht : ∀ x ∈ t, x.Unquoted) :
    selects times db (characters t) = q.rows times db := by
  obtain ⟨hspans, hmeant, hwellFormed⟩ := hb.str hstr
  refine SqlSelect.selects_eq hwellFormed h.named h.spelled ?_
  rw [← hmeant]
  exact (tokens_characters_iff hspans.meeting).2 ht

/-- Conditions are added to those of a query. -/
theorem Writes.restricts {β : Type} {value : β → Datum} {dom P : ValueV β → Prop} {cs : List Condition}
    (h : Writes b q) (hr : Restricts times value dom b b' P cs) :
    Writes b' { q with select := { q.select with where_ := q.select.where_ ++ cs } } where
  with_ := by rw [hr.clauses, h.with_]
  from_ := by rw [hr.clauses, h.from_]
  where_ := by rw [hr.written, h.where_, List.map_append]
  named := ⟨h.named.with_, h.named.select.ne_nil, h.named.select.from_,
    List.forall_mem_append.2 ⟨h.named.select.where_, hr.named⟩⟩

end Writes

/-! ### Data providers -/

/-- A column of a table. -/
def tableColumn (table name : String) : Term := ⟨.column ⟨some table.toList, name.toList⟩, none⟩

/-- A data provider has a name. -/
def asks (name : String) : Test := .compare (tableColumn "source" "dataprovidername") .eq (literal name)

def providerRef (alias_ : String) : TableRef := ⟨some wciSchema.toList, "dataprovider_mv".toList, some alias_.toList⟩

/-- The members of the data providers with a name, as a table. -/
def providersWith (names : List String) : With where
  name := "dataprovider".toList
  column := ⟨some ['d'], "dataproviderid".toList⟩
  as := "id".toList
  select := ⟨[providerRef "d", providerRef "source"],
    [.anyOf (names.map fun name => [asks name]),
      .test (.compare (tableColumn "source" "dataprovidernameleftset") .le (tableColumn "d" "dataprovidernameleftset")),
      .test (.compare (tableColumn "source" "dataprovidernamerightset") .ge (tableColumn "d" "dataprovidernamerightset"))]⟩

/-- The data provider of a row is one of those. -/
def isMember : Condition := .test (.isIn (tableColumn "v" "dataproviderid") [tableColumn "dataprovider" "id"])

def providersRef : TableRef := ⟨none, "dataprovider".toList, none⟩

section Providers
variable {b b' : Builder} {name : String} {names : List String} {dataSource : DataSource} {selectWhat : FixedText}

theorem named_tableColumn {table column : String} (ht : isLabel table.toList) (hc : isLabel column.toList) :
    (tableColumn table column).Named := ⟨⟨by simpa using ht, hc⟩⟩

/-- The ranges of the nested sets are compared. -/
theorem meant_ranges : [code "source.dataprovidernameleftset <= d.dataprovidernameleftset",
    code "source.dataprovidernamerightset >= d.dataprovidernamerightset"].map meant =
    [Condition.test (.compare (tableColumn "source" "dataprovidernameleftset") .le
      (tableColumn "d" "dataprovidernameleftset")),
      .test (.compare (tableColumn "source" "dataprovidernamerightset") .ge
        (tableColumn "d" "dataprovidernamerightset"))].map Condition.tokens := by decide

theorem where_dataproviderTable (name : String) (names : List String) :
    (dataproviderTable name names).where_.map meant =
      (providersWith ((name :: names).map lower)).select.where_.map Condition.tokens := by
  have hnames := meant_alternatives (f := asks) "(source.dataprovidername = " " OR source.dataprovidername = " ")"
    ((tableColumn "source" "dataprovidername").tokens ++ Relation.eq.tokens) (lower name) (names.map lower)
    (by decide) (by decide) (by decide) fun _ => rfl
  rw [List.flatMap_map] at hnames
  exact List.cons_eq_cons.2 ⟨hnames, meant_ranges⟩

theorem from_dataproviderTable (name : String) (names : List String) :
    (dataproviderTable name names).from_.map meant =
      (providersWith ((name :: names).map lower)).select.from_.map TableRef.tokens := by
  have hrefs : [code (wciSchema ++ ".dataprovider_mv d"), code (wciSchema ++ ".dataprovider_mv source")].map meant =
      [providerRef "d", providerRef "source"].map TableRef.tokens := by decide
  exact hrefs

/-- What is written for the table is its clauses. -/
theorem operand_dataproviderTable (name : String) (names : List String) :
    (dataproviderTable name names).operand = (providersWith ((name :: names).map lower)).operand := by
  have hwhat : meant (code "d.dataproviderid AS id") =
      (⟨some ['d'], "dataproviderid".toList⟩ : Column).tokens ++ [.word "AS".toList, .word "id".toList] := by
    decide
  have hwhatText : (dataproviderTable name names).whatText = code "d.dataproviderid AS id" := List.append_nil _
  rw [operand, hwhatText, hwhat, meant_list (s := ", ") (k := .symbol ',') (by decide) (from_dataproviderTable name names),
    meant_list (s := " AND ") (k := .word "AND".toList) (by decide) (where_dataproviderTable name names)]
  rfl

theorem sound_dataproviderTable (name : String) (names : List String) : (dataproviderTable name names).Sound :=
  (extends_dataproviderTable name names).sound sound_empty

theorem named_providersWith (hne : names ≠ []) (h : (providersWith names).operand.WellFormed) :
    (providersWith names).Named := by
  have hname : isLabel "dataprovider".toList := by decide
  have hid : isLabel "id".toList := by decide
  have hd : isLabel ['d'] := by decide
  have hsource : isLabel "source".toList := by decide
  have hschema : isLabel wciSchema.toList := by decide
  have htable : isLabel "dataprovider_mv".toList := by decide
  have hcolumn : isLabel "dataproviderid".toList := by decide
  have href : ∀ {a : String}, isLabel a.toList → (providerRef a).Named := fun ha =>
    ⟨by simpa [providerRef] using hschema, htable, by simpa [providerRef] using ha⟩
  have hasks : ∀ v, (asks v).Named := fun _ => ⟨named_tableColumn hsource (by decide), ⟨trivial⟩⟩
  have hrange : ∀ (r : Relation) {column : String}, isLabel column.toList →
      (Condition.test (.compare (tableColumn "source" column) r (tableColumn "d" column))).Named := fun r _ hc =>
    ⟨⟨named_tableColumn hsource hc, named_tableColumn hd hc⟩, by simp [Test.tokens, tableColumn, Term.tokens,
      Base.tokens, Column.tokens]⟩
  have hmember : (⟨some ['d'], "dataproviderid".toList⟩ : Column).Named := ⟨by simpa using hd, hcolumn⟩
  refine ⟨hname, hmember, hid, ⟨List.cons_ne_nil _ _, ?_, ?_⟩, h⟩
  · exact List.forall_mem_cons.2 ⟨href hd, List.forall_mem_singleton.2 (href hsource)⟩
  · refine List.forall_mem_cons.2 ⟨named_alternatives hne hasks, List.forall_mem_cons.2 ⟨?_, ?_⟩⟩
    · exact hrange .le (by decide)
    · exact List.forall_mem_singleton.2 (hrange .ge (by decide))

/-- The table that is written is that of the data providers. -/
theorem meant_dataproviderTable {query : Text} (h : (dataproviderTable name names).str = .ok query) :
    meant (code ("dataprovider" ++ " AS (") ++ query ++ code ")") =
      (providersWith ((name :: names).map lower)).tokens ∧
      (providersWith ((name :: names).map lower)).Named := by
  obtain ⟨-, hmeant, hwellFormed⟩ := (sound_dataproviderTable name names).str h
  rw [operand_dataproviderTable] at hmeant hwellFormed
  have hopen : meant (code ("dataprovider" ++ " AS (")) =
      [.word "dataprovider".toList, .word "AS".toList, .symbol '('] := by decide
  have hclose : meant (code ")") = [.symbol ')'] := by decide
  refine ⟨?_, named_providersWith (by simp) hwellFormed⟩
  rw [meant_append, meant_append, hopen, hclose, hmeant]
  rfl

theorem writes_start (dataSource : DataSource) (selectWhat : FixedText) :
    Writes (start dataSource selectWhat) ⟨none, ⟨[viewRef dataSource], []⟩⟩ := by
  have hview : (viewRef dataSource).Named := by
    cases dataSource <;> exact ⟨by decide, by decide, by decide⟩
  have hfrom : meant (code (wciSchema ++ "." ++ viewName dataSource ++ " v")) = (viewRef dataSource).tokens := by
    cases dataSource <;> decide
  refine ⟨?_, ?_, ?_, by simp, ⟨by simp, by simpa using hview, by simp⟩⟩
  · cases dataSource <;> rfl
  · rw [List.map_singleton, ← hfrom]
    cases dataSource <;> rfl
  · cases dataSource <;> rfl

/-- A query of the view and of the data providers. -/
theorem writes_addDataProviderQuery
    (h : addDataProviderQuery (start dataSource selectWhat) (some (name :: names)) = .ok b) :
    Writes b ⟨some (providersWith ((name :: names).map lower)), ⟨[viewRef dataSource, providersRef], [isMember]⟩⟩ := by
  obtain ⟨b₁, hwith, h⟩ := of_bind_eq_ok h
  obtain rfl := Except.ok.inj h
  obtain ⟨query, hquery, rfl⟩ := with'_eq_ok hwith
  obtain ⟨hmeant, hnamed⟩ := meant_dataproviderTable hquery
  have hstart := writes_start dataSource selectWhat
  have hproviders : meant (code "dataprovider") = providersRef.tokens := by decide
  have hmember : meant (code "v.dataproviderid IN (dataprovider.id)") = isMember.tokens := by decide
  refine ⟨?_, ?_, ?_, ?_⟩
  · have hwith := hstart.with_
    simp only [Option.toList_none, List.map_nil] at hwith
    simp only [Builder.from', Builder.where', List.map_append, List.map_singleton, hwith, hmeant, List.nil_append,
      Option.toList_some]
  · simp only [Builder.from', Builder.where', List.map_append, hstart.from_, hproviders, List.map_cons, List.map_nil]
    rfl
  · simp only [Builder.from', Builder.where', List.map_append, hstart.where_, hmember, List.map_cons, List.map_nil]
    rfl
  · have hterm : (tableColumn "v" "dataproviderid").Named := named_tableColumn (by decide) (by decide)
    have hid : (tableColumn "dataprovider" "id").Named := named_tableColumn (by decide) (by decide)
    have href : providersRef.Named := ⟨by simp [providersRef], by decide, by simp [providersRef]⟩
    have hcondition : isMember.Named :=
      ⟨⟨hterm, List.cons_ne_nil _ _, List.forall_mem_singleton.2 hid⟩, by decide⟩
    refine ⟨by simpa using hnamed, List.cons_ne_nil _ _, ?_, List.forall_mem_singleton.2 hcondition⟩
    exact List.forall_mem_cons.2 ⟨hstart.named.select.from_ _ List.mem_cons_self, List.forall_mem_singleton.2 href⟩

end Providers

/-! ### The rows -/

section Rows
variable {β : Type} {times : Times} {cat : Catalog} {dataSource : DataSource} {value : β → Datum}
  {view : List (ValueV β)} {names : List String} {d source : Store.DataProviderMv} {dom P : ValueV β → Prop}
  {cs : List Condition}

/-- The rows of the two tables of data providers. -/
def providerScope (x : Store.DataProviderMv × Store.DataProviderMv) : Scope :=
  [(['d'], providerRow x.1), ("source".toList, providerRow x.2)]

/-- What a column of a data provider is. -/
theorem value_source {column : String} {datum : Option Datum} {x : Store.DataProviderMv × Store.DataProviderMv}
    (h : (providerRow x.2).lookup column.toList = some datum) :
    (tableColumn "source" column).value times (providerScope x) = some datum := value_second (by decide) h

theorem value_d {column : String} {datum : Option Datum} {x : Store.DataProviderMv × Store.DataProviderMv}
    (h : (providerRow x.1).lookup column.toList = some datum) :
    (tableColumn "d" column).value times (providerScope x) = some datum := value_first (by decide) h

theorem lookup_providerRow {column : String} {datum : Datum} {d : Store.DataProviderMv} (h :
    [("dataproviderid", .int d.dataproviderid), ("dataprovidernamespaceid", .int d.dataprovidernamespaceid),
      ("dataprovidername", .text d.dataprovidername), ("dataprovidernameleftset", .int d.dataprovidernameleftset),
      ("dataprovidernamerightset", .int d.dataprovidernamerightset)].lookup column = some datum) :
    (providerRow d).lookup column.toList = some (some datum) := by
  rw [providerRow, lookup_full, h]
  rfl

theorem decides_range (times : Times) (x : Store.DataProviderMv × Store.DataProviderMv) (r : Relation)
    (column : String) {a b : ℤ} (ha : (providerRow x.2).lookup column.toList = some (some (.int a)))
    (hb : (providerRow x.1).lookup column.toList = some (some (.int b))) :
    Decides ((Condition.test (.compare (tableColumn "source" column) r (tableColumn "d" column))).eval times
      (providerScope x)) (r.holds a b = true) := by
  rw [Condition.eval, Test.eval, value_source ha, value_d hb, asked_some]
  exact decides_some _

/-- The data providers are the members of those with a name. -/
theorem rows_providersWith (dataProvider : List String) :
    (providersWith (dataProvider.map lower)).rows times (tables cat dataSource value view) =
      some ((Store.dataproviderIds cat dataProvider).map fun id => [("id".toList, some (.int id))]) := by
  have hsources : sources (tables cat dataSource value view) (providersWith (dataProvider.map lower)).select.from_ =
      some [(['d'], cat.dataproviderMv.map providerRow), ("source".toList, cat.dataproviderMv.map providerRow)] := rfl
  have hdecides : ∀ x ∈ cat.dataproviderMv ×ˢ cat.dataproviderMv,
      Decides (conj ((providersWith (dataProvider.map lower)).select.where_.map
        (Condition.eval times (providerScope x))))
        (x.2.dataprovidername ∈ dataProvider.map lower ∧
          x.2.dataprovidernameleftset ≤ x.1.dataprovidernameleftset ∧
          x.2.dataprovidernamerightset ≥ x.1.dataprovidernamerightset) := by
    intro x _
    have hname : ∀ name, Decides ((asks name).eval times (providerScope x)) (x.2.dataprovidername = name) := by
      intro name
      have hvalue : (tableColumn "source" "dataprovidername").value times (providerScope x) =
          some (some (.text x.2.dataprovidername)) := value_source (lookup_providerRow rfl)
      have hliteral : (literal name).value times (providerScope x) = some (some (.unknown name)) := by
        simp [literal, Term.value, Base.value]
      rw [asks, Test.eval, hvalue, hliteral, asked_some, Relation.compare, if_pos rfl, Option.map_some]
      exact (decides_some _).congr (by simp)
    have hnames : Decides ((Condition.anyOf ((dataProvider.map lower).map fun v => [asks v])).eval times
        (providerScope x)) _ := decides_alternatives fun v _ => hname v
    have hleft := decides_range times x .le "dataprovidernameleftset"
      (lookup_providerRow rfl) (lookup_providerRow rfl)
    have hright := decides_range times x .ge "dataprovidernamerightset"
      (lookup_providerRow rfl) (lookup_providerRow rfl)
    refine (hnames.conj_cons (hleft.conj_cons (hright.conj_cons decides_conj_nil))).congr ?_
    simp [Relation.holds]
  rw [With.rows, rows_eq hsources (g := providerScope) product_pair hdecides, Option.bind_some, List.mapM_map]
  have hid : ∀ x : Store.DataProviderMv × Store.DataProviderMv,
      Column.value ⟨some ['d'], "dataproviderid".toList⟩ (providerScope x) =
        some (some (.int x.1.dataproviderid)) := fun x => value_first (by decide) (lookup_providerRow rfl)
  refine (mapM_eq_pure (g := fun x => [("id".toList, some (Datum.int x.1.dataproviderid))]) fun x _ => ?_).trans ?_
  · rw [Function.comp_apply]
    exact congrArg (Option.map _) (hid x)
  · rw [filter_product, Store.dataproviderIds]
    simp [List.map_flatMap, Function.comp_def]

/-- Conditions decide what holds of a row. -/
def Deciding (times : Times) (value : β → Datum) (dom P : ValueV β → Prop) (cs : List Condition) : Prop :=
  ∀ scope w, Shows value scope w → dom w → Decides (conj (cs.map (Condition.eval times scope))) (P w)

theorem sources_view : tables cat dataSource value view (some wciSchema.toList) (viewName dataSource).toList =
    some (view.map (row value)) := by
  have hother : (viewName dataSource).toList ≠ "dataprovider_mv".toList := by cases dataSource <;> decide
  rw [tables, if_neg (not_not_intro rfl), if_neg hother, if_pos rfl]

/-- The rows of a view. -/
theorem rows_alone [DecidablePred P] (hcs : Deciding times value dom P cs) (hdom : ∀ w ∈ view, dom w) :
    (⟨none, ⟨[viewRef dataSource], cs⟩⟩ : SqlSelect.Query).rows times (tables cat dataSource value view) =
      some ((view.filter fun w => P w).map fun w => [(['v'], row value w)]) := by
  have hsources : sources (tables cat dataSource value view) [viewRef dataSource] = some [(['v'], view.map (row value))] := by
    exact sources_cons sources_view sources_nil
  exact rows_eq (s := ⟨[viewRef dataSource], cs⟩) hsources product_singleton fun w hw =>
    hcs _ w (shows_singleton ['v'] w) (hdom w hw)

/-- A row of the view and a data provider. -/
def joinedScope (value : β → Datum) (x : ValueV β × ℤ) : Scope :=
  [(['v'], row value x.1), ("dataprovider".toList, [("id".toList, some (.int x.2))])]

theorem decides_isMember (value : β → Datum) (x : ValueV β × ℤ) :
    Decides (isMember.eval times (joinedScope value x)) (x.1.dataproviderid = x.2) := by
  have hlookup : (row value x.1).lookup "dataproviderid".toList = some (some (.int x.1.dataproviderid)) := by
    rw [row, lookup_full]
    rfl
  have hdataproviderid : (tableColumn "v" "dataproviderid").value times (joinedScope value x) =
      some (some (.int x.1.dataproviderid)) := value_first (by decide) hlookup
  have hcolumn : Column.value ⟨some "dataprovider".toList, "id".toList⟩ (joinedScope value x) = some (some (.int x.2)) :=
    value_second (by decide) List.lookup_cons_self
  have hid : (tableColumn "dataprovider" "id").value times (joinedScope value x) = some (some (.int x.2)) := hcolumn
  rw [isMember, Condition.eval, Test.eval, List.map_singleton, hdataproviderid, hid, asked_some]
  exact ((decides_some _).disj_cons decides_disj_nil).congr (by simp [Relation.holds])

/-- The rows of a view and the data providers. -/
theorem rows_joined [DecidablePred P] (hcs : Deciding times value dom P cs) (hdom : ∀ w ∈ view, dom w)
    (dataProvider : List String) :
    (⟨some (providersWith (dataProvider.map lower)), ⟨[viewRef dataSource, providersRef], isMember :: cs⟩⟩ :
      SqlSelect.Query).rows times (tables cat dataSource value view) =
      some (((view ×ˢ Store.dataproviderIds cat dataProvider).filter fun x =>
        x.1.dataproviderid = x.2 ∧ P x.1).map (joinedScope value)) := by
  have hsources : sources ((tables cat dataSource value view).add "dataprovider".toList
      ((Store.dataproviderIds cat dataProvider).map fun id => [("id".toList, some (.int id))]))
      [viewRef dataSource, providersRef] = some [(['v'], view.map (row value)),
        ("dataprovider".toList, (Store.dataproviderIds cat dataProvider).map fun id => [("id".toList, some (.int id))])] := by
    refine sources_cons ?_ (sources_cons (if_pos ⟨rfl, rfl⟩) sources_nil)
    exact (if_neg fun h => Option.some_ne_none _ h.1).trans sources_view
  rw [SqlSelect.Query.rows]
  dsimp only
  rw [rows_providersWith, Option.bind_some]
  refine rows_eq (s := ⟨[viewRef dataSource, providersRef], isMember :: cs⟩) hsources product_pair fun x hx => ?_
  have hno : (row value x.1).lookup "id".toList = none := by
    rw [row, lookup_full]
    rfl
  have hshows : Shows value (joinedScope value x) x.1 :=
    shows_pair ['v'] "dataprovider".toList "id".toList (some (.int x.2)) hno
  exact (decides_isMember value x).conj_cons (hcs _ x.1 hshows (hdom x.1 (List.pair_mem_product.1 hx).1))

/-- A row is selected once for every data provider that it has. -/
theorem map_joined [DecidablePred P] (ids : List ℤ) :
    ((view ×ˢ ids).filter fun x => x.1.dataproviderid = x.2 ∧ P x.1).map (fun x => x.1) =
      (view.filter fun w => P w).flatMap fun w => List.replicate (ids.count w.dataproviderid) w := by
  rw [filter_product]
  induction view with
  | nil => rfl
  | cons w view ih =>
    rw [List.flatMap_cons, List.map_append, ih, List.filter_cons]
    by_cases hw : P w
    · have hcount : (ids.filter fun id => w.dataproviderid = id ∧ P w).length = ids.count w.dataproviderid := by
        rw [List.count_eq_length_filter]
        refine congrArg List.length (List.filter_congr fun id _ => ?_)
        rw [Bool.eq_iff_iff, decide_eq_true_eq, beq_iff_eq, and_iff_left hw, eq_comm]
      simp [hw, Function.comp_def, List.map_const', ← hcount]
    · simp [hw]

end Rows

/-! ### The call -/

/-- The order and the groups, if there are any. -/
def finish (ordering groupby : Option FixedText) (b : Builder) : Builder :=
  let ordered := ordering.elim b fun ordering => b.orderBy (code ordering.text)
  groupby.elim ordered fun groupby => ordered.groupBy (code groupby.text)

/-- The steps from the query before the arguments to the text, locations apart. -/
structure Steps (p : WciReadParameterCollection) (dataSource : DataSource) (selectWhat : FixedText)
    (ordering groupby : Option FixedText) (t : Text) (b₁ b₂ b₃ b₄ b₅ b₆ : Builder) : Prop where
  dataProvider : addDataProviderQuery (start dataSource selectWhat) p.dataProvider = .ok b₁
  referenceTime : addReferenceTimeQuery b₁ p.referenceTime = .ok b₂
  validTime : addValidTimeQuery b₂ p.validTime = .ok b₃
  parameter : addParameterQuery b₃ p.parameter = .ok b₄
  level : addLevelQuery b₄ p.level = .ok b₅
  dataVersion : addDataVersionQuery b₅ p.dataVersion = .ok b₆
  str : (finish ordering groupby b₆).str = .ok t

/-- The location is missing, or is not asked for in the query. -/
def Unlocated (p : WciReadParameterCollection) (dataSource : DataSource) (output : OutputType) : Prop :=
  p.location = none ∨ dataSource = .gridTable ∧ output = .outputFloat

instance (p : WciReadParameterCollection) (dataSource : DataSource) (output : OutputType) :
    Decidable (Unlocated p dataSource output) := inferInstanceAs (Decidable (_ ∨ _))

/-- The versions of a call are `int`s, and those of every row can be counted. -/
structure Countable {β : Type} (p : WciReadParameterCollection) (view : List (ValueV β)) : Prop where
  range : ∀ versions ∈ p.dataVersion, ∀ n ∈ versions, -2 ^ 31 ≤ n ∧ n < 2 ^ 31
  counts : ∀ w ∈ view, ∀ versions ∈ p.dataVersion, Counts versions w.maxdataversion

section Call
variable {p : WciReadParameterCollection} {dataSource : DataSource} {output : OutputType}
  {selectWhat : FixedText} {ordering groupby : Option FixedText} {t : Text} {b b₁ b₂ b₃ b₄ b₅ b₆ : Builder}

theorem exists_steps (hlocation : Unlocated p dataSource output)
    (h : build_query p dataSource output selectWhat ordering groupby = .ok t) :
    ∃ b₁ b₂ b₃ b₄ b₅ b₆, Steps p dataSource selectWhat ordering groupby t b₁ b₂ b₃ b₄ b₅ b₆ := by
  unfold build_query at h
  extract_lets table builder at h
  obtain ⟨b₁, h₁, h⟩ := of_bind_eq_ok h
  obtain ⟨b₂, h₂, h⟩ := of_bind_eq_ok h
  obtain ⟨b₃, h₃, h⟩ := of_bind_eq_ok h
  obtain ⟨b₄, h₄, h⟩ := of_bind_eq_ok h
  obtain ⟨b₅, h₅, h⟩ := of_bind_eq_ok h
  obtain ⟨b₆, h₆, h⟩ := of_bind_eq_ok h
  obtain ⟨b₇, h₇, h⟩ := of_bind_eq_ok h
  have hstart : builder = start dataSource selectWhat := by cases dataSource <;> rfl
  rw [hstart] at h₁
  have hsame : b₇ = b₆ := by
    unfold addLocationQuery at h₇
    rcases hlocation with hnone | ⟨rfl, rfl⟩
    · rw [hnone] at h₇
      exact (Except.ok.inj h₇).symm
    · split at h₇
      · exact (Except.ok.inj h₇).symm
      · split at h₇
        · cases h₇
        · exact (Except.ok.inj h₇).symm
  rw [hsame] at h
  exact ⟨b₁, b₂, b₃, b₄, b₅, b₆, h₁, h₂, h₃, h₄, h₅, h₆, h⟩

theorem Writes.finish {q : SqlSelect.Query} (h : Writes b q) : Writes (finish ordering groupby b) q := by
  cases ordering <;> cases groupby <;> exact ⟨h.with_, h.from_, h.where_, h.named⟩

theorem Steps.sound (h : Steps p dataSource selectWhat ordering groupby t b₁ b₂ b₃ b₄ b₅ b₆) :
    (finish ordering groupby b₆).Sound := by
  have hextends : Extends {} (start dataSource selectWhat) [] := extends_start dataSource
  have hstart := hextends.sound sound_empty
  have h₁ := (narrows_addDataProviderQuery h.dataProvider).sound hstart
  have h₂ := (narrows_addReferenceTimeQuery h.referenceTime).sound h₁
  have h₃ := (narrows_addValidTimeQuery h.validTime).sound h₂
  have h₄ := (narrows_addParameterQuery h.parameter).sound h₃
  have h₅ := (narrows_addLevelQuery h.level).sound h₄
  have h₆ := (narrows_addDataVersionQuery h.dataVersion).sound h₅
  have hordered : (ordering.elim b₆ fun ordering => b₆.orderBy (code ordering.text)).Sound := by
    cases ordering with
    | none => exact h₆
    | some f => exact h₆.orderBy (item_code (fixed_text f))
  cases groupby with
  | none => exact hordered
  | some f => exact hordered.groupBy (item_code (fixed_text f))

/-- Plain strings are between their quotes. -/
theorem unquoted_of_plain (h : build_query p dataSource output selectWhat ordering groupby = .ok t)
    (hplain : Plain p) : ∀ x ∈ t, x.Unquoted := by
  obtain ⟨b, u, hbuilt⟩ := build_query_built h
  have htimes : ∀ x ∈ p.timesText, x.Safe := by
    rw [WciReadParameterCollection.timesText, List.forall_mem_append]
    exact ⟨safe_referenceTime_iff.2 ⟨hplain.keyword, hplain.referenceTime⟩,
      (safe_validTime_iff hbuilt.validTime).2 hplain.validTime⟩
  have hsafe := hbuilt.safe_iff.2 ⟨htimes, hbuilt.safe_places hplain.placeName⟩
  exact fun x hx => (safe_iff.1 (hsafe x hx)).1

variable {β : Type} {times : Times} {cat : Catalog} {value : β → Datum} {view rows : List (ValueV β)}

/-- What the arguments ask for, one by one. Patterns come to a result in every row. -/
structure Demands (times : Times) (cat : Catalog) (p : WciReadParameterCollection) (view : List (ValueV β))
    (joins : ValueV β → ℕ) (reference valid : ValueV β → Bool) (parameter level version : ValueV β → Option Bool) :
    Prop where
  dataProvider : Store.addDataProviderQuery cat (p.denotes times).dataProvider = some joins
  referenceTime : Store.addReferenceTimeQuery (p.denotes times).referenceTime = some reference
  validTime : Store.addValidTimeQuery (p.denotes times).validTime = some valid
  parameter : Store.addParameterQuery (p.denotes times).parameter = some parameter ∧ ∀ w ∈ view, (parameter w).isSome
  level : Store.addLevelQuery (p.denotes times).level = some level ∧ ∀ w ∈ view, (level w).isSome
  dataVersion : Store.addDataVersionQuery (p.denotes times).dataVersion = some version

theorem exists_demands (h : Store.buildQuery cat (p.denotes times) (some fun _ => true) view = some rows) :
    ∃ joins reference valid parameter level version,
      Demands times cat p view joins reference valid parameter level version ∧
      rows = (view.filter fun w => (((reference w ∧ valid w) ∧ parameter w = some true) ∧ level w = some true) ∧
        version w = some true).flatMap fun w => List.replicate (joins w) w := by
  unfold Store.buildQuery at h
  obtain ⟨joins, hjoins, h⟩ := Option.bind_eq_some_iff.1 h
  obtain ⟨reference, hreference, h⟩ := Option.bind_eq_some_iff.1 h
  obtain ⟨valid, hvalid, h⟩ := Option.bind_eq_some_iff.1 h
  obtain ⟨parameter, hparameter, h⟩ := Option.bind_eq_some_iff.1 h
  obtain ⟨level, hlevel, h⟩ := Option.bind_eq_some_iff.1 h
  obtain ⟨version, hversion, h⟩ := Option.bind_eq_some_iff.1 h
  rw [Option.bind_some] at h
  split at h
  · next hall =>
    refine ⟨joins, reference, valid, parameter, level, version, ⟨hjoins, hreference, hvalid,
      ⟨hparameter, fun w hw => (hall w hw).1⟩, ⟨hlevel, fun w hw => (hall w hw).2.1⟩, hversion⟩, ?_⟩
    rw [← Option.some.inj h]
    congr 1
    refine List.filter_congr fun w _ => ?_
    cases parameter w <;> cases level w <;> cases version w <;> simp
  · cases h

/-- The conditions for the arguments decide what these ask for. -/
theorem Steps.restricts {joins : ValueV β → ℕ} {reference valid : ValueV β → Bool}
    {parameter level version : ValueV β → Option Bool}
    (h : Steps p dataSource selectWhat ordering groupby t b₁ b₂ b₃ b₄ b₅ b₆)
    (hdemands : Demands times cat p view joins reference valid parameter level version)
    (hcountable : Countable p view) :
    ∃ cs, Restricts times value (· ∈ view) b₁ b₆ (fun w => (((reference w ∧ valid w) ∧ parameter w = some true) ∧
      level w = some true) ∧ version w = some true) cs := by
  obtain ⟨cs₂, h₂⟩ := restricts_referenceTime h.referenceTime hdemands.referenceTime
  obtain ⟨cs₃, h₃⟩ := restricts_validTime h.validTime hdemands.validTime
  obtain ⟨cs₄, h₄⟩ := restricts_parameter h.parameter hdemands.parameter.1 hdemands.parameter.2
  obtain ⟨cs₅, h₅⟩ := restricts_level h.level hdemands.level.1 hdemands.level.2
  obtain ⟨cs₆, h₆⟩ := restricts_dataVersion hcountable.range hcountable.counts h.dataVersion hdemands.dataVersion
  exact ⟨_, (((h₂.trans h₃).trans h₄).trans h₅).trans h₆⟩

/-- The text of a call selects what the query before its order and its groups does. -/
theorem Steps.selects_eq {db : Tables} {q : SqlSelect.Query}
    (h : Steps p dataSource selectWhat ordering groupby t b₁ b₂ b₃ b₄ b₅ b₆) (ht : ∀ x ∈ t, x.Unquoted)
    (hwrites : Writes b₆ q) : selects times db (characters t) = q.rows times db :=
  hwrites.finish.selects_eq h.sound h.str ht

/-- The text that is built for a call, locations apart, selects the rows of the view that the arguments ask for,
    each as often as the data providers are joined. -/
theorem build_query_selects (hlocation : Unlocated p dataSource output)
    (h : build_query p dataSource output selectWhat ordering groupby = .ok t) (hplain : Plain p)
    (hcountable : Countable p view)
    (hrows : Store.buildQuery cat (p.denotes times) (some fun _ => true) view = some rows) :
    (selects times (tables cat dataSource value view) (characters t)).map (fun scopes =>
      scopes.map fun scope => scope.lookup ['v']) = some (rows.map fun w => some (row value w)) := by
  have hunquoted := unquoted_of_plain h hplain
  obtain ⟨b₁, b₂, b₃, b₄, b₅, b₆, hsteps⟩ := exists_steps hlocation h
  obtain ⟨joins, reference, valid, parameter, level, version, hdemands, rfl⟩ := exists_demands hrows
  obtain ⟨cs, hcs⟩ : ∃ cs, Restricts times value (· ∈ view) b₁ b₆ _ cs := hsteps.restricts hdemands hcountable
  have hjoins := hdemands.dataProvider
  have hdataProvider := hsteps.dataProvider
  rw [WciReadParameterCollection.denotes] at hjoins
  dsimp only at hjoins
  cases hnames : p.dataProvider with
  | none =>
    rw [hnames] at hjoins hdataProvider
    obtain rfl := Option.some.inj hjoins
    obtain rfl := Except.ok.inj hdataProvider
    have hwrites := (writes_start dataSource selectWhat).restricts hcs
    rw [hsteps.selects_eq hunquoted hwrites, List.nil_append, rows_alone hcs.decides fun w hw => hw]
    simp
  | some names =>
    rw [hnames] at hjoins hdataProvider
    obtain rfl := Option.some.inj hjoins
    cases names with
    | nil =>
      obtain rfl := Except.ok.inj hdataProvider
      have hfalse : Restricts times value (· ∈ view) (start dataSource selectWhat)
          ((start dataSource selectWhat).where' (code "FALSE ")) (fun _ => False) _ := restricts_false _ (by decide)
      have hnone := hfalse.trans hcs
      have hwrites := (writes_start dataSource selectWhat).restricts hnone
      have hids : Store.dataproviderIds cat [] = [] := by simp [Store.dataproviderIds]
      rw [hsteps.selects_eq hunquoted hwrites, List.nil_append, rows_alone hnone.decides fun w hw => hw]
      simp [hids]
    | cons name names =>
      have hwrites := (writes_addDataProviderQuery hdataProvider).restricts hcs
      rw [hsteps.selects_eq hunquoted hwrites, List.singleton_append,
        rows_joined hcs.decides (fun w hw => hw) (name :: names), ← map_joined]
      simp [joinedScope]

end Call

/-- A call that asks for a value in every way, for its data provider and for the group that this is in. -/
def oneCall : WciReadParameterCollection where
  dataProvider := some ["Group", "provider"]
  referenceTime := some "2000-01-01"
  validTime := some "inside 2000-01-01 TO 2000-01-01"
  parameter := some ["wind%", "AIR_temperature"]
  level := some "inside 0 TO 10.5 air temperature"
  dataVersion := some [3, -1]

/-- One time can be read. -/
def oneTime : Times := ⟨fun s => if s = "2000-01-01" then some 0 else none, fun _ => none⟩

theorem build_query_selects_twice : ∃ t, build_query oneCall .floatTable .outputFloat valueColumn none none = .ok t ∧
    (selects oneTime (tables Store.grouped .floatTable Datum.real
      (Store.floatvalueV Store.grouped Store.oneSession Store.oneFloat)) (characters t)).map (fun scopes =>
        scopes.map fun scope => scope.lookup ['v']) =
      some ((Store.floatvalueV Store.grouped Store.oneSession Store.oneFloat ++
        Store.floatvalueV Store.grouped Store.oneSession Store.oneFloat).map fun w => some (row Datum.real w)) := by
  obtain ⟨t, ht, -⟩ := exists_query (p := oneCall) (x := .part (.spliced "2000-01-01")) (by decide +kernel)
  have hplain : Plain oneCall := ⟨by decide, by decide, by decide, by decide⟩
  have hmax : ∀ w ∈ Store.floatvalueV Store.grouped Store.oneSession Store.oneFloat, w.maxdataversion = 0 := by
    decide
  have hcountable : Countable oneCall (Store.floatvalueV Store.grouped Store.oneSession Store.oneFloat) := by
    refine ⟨by decide, fun w hw versions hversions => ?_⟩
    obtain rfl := Option.some.inj hversions
    rw [hmax w hw]
    refine ⟨by decide, fun n hn hneg => ?_⟩
    simp only [List.mem_cons, List.not_mem_nil, or_false] at hn
    rcases hn with rfl | rfl
    · exact absurd hneg (by decide)
    · exact ⟨by decide, by decide⟩
  exact ⟨t, ht, build_query_selects (Or.inl rfl) ht hplain hcountable (by decide +kernel)⟩

end Wdb.Query
