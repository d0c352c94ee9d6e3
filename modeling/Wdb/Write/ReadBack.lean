import Wdb.Read.Specifications
import Wdb.Write.Agree
import Wdb.Write.ParameterNames

/-! Reading back what was written, with the strings that it was written with.

    A write looks its parameters up by what their strings are normalized to; a read takes the strings as
    they are, as patterns, the level parameter out of a level specification. A row that was written is
    read again when its spelling is kept and its pattern matches. -/

namespace Wdb.Write
open Relational SqlTypes Store Blob Read

/-! ### The calls -/

/-- The overloads of `wci.write`, with the arguments that not all of them have. -/
inductive Call where
  | gridLimited (data : Option (List UInt8))
  | gridAll (data : Option (List UInt8)) (dataproviderName_ : Option String)
      (dataVersion_ setConfidenceCode_ : Option ℤ)
  | gridIdAll (gridId_ : Option ℤ) (dataproviderName_ : Option String)
      (dataVersion_ setConfidenceCode_ : Option ℤ)
  | gridReturnGid (value : Option ℤ) (dataProviderName : Option String) (dataVersion : Option ℤ)
  | reserveAndWrite (data : Option (List UInt8)) (dataproviderName_ : Option String)
      (dataVersion_ setConfidenceCode_ : Option ℤ)
  | floatLimited (value_ : Option ℚ)
  | floatAll (value_ : Option ℚ) (dataproviderName_ : Option String)
      (dataVersion_ setConfidenceCode_ : Option ℤ)

section Calls
variable (env : Environment) (s : State) (a : Arguments) (now : ℤ)

/-- What a call does. -/
def Call.run : Call → Option State
  | .gridLimited data => Write.gridLimited env s data a now
  | .gridAll data name version confidence => Write.gridAll env s data name a version confidence now
  | .gridIdAll id name version confidence => Write.gridIdAll env s id name a version confidence now
  | .gridReturnGid value name version => Write.gridReturnGid env s value name a version now
  | .reserveAndWrite data name version confidence =>
    Write.reserveAndWrite env s data name a version confidence now
  | .floatLimited value => Write.floatLimited env s value a now
  | .floatAll value name version confidence => Write.floatAll env s value name a version confidence now

/-- The data provider that a call writes for. -/
def Call.provider : Call → Option ℤ
  | .gridLimited _ | .floatLimited _ => wcidataproviderid env
  | .gridAll _ name _ _ | .gridIdAll _ name _ _ | .gridReturnGid _ name _ |
    .reserveAndWrite _ name _ _ | .floatAll _ name _ _ => idFromDataProvider env name

/-- The calls that write floats. -/
def Call.ofFloat : Call → Bool
  | .floatLimited _ | .floatAll .. => true
  | _ => false

/-- `wci.read(NULL, NULL, NULL, NULL, ARRAY[parameter], level, NULL, …)`. -/
def asked (parameter level : String) : ReadParameters where
  parameter := .value [parameter]
  level := (levelSpecification level).elim .invalid .value

variable (s' : State) (parameter level : String)

/-- A read of grids returns a value that was not there before. -/
def ReadsGrid : Prop :=
  ∃ rows, readGid env.cat env.session s'.db (asked parameter level) .null = some rows ∧
    ∃ w ∈ rows, ∀ r ∈ s.db.gridvalue.rows, r.valueid ≠ w.valueid

/-- A read of floats returns a value that was not there before. -/
def ReadsFloat : Prop :=
  ∃ rows, readFloatTable env.cat env.session s'.db (asked parameter level) = some rows ∧
    ∃ w ∈ rows, ∀ i ∈ s.db.floatvalueitem.rows,
      ¬ (i.valuegroupid = w.valueid ∧ i.referencetime = w.referencetime)

/-- A read returns the row that a call has written. -/
def Call.ReadsBack (call : Call) : Prop :=
  if call.ofFloat then ReadsFloat env s s' parameter level else ReadsGrid env s s' parameter level

end Calls

/-! ### What a read returns -/

section Reads
variable {β : Type}

/-- The query: an error unless both patterns can be compared with every row, else the rows that meet both
    conditions. -/
theorem buildQuery_asked (cat : Catalog) (view : List (ValueV β)) {v spec : String} {lvl : Level}
    (hspec : levelSpecification spec = some lvl) :
    buildQuery cat (asked v spec) (some fun _ => true) view =
      if v.isEmpty then none
      else if ∀ w ∈ view, comparable w.names.vp.parametername v ∧ comparable w.names.lp.parametername lvl.parameter then
        some (view.filter fun w => nameLike w.names.vp.parametername v &&
          (nameLike w.names.lp.parametername lvl.parameter && lvl.covers w.levelfrom w.levelto))
      else none := by
  simp only [buildQuery, asked, hspec, Option.elim_some, addLevelQuery_value, addDataProviderQuery,
    addReferenceTimeQuery, addValidTimeQuery, addParameterQuery, addDataVersionQuery,
    Arg.condition, Option.bind_some, List.any_cons, List.any_nil, List.all_cons, List.all_nil, Bool.or_false,
    Bool.and_true]
  cases v.isEmpty with
  | true => rfl
  | false =>
    simp only [Bool.false_eq_true, if_false, Option.bind_some]
    refine if_ctx_congr (by simp) (fun hcomparable => ?_) fun _ => rfl
    simp only [Bool.true_and, Bool.and_true, Option.getD_some, List.replicate_one, List.flatMap_singleton']
    refine congrArg some (List.filter_congr fun w hw => ?_)
    obtain ⟨hname, hlname⟩ := hcomparable w hw
    rw [if_pos hname, if_pos hlname, Option.getD_some, Option.getD_some]

/-- A read returns one of some rows when one of them is in the view and meets both conditions. -/
theorem reads_iff (cat : Catalog) (view : List (ValueV β)) (v spec : String)
    (P : ValueV β → Prop) :
    (∃ rows, buildQuery cat (asked v spec) (some fun _ => true) view = some rows ∧
      ∃ w ∈ rows, P w) ↔
    v ≠ "" ∧ ∃ lvl, levelSpecification spec = some lvl ∧ ∃ w ∈ view, P w ∧
      nameLike w.names.vp.parametername v = true ∧
      nameLike w.names.lp.parametername lvl.parameter = true ∧
      lvl.covers w.levelfrom w.levelto = true := by
  constructor
  · rintro ⟨rows, hrows, w, hw, hP⟩
    cases hspec : levelSpecification spec with
    | none => simp [buildQuery, asked, hspec, addLevelQuery] at hrows
    | some lvl =>
      rw [buildQuery_asked cat view hspec] at hrows
      split at hrows
      · cases hrows
      · next hempty =>
        split at hrows
        · cases hrows
          simp only [List.mem_filter, Bool.and_eq_true] at hw
          refine ⟨?_, lvl, rfl, w, hw.1, hP, hw.2⟩
          rintro rfl
          exact hempty rfl
        · cases hrows
  · rintro ⟨hv, lvl, hspec, w, hw, hP, hname, hlname, hcovers⟩
    have hempty : ¬ v.isEmpty := by simpa [String.isEmpty_iff] using hv
    have hrows := buildQuery_asked cat view (v := v) hspec
    rw [if_neg hempty, if_pos fun _ _ => ⟨comparable_of_nameLike hname _, comparable_of_nameLike hlname _⟩] at hrows
    exact ⟨_, hrows, w, List.mem_filter.2 ⟨hw, by simp [hname, hlname, hcovers]⟩, hP⟩

end Reads

/-! ### What a call has written -/

section Written
variable {env : Environment} {s s' : State} {a : Arguments}

/-- A view shows a value that was not there before with the names of its key, and no other new one. -/
structure Shows {β : Type} (env : Environment) (view : List (ValueV β)) (new : ValueV β → Prop)
    (k : Key) : Prop where
  ofKey : ∀ w ∈ view, new w → w.toSeries = k.toSeries ∧
    w.names ∈ env.cat.names env.session k.toSeries k.referencetime
  all : ∀ n ∈ env.cat.names env.session k.toSeries k.referencetime,
    ∃ w ∈ view, new w ∧ w.toSeries = k.toSeries ∧ w.names = n

/-- After a grid write the view shows the new row. -/
theorem shows_grid {db db' : Db} {k : Key} {v c id now : ℤ}
    (h : db'.gridvalue.rows = (setGridMax db k v).rows ++ [newGrid db k v c id now]) :
    Shows env (gridvalueV env.cat env.session db')
      (fun w => ∀ r ∈ db.gridvalue.rows, r.valueid ≠ w.valueid) k := by
  have hmem : newGrid db k v c id now ∈ db'.gridvalue.rows := by
    rw [h]
    exact List.mem_append_right _ List.mem_cons_self
  refine ⟨fun w hw hnew => ?_, fun n hn => ?_⟩
  · obtain ⟨r, hr, hw⟩ := mem_gridvalueV.1 hw
    obtain ⟨hkey, hid, _, _, hnames⟩ := shown_grid hw
    rw [h, List.mem_append, List.mem_singleton] at hr
    rcases hr with hr | rfl
    · -- a row that was there keeps its id
      obtain ⟨r₀, hr₀, rfl⟩ := mem_setGridMax.1 hr
      refine absurd hid.symm ?_
      split <;> exact hnew r₀ hr₀
    · exact ⟨congrArg Key.toSeries hkey, hnames⟩
  · refine ⟨_, mem_gridvalueV.2 ⟨_, hmem, List.mem_map.2 ⟨n, hn, rfl⟩⟩, fun r hr => ?_, rfl, rfl⟩
    exact ne_of_lt (db.valueid_drawn r hr)

/-- Setting a maximum changes neither columns of the primary key. -/
theorem setMax_fst (k : Key) (m : Option ℤ) (x : FloatValueItem × FloatValueGroup) :
    (setMax k m x).1.valuegroupid = x.1.valuegroupid ∧
      (setMax k m x).1.referencetime = x.1.referencetime := by
  cases m with
  | none => exact ⟨rfl, rfl⟩
  | some m =>
    simp only [setMax]
    split <;> exact ⟨rfl, rfl⟩

/-- No stored item is in the place of one that a write is not refused. -/
theorem storedItem_free {db : Db} {k : Key} {v c : ℤ} {x : ℚ}
    (href : ¬ FloatRefused env.cat db k v c x) {i : FloatValueItem}
    (hi : i ∈ db.floatvalueitem.rows) (hid : i.valuegroupid = (groupOf db k v).valuegroupid) :
    i.referencetime ≠ k.referencetime := by
  intro hr
  obtain ⟨g, hg, hgid⟩ := db.valuegroupid_refers i hi
  rw [hid] at hgid
  unfold groupOf at hgid
  cases hfind : db.floatvaluegroup.rows.find? fun g => g.ofKey k ∧ g.dataversion = v with
  | none =>
    rw [hfind] at hgid
    exact absurd hgid (ne_of_lt (db.valuegroupid_drawn g hg))
  | some g₀ =>
    rw [hfind, Option.getD_some] at hgid
    have hcond := List.find?_some hfind
    obtain ⟨hofKey, hversion⟩ := of_decide_eq_true hcond
    obtain rfl := group_eq hg (List.mem_of_find?_eq_some hfind) hgid
    unfold groupOf at hid
    rw [hfind, Option.getD_some] at hid
    exact href (Or.inr (Or.inr (Or.inr
      ⟨(i, g), mem_floats.2 ⟨hi, hg, hid⟩, floatKey_eq_key.2 ⟨hofKey, hr⟩, hversion⟩)))

/-- After a float write the view shows the new item. -/
theorem shows_float {db db' : Db} {k : Key} {v c now : ℤ} {x r : ℚ} {m : Option ℤ}
    (href : ¬ FloatRefused env.cat db k v c x) (h : FloatWritten db db' k v c r m now) :
    Shows env (floatvalueV env.cat env.session db')
      (fun w => ∀ i ∈ db.floatvalueitem.rows,
        ¬ (i.valuegroupid = w.valueid ∧ i.referencetime = w.referencetime)) k := by
  refine ⟨fun w hw hnew => ?_, fun n hn => ?_⟩
  · obtain ⟨i, hi, g, hg, hid, hw⟩ := mem_floatvalueV.1 hw
    obtain ⟨hseries, hr, _, _, hvalueid, _, _, hnames⟩ := shown_item hw
    have hmem : (i, g) ∈ db'.floats := mem_floats.2 ⟨hi, hg, hid⟩
    rw [h.floats] at hmem
    obtain ⟨y, hy, hset⟩ := List.mem_map.1 hmem
    have hgroup : y.2 = g := (setMax_snd k m y).symm.trans (congrArg Prod.snd hset)
    obtain ⟨hyid, hyr⟩ := setMax_fst k m y
    rw [hset] at hyid hyr
    rw [List.mem_append, List.mem_singleton] at hy
    rcases hy with hy | rfl
    · -- an item that was there keeps its place
      refine absurd ⟨?_, ?_⟩ (hnew y.1 (mem_floats.1 hy).1)
      · rw [hvalueid, ← hid, hyid]
      · rw [hr, hyr]
    · rw [← hgroup] at hseries hnames
      have hkr : i.referencetime = k.referencetime := hyr
      rw [hkr] at hnames
      change w.toSeries = (groupOf db k v).toSeries at hseries
      change w.names ∈ env.cat.names env.session (groupOf db k v).toSeries k.referencetime at hnames
      rw [h.series] at hseries hnames
      exact ⟨hseries, hnames⟩
  · have hmem : setMax k m (storedItem db k v c r now, groupOf db k v) ∈ db'.floats := by
      rw [h.floats]
      exact List.mem_map_of_mem (List.mem_append_right _ List.mem_cons_self)
    obtain ⟨hi, hg, hid⟩ := mem_floats.1 hmem
    obtain ⟨_, hr⟩ := setMax_fst k m (storedItem db k v c r now, groupOf db k v)
    rw [setMax_snd] at hg hid
    have hshown : n ∈ env.cat.names env.session (groupOf db k v).toSeries
        (setMax k m (storedItem db k v c r now, groupOf db k v)).1.referencetime := by
      rw [h.series, hr]
      exact hn
    refine ⟨_, mem_floatvalueV.2 ⟨_, hi, _, hg, hid, List.mem_map.2 ⟨n, hshown, rfl⟩⟩,
      fun i hi' hclash => ?_, h.series, rfl⟩
    exact storedItem_free href hi' hclash.1 (hclash.2.trans hr)

/-- What a call reads in the end. -/
def Call.Shows (call : Call) (env : Environment) (s s' : State) (k : Key) : Prop :=
  if call.ofFloat then
    Write.Shows env (floatvalueV env.cat env.session s'.db) (fun w => ∀ i ∈ s.db.floatvalueitem.rows,
      ¬ (i.valuegroupid = w.valueid ∧ i.referencetime = w.referencetime)) k
  else
    Write.Shows env (gridvalueV env.cat env.session s'.db)
      (fun w => ∀ r ∈ s.db.gridvalue.rows, r.valueid ≠ w.valueid) k

theorem gridWith_shows {provider version confidence : Option ℤ} {data : Option (List UInt8)}
    {now : ℤ} (h : gridWith env s provider data a version confidence now = some s') :
    ∃ k, a.resolve env provider = some k ∧ Shows env (gridvalueV env.cat env.session s'.db)
      (fun w => ∀ r ∈ s.db.gridvalue.rows, r.valueid ≠ w.valueid) k := by
  simp only [gridWith, Option.bind_eq_bind, Option.bind_eq_some_iff] at h
  obtain ⟨k, hk, _, _, v, _, bytes, _, h⟩ := h
  rcases step_write_cases s env.cat k v (confidence.getD 0) bytes now with
    ⟨_, hnone⟩ | ⟨_, s₁, hs₁, hwritten⟩
  · rw [hnone] at h
    cases h
  · rw [hs₁] at h
    cases h
    exact ⟨k, hk, shows_grid hwritten.grids⟩

theorem gridReturnGid_shows {value version : Option ℤ} {name : Option String} {now : ℤ}
    (h : gridReturnGid env s value name a version now = some s') :
    ∃ k, a.resolve env (idFromDataProvider env name) = some k ∧
      Shows env (gridvalueV env.cat env.session s'.db)
        (fun w => ∀ r ∈ s.db.gridvalue.rows, r.valueid ≠ w.valueid) k := by
  simp only [gridReturnGid, Option.bind_eq_bind, Option.bind_eq_some_iff] at h
  obtain ⟨p, hp, placeid, hplace, k, hk, v, _, id, _, h⟩ := h
  have hresolve : a.resolve env (idFromDataProvider env name) = some k := by
    simp [Arguments.resolve, hp, hplace, hk]
  rcases writeGrid_cases env.cat s.db k v 0 id now with ⟨_, hnone⟩ | ⟨_, db', hsome, hrows⟩
  · simp [step, Statement.tables, hnone] at h
  · simp only [step, Statement.tables, hsome, Option.map_some, Option.some_inj] at h
    subst h
    exact ⟨k, hresolve, shows_grid hrows⟩

theorem floatWith_shows {provider version confidence : Option ℤ} {value : Option ℚ} {now : ℤ}
    (h : floatWith env s provider value a version confidence now = some s') :
    ∃ k, a.resolve env provider = some k ∧ Shows env (floatvalueV env.cat env.session s'.db)
      (fun w => ∀ i ∈ s.db.floatvalueitem.rows,
        ¬ (i.valuegroupid = w.valueid ∧ i.referencetime = w.referencetime)) k := by
  simp only [floatWith, Option.bind_eq_bind, Option.bind_eq_some_iff, Option.pure_def,
    Option.some_inj] at h
  obtain ⟨k, hk, v, _, x, _, db', hdb', rfl⟩ := h
  rcases writeFloat_done env s k v (confidence.getD 0) x with ⟨_, hnone⟩ | ⟨hok, r, m, hall⟩
  · rw [hnone now] at hdb'
    cases hdb'
  · obtain ⟨db₁, hdb₁, hwritten⟩ := hall now
    rw [hdb₁] at hdb'
    cases hdb'
    exact ⟨k, hk, shows_float hok.1 hwritten⟩

/-- A call that succeeds writes a row of the key that its arguments denote. -/
theorem Call.run_shows {call : Call} {now : ℤ} (h : call.run env s a now = some s') :
    ∃ k, a.resolve env (call.provider env) = some k ∧ call.Shows env s s' k := by
  cases call with
  | gridLimited data =>
    rw [Call.run, gridLimited_eq] at h
    exact gridWith_shows h
  | gridAll data name version confidence =>
    rw [Call.run, gridAll_eq] at h
    exact gridWith_shows h
  | gridIdAll id name version confidence =>
    rw [Call.run, gridIdAll_eq_none] at h
    cases h
  | gridReturnGid value name version => exact gridReturnGid_shows h
  | reserveAndWrite data name version confidence =>
    simp [Call.run, Write.reserveAndWrite, gridIdAll_eq_none] at h
  | floatLimited value =>
    rw [Call.run, floatLimited_eq] at h
    exact floatWith_shows h
  | floatAll value name version confidence =>
    rw [Call.run, floatAll_eq] at h
    exact floatWith_shows h

/-! ### What its names are -/

/-- What the arguments denote: the parameters by what their strings are normalized to, the place by its
    name at the reference time. -/
structure Denotes (env : Environment) (a : Arguments) (v l : String) (k : Key) : Prop where
  value_ne : v ≠ ""
  level_ne : l ≠ ""
  value : ∃ p ∈ env.cat.parameterMv,
    p.parametername = String.ofList (eraseInstant (collapse false (lower v).toList)) ∧
    p.parameternamespaceid = env.session.parameternamespaceid ∧ p.parameterid = k.valueparameterid
  level : ∃ p ∈ env.cat.parameterMv,
    p.parametername = String.ofList (collapse false (lower l).toList) ∧
    p.parameternamespaceid = env.session.parameternamespaceid ∧ p.parameterid = k.levelparameterid
  place : ∃ p ∈ env.cat.placedefinitionMv, p.placenamespaceid = env.session.placenamespaceid ∧
    k.placeid = p.placeid ∧ p.placenamevalidfrom.le k.referencetime ∧
    p.placenamevalidto.gt k.referencetime
  levelfrom : a.levelfrom = some k.levelfrom
  levelto : a.levelto = some k.levelto

theorem resolve_denotes {provider : Option ℤ} {k : Key} {v l : String}
    (h : a.resolve env provider = some k) (hv : a.valueparameter = some v)
    (hl : a.levelparameter = some l) : Denotes env a v l k := by
  have hvne : v ≠ "" := by
    rintro rfl
    simp [Arguments.resolve, Arguments.key, hv, normalize, valueParameterType, normalized] at h
  have hlne : l ≠ "" := by
    rintro rfl
    simp [Arguments.resolve, Arguments.key, hl, normalize, levelParameterType, normalized] at h
  simp only [Arguments.resolve, Arguments.key, hv, hl, normalize_value hvne, normalize_level hlne,
    Option.bind_eq_bind, Option.bind_some, Option.bind_eq_some_iff, Option.pure_def,
    Option.some_inj] at h
  obtain ⟨_, _, placeid, hplace, vp, hvp, lp, hlp, levelfrom, hfrom, levelto, hto, r, hr, _, _, _, _,
    rfl⟩ := h
  refine ⟨hvne, hlne, getParameterId_eq_some hvp, getParameterId_eq_some hlp, ?_, hfrom, hto⟩
  simp only [getPlaceId, hr, Option.bind_eq_bind, Option.bind_eq_some_iff, Option.some_inj,
    Option.map_eq_some_iff] at hplace
  obtain ⟨_, _, t, rfl, p, hp, rfl⟩ := hplace
  have hcond := List.find?_some hp
  obtain ⟨hns, _, hle, hgt⟩ := of_decide_eq_true hcond
  exact ⟨p, List.mem_of_find?_eq_some hp, hns, rfl, hle, hgt⟩

/-- The rows that the name views are joined from. -/
theorem mem_names {cat : Catalog} {session : Session} {series : Series} {r : ℤ} {n : Names} :
    n ∈ cat.names session series r ↔
      (n.dp ∈ cat.dataproviderMv ∧ n.dp.dataprovidernamespaceid = session.dataprovidernamespaceid ∧
        series.dataproviderid = n.dp.dataproviderid) ∧
      (n.pl ∈ cat.placedefinitionMv ∧ n.pl.placenamespaceid = session.placenamespaceid ∧
        series.placeid = n.pl.placeid ∧ n.pl.placenamevalidfrom.le r ∧ n.pl.placenamevalidto.gt r) ∧
      (n.vp ∈ cat.parameterMv ∧ n.vp.parameternamespaceid = session.parameternamespaceid ∧
        series.valueparameterid = n.vp.parameterid) ∧
      (n.lp ∈ cat.parameterMv ∧ n.lp.parameternamespaceid = session.parameternamespaceid ∧
        series.levelparameterid = n.lp.parameterid) := by
  unfold Catalog.names
  simp only [List.mem_flatMap, List.mem_map, List.mem_filter, decide_eq_true_eq]
  constructor
  · rintro ⟨dp, hdp, pl, hpl, vp, hvp, lp, hlp, rfl⟩
    exact ⟨hdp, hpl, hvp, hlp⟩
  · rintro ⟨hdp, hpl, hvp, hlp⟩
    exact ⟨n.dp, hdp, n.pl, hpl, n.vp, hvp, n.lp, hlp, rfl⟩

/-- The data provider of a call has a name in the session's namespace. -/
def Call.Named (call : Call) (env : Environment) : Prop :=
  ∃ dp ∈ env.cat.dataproviderMv, dp.dataprovidernamespaceid = env.session.dataprovidernamespaceid ∧
    call.provider env = some dp.dataproviderid

/-- The value parameter is kept by normalization, and matches itself as a pattern. -/
structure ValueReadable (v : String) : Prop where
  single : Single (lower v).toList
  not_instant : ¬ instant <+: (lower v).toList
  self : nameLike (lower v) v = true

/-- The level specification asks for the levels of the arguments, and its parameter is a pattern for
    what the level parameter is normalized to. -/
def LevelReadable (a : Arguments) (l spec : String) : Prop :=
  ∃ lvl levelfrom levelto, levelSpecification spec = some lvl ∧
    nameLike (String.ofList (collapse false (lower l).toList)) lvl.parameter = true ∧
    a.levelfrom = some levelfrom ∧ a.levelto = some levelto ∧ lvl.covers levelfrom levelto = true

/-- Which new rows a read returns, when a parameter has one name in a namespace. -/
theorem shows_iff {β : Type} {view : List (ValueV β)} {new : ValueV β → Prop} {k : Key}
    {v l q : String} {lvl : Level} (hshows : Shows env view new k) (hden : Denotes env a v l k)
    (hone : ∀ p₁ ∈ env.cat.parameterMv, ∀ p₂ ∈ env.cat.parameterMv,
      p₁.parameterid = p₂.parameterid → p₁.parameternamespaceid = p₂.parameternamespaceid →
        p₁.parametername = p₂.parametername) :
    (∃ w ∈ view, new w ∧ nameLike w.names.vp.parametername v = true ∧
      nameLike w.names.lp.parametername q = true ∧ lvl.covers w.levelfrom w.levelto = true) ↔
    (∃ dp ∈ env.cat.dataproviderMv, dp.dataprovidernamespaceid = env.session.dataprovidernamespaceid ∧
      k.dataproviderid = dp.dataproviderid) ∧
      nameLike (String.ofList (eraseInstant (collapse false (lower v).toList))) v = true ∧
      nameLike (String.ofList (collapse false (lower l).toList)) q = true ∧
      lvl.covers k.levelfrom k.levelto = true := by
  obtain ⟨vp, hvp, hvname, hvns, hvid⟩ := hden.value
  obtain ⟨lp, hlp, hlname, hlns, hlid⟩ := hden.level
  rw [← hvname, ← hlname]
  constructor
  · rintro ⟨w, hw, hnew, hname, hlevel, hcovers⟩
    obtain ⟨hseries, hnames⟩ := hshows.ofKey w hw hnew
    obtain ⟨⟨hdp, hdpns, hdpid⟩, _, ⟨hwvp, hwvns, hwvid⟩, hwlp, hwlns, hwlid⟩ := mem_names.1 hnames
    have hfrom : w.levelfrom = k.levelfrom := congrArg Series.levelfrom hseries
    have hto : w.levelto = k.levelto := congrArg Series.levelto hseries
    rw [hone _ hwvp _ hvp (hwvid.symm.trans hvid.symm) (hwvns.trans hvns.symm)] at hname
    rw [hone _ hwlp _ hlp (hwlid.symm.trans hlid.symm) (hwlns.trans hlns.symm)] at hlevel
    rw [hfrom, hto] at hcovers
    exact ⟨⟨_, hdp, hdpns, hdpid⟩, hname, hlevel, hcovers⟩
  · rintro ⟨⟨dp, hdp, hdpns, hdpid⟩, hname, hlevel, hcovers⟩
    obtain ⟨pl, hpl, hplace⟩ := hden.place
    obtain ⟨w, hw, hnew, hseries, hnames⟩ := hshows.all ⟨dp, pl, vp, lp⟩ (mem_names.2
      ⟨⟨hdp, hdpns, hdpid⟩, ⟨hpl, hplace⟩, ⟨hvp, hvns, hvid.symm⟩, hlp, hlns, hlid.symm⟩)
    have hfrom : w.levelfrom = k.levelfrom := congrArg Series.levelfrom hseries
    have hto : w.levelto = k.levelto := congrArg Series.levelto hseries
    refine ⟨w, hw, hnew, ?_⟩
    rw [hnames, hfrom, hto]
    exact ⟨hname, hlevel, hcovers⟩

/-- A call that succeeds is read back when its provider has a name that the session sees, its value
    parameter is readable, and so is the level specification. -/
theorem Call.readsBack_iff {call : Call} {now : ℤ} {v l : String} {db : ParameterDb} (spec : String)
    (hparameters : env.cat.parameterMv = db.parameterMv) (h : call.run env s a now = some s')
    (hv : a.valueparameter = some v) (hl : a.levelparameter = some l) :
    call.ReadsBack env s s' v spec ↔
      call.Named env ∧ ValueReadable v ∧ LevelReadable a l spec := by
  obtain ⟨k, hk, hshows⟩ := Call.run_shows h
  have hden := resolve_denotes hk hv hl
  have hprovider := resolve_provider hk
  have hone : ∀ p₁ ∈ env.cat.parameterMv, ∀ p₂ ∈ env.cat.parameterMv,
      p₁.parameterid = p₂.parameterid → p₁.parameternamespaceid = p₂.parameternamespaceid →
        p₁.parametername = p₂.parametername := by
    rw [hparameters]
    exact fun p₁ h₁ p₂ h₂ => db.oneName h₁ h₂
  have hcore : ∀ {β : Type} {view : List (ValueV β)} {new : ValueV β → Prop},
      Write.Shows env view new k → ((∃ rows,
        buildQuery env.cat (asked v spec) (some fun _ => true) view = some rows ∧
          ∃ w ∈ rows, new w) ↔ call.Named env ∧ ValueReadable v ∧ LevelReadable a l spec) := by
    intro β view new hnew
    rw [reads_iff]
    simp only [shows_iff hnew hden hone, nameLike_normalized_iff]
    constructor
    · rintro ⟨_, lvl, hspec, ⟨dp, hdp, hns, hid⟩, ⟨hsingle, hinstant, hself⟩, hlevel, hcovers⟩
      exact ⟨⟨dp, hdp, hns, hid ▸ hprovider⟩, ⟨hsingle, hinstant, hself⟩, lvl, _, _, hspec, hlevel,
        hden.levelfrom, hden.levelto, hcovers⟩
    · rintro ⟨⟨dp, hdp, hns, hid⟩, ⟨hsingle, hinstant, hself⟩, lvl, f, t, hspec, hlevel, hf, ht, hcovers⟩
      obtain rfl : k.levelfrom = f := Option.some_inj.1 (hden.levelfrom.symm.trans hf)
      obtain rfl : k.levelto = t := Option.some_inj.1 (hden.levelto.symm.trans ht)
      exact ⟨hden.value_ne, lvl, hspec,
        ⟨dp, hdp, hns, Option.some_inj.1 (hprovider.symm.trans hid)⟩, ⟨hsingle, hinstant, hself⟩,
        hlevel, hcovers⟩
  unfold Call.ReadsBack
  unfold Call.Shows at hshows
  split
  · next hfloat =>
    rw [if_pos hfloat] at hshows
    exact hcore hshows
  · next hgrid =>
    rw [if_neg hgrid] at hshows
    exact hcore hshows

/-- A level specification that is a number and the level parameter is readable when the levels are that
    number, white space is single blanks, and the parameter matches itself. -/
theorem levelReadable_number {ds l : List Char} (hds : ∀ d ∈ ds, d.isDigit = true) (hne : ds ≠ [])
    (hspace : l.dropWhile isSpace = l) (hto : toNumber.results l = []) :
    LevelReadable a (String.ofList l) (String.ofList (ds ++ ' ' :: l)) ↔
      Single (lower (String.ofList l)).toList ∧
      nameLike (lower (String.ofList l)) (String.ofList l) = true ∧
      ∃ n, lexicalFloat (decimal ds) = some n ∧ a.levelfrom = some (printed n) ∧
        a.levelto = some (printed n) := by
  have hpattern : ∀ name, nameLike name (lower (String.ofList l)) = nameLike name (String.ofList l) := by
    intro name
    rw [nameLike, lower_lower, nameLike]
  unfold LevelReadable
  simp only [levelSpecification_number hds hne hspace hto, Option.map_eq_some_iff]
  constructor
  · rintro ⟨lvl, f, t, ⟨n, hn, rfl⟩, hname, hf, ht, hcovers⟩
    rw [hpattern, nameLike_collapse_iff] at hname
    obtain ⟨rfl, rfl⟩ : f = printed n ∧ t = printed n := by simpa [Level.covers] using hcovers
    exact ⟨hname.1, hname.2, n, hn, hf, ht⟩
  · rintro ⟨hsingle, hself, n, hn, hf, ht⟩
    refine ⟨_, _, _, ⟨n, hn, rfl⟩, ?_, hf, ht, by simp [Level.covers]⟩
    rw [hpattern, nameLike_collapse_iff]
    exact ⟨hsingle, hself⟩

end Written

/-! ### Reading back and using names -/

/-- One parameter, with its canonical name in namespace 1 too. -/
def oneParameter : ParameterDb where
  parameter := ⟨[⟨1, "air temperature", none, none, none, none, none, none, "K"⟩],
    List.pairwise_singleton _ _⟩
  parametername := ⟨[⟨1, 1, "air temperature"⟩], List.pairwise_singleton _ _⟩
  namespaceIds := [0, 1]
  set_elsewhere := by decide

/-- A grid of one value. -/
def oneGrid : Call := .gridAll (some [1, 2, 3, 4]) (some "wdb") none none

/-- The arguments with another value parameter. -/
def named (v : String) : Arguments := { oneValue with valueparameter := some v }

end Wdb.Write
