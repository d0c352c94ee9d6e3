import Wdb.Lib.MachineInt
import Wdb.Lib.SqlTypes
import Wdb.Store.Catalog

/-! The query that `wci.read` builds from its arguments.

    A read selects from a value view. Every argument adds a condition, a `NULL` argument none; an
    argument that cannot be parsed raises, and then nothing is read. So does a data version that is counted
    from the maximum of a row when a sum is no `integer`. Data providers are joined through the nested sets
    of `dataprovider_mv`, so that a row is returned once for every name that asks for it. -/

namespace Wdb.Store
open SqlTypes

/-- A row of `gridvalue_v` (`β` is the file id) or `floatvalue_v` (`β` is the number). The name columns
    are those of the joined rows `names`. -/
structure ValueV (β : Type) extends Key where
  value : β
  names : Names
  dataversion : ℤ
  maxdataversion : ℤ
  confidencecode : ℤ
  valuestoretime : ℤ
  valueid : ℤ
  deriving DecidableEq

/-- An argument of a read. `invalid` stands for every argument that raises: a text that does not
    parse, an array that is empty or has a `NULL` in it. -/
inductive Arg (α : Type) where
  | null | invalid | value (a : α)

/-- The indeterminate codes of time specifications. -/
inductive TimeCode where
  | exact | inside | contains | before | after
  deriving DecidableEq

/-- A parsed reference time specification. -/
structure ReferenceTime where
  indeterminate : TimeCode
  timeFrom : ℤ
  timeTo : ℤ

/-- A parsed valid time specification. A bound may be `referencetime` or an offset from it, so it is
    read off a row's reference time; `none` is `NULL`. -/
structure ValidTime where
  indeterminate : TimeCode
  timeFrom : ℤ → Option ℤ
  timeTo : ℤ → Option ℤ

/-- The indeterminate codes of level specifications. -/
inductive LevelCode where
  | exact | inside | below | above | any
  deriving DecidableEq

/-- A parsed level specification. -/
structure Level where
  indeterminate : LevelCode
  levelFrom : ℚ
  levelTo : ℚ
  parameter : String

/-- A parsed location, as far as grid ids are concerned: a place name, or a geometry with the exact or
    another interpolation. -/
inductive Location where
  | placeName (name : String)
  | exact (geometry : String)
  | interpolated (geometry : String)

/-- The arguments of `wci.read` and `wci.remove` besides the location. -/
structure ReadParameters where
  dataProvider : Arg (List String) := .null
  referenceTime : Arg ReferenceTime := .null
  validTime : Arg ValidTime := .null
  parameter : Arg (List String) := .null
  level : Arg Level := .null
  dataVersion : Arg (List ℤ) := .null

section Query
variable {β : Type}

/-- The condition an argument adds: none for `NULL`, an error for an invalid one. -/
def Arg.condition {α : Type} (f : α → Option (ValueV β → Bool)) :
    Arg α → Option (ValueV β → Bool)
  | .null => some fun _ => true
  | .invalid => none
  | .value a => f a

/-- The CTE of `addDataProviderQuery`: the ids of the members of the providers named, in whatever
    namespace, once for every pair of rows that says so. -/
def dataproviderIds (cat : Catalog) (dataProvider : List String) : List ℤ :=
  cat.dataproviderMv.flatMap fun d =>
    (cat.dataproviderMv.filter fun source =>
      source.dataprovidername ∈ dataProvider.map lower ∧
      source.dataprovidernameleftset ≤ d.dataprovidernameleftset ∧
      source.dataprovidernamerightset ≥ d.dataprovidernamerightset).map fun _ => d.dataproviderid

/-- How often the join with the data providers returns a row. -/
def addDataProviderQuery (cat : Catalog) : Arg (List String) → Option (ValueV β → ℕ)
  | .null => some fun _ => 1
  | .invalid => none
  | .value dataProvider => some fun v => (dataproviderIds cat dataProvider).count v.dataproviderid

/-- `addReferenceTimeQuery`. A specification that is not `inside` and has two ends asks for a time
    equal to both. -/
def addReferenceTimeQuery : Arg ReferenceTime → Option (ValueV β → Bool) :=
  Arg.condition fun ts => some fun v => match ts.indeterminate with
    | .exact => v.referencetime = ts.timeFrom ∧ v.referencetime = ts.timeTo
    | .inside => v.referencetime ≥ ts.timeFrom ∧ v.referencetime ≤ ts.timeTo
    | .contains => v.referencetime = ts.timeFrom ∧ v.referencetime = ts.timeTo
    | .before => v.referencetime < ts.timeFrom
    | .after => v.referencetime > ts.timeTo

/-- A comparison with a bound of a valid time: `NULL` is never true. -/
def compares (p : ℤ → Bool) (bound : Option ℤ) : Bool := bound.any p

/-- `addValidTimeQuery`. -/
def addValidTimeQuery : Arg ValidTime → Option (ValueV β → Bool) :=
  Arg.condition fun ts => some fun v =>
    let timeFrom := ts.timeFrom v.referencetime
    let timeTo := ts.timeTo v.referencetime
    match ts.indeterminate with
    | .exact => compares (v.validtimefrom = ·) timeFrom && compares (v.validtimeto = ·) timeTo
    | .inside => compares (v.validtimefrom ≥ ·) timeFrom && compares (v.validtimeto ≤ ·) timeTo
    | .contains => compares (v.validtimefrom ≤ ·) timeFrom && compares (v.validtimeto ≥ ·) timeTo
    | .before => compares (v.validtimefrom < ·) timeFrom
    | .after => compares (v.validtimeto > ·) timeTo

/-- A name `LIKE` a pattern in lower case. -/
def nameLike (name pattern : String) : Bool := like name (lower pattern) = some true

/-- Whether `LIKE` comes to a result for a name and a pattern in lower case. -/
def comparable (name pattern : String) : Bool := (like name (lower pattern)).isSome

/-- `addParameterQuery`: an empty pattern raises. Every pattern is compared with the name in a row. -/
def addParameterQuery : Arg (List String) → Option (ValueV β → Option Bool)
  | .null => some fun _ => some true
  | .invalid => none
  | .value parameters =>
    if parameters.any String.isEmpty then none
    else some fun v =>
      if parameters.all (comparable v.names.vp.parametername) then
        some (parameters.any (nameLike v.names.vp.parametername))
      else none

/-- `addLevelQuery`. -/
def addLevelQuery : Arg Level → Option (ValueV β → Option Bool)
  | .null => some fun _ => some true
  | .invalid => none
  | .value lvl => some fun v =>
    if comparable v.names.lp.parametername lvl.parameter then
      some (nameLike v.names.lp.parametername lvl.parameter &&
        match lvl.indeterminate with
        | .exact => v.levelfrom = lvl.levelFrom ∧ v.levelto = lvl.levelTo
        | .inside => v.levelfrom ≥ lvl.levelFrom ∧ v.levelto ≤ lvl.levelTo
        | .below => v.levelfrom < lvl.levelFrom
        | .above => v.levelto > lvl.levelTo
        | .any => true)
    else none

/-- What a data version asks for can be computed: from 0 on it is there, and for `-k` there are the negation
    in the program and `maxdataversion +1 -k` in the server. -/
def Computed (maxdataversion n : ℤ) : Prop :=
  n < 0 → (MachineInt.int (-n)).isSome ∧ (MachineInt.int (maxdataversion + 1)).isSome ∧
    (MachineInt.int (maxdataversion + 1 - -n)).isSome

instance (maxdataversion n : ℤ) : Decidable (Computed maxdataversion n) :=
  inferInstanceAs (Decidable (_ → _))

/-- The condition of `addDataVersionQuery` on the two version columns: a version from 0 on is meant
    literally, `-k` is the k-th from the maximum. Every sum is computed, and `none` is an error. -/
def versionMatches (dataVersions : List ℤ) (dataversion maxdataversion : ℤ) : Option Bool :=
  if ∀ n ∈ dataVersions, Computed maxdataversion n then
    some (dataVersions.any fun n =>
      if n < 0 then dataversion = maxdataversion + 1 - -n else dataversion = n)
  else none

/-- `addDataVersionQuery`. -/
def addDataVersionQuery : Arg (List ℤ) → Option (ValueV β → Option Bool)
  | .null => some fun _ => some true
  | .invalid => none
  | .value dataVersions => some fun v => versionMatches dataVersions v.dataversion v.maxdataversion

/-- `Location::queryReturnGrid`. A place name that denotes several places raises. -/
def addLocationQuery (cat : Catalog) (session : Session) :
    Arg Location → Option (ValueV β → Bool) :=
  Arg.condition fun location => match location with
    | .placeName name =>
      match cat.placenameV.filter fun p =>
          p.placenamespaceid = session.placenamespaceid ∧ p.placename = name with
      | [] => some fun _ => false
      | [p] => some fun v => v.placeid = p.placeid
      | _ => none
    | .exact geometry => some fun v => cat.postgis.equals geometry v.names.pl.placegeometry
    | .interpolated geometry => some fun v =>
      cat.postgis.stDwithin geometry v.names.pl.placegeometry v.names.pl.originalsrid

/-- `build_query`: the rows of a value view that meet every condition, as often as the data providers
    are joined; `none` when an argument raises, or the condition on the parameter, the level or the data
    version in a row of the view. What a location asks of the view is given by `located`. -/
def buildQuery (cat : Catalog) (p : ReadParameters) (located : Option (ValueV β → Bool))
    (view : List (ValueV β)) : Option (List (ValueV β)) :=
  (addDataProviderQuery cat p.dataProvider).bind fun times =>
  (addReferenceTimeQuery p.referenceTime).bind fun reference =>
  (addValidTimeQuery p.validTime).bind fun valid =>
  (addParameterQuery p.parameter).bind fun parameter =>
  (addLevelQuery p.level).bind fun level =>
  (addDataVersionQuery p.dataVersion).bind fun version =>
  located.bind fun location =>
    if ∀ v ∈ view, (parameter v).isSome ∧ (level v).isSome ∧ (version v).isSome then
      some ((view.filter fun v => reference v && valid v && (parameter v).getD false &&
        (level v).getD false && (version v).getD false && location v).flatMap fun v =>
          List.replicate (times v) v)
    else none

/-! ### What the query returns -/

/-- A query raises whatever the view; or it raises when a row of the view is one of some that make it raise,
    and otherwise returns every row of the view a number of times that depends on the row only. -/
theorem buildQuery_cases (cat : Catalog) (p : ReadParameters)
    (located : Option (ValueV β → Bool)) :
    (∀ view, buildQuery cat p located view = none) ∨
    ∃ (computed : ValueV β → Bool) (times : ValueV β → ℕ), ∀ view, buildQuery cat p located view =
      if ∀ v ∈ view, computed v then some (view.flatMap fun v => List.replicate (times v) v) else none := by
  unfold buildQuery
  cases hd : addDataProviderQuery cat p.dataProvider with
  | none => exact Or.inl fun _ => rfl
  | some times =>
  cases hr : addReferenceTimeQuery p.referenceTime with
  | none => exact Or.inl fun _ => rfl
  | some reference =>
  cases hv : addValidTimeQuery p.validTime with
  | none => exact Or.inl fun _ => rfl
  | some valid =>
  cases hp : addParameterQuery p.parameter with
  | none => exact Or.inl fun _ => rfl
  | some parameter =>
  cases hl : addLevelQuery p.level with
  | none => exact Or.inl fun _ => rfl
  | some level =>
  cases hver : addDataVersionQuery p.dataVersion with
  | none => exact Or.inl fun _ => rfl
  | some version =>
  cases located with
  | none => exact Or.inl fun _ => rfl
  | some location =>
    refine Or.inr ⟨fun v => (parameter v).isSome ∧ (level v).isSome ∧ (version v).isSome,
      fun v => if reference v && valid v && (parameter v).getD false && (level v).getD false &&
        (version v).getD false && location v then times v else 0, fun view => ?_⟩
    simp only [Option.bind_some, decide_eq_true_eq]
    refine if_congr Iff.rfl (congrArg some ?_) rfl
    induction view with
    | nil => rfl
    | cons v view ih =>
      rw [List.filter_cons, List.flatMap_cons, ← ih]
      split <;> rfl

/-- A query that returns rows of a view returns those of them that are in a part of it. -/
theorem buildQuery_part {cat : Catalog} {p : ReadParameters} {located : Option (ValueV β → Bool)}
    {view part rows : List (ValueV β)} (h : buildQuery cat p located view = some rows)
    (hpart : ∀ v ∈ part, v ∈ view) :
    ∃ rows', buildQuery cat p located part = some rows' ∧ ∀ v, v ∈ rows' ↔ v ∈ part ∧ v ∈ rows := by
  rcases buildQuery_cases cat p located with hnone | ⟨computed, times, htimes⟩
  · rw [hnone] at h
    cases h
  · rw [htimes] at h
    split at h
    · next hall =>
      obtain rfl := Option.some.inj h
      refine ⟨_, (htimes part).trans (if_pos fun v hv => hall v (hpart v hv)), fun v => ?_⟩
      simp only [List.mem_flatMap, List.mem_replicate]
      constructor
      · rintro ⟨w, hw, hne, rfl⟩
        exact ⟨hw, v, hpart v hw, hne, rfl⟩
      · rintro ⟨hv, w, -, hne, rfl⟩
        exact ⟨v, hv, hne, rfl⟩
    · cases h

/-- What is returned is in the view. -/
theorem mem_of_buildQuery {cat : Catalog} {p : ReadParameters} {located : Option (ValueV β → Bool)}
    {view rows : List (ValueV β)} (h : buildQuery cat p located view = some rows) {v : ValueV β}
    (hv : v ∈ rows) : v ∈ view := by
  rcases buildQuery_cases cat p located with hnone | ⟨computed, times, htimes⟩
  · rw [hnone] at h
    cases h
  · rw [htimes] at h
    split at h
    · obtain rfl := Option.some.inj h
      obtain ⟨w, hw, hv⟩ := List.mem_flatMap.1 hv
      rwa [(List.mem_replicate.1 hv).2]
    · cases h

variable {cat : Catalog} {view : List (ValueV β)}

/-- Without arguments a read returns the view. -/
theorem buildQuery_all : buildQuery cat {} (some fun _ => true) view = some view := by
  simp [buildQuery, addDataProviderQuery, addReferenceTimeQuery, addValidTimeQuery,
    addParameterQuery, addLevelQuery, addDataVersionQuery, Arg.condition]

/-- With data versions only, it returns the rows with one of them, or raises. -/
theorem buildQuery_versions {l : List ℤ} :
    buildQuery cat { dataVersion := .value l } (some fun _ => true) view =
      if ∀ v ∈ view, (versionMatches l v.dataversion v.maxdataversion).isSome then
        some (view.filter fun v => (versionMatches l v.dataversion v.maxdataversion).getD false)
      else none := by
  simp [buildQuery, addDataProviderQuery, addReferenceTimeQuery, addValidTimeQuery,
    addParameterQuery, addLevelQuery, addDataVersionQuery, Arg.condition]

theorem mem_of_versions {l : List ℤ} {rows : List (ValueV β)}
    (h : buildQuery cat { dataVersion := .value l } (some fun _ => true) view = some rows) {v : ValueV β}
    (hv : v ∈ rows) : v ∈ view ∧ versionMatches l v.dataversion v.maxdataversion = some true := by
  rw [buildQuery_versions] at h
  split at h
  · obtain rfl := Option.some.inj h
    obtain ⟨hv, hmatch⟩ := List.mem_filter.1 hv
    refine ⟨hv, ?_⟩
    cases hversion : versionMatches l v.dataversion v.maxdataversion with
    | none => simp [hversion] at hmatch
    | some b => simpa [hversion] using hmatch
  · cases h

end Query

/-! ### Data versions -/

/-- A maximum that version -1 can be counted from: all but the greatest `integer`. -/
def Readable (maxdataversion : ℤ) : Prop := -2 ^ 31 ≤ maxdataversion ∧ maxdataversion < 2 ^ 31 - 1

instance : DecidablePred Readable := fun _ => inferInstanceAs (Decidable (_ ∧ _))

/-- Data version -1 asks for the maximum. -/
theorem newestMatches (dataversion maxdataversion : ℤ) : versionMatches [-1] dataversion maxdataversion =
    if Readable maxdataversion then some (decide (dataversion = maxdataversion)) else none := by
  have hcomputed : (∀ n ∈ [-1], Computed maxdataversion n) ↔ Readable maxdataversion := by
    rw [List.forall_mem_singleton, Computed, Readable, MachineInt.int, MachineInt.int, MachineInt.int]
    simp
    omega
  rw [versionMatches]
  refine if_congr hcomputed (congrArg some ?_) rfl
  simp

/-- Filtering a list of blocks whose elements agree on the condition keeps or drops whole blocks. -/
theorem filter_flatMap_of_const {α β : Type} {f : α → List β} {P : β → Bool} {Q : α → Bool} :
    ∀ {l : List α}, (∀ a ∈ l, ∀ v ∈ f a, P v = Q a) →
      (l.flatMap f).filter P = (l.filter Q).flatMap f
  | [], _ => rfl
  | a :: l, h => by
    have ih := filter_flatMap_of_const fun b hb => h b (List.mem_cons_of_mem a hb)
    have ha := h a List.mem_cons_self
    rw [List.flatMap_cons, List.filter_append, ih, List.filter_cons]
    split
    · next hq =>
      rw [List.flatMap_cons, List.filter_eq_self.2 fun v hv => (ha v hv).trans hq]
    · next hq =>
      rw [List.filter_eq_nil_iff.2 fun v hv => by rw [ha v hv]; exact hq, List.nil_append]

/-- A read with data version -1 returns the blocks whose rows have their maximum exactly when every maximum
    in the view can be counted from. -/
theorem buildQuery_newest {α β : Type} {cat : Catalog} {l : List α} {f : α → List (ValueV β)}
    {Q : α → Bool} (h : ∀ a ∈ l, ∀ v ∈ f a, decide (v.dataversion = v.maxdataversion) = Q a) :
    buildQuery cat { dataVersion := .value [-1] } (some fun _ => true) (l.flatMap f) =
        some ((l.filter Q).flatMap f) ↔
      ∀ a ∈ l, ∀ v ∈ f a, Readable v.maxdataversion := by
  have hall : (∀ v ∈ l.flatMap f, (versionMatches [-1] v.dataversion v.maxdataversion).isSome) ↔
      ∀ a ∈ l, ∀ v ∈ f a, Readable v.maxdataversion := by
    simp only [List.mem_flatMap, forall_exists_index, and_imp, newestMatches]
    constructor
    · intro hall a ha v hv
      by_contra hv'
      simpa [hv'] using hall v a ha hv
    · intro hall v a ha hv
      rw [if_pos (hall a ha v hv), Option.isSome_some]
  rw [buildQuery_versions, ← hall]
  constructor
  · intro heq
    by_contra hnot
    rw [if_neg hnot] at heq
    cases heq
  · intro hread
    rw [if_pos hread, filter_flatMap_of_const]
    intro a ha v hv
    rw [newestMatches, if_pos (hall.1 hread a ha v hv), Option.getD_some, h a ha v hv]

end Wdb.Store
