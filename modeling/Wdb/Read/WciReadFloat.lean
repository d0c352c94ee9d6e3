import Wdb.Store.Read

/-! `wciReadFloat`, the set returning function behind `wci.read(…, NULL::wci.returnfloat)`.

    Every call returns one row, or reports completion. The first calls return the rows of the float
    table; the one that finds them exhausted goes on to the grid tuples, and the store keeps the
    iterator over the points of the current tuple between calls. A tuple whose place has no grid
    specification has no iterator: the pointer is null. -/

namespace Wdb.Read
open Store

/-- The columns of a row that are copied from its tuple (`getCommonValues`). -/
structure CommonValues where
  dataprovidername : String
  placename : String
  referencetime : ℤ
  validtimefrom : ℤ
  validtimeto : ℤ
  validtimeindeterminatecode : ℤ
  valueparametername : String
  valueparameterunit : String
  levelparametername : String
  levelunitname : String
  levelfrom : ℚ
  levelto : ℚ
  levelindeterminatecode : ℤ
  dataversion : ℤ
  confidencecode : ℤ
  storetime : ℤ
  valueid : ℤ
  valuetype : ℤ
  deriving DecidableEq

/-- A row of `wci.returnfloat`: `none` is `NULL`. -/
structure ReturnFloat extends CommonValues where
  value : Option ℚ
  placegeometry : Option String
  deriving DecidableEq

/-- A point that is read from a grid. Its value is `none` when it is not a number, its location when
    there is no geometry. -/
structure GridPointData where
  value : Option ℚ
  location : Option String
  deriving DecidableEq

/-- The place name of a row: with a location, that of a grid tuple is preceded by it. The size of that text
    counts the zero after the string. -/
def getLocationString (locationString : Option String) (gridName : String) : String :=
  match locationString with
  | some location => location ++ " " ++ gridName ++ "\x00"
  | none => gridName

/-- `getCommonValues`, of a tuple of a value view with its value type. -/
def getCommonValues {β : Type} (locationString : Option String) (valuetype : ℤ) (t : ValueV β) :
    CommonValues where
  dataprovidername := t.names.dp.dataprovidername
  placename := getLocationString locationString t.names.pl.placename
  referencetime := t.referencetime
  validtimefrom := t.validtimefrom
  validtimeto := t.validtimeto
  validtimeindeterminatecode := t.validtimeindeterminatecode
  valueparametername := t.names.vp.parametername
  valueparameterunit := t.names.vp.unitname
  levelparametername := t.names.lp.parametername
  levelunitname := t.names.lp.unitname
  levelfrom := t.levelfrom
  levelto := t.levelto
  levelindeterminatecode := t.levelindeterminatecode
  dataversion := t.dataversion
  confidencecode := t.confidencecode
  storetime := t.valuestoretime
  valueid := t.valueid
  valuetype := valuetype

/-- The grid that a place specifies. -/
structure PlaceSpecification where
  startX : ℚ
  startY : ℚ
  xNumber : ℤ
  yNumber : ℤ
  xIncrement : ℚ
  yIncrement : ℚ
  srid : ℤ
  projDefinition : String
  deriving DecidableEq

/-- The state between two calls. The tuples are those from the current index on; those of the grid table
    are queried when the float table is exhausted. `pointData` has the points that the iterator of the
    current tuple has left, with the common values of the tuple; it is `none` while the pointer is null. -/
structure ReadStore where
  returningFromGridTable : Bool
  floatTuples : List (ValueV ℚ)
  gridTuples : List (ValueV ℤ)
  pointData : Option (CommonValues × List GridPointData)

/-- What a call does: it returns a row, reports completion, or reads through a null pointer. -/
inductive Call where
  | next (row : ReturnFloat) (store : ReadStore)
  | done
  | crash

/-- The row of a float tuple. -/
def floatRow (t : ValueV ℚ) : ReturnFloat :=
  { getCommonValues none 0 t with
    value := some t.value
    placegeometry := some t.names.pl.placegeometry }

/-- The row of a point, with the common values of its tuple. -/
def pointRow (values : CommonValues) (p : GridPointData) : ReturnFloat :=
  { values with
    value := p.value
    placegeometry := p.location }

section Calls
variable (locationString : Option String) (specification : ℤ → Option PlaceSpecification)
  (readPoints : PlaceSpecification → ℤ → List GridPointData)

/-- `getValues`: no iterator without a specification. -/
def getValues (t : ValueV ℤ) : Option (List GridPointData) :=
  (specification t.placeid).map fun ps => readPoints ps t.value

/-- The loop of `getNextRowFromGridTable`: while the iterator is at its end it goes on to the next tuple.
    When that has no iterator the condition of the loop reads through the null pointer. -/
def nextPoint : List (ValueV ℤ) → CommonValues → List GridPointData → Call
  | tuples, values, p :: points => .next (pointRow values p) ⟨true, [], tuples, some (values, points)⟩
  | [], _, [] => .done
  | t :: tuples, _, [] => match getValues specification readPoints t with
    | none => .crash
    | some points => nextPoint tuples (getCommonValues locationString 1 t) points

/-- `getNextRowFromGridTable`, and the completion that is reported when it returns false. -/
def getNextRowFromGridTable (store : ReadStore) : Call :=
  match store.pointData with
  | none => match store.gridTuples with
    | [] => .done
    | t :: tuples => match getValues specification readPoints t with
      | none => .done
      | some points => nextPoint locationString specification readPoints tuples
          (getCommonValues locationString 1 t) points
  | some (values, points) =>
    nextPoint locationString specification readPoints store.gridTuples values points

/-- `wciReadFloat`. -/
def wciReadFloat (store : ReadStore) : Call :=
  if store.returningFromGridTable then
    getNextRowFromGridTable locationString specification readPoints store
  else match store.floatTuples with
    | t :: floatTuples => .next (floatRow t) { store with floatTuples := floatTuples }
    | [] => getNextRowFromGridTable locationString specification readPoints
        { store with returningFromGridTable := true }

/-- Repeated calls return these rows one by one, and then report completion. -/
def Returns : ReadStore → List ReturnFloat → Prop
  | store, [] => wciReadFloat locationString specification readPoints store = .done
  | store, row :: rows => ∃ store',
      wciReadFloat locationString specification readPoints store = .next row store' ∧
      Returns store' rows

/-- The state before the first call. -/
def start (floatTuples : List (ValueV ℚ)) (gridTuples : List (ValueV ℤ)) : ReadStore :=
  ⟨false, floatTuples, gridTuples, none⟩

/-- What a grid tuple should contribute: a row for each of its points. -/
def tupleRows (t : ValueV ℤ) : List ReturnFloat :=
  ((getValues specification readPoints t).getD []).map
    (pointRow (getCommonValues locationString 1 t))

/-- What a read should return. -/
def allRows (floatTuples : List (ValueV ℚ)) (gridTuples : List (ValueV ℤ)) : List ReturnFloat :=
  floatTuples.map floatRow ++ gridTuples.flatMap (tupleRows locationString specification readPoints)

/-- Every grid tuple has a specification, or the first has none and there is no point in any. -/
def Readable (gridTuples : List (ValueV ℤ)) : Prop :=
  (∀ t ∈ gridTuples, specification t.placeid ≠ none) ∨
  (∃ t tuples, gridTuples = t :: tuples ∧ specification t.placeid = none) ∧
    ∀ t ∈ gridTuples, (getValues specification readPoints t).getD [] = []

variable {locationString specification readPoints}

theorem getValues_eq_none {t : ValueV ℤ} :
    getValues specification readPoints t = none ↔ specification t.placeid = none :=
  Option.map_eq_none_iff

/-- What is returned depends on what the first call does. -/
theorem returns_congr {s s' : ReadStore} {rows : List ReturnFloat}
    (h : wciReadFloat locationString specification readPoints s =
      wciReadFloat locationString specification readPoints s') :
    Returns locationString specification readPoints s rows ↔
      Returns locationString specification readPoints s' rows := by
  cases rows with
  | nil => unfold Returns; rw [h]
  | cons row rows => unfold Returns; rw [h]

/-- A call that returns a row returns the first of the rows. -/
theorem returns_cons {s s' : ReadStore} {row : ReturnFloat} {rows : List ReturnFloat}
    (h : wciReadFloat locationString specification readPoints s = .next row s') :
    Returns locationString specification readPoints s (row :: rows) ↔
      Returns locationString specification readPoints s' rows := by
  rw [Returns, h]
  constructor
  · rintro ⟨_, hs, hrows⟩
    cases hs
    exact hrows
  · exact fun hrows => ⟨s', rfl, hrows⟩

/-- A call that crashes returns nothing. -/
theorem not_returns_of_crash {s : ReadStore} {rows : List ReturnFloat}
    (h : wciReadFloat locationString specification readPoints s = .crash) :
    ¬ Returns locationString specification readPoints s rows := by
  cases rows with
  | nil => unfold Returns; rw [h]; exact fun h => nomatch h
  | cons row rows => unfold Returns; rw [h]; exact fun ⟨_, h, _⟩ => nomatch h

/-- In the middle of a tuple: the rest is returned exactly when all tuples to come have a
    specification. -/
theorem returns_tuples_iff : ∀ (tuples : List (ValueV ℤ)) (values : CommonValues)
    (points : List GridPointData),
    Returns locationString specification readPoints ⟨true, [], tuples, some (values, points)⟩
        (points.map (pointRow values) ++
          tuples.flatMap (tupleRows locationString specification readPoints)) ↔
      ∀ t ∈ tuples, specification t.placeid ≠ none
  | tuples, values, p :: points => by
    have hcall : wciReadFloat locationString specification readPoints
        ⟨true, [], tuples, some (values, p :: points)⟩ =
        .next (pointRow values p) ⟨true, [], tuples, some (values, points)⟩ := by
      cases tuples <;> rfl
    rw [List.map_cons, List.cons_append, returns_cons hcall]
    exact returns_tuples_iff tuples values points
  | [], values, [] => iff_of_true rfl fun _ h => nomatch h
  | t :: tuples, values, [] => by
    rw [List.map_nil, List.nil_append, List.flatMap_cons, List.forall_mem_cons]
    cases hvalues : getValues specification readPoints t with
    | none =>
      refine iff_of_false (not_returns_of_crash ?_) fun h => h.1 (getValues_eq_none.1 hvalues)
      simp [wciReadFloat, getNextRowFromGridTable, nextPoint, hvalues]
    | some points =>
      have hrows : tupleRows locationString specification readPoints t =
          points.map (pointRow (getCommonValues locationString 1 t)) := by
        rw [tupleRows, hvalues, Option.getD_some]
      have hspec : specification t.placeid ≠ none := fun h => by
        rw [getValues_eq_none.2 h] at hvalues
        cases hvalues
      have hcall : wciReadFloat locationString specification readPoints
          ⟨true, [], t :: tuples, some (values, [])⟩ =
          wciReadFloat locationString specification readPoints
            ⟨true, [], tuples, some (getCommonValues locationString 1 t, points)⟩ := by
        simp [wciReadFloat, getNextRowFromGridTable, nextPoint, hvalues]
      rw [hrows, returns_congr hcall, and_iff_right hspec]
      exact returns_tuples_iff tuples _ points

/-- Before the first grid tuple. -/
theorem returns_gridTable_iff {tuples : List (ValueV ℤ)} {mode : Bool} :
    Returns locationString specification readPoints ⟨mode, [], tuples, none⟩
        (tuples.flatMap (tupleRows locationString specification readPoints)) ↔
      Readable specification readPoints tuples := by
  cases tuples with
  | nil =>
    refine iff_of_true ?_ (Or.inl fun _ h => nomatch h)
    cases mode <;> rfl
  | cons t tuples =>
    cases hvalues : getValues specification readPoints t with
    | none =>
      have hspec := getValues_eq_none.1 hvalues
      have hcall : wciReadFloat locationString specification readPoints
          ⟨mode, [], t :: tuples, none⟩ = .done := by
        cases mode <;> simp [wciReadFloat, getNextRowFromGridTable, hvalues]
      have hreturns : ∀ rows, Returns locationString specification readPoints
          ⟨mode, [], t :: tuples, none⟩ rows ↔ rows = [] := by
        intro rows
        cases rows with
        | nil => exact iff_of_true hcall rfl
        | cons row rows =>
          refine iff_of_false ?_ (List.cons_ne_nil row rows)
          rw [Returns, hcall]
          exact fun ⟨_, h, _⟩ => nomatch h
      rw [hreturns, List.flatMap_eq_nil_iff]
      constructor
      · intro h
        exact Or.inr ⟨⟨t, tuples, rfl, hspec⟩, fun u hu => List.map_eq_nil_iff.1 (h u hu)⟩
      · rintro (h | h)
        · exact absurd hspec (h t List.mem_cons_self)
        · exact fun u hu => List.map_eq_nil_iff.2 (h.2 u hu)
    | some points =>
      have hspec : specification t.placeid ≠ none := fun h => by
        rw [getValues_eq_none.2 h] at hvalues
        cases hvalues
      have hcall : wciReadFloat locationString specification readPoints
          ⟨mode, [], t :: tuples, none⟩ =
          wciReadFloat locationString specification readPoints
            ⟨true, [], tuples, some (getCommonValues locationString 1 t, points)⟩ := by
        cases mode <;> simp [wciReadFloat, getNextRowFromGridTable, hvalues]
      have hrows : tupleRows locationString specification readPoints t =
          points.map (pointRow (getCommonValues locationString 1 t)) := by
        rw [tupleRows, hvalues, Option.getD_some]
      rw [List.flatMap_cons, hrows, returns_congr hcall, returns_tuples_iff]
      constructor
      · exact fun h => Or.inl (List.forall_mem_cons.2 ⟨hspec, h⟩)
      · rintro (h | ⟨⟨_, _, h, hno⟩, _⟩)
        · exact (List.forall_mem_cons.1 h).2
        · cases h
          exact absurd hno hspec

end Calls

/-- Repeated calls return the float rows, then the rows of every grid tuple in order, and then report
    completion, exactly when every place has a specification, or the first has none and there is
    nothing to return for any. -/
theorem wciReadFloat_returns_iff (locationString : Option String)
    (specification : ℤ → Option PlaceSpecification)
    (readPoints : PlaceSpecification → ℤ → List GridPointData)
    (floatTuples : List (ValueV ℚ)) (gridTuples : List (ValueV ℤ)) :
    Returns locationString specification readPoints (start floatTuples gridTuples)
        (allRows locationString specification readPoints floatTuples gridTuples) ↔
      Readable specification readPoints gridTuples := by
  unfold start allRows
  induction floatTuples with
  | nil => exact returns_gridTable_iff
  | cons t floatTuples ih =>
    rw [List.map_cons, List.cons_append, returns_cons (show wciReadFloat locationString specification
      readPoints ⟨false, t :: floatTuples, gridTuples, none⟩ = .next (floatRow t) _ from rfl)]
    exact ih

/-- A grid tuple at a place, with names. -/
def gridTuple (placeid : ℤ) : ValueV ℤ where
  dataproviderid := 1
  placeid := placeid
  validtimeindeterminatecode := 0
  valueparameterid := 1
  levelparameterid := 1
  levelfrom := 0
  levelto := 0
  levelindeterminatecode := 0
  referencetime := 0
  validtimefrom := 0
  validtimeto := 0
  value := 1
  names :=
    { dp := ⟨1, 1, "provider", 1, 2⟩
      pl := ⟨placeid, 1, "place", .negInfinity, .infinity, "POINT(10 60)", 4030⟩
      vp := ⟨1, 1, "air temperature", "K"⟩
      lp := ⟨1, 1, "height", "m"⟩ }
  dataversion := 0
  maxdataversion := 0
  confidencecode := 0
  valuestoretime := 0
  valueid := 1

/-- Place 1 has a grid of one point, all other places have no specification. -/
def onePlace (placeid : ℤ) : Option PlaceSpecification :=
  if placeid = 1 then some ⟨10, 60, 1, 1, 1, 1, 4030, "+proj=longlat"⟩ else none

/-- A tuple whose place has no specification ends the read before the next tuple, and crashes it after
    another. -/
theorem wciReadFloat_unspecified :
    (wciReadFloat none onePlace (fun _ _ => [⟨some 0, none⟩]) (start [] [gridTuple 2, gridTuple 1]) =
        .done ∧
      ¬ Returns none onePlace (fun _ _ => [⟨some 0, none⟩]) (start [] [gridTuple 2, gridTuple 1])
        (allRows none onePlace (fun _ _ => [⟨some 0, none⟩]) [] [gridTuple 2, gridTuple 1])) ∧
    ¬ Returns none onePlace (fun _ _ => [⟨some 0, none⟩]) (start [] [gridTuple 1, gridTuple 2])
        (allRows none onePlace (fun _ _ => [⟨some 0, none⟩]) [] [gridTuple 1, gridTuple 2]) := by
  refine ⟨⟨rfl, fun ⟨_, h, _⟩ => nomatch h⟩, ?_⟩
  rintro ⟨store, h, hdone⟩
  cases h
  exact nomatch hdone

end Wdb.Read
