import Wdb.Query.Additions

/-! What a location adds to a query, and what a query is made of.

    A location narrows the query, or replaces it for the nearest points: then the select list stands in
    the table that the new query is on. -/

namespace Wdb.Query
open SqlText Traverse Builder Wdb.Read

/-! ### Exact values -/

/-- The pieces of users in a text are the geometry and the name of a location. -/
def Places (loc : Location) (t : Text) : Prop := ∀ x ∈ t, Risky x →
  x = .part (.spliced loc.geometry) ∨ x = .part (.spliced loc.placeName)

section Locations
variable {b b' : Builder} {loc : Location} {t u : Text}

theorem Places.append (ht : Places loc t) (hu : Places loc u) : Places loc (t ++ u) := fun x hx =>
  (List.mem_append.1 hx).elim (ht x) (hu x)

theorem places_nil : Places loc [] := fun _ hx => absurd hx List.not_mem_nil

theorem places_code (s : String) : Places loc (code s) := fun _ hmem hx => absurd hmem (not_risky_code hx)

theorem places_geometry : Places loc (spliced loc.geometry) := fun _ hx _ => Or.inl (List.mem_singleton.1 hx)

theorem places_placeName : Places loc (spliced loc.placeName) := fun _ hx _ => Or.inr (List.mem_singleton.1 hx)

theorem places_exactGeometry (loc : Location) : Places loc (exactGeometry loc) := by
  unfold exactGeometry
  split
  · exact ((places_code _).append places_geometry).append (places_code _)
  · exact ((places_code _).append places_geometry).append (places_code _)
  · exact ((places_code _).append places_geometry).append (places_code _)
  · exact places_nil

theorem spans_exactGeometry (loc : Location) : Spans 1 (exactGeometry loc) 1 := by
  unfold exactGeometry
  split
  · exact spans_of_blank (by
      simp only [skeleton_append, skeleton_code, skeleton_spliced]
      decide +kernel)
  · exact spans_of_blank (by
      simp only [skeleton_append, skeleton_code, skeleton_spliced]
      decide +kernel)
  · exact spans_of_blank (by
      simp only [skeleton_append, skeleton_code, skeleton_spliced]
      decide +kernel)
  · exact Spans.nil

/-- A text with a spliced string in it. -/
theorem item_of_spliced {v : String} (h : spans 0 (skeleton t) 0) (hv : .part (.spliced v) ∈ t) : Item t := by
  refine ⟨spans_of_blank h, List.ne_nil_of_mem (a := .literal v.toList) ?_⟩
  exact List.mem_flatMap.2 ⟨_, spliced_mem_parts.2 hv, List.mem_singleton_self _⟩

theorem extends_geometriesTable (placeName : String) :
    Extends {} (geometriesTable placeName) (spliced placeName) := by
  have hname : Item (code "placename = " ++ spliced placeName) := item_of_spliced (v := placeName) (by
    simp only [skeleton_append, skeleton_code, skeleton_spliced]
    decide) (by simp [spliced])
  have htable (b : Builder) : Extends b (b.where' (code "placename = " ++ spliced placeName)) (spliced placeName) :=
    (narrows_where hname).toExtends.congr fun x hx => by simp [not_risky_code hx]
  exact (((((((Extends.refl {}).what_code (by decide)).what_code (by decide)).what_code (by decide)).from_code
    (by decide)).from_code (by decide)).where_code (by decide)).trans (htable _)

/-- A place name adds the table of its geometries. -/
theorem narrows_addToReturnExactFloatQuery (h : addToReturnExactFloatQuery loc b = .ok b') :
    ∃ u, Places loc u ∧ Narrows b b' u := by
  have hgeometry : ∃ u, Places loc u ∧ Narrows b
      (if loc.hasGeometry then b.where' (code "(" ++ exactGeometry loc ++ code ")") else b) u := by
    split
    · exact ⟨_, ((places_code _).append (places_exactGeometry loc)).append (places_code _),
        narrows_where (brackets.item (spans_exactGeometry loc))⟩
    · exact ⟨_, places_nil, Narrows.refl b⟩
  obtain ⟨u, hu, hb⟩ := hgeometry
  unfold addToReturnExactFloatQuery at h
  extract_lets builder at h
  split at h
  · obtain ⟨b₁, hwith, h⟩ := of_bind_eq_ok h
    obtain rfl := Except.ok.inj h
    refine ⟨_, hu.append places_placeName, ?_⟩
    have htable := hb.trans (narrows_with (by decide) (extends_geometriesTable loc.placeName) hwith)
    exact ((((htable.from_code (by decide)).where_code (by decide)).where_code (by decide)).where_code
      (by decide)).where_code (by decide)
  · obtain rfl := Except.ok.inj h
    exact ⟨u, hu, hb⟩

/-! ### Nearest values -/

theorem extends_wantedLocation (placeName : String) :
    Extends {} (wantedLocation placeName) (spliced placeName) := by
  have hname : Item (code "placename=" ++ spliced placeName) := item_of_spliced (v := placeName) (by
    simp only [skeleton_append, skeleton_code, skeleton_spliced]
    decide) (by simp [spliced])
  have htable (b : Builder) : Extends b (b.where' (code "placename=" ++ spliced placeName)) (spliced placeName) :=
    (narrows_where hname).toExtends.congr fun x hx => by simp [not_risky_code hx]
  exact (((((((Extends.refl {}).from_code (by decide)).from_code (by decide)).what_code (by decide)).what_code
    (by decide)).what_code (by decide)).where_code (by decide)).trans (htable _)

/-- The nearest points of a geometry. -/
theorem item_nearest (v : String) (n : ℤ) : Item (code ("placeid = (SELECT placeid FROM floatvalue v " ++
    "ORDER BY v.placegeometry <-> st_geomfromtext(") ++ spliced v ++ code ", 4030) LIMIT " ++
      code (toString n) ++ code ")") := by
  have hopen : Spans 0 (code ("placeid = (SELECT placeid FROM floatvalue v " ++
      "ORDER BY v.placegeometry <-> st_geomfromtext(") ++ spliced v ++ code ", 4030) LIMIT ") 1 :=
    spans_of_blank (by
      simp only [skeleton_append, skeleton_code, skeleton_spliced]
      decide +kernel)
  have hclose : Spans 1 (code ")") 0 := spans_of_blank (by decide)
  refine ⟨(hopen.append_code (by decide) (spans_int n 0)).append_begins hclose ⟨")", rfl, by decide⟩, ?_⟩
  have hne : meant (code ")") ≠ [] := by decide
  rw [meant_append]
  exact List.append_ne_nil_of_right_ne_nil _ hne

/-- The builder is replaced. -/
theorem replaces_addToReturnSurroundFloatQuery (h : addToReturnSurroundFloatQuery loc b = .ok b') :
    ∃ u, Places loc u ∧ Replaces b b' u := by
  unfold addToReturnSurroundFloatQuery at h
  extract_lets originalQuery at h
  obtain ⟨b₁, hwith, h⟩ := of_bind_eq_ok h
  have horiginal : Extends b originalQuery [] :=
    ((Extends.refl b).what_code (by decide)).what_code (by decide)
  have hnew := replaces_with (by decide) hwith
  have hb₁ : Replaces b b₁ [] := { hnew with toExtends := horiginal.trans hnew.toExtends }
  extract_lets builder at h
  have hfrom : Narrows b₁ builder [] := (Narrows.refl b₁).from_code (by decide)
  split at h
  · obtain rfl := Except.ok.inj h
    refine ⟨_, ?_, hb₁.trans (hfrom.trans (narrows_where (item_nearest _ _)))⟩
    exact ((((places_code _).append places_geometry).append (places_code _)).append (places_code _)).append
      (places_code _)
  · obtain ⟨b₂, hlocation, h⟩ := of_bind_eq_ok h
    obtain rfl := Except.ok.inj h
    have hlimit : Brackets ("placeid in (SELECT placeid FROM floatvalue v " ++
        "ORDER BY v.placegeometry <-> l.placegeometry LIMIT ") ")" :=
      ⟨by decide +kernel, by decide +kernel, by decide, by decide⟩
    have hwanted := narrows_with (by decide) (extends_wantedLocation loc.placeName) hlocation
    have hnearest := hlimit.item (spans_int loc.interpolationParameter 0)
    refine ⟨_, ?_, hb₁.trans (hfrom.trans ((((hwanted.from_code (by decide)).where_code (by decide)).where_code
      (by decide)).trans (narrows_where hnearest)))⟩
    exact places_placeName.append (((places_code _).append (places_code _)).append (places_code _))

/-- The interpolations for which the builder is replaced. -/
def Nearby (loc : Location) : Prop :=
  loc.interpolationType = .nearest ∨ loc.interpolationType = .surround

/-- What a location adds to a query. -/
structure Located (wraps : Prop) (b b' : Builder) (u : Text) : Prop where
  replaces : wraps → Replaces b b' u
  narrows : ¬ wraps → Narrows b b' u

section Located
variable {wraps : Prop} {b b' : Builder} {u : Text} (h : Located wraps b b' u)
include h

theorem Located.toExtends : Extends b b' u := by
  by_cases hwraps : wraps
  · exact (h.replaces hwraps).toExtends
  · exact (h.narrows hwraps).toExtends

/-- Groups and an order are added after the location. -/
theorem Located.plain (hgroupBy : b.groupBy_ = []) (horderBy : b.orderBy_ = []) :
    b'.groupBy_ = [] ∧ b'.orderBy_ = [] := by
  by_cases hwraps : wraps
  · exact ⟨(h.replaces hwraps).groupBy_, (h.replaces hwraps).orderBy_⟩
  · exact ⟨(h.narrows hwraps).groupBy_.trans hgroupBy, (h.narrows hwraps).orderBy_.trans horderBy⟩

end Located

theorem located_addFloatTableQuery (h : addFloatTableQuery loc b = .ok b') :
    ∃ u, Places loc u ∧ Located (Nearby loc) b b' u := by
  unfold addFloatTableQuery at h
  split at h
  · next hexact =>
    obtain ⟨u, hu, hnarrows⟩ := narrows_addToReturnExactFloatQuery h
    exact ⟨u, hu, fun hnear => by simp [Nearby, hexact] at hnear, fun _ => hnarrows⟩
  · next hnearest =>
    obtain ⟨u, hu, hreplaces⟩ := replaces_addToReturnSurroundFloatQuery h
    exact ⟨u, hu, fun _ => hreplaces, fun hno => absurd (Or.inl hnearest) hno⟩
  · next hsurround =>
    obtain ⟨u, hu, hreplaces⟩ := replaces_addToReturnSurroundFloatQuery h
    exact ⟨u, hu, fun _ => hreplaces, fun hno => absurd (Or.inr hsurround) hno⟩
  · next hbilinear =>
    obtain rfl := Except.ok.inj h
    refine ⟨[], places_nil, fun hnear => by simp [Nearby, hbilinear] at hnear, fun _ => ?_⟩
    exact ((Narrows.refl b).where_code (by decide)).where_code (by decide)

theorem item_queryReturnGrid (loc : Location) : Item (queryReturnGrid loc) := by
  unfold queryReturnGrid
  split
  · split
    · exact item_of_spliced (v := loc.geometry) (by
        simp only [skeleton_append, skeleton_code, skeleton_spliced]
        decide) (by simp [spliced])
    · exact item_of_spliced (v := loc.geometry) (by
        simp only [skeleton_append, skeleton_code, skeleton_spliced]
        decide +kernel) (by simp [spliced])
  · exact item_of_spliced (v := loc.placeName) (by
      simp only [skeleton_append, skeleton_code, skeleton_spliced]
      decide +kernel) (by simp [spliced])

theorem places_queryReturnGrid (loc : Location) : Places loc (queryReturnGrid loc) := by
  unfold queryReturnGrid
  split
  · split
    · exact ((places_code _).append places_geometry).append (places_code _)
    · exact ((places_code _).append places_geometry).append (places_code _)
  · exact ((places_code _).append places_placeName).append (places_code _)

end Locations

/-! ### The query -/

namespace WciReadParameterCollection

/-- The reference time as it is read. -/
def readReferenceTime (p : WciReadParameterCollection) : Option TimeSpecification :=
  p.referenceTime.bind fun timeSpec => (TimeSpecification.parse timeSpec).toOption

def readValidTime (p : WciReadParameterCollection) : Option TimeSpecification :=
  p.validTime.bind fun timeSpec => (TimeSpecification.parse timeSpec).toOption

def readLocation (p : WciReadParameterCollection) : Option Location :=
  p.location.bind fun location => (Location.parseWithSpirit_ location).toOption

/-- What is written for the times. -/
def timesText (p : WciReadParameterCollection) : Text :=
  p.readReferenceTime.elim [] Query.referenceTime ++
    p.readValidTime.elim [] fun ts => (Query.validTime ts).toOption.getD []

/-- The query is replaced. -/
def Wraps (p : WciReadParameterCollection) (dataSource : DataSource) : Prop :=
  dataSource = .floatTable ∧ ∃ loc ∈ p.readLocation, Nearby loc

end WciReadParameterCollection

section Query
variable {p : WciReadParameterCollection} {dataSource : DataSource} {output : OutputType} {b b' : Builder}
  {t u : Text} {selectWhat : FixedText} {ordering groupby : Option FixedText}

theorem located_addLocationQuery (h : addLocationQuery b p.location dataSource output = .ok b') :
    ∃ u, (∀ x ∈ u, Risky x → ∃ loc ∈ p.readLocation,
      x = .part (.spliced loc.geometry) ∨ x = .part (.spliced loc.placeName)) ∧
        Located (p.Wraps dataSource) b b' u := by
  unfold addLocationQuery at h
  cases hlocation : p.location with
  | none =>
    rw [hlocation] at h
    obtain rfl := Except.ok.inj h
    have hno : ¬ p.Wraps dataSource := by simp [WciReadParameterCollection.Wraps,
      WciReadParameterCollection.readLocation, hlocation]
    exact ⟨[], by simp, fun hwraps => absurd hwraps hno, fun _ => Narrows.refl b⟩
  | some location =>
    rw [hlocation] at h
    dsimp only at h
    cases hloc : Location.parseWithSpirit_ location with
    | error what => simp [hloc] at h
    | ok loc =>
      have hread : p.readLocation = some loc := by
        simp [WciReadParameterCollection.readLocation, hlocation, hloc, Except.toOption]
      have hwraps : p.Wraps dataSource ↔ dataSource = .floatTable ∧ Nearby loc := by
        simp [WciReadParameterCollection.Wraps, hread]
      rw [hloc] at h
      dsimp only at h
      rw [hread]
      split at h
      · obtain ⟨u, hu, hlocated⟩ := located_addFloatTableQuery h
        refine ⟨u, fun x hx hrisky => ⟨loc, rfl, hu x hx hrisky⟩, ?_, ?_⟩
        · exact fun hw => hlocated.replaces (hwraps.1 hw).2
        · exact fun hw => hlocated.narrows fun hnear => hw (hwraps.2 ⟨rfl, hnear⟩)
      · obtain rfl := Except.ok.inj h
        refine ⟨_, fun x hx hrisky => ⟨loc, rfl, places_queryReturnGrid loc x hx hrisky⟩, ?_, ?_⟩
        · exact fun hw => absurd (hwraps.1 hw).1 (by simp)
        · exact fun _ => narrows_where (item_queryReturnGrid loc)
      · obtain rfl := Except.ok.inj h
        refine ⟨[], by simp, ?_, ?_⟩
        · exact fun hw => absurd (hwraps.1 hw).1 (by simp)
        · exact fun _ => Narrows.refl b

/-- A query is made of a builder's clauses; the pieces of users are from the times and from the location. -/
structure Built (p : WciReadParameterCollection) (dataSource : DataSource) (selectWhat : FixedText)
    (ordering groupby : Option FixedText) (t : Text) (b : Builder) (u : Text) : Prop where
  str : b.str = .ok t
  sound : b.Sound
  has : ∀ {x}, Risky x → (x ∈ t ↔ x ∈ p.timesText ∨ x ∈ u)
  validTime : ∀ ts ∈ p.readValidTime, ∃ q, validTime ts = .ok q
  places : ∀ x ∈ u, Risky x → ∃ loc ∈ p.readLocation,
    x = .part (.spliced loc.geometry) ∨ x = .part (.spliced loc.placeName)
  replaced : p.Wraps dataSource → b.what_ = []
  narrowed : ¬ p.Wraps dataSource → b.what_ = [code selectWhat.text]
  groupBy_ : b.groupBy_ = groupby.toList.map fun groupby => code groupby.text
  orderBy_ : b.orderBy_ = ordering.toList.map fun ordering => code ordering.text

/-- The query before the arguments. -/
def start (dataSource : DataSource) (selectWhat : FixedText) : Builder :=
  ((match dataSource with
    | .floatTable => ({} : Builder).from' (code (wciSchema ++ ".floatvalue_v v"))
    | .gridTable => ({} : Builder).from' (code (wciSchema ++ ".gridvalue_v v"))) : Builder).what
      (code selectWhat.text)

theorem extends_start (dataSource : DataSource) : Extends {} (start dataSource selectWhat) [] := by
  refine Extends.what_code ?_ (fixed_text selectWhat)
  cases dataSource with
  | floatTable => exact (Extends.refl {}).from_code (by decide)
  | gridTable => exact (Extends.refl {}).from_code (by decide)

theorem start_clauses (dataSource : DataSource) (selectWhat : FixedText) :
    (start dataSource selectWhat).what_ = [code selectWhat.text] ∧
      (start dataSource selectWhat).groupBy_ = [] ∧ (start dataSource selectWhat).orderBy_ = [] := by
  cases dataSource <;> exact ⟨rfl, rfl, rfl⟩

/-- There is a comparison for a valid time. -/
theorem exists_validTime (h : addValidTimeQuery b p.validTime = .ok b') :
    ∀ ts ∈ p.readValidTime, ∃ q, validTime ts = .ok q := by
  intro ts hts
  obtain ⟨timeSpec, hspec, hread⟩ := Option.bind_eq_some_iff.1 hts
  rw [hspec] at h
  obtain ⟨ts', hts', h⟩ := of_bind_eq_ok h
  obtain ⟨q, hq, -⟩ := of_bind_eq_ok h
  rw [hts'] at hread
  obtain rfl := Option.some.inj hread
  exact ⟨q, hq⟩

theorem build_query_built (h : build_query p dataSource output selectWhat ordering groupby = .ok t) :
    ∃ b u, Built p dataSource selectWhat ordering groupby t b u := by
  unfold build_query at h
  extract_lets table builder at h
  obtain ⟨b₁, h₁, h⟩ := of_bind_eq_ok h
  obtain ⟨b₂, h₂, h⟩ := of_bind_eq_ok h
  obtain ⟨b₃, h₃, h⟩ := of_bind_eq_ok h
  obtain ⟨b₄, h₄, h⟩ := of_bind_eq_ok h
  obtain ⟨b₅, h₅, h⟩ := of_bind_eq_ok h
  obtain ⟨b₆, h₆, h⟩ := of_bind_eq_ok h
  obtain ⟨b₇, h₇, h⟩ := of_bind_eq_ok h
  have hstart : builder = start dataSource selectWhat := by cases dataSource <;> rfl
  rw [hstart] at h₁
  have htimes : Narrows b₁ b₃ p.timesText :=
    (narrows_addReferenceTimeQuery h₂).trans (narrows_addValidTimeQuery h₃)
  have hnarrows : Narrows (start dataSource selectWhat) b₆ p.timesText := by
    simpa only [List.nil_append, List.append_nil] using
      ((((narrows_addDataProviderQuery h₁).trans htimes).trans (narrows_addParameterQuery h₄)).trans
        (narrows_addLevelQuery h₅)).trans (narrows_addDataVersionQuery h₆)
  obtain ⟨u, hu, hlocated⟩ := located_addLocationQuery h₇
  have hextends : Extends {} b₇ (p.timesText ++ u) := by
    have hlocation := hnarrows.toExtends.trans hlocated.toExtends
    simpa only [List.nil_append] using (extends_start dataSource).trans hlocation
  extract_lets ordered grouped at h
  have hordered : Extends b₇ ordered [] ∧ ordered.what_ = b₇.what_ ∧ ordered.groupBy_ = b₇.groupBy_ ∧
      ordered.orderBy_ = b₇.orderBy_ ++ ordering.toList.map fun ordering => code ordering.text := by
    cases ordering with
    | none => exact ⟨Extends.refl b₇, rfl, rfl, (List.append_nil _).symm⟩
    | some f => exact ⟨(Extends.refl b₇).orderBy_code (fixed_text f), rfl, rfl, rfl⟩
  have hgrouped : Extends ordered grouped [] ∧ grouped.what_ = ordered.what_ ∧
      grouped.orderBy_ = ordered.orderBy_ ∧
      grouped.groupBy_ = ordered.groupBy_ ++ groupby.toList.map fun groupby => code groupby.text := by
    cases groupby with
    | none => exact ⟨Extends.refl ordered, rfl, rfl, (List.append_nil _).symm⟩
    | some f => exact ⟨(Extends.refl ordered).groupBy_code (fixed_text f), rfl, rfl, rfl⟩
  have hall : Extends {} grouped (p.timesText ++ u) := by
    simpa only [List.append_nil] using (hextends.trans hordered.1).trans hgrouped.1
  have hwhat : grouped.what_ = b₇.what_ := hgrouped.2.1.trans hordered.2.1
  obtain ⟨hwhat, hgroupBy, horderBy⟩ := start_clauses dataSource selectWhat
  obtain ⟨hnogroup, hnoorder⟩ := hlocated.plain (hnarrows.groupBy_.trans hgroupBy)
    (hnarrows.orderBy_.trans horderBy)
  have hsame : grouped.what_ = b₇.what_ := hgrouped.2.1.trans hordered.2.1
  refine ⟨grouped, u, h, hall.sound sound_empty, fun hx => ?_, exists_validTime h₃, hu, fun hwraps => ?_, fun hwraps => ?_, ?_, ?_⟩
  · rw [mem_str hx h, hall.has hx, or_iff_right has_empty, List.mem_append]
  · exact hsame.trans (hlocated.replaces hwraps).what_
  · exact hsame.trans (((hlocated.narrows hwraps).what_.trans hnarrows.what_).trans hwhat)
  · rw [hgrouped.2.2.2, hordered.2.2.1, hnogroup, List.nil_append]
  · rw [hgrouped.2.2.1, hordered.2.2.2, hnoorder, List.nil_append]

end Query

end Wdb.Query
