import Wdb.Query.Locations

/-! The strings of users in a query.

    A string is contained when it stands between quotes and is the literal that is read there. The names
    of data providers and parameters always are. A time or the name of a place is when it has no quote; a
    reference time's keyword stands in the query as it was written when it is not in lower case. -/

namespace Wdb.Query
open SqlText Spirit Builder Wdb.Read

/-! ### Geometries have no quotes -/

section Geometry

theorem takes_unquoted_ch {d : Char} (hd : d ≠ '\'') : Takes (· ≠ '\'') (ch d) :=
  takes_ch (fun c hc => by rintro rfl; exact absurd hc (by decide)) hd

theorem takes_unquoted_str {w : String} (hw : '\'' ∉ w.toList) : Takes (· ≠ '\'') (str w) :=
  takes_str (fun c hc => by rintro rfl; exact absurd hc (by decide)) fun _ hc => ne_of_mem_of_not_mem hc hw

theorem takes_unquoted_real : Takes (· ≠ '\'') real := by
  refine takes_real ?_ ?_ (by decide) (by decide) ?_ (by decide)
  all_goals
    rintro c hc rfl
    exact absurd hc (by decide)

theorem takes_corners : Takes (· ≠ '\'') Location.corners :=
  takes_unquoted_real.seq (takes_unquoted_real.seq
    ((takes_unquoted_ch (by decide)).seq (takes_unquoted_real.seq takes_unquoted_real)).star)

theorem takes_ring : Takes (· ≠ '\'') Location.ring :=
  (takes_unquoted_ch (by decide)).seq (takes_corners.seq (takes_unquoted_ch (by decide)))

theorem takes_rings : Takes (· ≠ '\'') Location.rings :=
  (takes_unquoted_ch (by decide)).seq (takes_ring.seq
    (((takes_unquoted_ch (by decide)).seq takes_ring).star.seq (takes_unquoted_ch (by decide))))

theorem takes_geometryType {s rest : List Char} {type : GeomType}
    (h : Location.geometryType s = some (type, rest)) : After (· ≠ '\'') s rest := by
  have hpoint : Takes (· ≠ '\'') Location.pointRule :=
    (takes_unquoted_str (by decide)).seq ((takes_unquoted_ch (by decide)).seq
      (takes_unquoted_real.seq (takes_unquoted_real.seq (takes_unquoted_ch (by decide)))))
  have hpolygon : Takes (· ≠ '\'') Location.polygonRule := (takes_unquoted_str (by decide)).seq takes_rings
  have hmultipolygon : Takes (· ≠ '\'') Location.multipolygonRule :=
    (takes_unquoted_str (by decide)).seq ((takes_unquoted_ch (by decide)).seq (takes_rings.seq
      (((takes_unquoted_ch (by decide)).seq takes_rings).star.seq (takes_unquoted_ch (by decide)))))
  unfold Location.geometryType at h
  split at h
  · next rest' heq =>
    obtain ⟨rfl, rfl⟩ := Prod.mk.inj (Option.some.inj h)
    exact hpoint _ _ heq
  · split at h
    · next rest' heq =>
      obtain ⟨rfl, rfl⟩ := Prod.mk.inj (Option.some.inj h)
      exact hpolygon _ _ heq
    · obtain ⟨rest', hrest, heq⟩ := Option.map_eq_some_iff.1 h
      obtain ⟨rfl, rfl⟩ := Prod.mk.inj heq
      exact hmultipolygon _ _ hrest

/-- What is matched is a part of what is taken. -/
theorem of_mem_matched {P : Char → Prop} {s rest : List Char} (h : After P s rest) :
    ∀ c ∈ matched s rest, P c := by
  obtain ⟨t, ht, hP⟩ := h
  intro c hc
  obtain ⟨pre, hpre⟩ : skip s <:+ s := List.dropWhile_suffix _
  unfold matched at hc
  by_cases hle : (skip s).length ≤ rest.length
  · rw [Nat.sub_eq_zero_of_le hle, List.take_zero] at hc
    cases hc
  · have hlength := congrArg List.length (hpre.trans ht)
    rw [List.length_append, List.length_append] at hlength
    obtain ⟨t', rfl, hskip⟩ | ⟨rest', rfl, hrest⟩ := List.append_eq_append_iff.1 (hpre.trans ht)
    · rw [hskip, List.length_append, Nat.add_sub_cancel, List.take_left] at hc
      exact hP c (List.mem_append_right _ hc)
    · rw [hrest, List.length_append] at hle
      omega

/-- A geometry has no quote. -/
theorem not_mem_geometry {location : String} {loc : Location}
    (h : Location.parseWithSpirit_ location = .ok loc) : '\'' ∉ loc.geometry.toList := by
  obtain ⟨loc', hrule, rfl⟩ := Location.parseWithSpirit_rule h
  obtain ⟨⟨place, rest⟩, hplace, hloc⟩ := Option.bind_eq_some_iff.1 hrule
  have hempty : (Location.interpolationRule {} location.toList).1.geometry = "" :=
    (Location.interpolationRule_place {} _).1
  have hgeometry : '\'' ∉ place.geometry.toList := by
    rcases Option.or_eq_some_iff.1 hplace with hgeometry | ⟨_, hname⟩
    · obtain ⟨⟨type, rest'⟩, htype, heq⟩ := Option.map_eq_some_iff.1 hgeometry
      obtain ⟨rfl, rfl⟩ := Prod.mk.inj heq
      intro hc
      rw [String.toList_ofList] at hc
      exact of_mem_matched (takes_geometryType htype) _ hc rfl
    · obtain ⟨rest', _, heq⟩ := Option.map_eq_some_iff.1 hname
      obtain ⟨rfl, rfl⟩ := Prod.mk.inj heq
      rw [hempty]
      decide
  split at hloc
  · obtain rfl := Option.some.inj hloc
    exact hgeometry
  · cases hloc

end Geometry

/-! ### Times -/

/-- The times that a query compares with. -/
def TimeSpecification.compared (ts : TimeSpecification) : List String :=
  let timeTo := if ts.durationInsteadOfTo_ then [ts.from_, ts.interval] else [ts.to_]
  if ts.indeterminate_ = "before" then [ts.from_]
  else if ts.indeterminate_ = "after" then timeTo
  else ts.from_ :: timeTo

/-- None of several strings has a quote. -/
def NoQuotes (vs : List String) : Prop := ∀ v ∈ vs, '\'' ∉ v.toList

instance (vs : List String) : Decidable (NoQuotes vs) := inferInstanceAs (Decidable (∀ v ∈ vs, _))

section Times
variable {ts : TimeSpecification} {t u : Text} {v s a b : String} {vs ws : List String}

/-- A text of the program and of spliced strings: it is safe when none of these has a quote. -/
structure Splices (t : Text) (vs : List String) : Prop where
  safe : (∀ x ∈ t, x.Safe) ↔ NoQuotes vs
  between : ∀ v, .bare v ∉ t

theorem noQuotes_append : NoQuotes (vs ++ ws) ↔ NoQuotes vs ∧ NoQuotes ws := List.forall_mem_append

theorem Splices.append (ht : Splices t vs) (hu : Splices u ws) : Splices (t ++ u) (vs ++ ws) where
  safe := by rw [List.forall_mem_append, ht.safe, hu.safe, noQuotes_append]
  between v hv := (List.mem_append.1 hv).elim (ht.between v) (hu.between v)

theorem splices_code (s : String) : Splices (code s) [] :=
  ⟨by simp [code, Piece.Safe, NoQuotes], by simp [code]⟩

theorem splices_spliced (v : String) : Splices (spliced v) [v] :=
  ⟨by simp [spliced, Piece.Safe, NoQuotes], by simp [spliced]⟩

/-- Text of the program stands around. -/
theorem Splices.after_code (ht : Splices t vs) : Splices (code s ++ t) vs := (splices_code s).append ht

theorem Splices.before_code (ht : Splices t vs) : Splices (t ++ code s) vs := by
  simpa using ht.append (splices_code s)

theorem Splices.both (h : Splices t vs) (h' : Splices t ws) : Splices t (vs ++ ws) where
  safe := by rw [noQuotes_append, ← h.safe, ← h'.safe, and_self]
  between := h.between

/-- Two comparisons. -/
theorem Splices.pair (ht : Splices t vs) (hu : Splices u ws) : Splices (code a ++ t ++ code b ++ u) (vs ++ ws) :=
  ht.after_code.before_code.append hu

theorem splices_referenceTime (hcode : ts.indeterminate_ ∈ timeCodes) : Splices (referenceTime ts) ts.compared := by
  have hto : Splices (if ts.durationInsteadOfTo_ then
      spliced ts.from_ ++ code "::timestamp with time zone+" ++ spliced ts.interval else spliced ts.to_)
      (if ts.durationInsteadOfTo_ then [ts.from_, ts.interval] else [ts.to_]) := by
    split
    · exact (splices_spliced _).before_code.append (splices_spliced _)
    · exact splices_spliced _
  have hfrom := splices_spliced ts.from_
  unfold referenceTime TimeSpecification.compared
  extract_lets timeFrom timeTo times
  simp only [timeCodes, List.mem_cons, List.not_mem_nil, or_false] at hcode
  rcases hcode with h | h | h | h | h <;> simp only [h, reduceIte, String.reduceEq]
  · split
    · next heq => exact (hfrom.both (heq ▸ hto : Splices timeFrom times)).after_code
    · exact hfrom.pair hto
  · exact hfrom.after_code
  · exact hto.after_code
  · exact hfrom.pair hto
  · exact hfrom.pair hto

theorem splices_quoteValidTime (v : String) : Splices (quoteValidTime v) [v] := by
  unfold quoteValidTime isSpecialValue
  split
  · next h =>
    simp only [Bool.or_eq_true, decide_eq_true_eq] at h
    refine ⟨?_, (splices_code v).between⟩
    rw [(splices_code v).safe]
    rcases h with rfl | rfl <;> simp [NoQuotes]
  · exact splices_spliced v

theorem splices_validTime {q : Text} (hcode : ts.indeterminate_ ∈ timeCodes) (h : validTime ts = .ok q) :
    Splices q ts.compared := by
  have hto : Splices (if ts.durationInsteadOfTo_ then quoteValidTime ts.from_ ++
      code "::timestamp with time zone+" ++ spliced ts.interval else quoteValidTime ts.to_)
      (if ts.durationInsteadOfTo_ then [ts.from_, ts.interval] else [ts.to_]) := by
    split
    · exact (splices_quoteValidTime _).before_code.append (splices_spliced _)
    · exact splices_quoteValidTime _
  have hfrom := splices_quoteValidTime ts.from_
  unfold validTime at h
  unfold TimeSpecification.compared
  extract_lets timeFrom timeTo at h
  extract_lets times
  simp only [timeCodes, List.mem_cons, List.not_mem_nil, or_false] at hcode
  rcases hcode with hc | hc | hc | hc | hc <;>
    simp only [hc, reduceIte, String.reduceEq] at h ⊢ <;> obtain rfl := Except.ok.inj h
  · exact hfrom.pair hto
  · exact hfrom.after_code
  · exact hto.after_code
  · exact hfrom.pair hto
  · exact hfrom.pair hto

/-- A keyword that is not in lower case stands in the query. -/
theorem referenceTime_of_not_mem (h : ts.indeterminate_.toList.map Char.toLower ∈ timeCodes.map String.toList)
    (hcode : ts.indeterminate_ ∉ timeCodes) : referenceTime ts = bare ts.indeterminate_ := by
  have hany : ts.indeterminate_ ≠ "any" := by
    intro hany
    rw [hany] at h
    exact absurd h (by decide)
  simp only [timeCodes, List.mem_cons, List.not_mem_nil, or_false, not_or] at hcode
  simp [referenceTime, hcode, hany]

theorem mem_timeCodes_of_validTime {q : Text}
    (hlower : ts.indeterminate_.toList.map Char.toLower ∈ timeCodes.map String.toList)
    (h : validTime ts = .ok q) : ts.indeterminate_ ∈ timeCodes := by
  by_contra hcode
  have hany : ts.indeterminate_ ≠ "any" := by
    intro hany
    rw [hany] at hlower
    exact absurd hlower (by decide)
  simp only [timeCodes, List.mem_cons, List.not_mem_nil, or_false, not_or] at hcode
  simp [validTime, hcode, hany] at h

end Times

/-! ### Queries -/

section Queries
variable {p : WciReadParameterCollection} {dataSource : DataSource} {output : OutputType}
  {selectWhat : FixedText} {ordering groupby : Option FixedText} {b : Builder} {t u : Text}

/-- The keyword of the reference time is in lower case, and there is no quote in the times that are compared
    with, nor in the name of the place. -/
structure Plain (p : WciReadParameterCollection) : Prop where
  keyword : ∀ ts ∈ p.readReferenceTime, ts.indeterminate_ ∈ timeCodes
  referenceTime : ∀ ts ∈ p.readReferenceTime, NoQuotes ts.compared
  validTime : ∀ ts ∈ p.readValidTime, NoQuotes ts.compared
  placeName : ∀ loc ∈ p.readLocation, '\'' ∉ loc.placeName.toList

theorem lower_of_read {spec : Option String} {ts : TimeSpecification}
    (h : ts ∈ spec.bind fun timeSpec => (TimeSpecification.parse timeSpec).toOption) :
    ts.indeterminate_.toList.map Char.toLower ∈ timeCodes.map String.toList := by
  obtain ⟨timeSpec, -, hread⟩ := Option.bind_eq_some_iff.1 h
  cases hparse : TimeSpecification.parse timeSpec with
  | error e =>
    rw [hparse] at hread
    cases hread
  | ok ts' =>
    rw [hparse] at hread
    obtain rfl := Option.some.inj hread
    exact TimeSpecification.parse_indeterminate hparse

theorem safe_referenceTime_iff : (∀ x ∈ p.readReferenceTime.elim [] referenceTime, x.Safe) ↔
    (∀ ts ∈ p.readReferenceTime, ts.indeterminate_ ∈ timeCodes) ∧
      ∀ ts ∈ p.readReferenceTime, NoQuotes ts.compared := by
  cases hread : p.readReferenceTime with
  | none => simp
  | some ts =>
    simp only [Option.elim_some, Option.mem_def, Option.some.injEq, forall_eq']
    by_cases hcode : ts.indeterminate_ ∈ timeCodes
    · rw [and_iff_right hcode]
      exact (splices_referenceTime hcode).safe
    · rw [referenceTime_of_not_mem (lower_of_read hread) hcode]
      refine iff_of_false (fun hsafe => ?_) fun h => hcode h.1
      exact hsafe _ (List.mem_singleton_self _)

theorem safe_validTime_iff (h : ∀ ts ∈ p.readValidTime, ∃ q, validTime ts = .ok q) :
    (∀ x ∈ p.readValidTime.elim [] fun ts => (validTime ts).toOption.getD [], x.Safe) ↔
      ∀ ts ∈ p.readValidTime, NoQuotes ts.compared := by
  cases hread : p.readValidTime with
  | none => simp
  | some ts =>
    obtain ⟨q, hq⟩ := h ts hread
    simp only [Option.elim_some, Option.mem_def, Option.some.injEq, forall_eq', hq, Except.toOption,
      Option.getD_some]
    exact (splices_validTime (mem_timeCodes_of_validTime (lower_of_read hread) hq) hq).safe

theorem safe_of_not_risky {x : Piece} (h : ¬ Risky x) : x.Safe := by
  cases x with
  | part q =>
    cases q with
    | spliced v => exact absurd trivial h
    | _ => trivial
  | bare v => exact absurd trivial h

/-- What is from a location is safe when the name of the place is. -/
theorem Built.safe_places (h : Built p dataSource selectWhat ordering groupby t b u)
    (hname : ∀ loc ∈ p.readLocation, '\'' ∉ loc.placeName.toList) : ∀ x ∈ u, x.Safe := by
  intro x hx
  by_cases hrisky : Risky x
  · obtain ⟨loc, hloc, rfl | rfl⟩ := h.places x hx hrisky
    · obtain ⟨location, -, hread⟩ := Option.bind_eq_some_iff.1 hloc
      cases hparse : Location.parseWithSpirit_ location with
      | error what =>
        rw [hparse] at hread
        cases hread
      | ok loc' =>
        rw [hparse] at hread
        obtain rfl := Option.some.inj hread
        exact not_mem_geometry hparse
    · exact hname loc hloc
  · exact safe_of_not_risky hrisky

theorem Built.safe_iff (h : Built p dataSource selectWhat ordering groupby t b u) :
    (∀ x ∈ t, x.Safe) ↔ (∀ x ∈ p.timesText, x.Safe) ∧ ∀ x ∈ u, x.Safe := by
  constructor
  · intro hsafe
    refine ⟨fun x hx => ?_, fun x hx => ?_⟩
    · by_cases hrisky : Risky x
      · exact hsafe x ((h.has hrisky).2 (Or.inl hx))
      · exact safe_of_not_risky hrisky
    · by_cases hrisky : Risky x
      · exact hsafe x ((h.has hrisky).2 (Or.inr hx))
      · exact safe_of_not_risky hrisky
  · rintro ⟨htimes, hplaces⟩ x hx
    by_cases hrisky : Risky x
    · exact ((h.has hrisky).1 hx).elim (htimes x) (hplaces x)
    · exact safe_of_not_risky hrisky

/-- The strings in a query are contained exactly when the pieces are safe. -/
theorem Built.contained_iff (h : Built p dataSource selectWhat ordering groupby t b u) :
    Contained t ↔ ∀ x ∈ t, x.Safe :=
  SqlText.contained_iff (h.sound.str h.str).1.meeting

/-- The name of a place is contained exactly when it has no quote. -/
theorem contained_placeNameQuery_iff (placeName : String) :
    Contained (build_placeNameQuery placeName) ↔ '\'' ∉ placeName.toList := by
  have hspans : Spans 1 (build_placeNameQuery placeName) 1 := spans_of_blank (by
    simp only [build_placeNameQuery, skeleton_append, skeleton_code, skeleton_spliced]
    decide +kernel)
  rw [SqlText.contained_iff hspans.meeting, build_placeNameQuery, List.forall_mem_append]
  simp [code, spliced, Piece.Safe]

/-- The text of a query, and that of the query for the name of its place, contain the strings of users
    exactly when these are plain. -/
theorem build_query_contained_iff (h : build_query p dataSource output selectWhat ordering groupby = .ok t) :
    (Contained t ∧ ∀ loc ∈ p.readLocation, Contained (build_placeNameQuery loc.placeName)) ↔ Plain p := by
  obtain ⟨b, u, hbuilt⟩ := build_query_built h
  have htimes : (∀ x ∈ p.timesText, x.Safe) ↔ ((∀ ts ∈ p.readReferenceTime, ts.indeterminate_ ∈ timeCodes) ∧
      ∀ ts ∈ p.readReferenceTime, NoQuotes ts.compared) ∧ ∀ ts ∈ p.readValidTime, NoQuotes ts.compared := by
    rw [WciReadParameterCollection.timesText, List.forall_mem_append, safe_referenceTime_iff,
      safe_validTime_iff hbuilt.validTime]
  simp only [contained_placeNameQuery_iff]
  rw [hbuilt.contained_iff, hbuilt.safe_iff, htimes]
  constructor
  · rintro ⟨⟨⟨⟨hkeyword, hreference⟩, hvalid⟩, -⟩, hname⟩
    exact ⟨hkeyword, hreference, hvalid, hname⟩
  · rintro ⟨hkeyword, hreference, hvalid, hname⟩
    exact ⟨⟨⟨⟨hkeyword, hreference⟩, hvalid⟩, hbuilt.safe_places hname⟩, hname⟩

end Queries

/-- The values of a place. -/
def valuesAt (location : String) : WciReadParameterCollection := { location := some location }

def valueColumn : FixedText := ⟨"value", by decide, by decide⟩

theorem exists_query {p : WciReadParameterCollection} {x : Piece}
    (h : ((build_query p .floatTable .outputFloat valueColumn none none).toOption.any fun t =>
      t.any (· = x)) = true) :
    ∃ t, build_query p .floatTable .outputFloat valueColumn none none = .ok t ∧ x ∈ t := by
  cases hquery : build_query p .floatTable .outputFloat valueColumn none none with
  | error e =>
    rw [hquery] at h
    cases h
  | ok t =>
    rw [hquery] at h
    obtain ⟨y, hy, heq⟩ := List.any_eq_true.1 h
    obtain rfl := of_decide_eq_true heq
    exact ⟨t, rfl, hy⟩

theorem build_query_contained_iff_oslo : ∃ t,
    build_query (valuesAt "oslo") .floatTable .outputFloat valueColumn none none = .ok t ∧ Contained t := by
  have hplain : Plain (valuesAt "oslo") := ⟨by decide +kernel, by decide +kernel, by decide +kernel, by decide +kernel⟩
  obtain ⟨t, ht, -⟩ := exists_query (p := valuesAt "oslo") (x := .part (.spliced "oslo")) (by decide +kernel)
  exact ⟨t, ht, ((build_query_contained_iff ht).2 hplain).1⟩

/-- The name of a place may have a quote. -/
theorem build_query_not_contained : ∃ t,
    build_query (valuesAt "oslo'") .floatTable .outputFloat valueColumn none none = .ok t ∧ ¬ Contained t := by
  obtain ⟨t, ht, hmem⟩ := exists_query (p := valuesAt "oslo'") (x := .part (.spliced "oslo'")) (by decide +kernel)
  obtain ⟨b, u, hbuilt⟩ := build_query_built ht
  refine ⟨t, ht, fun hcontained => ?_⟩
  exact absurd (hbuilt.contained_iff.1 hcontained _ hmem) (by simp [Piece.Safe])

end Wdb.Query
