import Wdb.Store.Remove

/-! What `addDataProviderQuery` selects.

    The filter joins the value view with all pairs of rows of `dataprovider_mv` of which the second has
    a name that is asked for and an interval around that of the first. The pairs come from all
    namespaces, and a value is returned once for each of them. -/

namespace Wdb.Store
open SqlTypes

section Filter
variable (cat : Catalog) (session : Session) (dataProvider : List String)

/-- A row that is asked for, with an interval around that of another. -/
def DataProviderMv.around (source d : DataProviderMv) : Prop :=
  source.dataprovidername ∈ dataProvider.map lower ∧
  source.dataprovidernameleftset ≤ d.dataprovidernameleftset ∧
  source.dataprovidernamerightset ≥ d.dataprovidernamerightset

instance (source d : DataProviderMv) : Decidable (source.around dataProvider d) :=
  inferInstanceAs (Decidable (_ ∧ _))

/-- Both rows are of the session's namespace. -/
def OfSession (d source : DataProviderMv) : Prop :=
  d.dataprovidernamespaceid = session.dataprovidernamespaceid ∧
  source.dataprovidernamespaceid = session.dataprovidernamespaceid

instance (d source : DataProviderMv) : Decidable (OfSession session d source) :=
  inferInstanceAs (Decidable (_ ∧ _))

/-- A data provider is in the subtree of one that is asked for, in the session's namespace. -/
def Lies (id : ℤ) : Prop :=
  ∃ d ∈ cat.dataproviderMv, ∃ source ∈ cat.dataproviderMv,
    OfSession session d source ∧ d.dataproviderid = id ∧ source.around dataProvider d

instance (id : ℤ) : Decidable (Lies cat session dataProvider id) :=
  inferInstanceAs (Decidable (∃ d ∈ _, ∃ source ∈ _, _))

/-- The pairs of rows that select a data provider. -/
def sources (id : ℤ) : List (DataProviderMv × DataProviderMv) :=
  (cat.dataproviderMv.filter fun d => d.dataproviderid = id).flatMap fun d =>
    (cat.dataproviderMv.filter fun source => source.around dataProvider d).map fun source =>
      (d, source)

/-- Every pair of rows that selects a data provider is of the session's namespace, and there is at most
    one. -/
def Unambiguous (id : ℤ) : Prop :=
  (∀ p ∈ sources cat dataProvider id, OfSession session p.1 p.2) ∧
  (sources cat dataProvider id).length ≤ 1

instance (id : ℤ) : Decidable (Unambiguous cat session dataProvider id) :=
  inferInstanceAs (Decidable (_ ∧ _))

/-- A read by data providers alone returns the rows of a view whose data provider lies in one of them,
    each as often as the view has it. -/
def SelectsExactly {β : Type} (view : List (ValueV β)) : Prop :=
  ∃ rows, buildQuery cat { dataProvider := .value dataProvider } (some fun _ => true) view =
      some rows ∧
    rows.Perm (view.filter fun v => Lies cat session dataProvider v.dataproviderid)

variable {cat session dataProvider} {id : ℤ}

theorem mem_sources {p : DataProviderMv × DataProviderMv} : p ∈ sources cat dataProvider id ↔
    p.1 ∈ cat.dataproviderMv ∧ p.2 ∈ cat.dataproviderMv ∧ p.1.dataproviderid = id ∧
      p.2.around dataProvider p.1 := by
  obtain ⟨d, source⟩ := p
  simp only [sources, List.mem_flatMap, List.mem_map, List.mem_filter, decide_eq_true_eq,
    Prod.mk.injEq]
  constructor
  · rintro ⟨d, ⟨hd, hid⟩, source, ⟨hs, haround⟩, rfl, rfl⟩
    exact ⟨hd, hs, hid, haround⟩
  · rintro ⟨hd, hs, hid, haround⟩
    exact ⟨d, ⟨hd, hid⟩, source, ⟨hs, haround⟩, rfl, rfl⟩

theorem lies_iff : Lies cat session dataProvider id ↔
    ∃ p ∈ sources cat dataProvider id, OfSession session p.1 p.2 := by
  constructor
  · rintro ⟨d, hd, source, hs, hof, hid, haround⟩
    exact ⟨(d, source), mem_sources.2 ⟨hd, hs, hid, haround⟩, hof⟩
  · rintro ⟨⟨d, source⟩, hp, hof⟩
    obtain ⟨hd, hs, hid, haround⟩ := mem_sources.1 hp
    exact ⟨d, hd, source, hs, hof, hid, haround⟩

/-- The join returns a value once for every pair. -/
theorem count_dataproviderIds :
    (dataproviderIds cat dataProvider).count id = (sources cat dataProvider id).length := by
  unfold dataproviderIds sources
  generalize cat.dataproviderMv = all
  suffices h : ∀ l : List DataProviderMv,
      (l.flatMap fun d => (all.filter fun source =>
        source.dataprovidername ∈ dataProvider.map lower ∧
        source.dataprovidernameleftset ≤ d.dataprovidernameleftset ∧
        source.dataprovidernamerightset ≥ d.dataprovidernamerightset).map
          fun _ => d.dataproviderid).count id =
      ((l.filter fun d => d.dataproviderid = id).flatMap fun d =>
        (all.filter fun source => source.around dataProvider d).map fun source =>
          (d, source)).length from h all
  intro l
  induction l with
  | nil => rfl
  | cons d l ih =>
    rw [List.flatMap_cons, List.count_append, ih, List.map_const', List.count_replicate,
      List.filter_cons]
    by_cases hid : d.dataproviderid = id
    · simp only [hid, beq_self_eq_true, if_true, decide_true, List.flatMap_cons, List.length_append,
        List.length_map]
      rfl
    · simp [hid]

/-- A data provider is returned once when it lies in a provider asked for, and not at all otherwise,
    exactly when its pairs are unambiguous. -/
theorem count_eq_iff : (dataproviderIds cat dataProvider).count id =
      (if Lies cat session dataProvider id then 1 else 0) ↔
    Unambiguous cat session dataProvider id := by
  rw [count_dataproviderIds]
  constructor
  · intro h
    by_cases hlies : Lies cat session dataProvider id
    · rw [if_pos hlies] at h
      refine ⟨fun q hq => ?_, h.le⟩
      obtain ⟨p, hp, hof⟩ := lies_iff.1 hlies
      obtain ⟨r, hr⟩ := List.length_eq_one_iff.1 h
      rw [hr, List.mem_singleton] at hp hq
      rw [hq, ← hp]
      exact hof
    · rw [if_neg hlies, List.length_eq_zero_iff] at h
      refine ⟨fun q hq => ?_, by rw [h]; exact Nat.zero_le 1⟩
      rw [h] at hq
      cases hq
  · rintro ⟨hof, hone⟩
    cases hs : sources cat dataProvider id with
    | nil =>
      rw [if_neg]
      · rfl
      · rw [lies_iff, hs]
        rintro ⟨p, hp, _⟩
        cases hp
    | cons p l =>
      have hp : p ∈ sources cat dataProvider id := hs ▸ List.mem_cons_self
      rw [if_pos (lies_iff.2 ⟨p, hp, hof p hp⟩), ← hs]
      have hpos := List.length_pos_of_mem hp
      omega

/-- A list whose elements are repeated is the list of those that meet a condition exactly when they are
    repeated once if they meet it and not at all otherwise. -/
theorem replicated_perm_filter {α : Type} [DecidableEq α] {l : List α} {times : α → ℕ} {p : α → Bool} :
    (l.flatMap fun a => List.replicate (times a) a).Perm (l.filter p) ↔
      ∀ a ∈ l, times a = if p a then 1 else 0 := by
  have hcount : ∀ a, (l.flatMap fun b => List.replicate (times b) b).count a =
      l.count a * times a := by
    intro a
    induction l with
    | nil => simp
    | cons b l ih =>
      rw [List.flatMap_cons, List.count_append, ih, List.count_replicate, List.count_cons]
      by_cases h : b = a
      · subst h
        simp only [beq_self_eq_true, if_true]
        ring
      · simp [h]
  have hfilter : ∀ a, (l.filter p).count a = l.count a * if p a then 1 else 0 := by
    intro a
    by_cases hp : p a = true
    · rw [List.count_filter hp, if_pos hp, Nat.mul_one]
    · rw [if_neg hp, Nat.mul_zero, List.count_eq_zero]
      exact fun h => hp (List.mem_filter.1 h).2
  rw [List.perm_iff_count]
  constructor
  · intro h a ha
    have := h a
    rw [hcount, hfilter] at this
    exact Nat.eq_of_mul_eq_mul_left (List.count_pos_iff.2 ha) this
  · intro h a
    rw [hcount, hfilter]
    by_cases ha : a ∈ l
    · rw [h a ha]
    · rw [List.count_eq_zero.2 ha, Nat.zero_mul, Nat.zero_mul]

theorem selectsExactly_iff {β : Type} [DecidableEq β] {view : List (ValueV β)} :
    SelectsExactly cat session dataProvider view ↔
      ∀ v ∈ view, Unambiguous cat session dataProvider v.dataproviderid := by
  have hquery : buildQuery cat { dataProvider := .value dataProvider } (some fun _ => true) view =
      some (view.flatMap fun v =>
        List.replicate ((dataproviderIds cat dataProvider).count v.dataproviderid) v) := by
    simp [buildQuery, addDataProviderQuery, addReferenceTimeQuery, addValidTimeQuery,
      addParameterQuery, addLevelQuery, addDataVersionQuery, Arg.condition]
  unfold SelectsExactly
  simp only [hquery, Option.some_inj, exists_eq_left', replicated_perm_filter, decide_eq_true_eq,
    count_eq_iff]

end Filter

/-- The filter selects the rows of either value view by the subtrees of the session's namespace, each
    once, exactly when the data provider of every row shown is selected unambiguously. -/
theorem addDataProviderQuery_iff (cat : Catalog) (session : Session) (dataProvider : List String)
    (db : Db) :
    (SelectsExactly cat session dataProvider (gridvalueV cat session db) ↔
      ∀ v ∈ gridvalueV cat session db, Unambiguous cat session dataProvider v.dataproviderid) ∧
    (SelectsExactly cat session dataProvider (floatvalueV cat session db) ↔
      ∀ v ∈ floatvalueV cat session db, Unambiguous cat session dataProvider v.dataproviderid) :=
  ⟨selectsExactly_iff, selectsExactly_iff⟩

/-- A provider in a group; and a provider of another namespace with the same interval. -/
def grouped : Catalog :=
  { oneName with dataproviderMv := [⟨1, 1, "provider", 2, 3⟩, ⟨2, 1, "group", 1, 4⟩,
      ⟨7, 2, "other", 2, 3⟩] }

/-- A value is returned twice when its provider and the group are asked for, and returned for a name
    that only another namespace knows. -/
theorem addDataProviderQuery_ambiguous :
    ¬ SelectsExactly grouped oneSession ["group", "provider"]
      (floatvalueV grouped oneSession oneFloat) ∧
    ¬ SelectsExactly grouped oneSession ["other"] (floatvalueV grouped oneSession oneFloat) := by
  refine ⟨fun h => ?_, fun h => ?_⟩
  · exact absurd (selectsExactly_iff.1 h) (by decide)
  · exact absurd (selectsExactly_iff.1 h) (by decide)

end Wdb.Store
