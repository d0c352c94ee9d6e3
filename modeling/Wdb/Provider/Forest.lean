import Wdb.Provider.Names

/-! The nested-set encoding of the provider groups over whole runs of calls.

    `Forest` is what the encoding promises: ordered bounds, and in each namespace distinct bounds and
    intervals that are disjoint or strictly nested. Adding and renaming providers keeps it.
    `addDataProviderToGroup` moves the left bound of every row that ends beyond the group, also of
    those that start before it, so that it keeps the encoding exactly when no such row has a member
    within two positions of its left bound (`ShiftSafe`). -/

namespace Wdb.Provider
open Relational SqlTypes NestedSet Runs

/-- The nested-set encoding of a forest, one per namespace. -/
structure Forest (names : List DataProviderName) : Prop where
  ordered : ∀ n ∈ names, n.span.Proper
  distinct : ∀ m ∈ names, ∀ n ∈ names,
    m.dataprovidernamespaceid = n.dataprovidernamespaceid → m.dataproviderid ≠ n.dataproviderid →
    m.span.Distinct n.span
  nested : ∀ m ∈ names, ∀ n ∈ names,
    m.dataprovidernamespaceid = n.dataprovidernamespaceid → m.dataproviderid ≠ n.dataproviderid →
    m.span.Apart n.span ∨ m.span.Within n.span ∨ n.span.Within m.span

/-- The interval of a row of the view. -/
def DataProviderV.span (v : DataProviderV) : Span :=
  ⟨v.dataprovidernameleftset, v.dataprovidernamerightset⟩

/-- A call to `addDataProviderToGroup` names two providers of which the first is neither the second
    nor an ancestor of it. -/
def Admissible (db : Db) : Call → Prop
  | .addDataProviderToGroup session name group =>
    ∀ d ∈ findDataProvider db name session.dataprovidernamespaceid,
    ∀ g ∈ findDataProvider db group session.dataprovidernamespaceid,
      d.dataproviderid ≠ g.dataproviderid ∧ ¬ d.span.Contains g.span
  | _ => True

/-- No row that ends beyond `gprgt` has a member that ends before, within two positions of its left
    bound; the row of `dpid`, which is placed anew, does not count. -/
def ShiftRoom (names : List DataProviderName) (ns dpid gprgt : ℤ) : Prop :=
  ∀ m ∈ names, ∀ n ∈ names, m.dataprovidernamespaceid = n.dataprovidernamespaceid →
    ¬ (m.dataprovidernamespaceid = ns ∧ m.dataproviderid = dpid) →
    ¬ (n.dataprovidernamespaceid = ns ∧ n.dataproviderid = dpid) →
    Span.Room gprgt m.span n.span

/-- A call that moves bounds finds room for it, in every namespace. -/
def ShiftSafe (db : Db) : Call → Prop
  | .addDataProviderToGroup session name group =>
    ∀ d ∈ findDataProvider db name session.dataprovidernamespaceid,
    ∀ g ∈ findDataProvider db group session.dataprovidernamespaceid,
      ShiftRoom db.dataprovidername.rows session.dataprovidernamespaceid d.dataproviderid
        g.dataprovidernamerightset
  | _ => True

instance (names : List DataProviderName) (ns dpid gprgt : ℤ) :
    Decidable (ShiftRoom names ns dpid gprgt) :=
  inferInstanceAs (Decidable (∀ m ∈ names, ∀ n ∈ names, _))

instance (db : Db) : (c : Call) → Decidable (Admissible db c)
  | .addDataProviderToGroup .. => inferInstanceAs (Decidable (∀ d ∈ _, ∀ g ∈ _, _))
  | .addDataProvider .. => isTrue trivial
  | .setDataProviderName .. => isTrue trivial

instance (db : Db) : (c : Call) → Decidable (ShiftSafe db c)
  | .addDataProviderToGroup .. => inferInstanceAs (Decidable (∀ d ∈ _, ∀ g ∈ _, _))
  | .addDataProvider .. => isTrue trivial
  | .setDataProviderName .. => isTrue trivial

/-! ### Growing -/

namespace Forest
variable {names : List DataProviderName}

theorem compatible (h : Forest names) {m n : DataProviderName} (hm : m ∈ names) (hn : n ∈ names)
    (hns : m.dataprovidernamespaceid = n.dataprovidernamespaceid)
    (hid : m.dataproviderid ≠ n.dataproviderid) : m.span.Compatible n.span :=
  ⟨h.distinct m hm n hn hns hid, h.nested m hm n hn hns hid⟩

theorem of_compatible (ho : ∀ n ∈ names, n.span.Proper)
    (hc : ∀ m ∈ names, ∀ n ∈ names, m.dataprovidernamespaceid = n.dataprovidernamespaceid →
      m.dataproviderid ≠ n.dataproviderid → m.span.Compatible n.span) : Forest names :=
  ⟨ho, fun m hm n hn hns hid => (hc m hm n hn hns hid).1,
    fun m hm n hn hns hid => (hc m hm n hn hns hid).2⟩

theorem filter (h : Forest names) (p : DataProviderName → Bool) : Forest (names.filter p) :=
  of_compatible (fun n hn => h.ordered n (List.mem_of_mem_filter hn)) fun _ hm _ hn =>
    h.compatible (List.mem_of_mem_filter hm) (List.mem_of_mem_filter hn)

/-- A name may be appended beyond the others of its namespace. -/
theorem append (h : Forest names) {n : DataProviderName} {k : ℤ} (hspan : n.span = ⟨k + 1, k + 2⟩)
    (hk : ∀ m ∈ names, m.dataprovidernamespaceid = n.dataprovidernamespaceid →
      m.dataprovidernamerightset ≤ k) : Forest (names ++ [n]) := by
  have hn : n.span.Proper := by rw [hspan]; exact add_lt_add_right one_lt_two k
  have hnew : ∀ m ∈ names, m.dataprovidernamespaceid = n.dataprovidernamespaceid →
      m.span.Compatible n.span := fun m hm hns => by
    refine Span.Apart.compatible (h.ordered m hm) hn (Or.inl ?_)
    rw [hspan]
    exact lt_of_le_of_lt (hk m hm hns) (lt_add_one k)
  refine of_compatible (fun m hm => ?_) fun a ha b hb hns hid => ?_
  · rcases List.mem_append.1 hm with hm | hm
    · exact h.ordered m hm
    · rw [List.mem_singleton.1 hm]; exact hn
  · rcases List.mem_append.1 ha with ha | ha <;> rcases List.mem_append.1 hb with hb | hb
    · exact h.compatible ha hb hns hid
    · rw [List.mem_singleton.1 hb] at hns ⊢; exact hnew a ha hns
    · rw [List.mem_singleton.1 ha] at hns ⊢; exact (hnew b hb hns.symm).symm
    · exact absurd (by rw [List.mem_singleton.1 ha, List.mem_singleton.1 hb]) hid

theorem grown {names' : List DataProviderName} (h : Forest names) (hg : Grown names names') :
    Forest names' := by
  rcases hg with rfl | ⟨p, n, k, rfl, hspan, hk⟩
  · exact h
  · exact (h.filter p).append hspan hk

/-- A table whose intervals are replaced is a forest when the new intervals are. -/
theorem map_withSpan_iff {f : DataProviderName → Span} :
    Forest (names.map fun n => n.withSpan (f n)) ↔
      (∀ n ∈ names, (f n).Proper) ∧ ∀ m ∈ names, ∀ n ∈ names,
        m.dataprovidernamespaceid = n.dataprovidernamespaceid →
        m.dataproviderid ≠ n.dataproviderid → (f m).Compatible (f n) := by
  constructor
  · intro h
    refine ⟨fun n hn => h.ordered _ (List.mem_map_of_mem hn), fun m hm n hn hns hid => ?_⟩
    exact h.compatible (List.mem_map_of_mem hm) (List.mem_map_of_mem hn) hns hid
  · rintro ⟨ho, hc⟩
    refine of_compatible (List.forall_mem_map.2 ho) (List.forall_mem_map.2 fun m hm => ?_)
    exact List.forall_mem_map.2 fun n hn => hc m hm n hn

end Forest

/-! ### Grouping -/

section Grouping
variable {db : Db} {ns dpid : ℤ} {g : DataProviderName}

/-- Grouping keeps the forest exactly when there is room to shift. -/
theorem moveToGroup_forest (h : Forest db.dataprovidername.rows) (hg : g ∈ db.dataprovidername.rows)
    (hns : g.dataprovidernamespaceid = ns) (hdg : dpid ≠ g.dataproviderid) :
    Forest (moveToGroup db ns dpid g.dataproviderid
        g.dataprovidernamerightset).dataprovidername.rows ↔
      ShiftRoom db.dataprovidername.rows ns dpid g.dataprovidernamerightset := by
  have isg : ∀ m ∈ db.dataprovidername.rows,
      m.dataprovidernamespaceid = ns ∧ m.dataproviderid = g.dataproviderid → m = g :=
    fun m hm hmg => name_eq hm hg hmg.2 (hmg.1.trans hns.symm)
  have hgd : ¬ (g.dataprovidernamespaceid = ns ∧ g.dataproviderid = dpid) :=
    fun hd => hdg hd.2.symm
  have hgo := h.ordered g hg
  have hpg := placed_group hns hdg
  rw [moveToGroup_rows, Forest.map_withSpan_iff]
  constructor
  · rintro ⟨_, hc⟩ m hm n hn hmn hmd hnd hlt hle hgt
    have hid : m.dataproviderid ≠ n.dataproviderid := fun he => by
      rw [name_eq hm hn he hmn] at hlt; exact lt_irrefl _ hlt
    have hmg : ¬ (m.dataprovidernamespaceid = ns ∧ m.dataproviderid = g.dataproviderid) :=
      fun hmg => by rw [isg m hm hmg] at hgt; exact lt_irrefl _ hgt
    have hmo := h.ordered m hm
    have hno := h.ordered n hn
    have hmnc := h.compatible hm hn hmn hid
    have hnew := hc m hm n hn hmn hid
    rw [placed_other hmd hmg] at hnew
    rcases placed_cases isg hn with hd | rfl | ⟨_, hng⟩
    · exact absurd hd hnd
    · rw [hpg] at hnew
      exact (Span.compatible_widen hmo hno hmnc).1 hnew hlt hle hgt
    · rw [placed_other hnd hng] at hnew
      exact ((Span.compatible_shift hmo hno hmnc).1 hnew).1 hlt hle hgt
  · intro hroom
    refine ⟨fun n hn => ?_, fun m hm n hn hmn hid => ?_⟩
    · exact placed_proper (h.ordered n hn)
    -- what the moved provider meets: the group around it, and the shifted rows beside it
    have hslot : ∀ q ∈ db.dataprovidername.rows, q.dataprovidernamespaceid = ns →
        ¬ (q.dataprovidernamespaceid = ns ∧ q.dataproviderid = dpid) →
        (placed ns dpid g.dataproviderid g.dataprovidernamerightset q).Compatible
          ⟨g.dataprovidernamerightset, g.dataprovidernamerightset + 1⟩ := by
      intro q hq hqns hqd
      rcases placed_cases isg hq with hd | rfl | ⟨_, hqg⟩
      · exact absurd hd hqd
      · rw [hpg]; exact Span.compatible_inside hgo
      · rw [placed_other hqd hqg]
        have hqid : q.dataproviderid ≠ g.dataproviderid := fun he => hqg ⟨hqns, he⟩
        exact Span.compatible_slot (h.ordered q hq) hgo
          (h.compatible hq hg (hqns.trans hns.symm) hqid)
          (hroom q hq g hg (hqns.trans hns.symm) hqd hgd)
    by_cases hmd : m.dataprovidernamespaceid = ns ∧ m.dataproviderid = dpid
    · have hnd : ¬ (n.dataprovidernamespaceid = ns ∧ n.dataproviderid = dpid) :=
        fun hnd => hid (hmd.2.trans hnd.2.symm)
      rw [placed_provider hmd]
      exact (hslot n hn (hmn.symm.trans hmd.1) hnd).symm
    by_cases hnd : n.dataprovidernamespaceid = ns ∧ n.dataproviderid = dpid
    · rw [placed_provider hnd]
      exact hslot m hm (hmn.trans hnd.1) hmd
    have hmo := h.ordered m hm
    have hno := h.ordered n hn
    have hmnc := h.compatible hm hn hmn hid
    have hrm := hroom m hm n hn hmn hmd hnd
    have hrn := hroom n hn m hm hmn.symm hnd hmd
    rcases placed_cases isg hm with hd | rfl | ⟨_, hmg⟩
    · exact absurd hd hmd
    · have hng : ¬ (n.dataprovidernamespaceid = ns ∧ n.dataproviderid = m.dataproviderid) :=
        fun hng => hid hng.2.symm
      rw [hpg, placed_other hnd hng]
      exact ((Span.compatible_widen hno hmo hmnc.symm).2 hrn).symm
    rcases placed_cases isg hn with hd | rfl | ⟨_, hng⟩
    · exact absurd hd hnd
    · rw [hpg, placed_other hmd hmg]
      exact (Span.compatible_widen hmo hno hmnc).2 hrm
    · rw [placed_other hmd hmg, placed_other hnd hng]
      exact (Span.compatible_shift hmo hno hmnc).2 ⟨hrm, hrn⟩

end Grouping

/-! ### Whole runs -/

/-- A call keeps the forest exactly when it is safe to shift. -/
theorem step_forest_iff (db : Db) (c : Call) (hl : Linked db) (h : Forest db.dataprovidername.rows)
    (ha : Admissible db c) : Forest (step db c).dataprovidername.rows ↔ ShiftSafe db c := by
  unfold step
  cases hc : exec db c with
  | none =>
    rw [Option.getD_none, (failed_rows db c).2.1]
    refine iff_of_true h ?_
    cases c with
    | addDataProviderToGroup session name group =>
      intro d hd g hg
      exact absurd (hc.symm.trans (addDataProviderToGroup_of_find hd hg)) (by simp)
    | addDataProvider => trivial
    | setDataProviderName => trivial
  | some db' =>
    rw [Option.getD_some]
    cases c with
    | addDataProvider => exact iff_of_true (h.grown (addDataProvider_spec hl hc).2) trivial
    | setDataProviderName => exact iff_of_true (h.grown (setDataProviderName_spec hl hc).2) trivial
    | addDataProviderToGroup session name group =>
      obtain ⟨d, g, hd, hg, rfl⟩ := addDataProviderToGroup_spec hc
      obtain ⟨n, hn, hshow, hns⟩ := exists_name_of_find hg
      have hdg := (ha d hd g hg).1
      rw [hshow.1, hshow.2.2.2.2, moveToGroup_forest h hn hns (hshow.1 ▸ hdg)]
      constructor
      · intro hroom d' hd' g' hg'
        rw [Option.mem_def, hd, Option.some_inj] at hd'
        rw [Option.mem_def, hg, Option.some_inj] at hg'
        rw [← hd', ← hg', hshow.2.2.2.2]
        exact hroom
      · intro hsafe
        rw [← hshow.2.2.2.2]
        exact hsafe d hd g hg

theorem forest_empty (namespaces : List ℤ) : Forest (Db.empty namespaces).dataprovidername.rows :=
  Forest.of_compatible (fun _ hn => nomatch hn) fun _ hm => nomatch hm

/-- From an empty table, the names are a forest after every call of a run exactly when every grouping
    of the run is safe to shift. -/
theorem forest_always_iff (namespaces : List ℤ) (calls : List Call)
    (ha : Each step Admissible (Db.empty namespaces) calls) :
    (∀ p, p <+: calls → Forest (run step (Db.empty namespaces) p).dataprovidername.rows) ↔
      Each step ShiftSafe (Db.empty namespaces) calls :=
  always_iff_each step Linked (fun db => Forest db.dataprovidername.rows) step_linked
    step_forest_iff calls _ (linked_empty namespaces) (forest_empty namespaces) ha

/-- Three providers of one namespace, the second put under the first and the third under the
    second. -/
def nestedCalls : List Call :=
  let session : Session := ⟨1, 1, 1, ⟨0, []⟩⟩
  [.addDataProvider session 1 1 "a" "data provider group" "any" 1 "",
    .addDataProvider session 2 1 "b" "data provider group" "any" 1 "",
    .addDataProvider session 3 1 "c" "person" "any" 1 "",
    .addDataProviderToGroup session "b" "a",
    .addDataProviderToGroup session "c" "b"]

/-- The second grouping pushes the left bound of `a` beyond that of its member `b`. -/
theorem forest_lost : Each step Admissible (Db.empty [1]) nestedCalls ∧
    ¬ Forest (run step (Db.empty [1]) nestedCalls).dataprovidername.rows := by
  refine ⟨by decide, fun h => ?_⟩
  have hcross := h.nested ⟨1, 1, "a", 1, 3, 6⟩ (by decide) ⟨2, 1, "b", 1, 2, 5⟩ (by decide)
    (by decide) (by decide)
  exact absurd hcross (by decide)

/-- The first grouping alone is safe, and it moves bounds. -/
theorem forest_always_iff_take :
    (run step (Db.empty [1]) (nestedCalls.take 4)).dataprovidername.rows ≠
      (run step (Db.empty [1]) (nestedCalls.take 3)).dataprovidername.rows ∧
    ∀ p, p <+: nestedCalls.take 4 → Forest (run step (Db.empty [1]) p).dataprovidername.rows :=
  ⟨by decide, (forest_always_iff [1] (nestedCalls.take 4) (by decide)).2 (by decide)⟩

end Wdb.Provider
