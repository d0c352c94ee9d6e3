import Wdb.Lib.Runs
import Wdb.Provider.Tables

/-! What the provider calls do to the names.

    `dataprovider_v` shows every name as long as the providers have comments (`Linked`), which every
    call keeps. A call that adds or renames appends an interval beyond the others of its namespace
    (`Grown`); a call that groups gives every name of the table its `placed` interval. -/

namespace Wdb.Provider
open Relational SqlTypes NestedSet Runs

/-- Every name belongs to a provider that has a comment, so that `dataprovider_v` shows it. -/
def Linked (db : Db) : Prop :=
  ∀ n ∈ db.dataprovidername.rows,
    (∃ p ∈ db.dataprovider.rows, p.dataproviderid = n.dataproviderid) ∧
    ∃ c ∈ db.dataprovidercomment.rows, c.dataproviderid = n.dataproviderid

/-- The row of the view that shows a name. -/
def Shows (v : DataProviderV) (n : DataProviderName) : Prop :=
  v.dataproviderid = n.dataproviderid ∧ v.dataprovidernamespaceid = n.dataprovidernamespaceid ∧
  v.dataprovidername = n.dataprovidername ∧
  v.dataprovidernameleftset = n.dataprovidernameleftset ∧
  v.dataprovidernamerightset = n.dataprovidernamerightset

/-! ### The view shows the names -/

theorem exists_name_of_view {db : Db} {v : DataProviderV} (h : v ∈ dataproviderV db) :
    ∃ n ∈ db.dataprovidername.rows, Shows v n := by
  unfold dataproviderV at h
  simp only [List.mem_flatMap, List.mem_filter, List.mem_map, decide_eq_true_eq] at h
  obtain ⟨dp, _, dn, ⟨hdn, hid⟩, dc, _, rfl⟩ := h
  exact ⟨dn, hdn, hid, rfl, rfl, rfl, rfl⟩

theorem exists_view_of_name {db : Db} (hl : Linked db) {n : DataProviderName}
    (hn : n ∈ db.dataprovidername.rows) : ∃ v ∈ dataproviderV db, Shows v n := by
  obtain ⟨⟨p, hp, hpid⟩, hc⟩ := hl n hn
  obtain ⟨c, hc, hcid, hmax⟩ :=
    exists_greatest (fun c : DataProviderComment => c.dataprovidercommentstoretime) hc
  have hnew : db.newestComment c := fun d hd hdc => hmax d hd (hdc.trans hcid)
  refine ⟨_, List.mem_flatMap.2 ⟨p, hp, List.mem_flatMap.2 ⟨n, List.mem_filter.2 ⟨hn, ?_⟩,
    List.mem_map.2 ⟨c, List.mem_filter.2 ⟨hc, ?_⟩, rfl⟩⟩⟩, hpid, rfl, rfl, rfl, rfl⟩
  · exact decide_eq_true hpid
  · exact decide_eq_true ⟨hpid.trans hcid.symm, hnew⟩

theorem exists_name_of_find {db : Db} {name : String} {ns : ℤ} {v : DataProviderV}
    (h : findDataProvider db name ns = some v) :
    ∃ n ∈ db.dataprovidername.rows, Shows v n ∧ n.dataprovidernamespaceid = ns := by
  obtain ⟨n, hn, hs⟩ := exists_name_of_view (List.mem_of_find?_eq_some h)
  have hv := List.find?_some h
  simp only [decide_eq_true_eq] at hv
  exact ⟨n, hn, hs, hs.2.1 ▸ hv.2⟩

/-- Two names of one provider in one namespace are one row. -/
theorem name_eq {db : Db} {m n : DataProviderName} (hm : m ∈ db.dataprovidername.rows)
    (hn : n ∈ db.dataprovidername.rows) (hid : m.dataproviderid = n.dataproviderid)
    (hns : m.dataprovidernamespaceid = n.dataprovidernamespaceid) : m = n := by
  refine db.dataprovidername.eq_of_clash ?_ hm hn (Or.inl ⟨hid, hns⟩)
  rintro a b (⟨h1, h2⟩ | ⟨h1, h2, h3⟩)
  · exact Or.inl ⟨h1.symm, h2.symm⟩
  · exact Or.inr ⟨h1.symm, h2.symm, h3.symm⟩

/-! ### What the statements do -/

theorem insertDataProvider_spec {db db' : Db} {p : DataProvider}
    (h : insertDataProvider db p = some db') :
    db'.dataprovider.rows = db.dataprovider.rows ++ [p] ∧
    db'.dataprovidername = db.dataprovidername ∧
    db'.dataprovidercomment = db.dataprovidercomment := by
  unfold insertDataProvider at h
  split at h
  · obtain ⟨t, ht, rfl⟩ := Option.map_eq_some_iff.1 h
    exact ⟨(Table.insert_eq_some ht).2, rfl, rfl⟩
  · cases h

theorem insertComment_spec {db db' : Db} {dpid now : ℤ} {comment : String}
    (h : insertComment db dpid comment now = some db') :
    (∃ p ∈ db.dataprovider.rows, p.dataproviderid = dpid) ∧
    db'.dataprovider = db.dataprovider ∧ db'.dataprovidername = db.dataprovidername ∧
    ∃ c : DataProviderComment, c.dataproviderid = dpid ∧
      db'.dataprovidercomment.rows = db.dataprovidercomment.rows ++ [c] := by
  unfold insertComment at h
  split at h
  · next hp =>
    obtain ⟨c, _, hc⟩ := Option.bind_eq_some_iff.1 h
    obtain ⟨t, ht, rfl⟩ := Option.map_eq_some_iff.1 hc
    exact ⟨hp, rfl, rfl, _, rfl, (Table.insert_eq_some ht).2⟩
  · cases h

theorem insertName_spec {db db' : Db} {dpid ns today l r : ℤ} {name : String}
    (h : insertName db dpid ns name today l r = some db') :
    (∃ p ∈ db.dataprovider.rows, p.dataproviderid = dpid) ∧
    db'.dataprovider = db.dataprovider ∧ db'.dataprovidercomment = db.dataprovidercomment ∧
    ∃ n : DataProviderName, n.dataproviderid = dpid ∧ n.dataprovidernamespaceid = ns ∧
      n.span = ⟨l, r⟩ ∧ db'.dataprovidername.rows = db.dataprovidername.rows ++ [n] := by
  unfold insertName at h
  split at h
  · next hp =>
    obtain ⟨n, _, hn⟩ := Option.bind_eq_some_iff.1 h
    obtain ⟨t, ht, rfl⟩ := Option.map_eq_some_iff.1 hn
    exact ⟨hp.1, rfl, rfl, _, rfl, rfl, rfl, (Table.insert_eq_some ht).2⟩
  · cases h

/-- Where `moveToGroup` puts the interval of a name. -/
def placed (ns dpid gpid gprgt : ℤ) (n : DataProviderName) : Span :=
  if n.dataprovidernamespaceid = ns ∧ n.dataproviderid = dpid then ⟨gprgt, gprgt + 1⟩
  else if n.dataprovidernamespaceid = ns ∧ n.dataproviderid = gpid then
    ⟨(n.span.shift gprgt 2).left, (n.span.shift gprgt 2).right + 2⟩
  else n.span.shift gprgt 2

/-- A name with another interval. -/
def DataProviderName.withSpan (n : DataProviderName) (s : Span) : DataProviderName :=
  { n with dataprovidernameleftset := s.left, dataprovidernamerightset := s.right }

section WithSpan
variable (n : DataProviderName) (s t : Span)

@[simp] theorem withSpan_id : (n.withSpan s).dataproviderid = n.dataproviderid := rfl

@[simp] theorem withSpan_namespace :
    (n.withSpan s).dataprovidernamespaceid = n.dataprovidernamespaceid := rfl

@[simp] theorem withSpan_span : (n.withSpan s).span = s := rfl

@[simp] theorem withSpan_left : (n.withSpan s).dataprovidernameleftset = s.left := rfl

@[simp] theorem withSpan_right : (n.withSpan s).dataprovidernamerightset = s.right := rfl

@[simp] theorem withSpan_withSpan : (n.withSpan s).withSpan t = n.withSpan t := rfl

end WithSpan

theorem updateName_rows (db : Db) (p : DataProviderName → Bool) (l r : DataProviderName → ℤ) :
    (updateName db p l r).dataprovidername.rows = db.dataprovidername.rows.map fun n =>
      n.withSpan (if p n then ⟨l n, r n⟩ else n.span) := by
  refine List.map_congr_left fun n _ => ?_
  unfold Table.updateRow
  split <;> rfl

/-- The four statements together move every name to its place. -/
theorem moveToGroup_rows (db : Db) (ns dpid gpid gprgt : ℤ) :
    (moveToGroup db ns dpid gpid gprgt).dataprovidername.rows =
      db.dataprovidername.rows.map fun n => n.withSpan (placed ns dpid gpid gprgt n) := by
  simp only [moveToGroup, updateName_rows, List.map_map]
  refine List.map_congr_left fun n _ => ?_
  simp only [Function.comp_apply, withSpan_withSpan, withSpan_id, withSpan_namespace,
    withSpan_left, withSpan_right, withSpan_span, decide_eq_true_eq]
  congr 1
  by_cases hd : n.dataprovidernamespaceid = ns ∧ n.dataproviderid = dpid
  · simp [placed, hd]
  by_cases hg : n.dataprovidernamespaceid = ns ∧ n.dataproviderid = gpid
  · have hgd : ¬ gpid = dpid := fun he => hd ⟨hg.1, hg.2.trans he⟩
    simp only [placed, hg, hgd, and_self, and_false, if_true, if_false]
    rfl
  · simp only [placed, hd, hg, if_false]
    rfl

section Placed
variable {ns dpid gpid gprgt : ℤ} {n g : DataProviderName}

theorem placed_provider
    (hd : n.dataprovidernamespaceid = ns ∧ n.dataproviderid = dpid) :
    placed ns dpid gpid gprgt n = ⟨gprgt, gprgt + 1⟩ := if_pos hd

theorem placed_group (hns : g.dataprovidernamespaceid = ns) (hdg : dpid ≠ g.dataproviderid) :
    placed ns dpid g.dataproviderid g.dataprovidernamerightset g =
      ⟨g.span.left, g.span.right + 2⟩ := by
  change placed ns dpid g.dataproviderid g.span.right g = _
  have hd : ¬ (g.dataprovidernamespaceid = ns ∧ g.dataproviderid = dpid) := fun h => hdg h.2.symm
  unfold placed
  rw [if_neg hd, if_pos ⟨hns, rfl⟩, Span.shift_of_le (le_refl g.span.right)]

theorem placed_other
    (hd : ¬ (n.dataprovidernamespaceid = ns ∧ n.dataproviderid = dpid))
    (hg : ¬ (n.dataprovidernamespaceid = ns ∧ n.dataproviderid = gpid)) :
    placed ns dpid gpid gprgt n = n.span.shift gprgt 2 := by
  unfold placed
  rw [if_neg hd, if_neg hg]

/-- Where a name goes: into the group, it is the group, or it is shifted. -/
theorem placed_cases {names : List DataProviderName} (isg : ∀ m ∈ names,
      m.dataprovidernamespaceid = ns ∧ m.dataproviderid = g.dataproviderid → m = g)
    (hn : n ∈ names) :
    (n.dataprovidernamespaceid = ns ∧ n.dataproviderid = dpid) ∨
    n = g ∨
    ¬ (n.dataprovidernamespaceid = ns ∧ n.dataproviderid = dpid) ∧
      ¬ (n.dataprovidernamespaceid = ns ∧ n.dataproviderid = g.dataproviderid) := by
  by_cases hd : n.dataprovidernamespaceid = ns ∧ n.dataproviderid = dpid
  · exact Or.inl hd
  by_cases hg : n.dataprovidernamespaceid = ns ∧ n.dataproviderid = g.dataproviderid
  · exact Or.inr (Or.inl (isg n hn hg))
  · exact Or.inr (Or.inr ⟨hd, hg⟩)

theorem placed_proper (h : n.span.Proper) : (placed ns dpid gpid gprgt n).Proper := by
  have hs : (n.span.shift gprgt 2).Proper := h.shift
  unfold placed
  split
  · exact lt_add_one _
  · split
    · exact lt_trans hs (lt_add_of_pos_right _ two_pos)
    · exact hs

end Placed

/-! ### The calls keep the names visible -/

/-- Names stay visible when providers and comments stay and every name has an old one's provider or a
    provider and comment of its own. -/
theorem Linked.mono {db db' : Db} (h : Linked db)
    (hp : ∀ p ∈ db.dataprovider.rows, ∃ q ∈ db'.dataprovider.rows,
      q.dataproviderid = p.dataproviderid)
    (hc : ∀ c ∈ db.dataprovidercomment.rows, c ∈ db'.dataprovidercomment.rows)
    (hn : ∀ n ∈ db'.dataprovidername.rows,
      (∃ m ∈ db.dataprovidername.rows, m.dataproviderid = n.dataproviderid) ∨
      ((∃ p ∈ db'.dataprovider.rows, p.dataproviderid = n.dataproviderid) ∧
        ∃ c ∈ db'.dataprovidercomment.rows, c.dataproviderid = n.dataproviderid)) :
    Linked db' := by
  intro n hn'
  rcases hn n hn' with ⟨m, hm, hid⟩ | hnew
  · obtain ⟨⟨p, hp', hpid⟩, c, hc', hcid⟩ := h m hm
    obtain ⟨q, hq, hqid⟩ := hp p hp'
    exact ⟨⟨q, hq, by rw [hqid, hpid, hid]⟩, c, hc c hc', by rw [hcid, hid]⟩
  · exact hnew

theorem moveToGroup_linked {db : Db} {ns dpid gpid gprgt : ℤ} (h : Linked db) :
    Linked (moveToGroup db ns dpid gpid gprgt) := by
  refine h.mono (fun p hp => ⟨p, hp, rfl⟩) (fun c hc => hc) fun n hn => Or.inl ?_
  simp only [moveToGroup, updateName_rows, List.mem_map] at hn
  obtain ⟨_, ⟨_, ⟨_, ⟨m, hm, rfl⟩, rfl⟩, rfl⟩, rfl⟩ := hn
  exact ⟨m, hm, rfl⟩

/-- The names stay as they are, or some are dropped and one is appended beyond the rest of its
    namespace. -/
def Grown (rows rows' : List DataProviderName) : Prop :=
  rows' = rows ∨ ∃ (p : DataProviderName → Bool) (n : DataProviderName) (k : ℤ),
    rows' = rows.filter p ++ [n] ∧ n.span = ⟨k + 1, k + 2⟩ ∧
    ∀ m ∈ rows.filter p, m.dataprovidernamespaceid = n.dataprovidernamespaceid →
      m.dataprovidernamerightset ≤ k

theorem le_max?_getD {l : List ℤ} {a : ℤ} (h : a ∈ l) : a ≤ l.max?.getD 0 := by
  obtain ⟨k, hk⟩ := Option.isSome_iff_exists.1 (List.isSome_max?_of_mem h)
  rw [hk]
  exact (List.max?_eq_some_iff.1 hk).2 a h

theorem addDataProvider_spec {db db' : Db} {session : Session} {now today life : ℤ}
    {name type domain comment : String} (hl : Linked db)
    (h : addDataProvider db session now today name type domain life comment = some db') :
    Linked db' ∧ Grown db.dataprovidername.rows db'.dataprovidername.rows := by
  unfold addDataProvider at h
  split at h
  · obtain ⟨db₁, h₁, h⟩ := Option.bind_eq_some_iff.1 h
    obtain ⟨db₂, h₂, h₃⟩ := Option.bind_eq_some_iff.1 h
    obtain ⟨hp₁, hn₁, hc₁⟩ := insertDataProvider_spec h₁
    obtain ⟨_, hp₂, hn₂, c, hcid, hc₂⟩ := insertComment_spec h₂
    obtain ⟨hpid, hp₃, hc₃, n, hnid, _, hspan, hn₃⟩ := insertName_spec h₃
    obtain ⟨p, hprov⟩ : ∃ p, db₂.dataprovider.rows = db.dataprovider.rows ++ [p] :=
      ⟨_, by rw [hp₂, hp₁]⟩
    have hcom : db₂.dataprovidercomment.rows = db.dataprovidercomment.rows ++ [c] := by
      rw [hc₂, hc₁]
    have hname : db₂.dataprovidername = db.dataprovidername := by rw [hn₂, hn₁]
    have hl₂ : Linked db₂ := hl.mono
      (fun q hq => ⟨q, by rw [hprov]; exact List.mem_append_left _ hq, rfl⟩)
      (fun d hd => by rw [hcom]; exact List.mem_append_left _ hd)
      (fun m hm => Or.inl ⟨m, hname ▸ hm, rfl⟩)
    rw [hname] at hn₃
    refine ⟨hl₂.mono (fun p hp => ⟨p, hp₃ ▸ hp, rfl⟩) (fun d hd => hc₃ ▸ hd) fun m hm => ?_,
      Or.inr ⟨fun _ => true, n, _, by simpa using hn₃, hspan, fun m hm _ => ?_⟩⟩
    · rw [hn₃, List.mem_append, List.mem_singleton] at hm
      rcases hm with hm | rfl
      · exact Or.inl ⟨m, hname ▸ hm, rfl⟩
      · refine Or.inr ⟨by rw [hp₃, hnid]; exact hpid, c, ?_, by rw [hcid, hnid]⟩
        rw [hc₃, hcom]; simp
    · have hm' : m ∈ db₂.dataprovidername.rows := hname ▸ List.mem_of_mem_filter hm
      obtain ⟨v, hv, hshow⟩ := exists_view_of_name hl₂ hm'
      exact le_max?_getD (List.mem_map.2 ⟨v, hv, hshow.2.2.2.2⟩)
  · split at h
    · obtain ⟨_, hp, hn, c, _, hc⟩ := insertComment_spec h
      refine ⟨hl.mono (fun p hp' => ?_) (fun d hd => ?_) fun m hm => Or.inl ⟨m, hn ▸ hm, rfl⟩,
        Or.inl (by rw [hn])⟩
      · refine ⟨_, by rw [hp]; exact List.mem_map_of_mem hp', ?_⟩
        unfold Table.updateRow
        split <;> rfl
      · rw [hc]; exact List.mem_append_left _ hd
    · cases h

theorem setDataProviderName_spec {db db' : Db} {session : Session} {today fromns : ℤ}
    {fromName name : String} (hl : Linked db)
    (h : setDataProviderName db session today fromns fromName name = some db') :
    Linked db' ∧ Grown db.dataprovidername.rows db'.dataprovidername.rows := by
  unfold setDataProviderName at h
  obtain ⟨v, hv, h⟩ := Option.bind_eq_some_iff.1 h
  split at h
  · obtain ⟨k, hk, h⟩ := Option.bind_eq_some_iff.1 h
    obtain ⟨_, hp, hc, n, hnid, hns, hspan, hn⟩ := insertName_spec h
    obtain ⟨f, hf, hshow, _⟩ := exists_name_of_find hv
    have hl₁ : Linked { db with
        dataprovidername := db.dataprovidername.delete fun n =>
          n.dataprovidernamespaceid = session.dataprovidernamespaceid ∧
            n.dataproviderid = v.dataproviderid } :=
      hl.mono (fun p hp => ⟨p, hp, rfl⟩) (fun d hd => hd)
        fun m hm => Or.inl ⟨m, List.mem_of_mem_filter hm, rfl⟩
    refine ⟨hl.mono (fun p hp' => ⟨p, by rw [hp]; exact hp', rfl⟩) (fun d hd => by rw [hc]; exact hd)
      fun m hm => Or.inl ?_, Or.inr ⟨_, n, k, hn, hspan, fun m hm hmn => ?_⟩⟩
    · rw [hn, List.mem_append, List.mem_singleton] at hm
      rcases hm with hm | rfl
      · exact ⟨m, List.mem_of_mem_filter hm, rfl⟩
      · exact ⟨f, hf, by rw [hnid, hshow.1]⟩
    · obtain ⟨w, hw, hshow⟩ := exists_view_of_name hl₁ hm
      refine (List.max?_eq_some_iff.1 hk).2 _ (List.mem_map.2 ⟨w, ?_, hshow.2.2.2.2⟩)
      rw [List.mem_filter, decide_eq_true_eq]
      exact ⟨hw, by rw [hshow.2.1, hmn, hns]⟩
  · cases h

theorem addDataProviderToGroup_spec {db db' : Db} {session : Session} {name group : String}
    (h : addDataProviderToGroup db session name group = some db') :
    ∃ d g, findDataProvider db name session.dataprovidernamespaceid = some d ∧
      findDataProvider db group session.dataprovidernamespaceid = some g ∧
      db' = moveToGroup db session.dataprovidernamespaceid d.dataproviderid g.dataproviderid
        g.dataprovidernamerightset := by
  obtain ⟨d, hd, h⟩ := Option.bind_eq_some_iff.1 h
  obtain ⟨g, hg, rfl⟩ := Option.map_eq_some_iff.1 h
  exact ⟨d, g, hd, hg, rfl⟩

theorem addDataProviderToGroup_of_find {db : Db} {session : Session} {name group : String}
    {d g : DataProviderV}
    (hd : findDataProvider db name session.dataprovidernamespaceid = some d)
    (hg : findDataProvider db group session.dataprovidernamespaceid = some g) :
    addDataProviderToGroup db session name group = some (moveToGroup db
      session.dataprovidernamespaceid d.dataproviderid g.dataproviderid
      g.dataprovidernamerightset) := by
  unfold addDataProviderToGroup
  rw [hd, hg]
  rfl

theorem failed_rows (db : Db) (c : Call) :
    (failed db c).dataprovider = db.dataprovider ∧
    (failed db c).dataprovidername = db.dataprovidername ∧
    (failed db c).dataprovidercomment = db.dataprovidercomment := by
  unfold failed
  split
  · split <;> exact ⟨rfl, rfl, rfl⟩
  · exact ⟨rfl, rfl, rfl⟩

theorem step_linked (db : Db) (c : Call) (hl : Linked db) : Linked (step db c) := by
  unfold step
  cases h : exec db c with
  | none =>
    obtain ⟨hp, hn, hc⟩ := failed_rows db c
    unfold Linked
    rw [Option.getD_none, hp, hn, hc]
    exact hl
  | some db' =>
    rw [Option.getD_some]
    cases c with
    | addDataProvider => exact (addDataProvider_spec hl h).1
    | addDataProviderToGroup =>
      obtain ⟨d, g, _, _, rfl⟩ := addDataProviderToGroup_spec h
      exact moveToGroup_linked hl
    | setDataProviderName => exact (setDataProviderName_spec hl h).1

theorem linked_empty (namespaces : List ℤ) : Linked (Db.empty namespaces) := by
  intro n hn
  cases hn

end Wdb.Provider
