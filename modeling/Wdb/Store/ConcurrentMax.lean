import Wdb.Store.FloatConcurrent

/-! `maxdataversion` after two concurrent writes of one key.

    Every statement of a float write is a step of a writer that inserts its row and then sets the
    greatest version it has selected. The maxima come out right exactly when an `UPDATE` whose snapshot
    was taken after the other transaction's commit sets the greatest version, or both set it. -/

namespace Wdb.Store
open Relational SqlTime SqlTypes Versioned Runs ReadCommitted

section Simulation
variable {cat : Catalog} {db₀ db : Db} {k : Key} {w : Tx → FloatWrite} {s : FloatRace} {a : State}
  {t : Tx}

theorem FloatShows.isSome_iff (h : FloatShows db₀ k w s a) {n : ℤ} :
    (a.rows n).isSome ↔ ∃ id, FloatId s.db k id n := by
  rw [Option.isSome_iff_exists]
  constructor
  · rintro ⟨m, hm⟩
    obtain ⟨x, hx, hk, hn, _⟩ := (h.rows n m).1 hm
    exact ⟨_, x, hx, rfl, hk, hn⟩
  · rintro ⟨_, x, hx, _, hk, hn⟩
    exact ⟨_, (h.rows n _).2 ⟨x, hx, hk, hn, rfl⟩⟩

theorem FloatWrite.length_pos {w : FloatWrite} (h : 0 < w.dataversion) : w.length = 6 := if_pos h

theorem FloatWrite.length_neg {w : FloatWrite} (h : ¬ 0 < w.dataversion) : w.length = 3 := if_neg h

theorem FloatWrite.three_le (w : FloatWrite) : 3 ≤ w.length := by
  unfold FloatWrite.length
  split <;> decide

/-- An item is hidden from its insert to the commit. -/
theorem FloatShows.rank_lt (h : FloatShows db₀ k w s a) {item : ItemId}
    (hunc : (s.pc t).uncommitted = some item) :
    1 < (s.pc t).rank (w t).length ∧ (s.pc t).rank (w t).length < (w t).length := by
  rcases h.positive t item hunc with hpc | hpos
  · rw [hpc]
    exact ⟨Nat.one_lt_two, (w t).three_le⟩
  · rw [FloatWrite.length_pos hpos]
    cases hpc : s.pc t <;> rw [hpc] at hunc <;> simp [FloatPc.uncommitted, FloatPc.rank] at hunc ⊢

/-- The values that a statement sees are those of the versions that it sees. -/
theorem FloatShows.visible_iff (h : FloatShows db₀ k w s a) {id : ItemId} {n : ℤ}
    (hid : FloatId s.db k id n) :
    n ∈ visible (fun t => floatWriter db₀ k (w t)) a t ↔ some id ≠ (s.pc t.other).uncommitted := by
  have hdone := h.done t.other
  unfold visible
  rw [Set.mem_ofPred_eq, and_iff_right (h.isSome_iff.2 ⟨id, hid⟩), hdone]
  cases hunc : (s.pc t.other).uncommitted with
  | none =>
    refine iff_of_true (fun hc => ?_) (by simp)
    have h₁ : 1 < (s.pc t.other).rank (w t.other).length := hc.2.1
    have h₂ : (s.pc t.other).rank (w t.other).length < (w t.other).length := hc.2.2
    cases hpc : s.pc t.other <;> rw [hpc] at hunc h₁ h₂ <;>
      simp [FloatPc.uncommitted, FloatPc.rank] at hunc h₁ h₂
  | some id' =>
    have hid' := h.uncommitted t.other id' hunc
    simp only [ne_eq, Option.some_inj]
    refine not_congr ⟨fun ⟨hn, _⟩ => ?_, fun heq => ⟨?_, h.rank_lt hunc⟩⟩
    · rw [hn] at hid
      exact floatId_unique hid hid'
    · rw [heq] at hid
      exact floatId_version hid hid'

/-- What is to be shown of a step that takes its transaction to `pc` and the tables to `db`. -/
theorem FloatShows.goTo (h : FloatShows db₀ k w s a) (hext : FloatExtends k s.db db) {pc : FloatPc}
    {rows : ℤ → Option ℤ} {max : Tx → Option ℤ} {targets : Tx → Set ℤ}
    (hrank : pc.rank (w t).length = (s.pc t).rank (w t).length + 1)
    (hrows : ∀ n m, rows n = some m ↔ FloatRow db k n m)
    (hpositive : ∀ item, pc.uncommitted = some item → pc = .stored item ∨ 0 < (w t).dataversion)
    (hmax : ∀ max_, pc.chosen = some max_ → max t = max_) (hmax' : max t.other = a.max t.other)
    (htargets : ∀ item max_ l, pc = .updating item max_ l →
      ((∀ n, n ∈ targets t ↔ ∃ id ∈ l, FloatId db k id n) ∧ ∀ id ∈ l, ∃ n, FloatId db k id n) ∧
        item ∈ l)
    (htargets' : targets t.other = a.targets t.other)
    (hgrouped : ∀ id, pc = .grouped (some id) → ∃ g ∈ db.floatvaluegroup.rows,
      g.valuegroupid = id ∧ g.ofKey k ∧ g.dataversion = (w t).dataversion)
    (hnew : ∀ item, pc.uncommitted = some item → FloatId db k item (w t).dataversion) :
    FloatShows db₀ k w ⟨db, Function.update s.pc t pc⟩ (a.next t rows max targets) where
  rows := hrows
  done := by
    rw [Tx.forall_iff t, State.done_next_self, State.done_next_other, h.done, h.done]
    simp only [Function.update_self, Function.update_of_ne t.other_ne]
    exact ⟨hrank.symm, trivial⟩
  positive := by
    rw [Tx.forall_iff t]
    simp only [Function.update_self, Function.update_of_ne t.other_ne]
    exact ⟨hpositive, h.positive t.other⟩
  max := by
    rw [Tx.forall_iff t]
    simp only [Function.update_self, Function.update_of_ne t.other_ne]
    exact ⟨hmax, fun max_ hc => hmax'.trans (h.max t.other max_ hc)⟩
  targets := by
    rw [Tx.forall_iff t]
    simp only [Function.update_self, Function.update_of_ne t.other_ne]
    refine ⟨fun item max_ l hl => (htargets item max_ l hl).1, fun item max_ l hl => ?_⟩
    obtain ⟨hmem, hall⟩ := h.targets t.other item max_ l hl
    refine ⟨fun n => ?_, fun id hid => (hall id hid).imp fun n => hext.keep id n⟩
    rw [hext.collected hall, ← hmem]
    exact Iff.of_eq (congrArg (n ∈ ·) htargets')
  own := by
    rw [Tx.forall_iff t]
    simp only [Function.update_self, Function.update_of_ne t.other_ne]
    exact ⟨fun item max_ l hl => (htargets item max_ l hl).2, h.own t.other⟩
  grouped := by
    rw [Tx.forall_iff t]
    simp only [Function.update_self, Function.update_of_ne t.other_ne]
    refine ⟨hgrouped, fun id hid => ?_⟩
    obtain ⟨g, hg, hgid⟩ := h.grouped t.other id hid
    exact ⟨g, hext.groups g hg, hgid⟩
  uncommitted := by
    rw [Tx.forall_iff t]
    simp only [Function.update_self, Function.update_of_ne t.other_ne]
    exact ⟨hnew, fun item hi => hext.keep _ _ (h.uncommitted t.other item hi)⟩
  canonical := hext.canonical h.canonical
  foreign := fun x hx => (hext.foreign x hx).trans (h.foreign x hx)

/-- The numbers of the statements that a write of a positive version makes. -/
theorem floatWriter_pos {d : Db} {v : FloatWrite} (h : 0 < v.dataversion) :
    (floatWriter d k v).selectAt = 2 ∧ (floatWriter d k v).snapshotAt = 3 ∧
      (floatWriter d k v).updateAt = 4 ∧ (floatWriter d k v).length = 6 :=
  ⟨if_pos h, if_pos h, if_pos h, if_pos h⟩

/-- The numbers from which on a write of another version makes no statement. -/
theorem floatWriter_neg {d : Db} {v : FloatWrite} (h : ¬ 0 < v.dataversion) :
    (floatWriter d k v).selectAt = 3 ∧ (floatWriter d k v).snapshotAt = 4 ∧
      (floatWriter d k v).updateAt = 5 ∧ (floatWriter d k v).length = 3 :=
  ⟨if_neg h, if_neg h, if_neg h, if_neg h⟩

/-- The statements before the select. -/
theorem floatWriter_late {d : Db} (v : FloatWrite) :
    1 < (floatWriter d k v).selectAt ∧ 1 < (floatWriter d k v).snapshotAt ∧
      1 < (floatWriter d k v).updateAt ∧ 2 < (floatWriter d k v).length := by
  by_cases h : 0 < v.dataversion
  · obtain ⟨h₁, h₂, h₃, h₄⟩ := floatWriter_pos (d := d) (k := k) h
    omega
  · obtain ⟨h₁, h₂, h₃, h₄⟩ := floatWriter_neg (d := d) (k := k) h
    omega

/-- The group is inserted or found. -/
theorem floatShows_begun (h : FloatShows db₀ k w s a) (hpc : s.pc t = .begun) {groupid_ : Option ℤ}
    (hins : insertGroup cat s.db k (w t).dataversion = some (db, groupid_)) :
    ∃ a', Step (fun t => floatWriter db₀ k (w t)) a t a' ∧ FloatShows db₀ k w
      ⟨db, Function.update s.pc t (.grouped groupid_)⟩ a' := by
  have hdone : a.done t = 0 := by rw [h.done, hpc]; rfl
  obtain ⟨hfloats, hext, g, hg, hgid, hofKey, hver⟩ := insertGroup_floats hins
  obtain ⟨h₁, h₂, h₃, h₄⟩ := floatWriter_late (d := db₀) (k := k) (w t)
  refine ⟨a.next t a.rows a.max a.targets, ?_, ?_⟩
  · apply Step.quiet <;> rw [hdone]
    · omega
    · exact Nat.zero_ne_one
    all_goals omega
  · refine h.goTo hext (by rw [hpc]; rfl) (fun n m => ?_) (by simp [FloatPc.uncommitted])
      (by simp [FloatPc.chosen]) rfl (by simp) rfl ?_ (by simp [FloatPc.uncommitted])
    · rw [h.rows]
      exact exists_congr fun x => and_congr_left fun _ => (hfloats x).symm
    · intro id hid
      rw [FloatPc.grouped.injEq, hgid, Option.some_inj] at hid
      exact ⟨g, hg, hid, hofKey, hver⟩

/-- The item is inserted. -/
theorem floatShows_grouped (h : FloatShows db₀ k w s a) {groupid : ℤ}
    (hpc : s.pc t = .grouped (some groupid))
    (hins : insertItem cat s.db (some groupid) k.referencetime (w t).dataversion
      (w t).confidencecode (w t).value (w t).now = some db) :
    ∃ a', Step (fun t => floatWriter db₀ k (w t)) a t a' ∧ FloatShows db₀ k w
      ⟨db, Function.update s.pc t (.stored (groupid, k.referencetime))⟩ a' := by
  have hdone : a.done t = 1 := by rw [h.done, hpc]; rfl
  obtain ⟨g, hg, rfl, hofKey, hver⟩ := h.grouped t groupid hpc
  rcases insertItem_cases cat hg k.referencetime (w t).dataversion (w t).confidencecode (w t).value
    (w t).now with ⟨_, hnone⟩ | ⟨_, r, _, hfree, _, hsome, hitems, hgroups, _⟩
  · rw [hnone] at hins
    cases hins
  obtain rfl : db = _ := Option.some_inj.1 (hins.symm.trans hsome)
  have hfloats := floats_append (g := g) (by rw [hgroups]; exact hg) rfl (Or.inl hgroups) hitems
  have hkey : floatKey (⟨g.valuegroupid, k.referencetime, (w t).dataversion, (w t).confidencecode, r,
      (w t).now⟩, g) = k := floatKey_eq_key.2 ⟨hofKey, rfl⟩
  -- a value of the key and version would clash with the item
  have hnew : ∀ x ∈ s.db.floats, ¬ (floatKey x = k ∧ x.2.dataversion = (w t).dataversion) := by
    rintro x hx ⟨hk, hv⟩
    obtain ⟨hi, hxg, hid⟩ := mem_floats.1 hx
    obtain ⟨hxk, hr⟩ := floatKey_eq_key.1 hk
    have hxg' : x.2 = g := s.db.floatvaluegroup.eq_of_clash FloatValueGroup.clash_symm hxg hg
      (Or.inr ⟨(FloatValueGroup.ofKey_of_same hofKey).2 hxk, hv.trans hver.symm⟩)
    exact hfree ⟨x.1, hi, by rw [hid, hxg'], hr⟩
  have hmem : ∀ x, x ∈ db.floats ↔ x ∈ s.db.floats ∨ x = (⟨g.valuegroupid, k.referencetime,
      (w t).dataversion, (w t).confidencecode, r, (w t).now⟩, g) := by
    intro x
    rw [hfloats, List.mem_append, List.mem_singleton]
  have hid : ∀ id n, FloatId db k id n ↔ FloatId s.db k id n ∨
      ((g.valuegroupid, k.referencetime) = id ∧ (w t).dataversion = n) := by
    intro id n
    constructor
    · rintro ⟨x, hx, hxid, hk, hn⟩
      rcases (hmem x).1 hx with hx | rfl
      · exact Or.inl ⟨x, hx, hxid, hk, hn⟩
      · exact Or.inr ⟨hxid, hver.symm.trans hn⟩
    · rintro (⟨x, hx, hxid, hk, hn⟩ | ⟨rfl, rfl⟩)
      · exact ⟨x, (hmem x).2 (Or.inl hx), hxid, hk, hn⟩
      · exact ⟨_, (hmem _).2 (Or.inr rfl), rfl, hkey, hver⟩
  have hext : FloatExtends k s.db db := by
    refine ⟨fun id n hn => (hid id n).2 (Or.inl hn), fun id n hn => ((hid id n).1 hn).imp_right ?_,
      fun g hg => hgroups ▸ hg, fun hc g hg => hc g (hgroups ▸ hg), fun x hx => ?_⟩
    · rintro ⟨rfl, _⟩ m ⟨x, hx, hxid, _⟩
      obtain ⟨hgid, hr⟩ := Prod.mk.inj hxid
      exact hfree ⟨x.1, (mem_floats.1 hx).1, hgid, hr⟩
    · rw [hmem]
      exact or_iff_left fun heq => hx (heq ▸ hkey)
  obtain ⟨h₁, h₂, h₃, h₄⟩ := floatWriter_late (d := db₀) (k := k) (w t)
  refine ⟨a.next t (Function.update a.rows (w t).dataversion (some (w t).dataversion)) a.max a.targets,
    ?_, ?_⟩
  · exact {
      running := by rw [hdone]; omega
      past := rfl
      inserts := fun _ => by
        refine ⟨?_, Function.update_self ..⟩
        rw [← Option.not_isSome_iff_eq_none, h.isSome_iff]
        rintro ⟨_, x, hx, _, hk, hn⟩
        exact hnew x hx ⟨hk, hn⟩
      sets := fun hc => by omega
      rows := fun n hn _ => Function.update_of_ne (fun hv => hn ⟨hdone, hv⟩) _ _
      selects := fun hc => by omega
      max := fun _ _ => rfl
      collects := fun hc => by omega
      targets := fun _ _ => rfl }
  · refine h.goTo hext (by rw [hpc]; rfl) (fun n m => ?_) (by simp [FloatPc.uncommitted])
      (by simp [FloatPc.chosen]) rfl (by simp) rfl (by simp) ?_
    · by_cases hn : n = (w t).dataversion
      · rw [hn, Function.update_self, Option.some_inj]
        constructor
        · rintro rfl
          exact ⟨_, (hmem _).2 (Or.inr rfl), hkey, hver, rfl⟩
        · rintro ⟨x, hx, hk, hxn, hm⟩
          rcases (hmem x).1 hx with hx | rfl
          · exact absurd ⟨hk, hxn⟩ (hnew x hx)
          · exact hm
      · rw [Function.update_of_ne hn, h.rows]
        constructor
        · rintro ⟨x, hx, hxm⟩
          exact ⟨x, (hmem x).2 (Or.inl hx), hxm⟩
        · rintro ⟨x, hx, hk, hxn, hm⟩
          rcases (hmem x).1 hx with hx | rfl
          · exact ⟨x, hx, hk, hxn, hm⟩
          · exact absurd (hxn.symm.trans hver) hn
    · rintro item ⟨⟩
      exact (hid _ _).2 (Or.inr ⟨rfl, rfl⟩)

theorem mem_visible {x : FloatValueItem × FloatValueGroup} :
    x ∈ (s.visible t).floats ↔ x ∈ s.db.floats ∧ some x.1.id ≠ (s.pc t.other).uncommitted := by
  have hitems : (s.visible t).floatvalueitem =
    s.db.floatvalueitem.delete fun i => some i.id = (s.pc t.other).uncommitted := rfl
  have hgroups : (s.visible t).floatvaluegroup = s.db.floatvaluegroup := rfl
  rw [mem_floats, mem_floats, hitems, hgroups, Table.mem_delete, decide_eq_false_iff_not]
  exact ⟨fun ⟨⟨hi, hv⟩, hg, hid⟩ => ⟨⟨hi, hg, hid⟩, hv⟩, fun ⟨⟨hi, hg, hid⟩, hv⟩ => ⟨⟨hi, hv⟩, hg, hid⟩⟩

/-- What the view shows at the instants of the key: the versions of the key that are visible, when the
    session rebuilds the instants, and what it showed in the beginning. -/
theorem FloatShows.shownVersions_visible (h : FloatShows db₀ k w s a) (hc₀ : Canonical db₀)
    (hold : db₀.keyVersions k ⊆ visible (fun t => floatWriter db₀ k (w t)) a t) (session : Session) :
    (s.visible t).shownVersions session k =
      {n | Faithful session k ∧ n ∈ visible (fun t => floatWriter db₀ k (w t)) a t} ∪
        db₀.shownVersions session k := by
  ext n
  constructor
  · rintro ⟨x, hx, hshown, rfl⟩
    obtain ⟨hx, hvis⟩ := mem_visible.1 hx
    by_cases hk : floatKey x = k
    · refine Or.inl ⟨(shownAs_iff_faithful h.canonical (mem_floats.1 hx).2.1 hk).1 hshown, ?_⟩
      exact (h.visible_iff ⟨x, hx, rfl, hk, rfl⟩).2 hvis
    · exact Or.inr ⟨x, (h.foreign x hk).1 hx, hshown, rfl⟩
  · have hof : ∀ {n}, Faithful session k → n ∈ visible (fun t => floatWriter db₀ k (w t)) a t →
        n ∈ (s.visible t).shownVersions session k := by
      intro n hf hn
      obtain ⟨_, x, hx, rfl, hk, rfl⟩ := h.isSome_iff.1 hn.1
      refine ⟨x, mem_visible.2 ⟨hx, (h.visible_iff ⟨x, hx, rfl, hk, rfl⟩).1 hn⟩, ?_, rfl⟩
      exact (shownAs_iff_faithful h.canonical (mem_floats.1 hx).2.1 hk).2 hf
    rintro (⟨hf, hn⟩ | ⟨x, hx, hshown, rfl⟩)
    · exact hof hf hn
    · by_cases hk : floatKey x = k
      · exact hof ((shownAs_iff_faithful hc₀ (mem_floats.1 hx).2.1 hk).1 hshown)
          (hold ⟨x, hx, hk, rfl⟩)
      · have hx' := (h.foreign x hk).2 hx
        refine ⟨x, mem_visible.2 ⟨hx', fun hid => ?_⟩, hshown, rfl⟩
        -- the hidden item is of the key
        obtain ⟨y, hy, hyid, hyk, _⟩ := h.uncommitted t.other x.1.id hid.symm
        rw [float_eq hx' hy hyid.symm] at hk
        exact hk hyk

/-- The maximum is selected. -/
theorem floatShows_select (h : FloatShows db₀ k w s a) (hc₀ : Canonical db₀)
    (hold : db₀.keyVersions k ⊆ visible (fun t => floatWriter db₀ k (w t)) a t) {item : ItemId}
    (hpc : s.pc t = .stored item) (hpos : 0 < (w t).dataversion) :
    ∃ a', Step (fun t => floatWriter db₀ k (w t)) a t a' ∧ FloatShows db₀ k w
      ⟨s.db, Function.update s.pc t
        (.selected item (selectMax cat (s.visible t) (w t).session k))⟩ a' := by
  have hdone : a.done t = 2 := by rw [h.done, hpc]; rfl
  have hunc := h.uncommitted t item (by rw [hpc]; rfl)
  obtain ⟨h₁, h₂, h₃, h₄⟩ := floatWriter_pos (d := db₀) (k := k) hpos
  refine ⟨a.next t a.rows (Function.update a.max t (selectMax cat (s.visible t) (w t).session k))
    a.targets, ?_, ?_⟩
  · exact {
      running := by rw [hdone]; omega
      past := rfl
      inserts := fun hc => absurd (hdone.symm.trans hc) (Nat.succ_succ_ne_one 0)
      sets := fun hc => by omega
      rows := fun _ _ _ => rfl
      selects := fun _ m hm => by
        have hm' : Function.update a.max t (selectMax cat (s.visible t) (w t).session k) t =
          some m := hm
        rw [Function.update_self] at hm'
        rcases selectMax_cases cat (w t).session (s.visible t) k with ⟨_, hnone⟩ | ⟨_, n, hsome, hgr⟩
        · rw [hnone] at hm'
          cases hm'
        · rw [hsome, Option.some_inj] at hm'
          rw [h.shownVersions_visible hc₀ hold, hm'] at hgr
          exact hgr
      max := fun u hu => Function.update_of_ne
        (fun hut => hu ⟨hut, hdone.trans h₁.symm⟩) _ _
      collects := fun hc => by omega
      targets := fun _ _ => rfl }
  · refine h.goTo .refl (by rw [hpc]; rfl) h.rows (fun _ _ => Or.inr hpos) ?_
      (Function.update_of_ne t.other_ne ..) (by simp) rfl (by simp) ?_
    · rintro max_ ⟨⟩
      exact Function.update_self ..
    · rintro _ ⟨⟩
      exact hunc

/-- The commit. -/
theorem floatShows_commit (h : FloatShows db₀ k w s a)
    (hpc : (∃ item, s.pc t = .stored item ∧ ¬ 0 < (w t).dataversion) ∨
      ∃ item l, s.pc t = .updated item l) :
    ∃ a', Step (fun t => floatWriter db₀ k (w t)) a t a' ∧ FloatShows db₀ k w
      ⟨s.db, Function.update s.pc t .committed⟩ a' := by
  refine ⟨a.next t a.rows a.max a.targets, ?_, ?_⟩
  · rcases hpc with ⟨item, hpc, hneg⟩ | ⟨item, l, hpc⟩
    · have hdone : a.done t = 2 := by rw [h.done, hpc]; rfl
      obtain ⟨h₁, h₂, h₃, h₄⟩ := floatWriter_neg (d := db₀) (k := k) hneg
      apply Step.quiet <;> rw [hdone]
      · omega
      · exact Nat.succ_succ_ne_one 0
      all_goals omega
    · have hdone : a.done t = 5 := by rw [h.done, hpc]; rfl
      have hpos : 0 < (w t).dataversion := by
        rcases h.positive t item (by rw [hpc]; rfl) with hc | hpos
        · rw [hpc] at hc
          cases hc
        · exact hpos
      obtain ⟨h₁, h₂, h₃, h₄⟩ := floatWriter_pos (d := db₀) (k := k) hpos
      apply Step.quiet <;> rw [hdone]
      · omega
      · exact Nat.succ_succ_ne_one 3
      all_goals omega
  · refine h.goTo .refl ?_ h.rows (by simp [FloatPc.uncommitted]) (by simp [FloatPc.chosen]) rfl
      (by simp) rfl (by simp) (by simp [FloatPc.uncommitted])
    rcases hpc with ⟨item, hpc, hneg⟩ | ⟨item, l, hpc⟩
    · rw [hpc]
      exact FloatWrite.length_neg hneg
    · rw [hpc]
      rcases h.positive t item (by rw [hpc]; rfl) with hc | hpos
      · rw [hpc] at hc
        cases hc
      · exact FloatWrite.length_pos hpos

/-- The `UPDATE` takes its snapshot. -/
theorem floatShows_selected (hne : ∀ t, (w t).dataversion ≠ (w t.other).dataversion)
    (h : FloatShows db₀ k w s a) {item : ItemId} {max_ : Option ℤ}
    (hpc : s.pc t = .selected item max_) {l : List ItemId}
    (hl : l = ((s.visible t).floatvalueitem.rows.filter (ofKey (s.visible t) k)).map
      FloatValueItem.id) :
    ∃ a', Step (fun t => floatWriter db₀ k (w t)) a t a' ∧ FloatShows db₀ k w
      ⟨s.db, Function.update s.pc t (.updating item max_ l)⟩ a' := by
  have hdone : a.done t = 3 := by rw [h.done, hpc]; rfl
  have hunc := h.uncommitted t item (by rw [hpc]; rfl)
  have hpos : 0 < (w t).dataversion := by
    rcases h.positive t item (by rw [hpc]; rfl) with hc | hpos
    · rw [hpc] at hc
      cases hc
    · exact hpos
  obtain ⟨h₁, h₂, h₃, h₄⟩ := floatWriter_pos (d := db₀) (k := k) hpos
  have hmem : ∀ id, id ∈ l ↔ some id ≠ (s.pc t.other).uncommitted ∧ ∃ n, FloatId s.db k id n := by
    intro id
    rw [hl, List.mem_map]
    simp only [List.mem_filter]
    constructor
    · rintro ⟨i, ⟨hi, hik⟩, rfl⟩
      obtain ⟨g, hg, hid⟩ := (s.visible t).valuegroupid_refers i hi
      have hx : (i, g) ∈ (s.visible t).floats := mem_floats.2 ⟨hi, hg, hid.symm⟩
      obtain ⟨hx', hvis⟩ := mem_visible.1 hx
      exact ⟨hvis, _, (i, g), hx', rfl, (ofKey_iff hx).1 hik, rfl⟩
    · rintro ⟨hvis, n, x, hx, rfl, hk, _⟩
      have hx' := mem_visible.2 ⟨hx, hvis⟩
      exact ⟨x.1, ⟨(mem_floats.1 hx').1, (ofKey_iff hx').2 hk⟩, rfl⟩
  refine ⟨a.next t a.rows a.max
    (Function.update a.targets t (visible (fun t => floatWriter db₀ k (w t)) a t)), ?_, ?_⟩
  · exact {
      running := by rw [hdone]; omega
      past := rfl
      inserts := fun hc => absurd (hdone.symm.trans hc) (Nat.succ_succ_ne_one 1)
      sets := fun hc => by omega
      rows := fun _ _ _ => rfl
      selects := fun hc => by omega
      max := fun _ _ => rfl
      collects := fun _ => Function.update_self ..
      targets := fun u hu => Function.update_of_ne (fun hut => hu ⟨hut, hdone.trans h₂.symm⟩) _ _ }
  · refine h.goTo .refl (by rw [hpc]; rfl) h.rows (fun _ _ => Or.inr hpos) ?_ rfl ?_
      (Function.update_of_ne t.other_ne ..) (by simp) ?_
    · rintro _ ⟨⟩
      exact h.max t max_ (by rw [hpc]; rfl)
    · rintro _ _ _ ⟨⟩
      refine ⟨⟨fun n => ?_, fun id hid => ((hmem id).1 hid).2⟩, (hmem item).2 ⟨fun hc => ?_, _, hunc⟩⟩
      · rw [Function.update_self]
        constructor
        · intro hn
          obtain ⟨id, hid⟩ := h.isSome_iff.1 hn.1
          exact ⟨id, (hmem id).2 ⟨(h.visible_iff hid).1 hn, n, hid⟩, hid⟩
        · rintro ⟨id, hmem', hid⟩
          exact (h.visible_iff hid).2 ((hmem id).1 hmem').1
      · exact hne t (floatId_version hunc (h.uncommitted t.other item hc.symm))
    · rintro _ ⟨⟩
      exact hunc

/-- The `UPDATE` writes. -/
theorem floatShows_updating (h : FloatShows db₀ k w s a) {item : ItemId} {m : ℤ} {l : List ItemId}
    (hpc : s.pc t = .updating item (some m) l) :
    ∃ a', Step (fun t => floatWriter db₀ k (w t)) a t a' ∧ FloatShows db₀ k w
      ⟨setItemsMax s.db l m, Function.update s.pc t (.updated item l)⟩ a' := by
  have hdone : a.done t = 4 := by rw [h.done, hpc]; rfl
  have hunc := h.uncommitted t item (by rw [hpc]; rfl)
  have hpos : 0 < (w t).dataversion := by
    rcases h.positive t item (by rw [hpc]; rfl) with hc | hpos
    · rw [hpc] at hc
      cases hc
    · exact hpos
  have hmax : a.max t = some m := h.max t (some m) (by rw [hpc]; rfl)
  obtain ⟨h₁, h₂, h₃, h₄⟩ := floatWriter_pos (d := db₀) (k := k) hpos
  obtain ⟨hmem, hall⟩ := h.targets t item _ l hpc
  have hext : FloatExtends k s.db (setItemsMax s.db l m) := setItemsMax_extends m hall
  obtain ⟨rows, hrows⟩ := exists_floatRows (setItemsMax s.db l m) k
  -- a value is written to when its version was collected
  have hwrite : ∀ x ∈ s.db.floats, floatKey x = k →
      (x.1.id ∈ l ↔ x.2.dataversion ∈ a.targets t) := by
    intro x hx hk
    rw [hmem]
    refine ⟨fun hid => ⟨_, hid, x, hx, rfl, hk, rfl⟩, ?_⟩
    rintro ⟨id, hid, hidx⟩
    rwa [floatId_unique ⟨x, hx, rfl, hk, rfl⟩ hidx]
  refine ⟨a.next t rows a.max a.targets, ?_, ?_⟩
  · exact {
      running := by rw [hdone]; omega
      past := rfl
      inserts := fun hc => absurd (hdone.symm.trans hc) (Nat.succ_succ_ne_one 2)
      sets := fun _ => ⟨by rw [hmax]; rfl, fun n hn hsome => by
        rw [hmax]
        obtain ⟨m', hm'⟩ := Option.isSome_iff_exists.1 hsome
        obtain ⟨x, hx, hk, rfl, _⟩ := (h.rows n m').1 hm'
        refine (hrows _ _).2 ⟨_, mem_setItemsMax.2 ⟨x, hx, rfl⟩, ?_⟩
        rw [if_pos ((hwrite x hx hk).2 hn)]
        exact ⟨hk, rfl, rfl⟩⟩
      rows := fun n _ hn => by
        refine Option.ext fun m' => ?_
        change rows n = some m' ↔ a.rows n = some m'
        rw [hrows, h.rows]
        have hnot : ∀ x ∈ s.db.floats, floatKey x = k → x.2.dataversion = n → x.1.id ∉ l :=
          fun x hx hk hxn hid => hn ⟨hdone.trans h₃.symm, hxn ▸ (hwrite x hx hk).1 hid,
            h.isSome_iff.2 ⟨_, x, hx, rfl, hk, hxn⟩⟩
        constructor
        · rintro ⟨y, hy, hk, hyn, hm'⟩
          obtain ⟨x, hx, rfl⟩ := mem_setItemsMax.1 hy
          have hid : x.1.id ∉ l := hnot x hx (by revert hk; split <;> exact id)
            (by revert hyn; split <;> exact id)
          rw [if_neg hid] at hk hyn hm'
          exact ⟨x, hx, hk, hyn, hm'⟩
        · rintro ⟨x, hx, hk, hxn, hm'⟩
          refine ⟨x, mem_setItemsMax.2 ⟨x, hx, ?_⟩, hk, hxn, hm'⟩
          rw [if_neg (hnot x hx hk hxn)]
      selects := fun hc => by omega
      max := fun _ _ => rfl
      collects := fun hc => by omega
      targets := fun _ _ => rfl }
  · refine h.goTo hext (by rw [hpc]; rfl) hrows (fun _ _ => Or.inr hpos) (by simp [FloatPc.chosen]) rfl
      (by simp) rfl (by simp) ?_
    rintro _ ⟨⟩
    exact hext.keep _ _ hunc

/-- Every statement is a step on the versions of the key. -/
theorem floatStatement_shows (hne : ∀ t, (w t).dataversion ≠ (w t.other).dataversion)
    (h : FloatShows db₀ k w s a) (hc₀ : Canonical db₀)
    (hold : db₀.keyVersions k ⊆ visible (fun t => floatWriter db₀ k (w t)) a t) {s' : FloatRace}
    (hs : floatStatement cat k w s t = some s') :
    ∃ a', Step (fun t => floatWriter db₀ k (w t)) a t a' ∧ FloatShows db₀ k w s' a' := by
  unfold floatStatement at hs
  simp only at hs
  cases hpc : s.pc t with
  | begun =>
    rw [hpc] at hs
    obtain ⟨⟨db, groupid_⟩, hins, rfl⟩ := Option.map_eq_some_iff.1 hs
    exact floatShows_begun h hpc hins
  | grouped groupid_ =>
    rw [hpc] at hs
    obtain ⟨groupid, rfl, hs⟩ := Option.bind_eq_some_iff.1 hs
    obtain ⟨db, hins, rfl⟩ := Option.map_eq_some_iff.1 hs
    exact floatShows_grouped h hpc hins
  | stored item =>
    rw [hpc] at hs
    simp only at hs
    split at hs
    · next hpos =>
      rw [← Option.some_inj.1 hs]
      exact floatShows_select h hc₀ hold hpc hpos
    · next hneg =>
      rw [← Option.some_inj.1 hs]
      exact floatShows_commit h (Or.inl ⟨item, hpc, hneg⟩)
  | selected item max_ =>
    rw [hpc] at hs
    rw [← Option.some_inj.1 hs]
    exact floatShows_selected hne h hpc rfl
  | updating item max_ l =>
    rw [hpc] at hs
    simp only at hs
    split at hs
    · cases max_ with
      | some m =>
        rw [← Option.some_inj.1 hs]
        exact floatShows_updating h hpc
      | none =>
        -- the item of the transaction is among those that would become `NULL`
        have hmem := h.own t item none l hpc
        simp only at hs
        split at hs
        · next hnil =>
          rw [hnil] at hmem
          cases hmem
        · cases hs
    · cases hs
  | updated item l =>
    rw [hpc] at hs
    rw [← Option.some_inj.1 hs]
    exact floatShows_commit h (Or.inr ⟨item, l, hpc⟩)
  | committed =>
    rw [hpc] at hs
    cases hs

/-- A run of statements is a run of steps. -/
theorem floatRace_shows (hne : ∀ t, (w t).dataversion ≠ (w t.other).dataversion)
    (hc₀ : Canonical db₀) {l : List Tx} {s' : FloatRace}
    (h : exec (floatStatement cat k w) (.start db₀) l = some s') :
    ∃ (rows : ℤ → Option ℤ) (a : State), (∀ n, (rows n).isSome ↔ n ∈ db₀.keyVersions k) ∧
      Reaches (fun t => floatWriter db₀ k (w t)) rows a ∧ a.past = l ∧ FloatShows db₀ k w s' a := by
  obtain ⟨rows, hrows⟩ := exists_floatRows db₀ k
  have hstart : FloatShows db₀ k w (.start db₀) ⟨[], rows, fun _ => none, fun _ => ∅⟩ := by
    refine ⟨hrows, fun _ => rfl, ?_, ?_, ?_, ?_, ?_, ?_, hc₀, fun _ _ => Iff.rfl⟩
    all_goals simp [FloatRace.start, FloatPc.uncommitted, FloatPc.chosen]
  have hV : ∀ n, (rows n).isSome ↔ n ∈ db₀.keyVersions k := fun n => by
    rw [hstart.isSome_iff]
    exact ⟨fun ⟨_, x, hx, _, hk, hn⟩ => ⟨x, hx, hk, hn⟩, fun ⟨x, hx, hk, hn⟩ => ⟨_, x, hx, rfl, hk, hn⟩⟩
  have hinv := inv_exec (floatStatement cat k w) (fun p s => ∃ a,
    Reaches (fun t => floatWriter db₀ k (w t)) rows a ∧ a.past = p ∧ FloatShows db₀ k w s a) (by
      rintro p s t s' ⟨a, ha, rfl, hshows⟩ hs
      have hold : db₀.keyVersions k ⊆ visible (fun t => floatWriter db₀ k (w t)) a t := by
        intro n hn
        rw [(ha.inv hne).visible_eq hne]
        exact Or.inl ((hV n).2 hn)
      obtain ⟨a', hstep, hshows'⟩ := floatStatement_shows hne hshows hc₀ hold hs
      exact ⟨a', ha.step hstep, hstep.past, hshows'⟩) l [] _ s' ⟨_, .init, rfl, hstart⟩ h
  obtain ⟨a, ha, hpast, hshows⟩ := hinv
  exact ⟨rows, a, hV, ha, hpast, hshows⟩

end Simulation

/-- The transaction updates the maxima, and has selected `g` for it: the greatest version that the view
    showed at the instants of the key in the beginning, or of the two new ones when the session rebuilds
    the instants. The one of the other transaction is among them when the select, which is statement 2,
    follows its commit. -/
def SetsMax (db : Db) (k : Key) (w : Tx → FloatWrite) (l : List Tx) (t : Tx) (g : ℤ) : Prop :=
  0 < (w t).dataversion ∧ IsGreatest ({n | Faithful (w t).session k ∧ (n = (w t).dataversion ∨
    (n = (w t.other).dataversion ∧ Follows l t 2 t.other (w t.other).length))} ∪
      db.shownVersions (w t).session k) g

/-- A float write that has updated has selected the maximum that it sets. -/
theorem max_eq_iff {db : Db} {k : Key} {w : Tx → FloatWrite} {V : Set ℤ} {a : State} {t : Tx} {g : ℤ}
    (hinv : Inv (fun t => floatWriter db k (w t)) V a) (hc : Canonical db)
    (hV : ∀ n, n ∈ V ↔ n ∈ db.keyVersions k) (hdone : a.done t = (w t).length)
    (hpos : 0 < (w t).dataversion) : a.max t = some g ↔ SetsMax db k w a.past t g := by
  obtain ⟨h₁, h₂, h₃, h₄⟩ := floatWriter_pos (d := db) (k := k) hpos
  have hupdated : (floatWriter db k (w t)).updateAt < a.done t := by
    rw [h₃, hdone, FloatWrite.length_pos hpos]
    decide
  obtain ⟨m, hm⟩ := Option.isSome_iff_exists.1 (hinv.updated t hupdated)
  have hfirst : (floatWriter db k (w t)).insertsFirst := (floatWriter_late (w t)).1
  have hchosen : IsGreatest ({n | Faithful (w t).session k ∧ n ∈ seen (fun t => floatWriter db k (w t))
      V t True (Follows a.past t 2 t.other (w t.other).length)} ∪
      db.shownVersions (w t).session k) m := by
    have := hinv.max t m hm
    simp only [hfirst, h₁] at this
    exact this
  have hset : ({n | Faithful (w t).session k ∧ n ∈ seen (fun t => floatWriter db k (w t)) V t True
      (Follows a.past t 2 t.other (w t.other).length)} ∪ db.shownVersions (w t).session k) =
      {n | Faithful (w t).session k ∧ (n = (w t).dataversion ∨
        (n = (w t.other).dataversion ∧ Follows a.past t 2 t.other (w t.other).length))} ∪
        db.shownVersions (w t).session k := by
    ext n
    constructor
    · rintro (⟨hf, hn | ⟨_, hn⟩ | ⟨hfol, hn⟩⟩ | hn)
      · obtain ⟨x, hx, hk, hver⟩ := (hV n).1 hn
        exact Or.inr ⟨x, hx, (shownAs_iff_faithful hc (mem_floats.1 hx).2.1 hk).2 hf, hver⟩
      · exact Or.inl ⟨hf, Or.inl hn⟩
      · exact Or.inl ⟨hf, Or.inr ⟨hn, hfol⟩⟩
      · exact Or.inr hn
    · rintro (⟨hf, hn | ⟨hn, hfol⟩⟩ | hn)
      · exact Or.inl ⟨hf, Or.inr (Or.inl ⟨trivial, hn⟩)⟩
      · exact Or.inl ⟨hf, Or.inr (Or.inr ⟨hfol, hn⟩)⟩
      · exact Or.inr hn
  rw [hset] at hchosen
  rw [hm, Option.some_inj]
  exact ⟨fun h => h ▸ ⟨hpos, hchosen⟩, fun h => hchosen.unique h.2⟩

/-- After two concurrent float writes of one key, its maxima are right exactly when a transaction whose
    `UPDATE`, statement 3, takes its snapshot after the other one's commit sets the greatest version, or
    both set it. -/
theorem floatRace_iff {cat : Catalog} {k : Key} {w : Tx → FloatWrite} {db : Db} {l : List Tx}
    {s : FloatRace} (hne : (w .first).dataversion ≠ (w .second).dataversion) (hc : Canonical db)
    (h : exec (floatStatement cat k w) (.start db) l = some s) (hend : ∀ t, s.pc t = .committed) :
    s.db.FloatMaxOf k ↔ ∃ g,
      IsGreatest (insert (w .first).dataversion (insert (w .second).dataversion (db.keyVersions k))) g ∧
      ((∃ t : Tx, Follows l t 3 t.other (w t.other).length ∧ SetsMax db k w l t g) ∨
        ∀ t, SetsMax db k w l t g) := by
  have hne' : ∀ t, (w t).dataversion ≠ (w t.other).dataversion := by
    rw [Tx.forall_iff .first]
    exact ⟨hne, hne.symm⟩
  obtain ⟨rows, a, hV, hreach, rfl, hshows⟩ := floatRace_shows hne' hc h
  have hinv := hreach.inv hne'
  have hdone : ∀ t, a.done t = (w t).length := fun t => by rw [hshows.done, hend]; rfl
  have hkeys : ∀ n, (a.rows n).isSome ↔ n ∈ s.db.keyVersions k := fun n => by
    rw [hshows.isSome_iff]
    exact ⟨fun ⟨_, x, hx, _, hk, hn⟩ => ⟨x, hx, hk, hn⟩, fun ⟨x, hx, hk, hn⟩ => ⟨_, x, hx, rfl, hk, hn⟩⟩
  -- the versions stored in the end are the old ones and the two new ones
  have hstored : s.db.keyVersions k =
      insert (w .first).dataversion (insert (w .second).dataversion (db.keyVersions k)) := by
    ext n
    have hins : ∀ t, (floatWriter db k (w t)).insertAt < a.done t := fun t => by
      rw [hdone]
      exact (floatWriter db k (w t)).insert_lt
    rw [← hkeys, hinv.dom, Tx.exists_iff .first, and_iff_right (hins _), and_iff_right (hins _),
      Set.mem_ofPred_eq, hV, Set.mem_insert_iff, Set.mem_insert_iff, or_comm, or_assoc]
    exact Iff.rfl
  rw [← hstored]
  obtain ⟨g, hg⟩ : ∃ g, IsGreatest (s.db.keyVersions k) g := by
    obtain ⟨x, hx, hk, _⟩ : (w .first).dataversion ∈ s.db.keyVersions k := hstored ▸ Or.inl rfl
    obtain ⟨y, hy, hyk, hmax⟩ := exists_greatest (fun y : FloatValueItem × FloatValueGroup =>
      y.2.dataversion) (p := fun y => floatKey y = k) ⟨x, hx, hk⟩
    exact ⟨y.2.dataversion, ⟨y, hy, hyk, rfl⟩, fun n ⟨z, hz, hzk, hzn⟩ => hzn ▸ hmax z hz hzk⟩
  have hmaxOf : s.db.FloatMaxOf k ↔ ∀ n m, a.rows n = some m → m = g := by
    constructor
    · intro hall n m hnm
      obtain ⟨x, hx, hk, _, rfl⟩ := (hshows.rows n m).1 hnm
      exact (hall x hx hk).unique hg
    · intro hall x hx hk
      rwa [hall _ _ ((hshows.rows _ _).2 ⟨x, hx, hk, rfl, rfl⟩)]
  have hfirst : ∀ t, (floatWriter db k (w t)).insertsFirst := fun t => (floatWriter_late (w t)).1
  have hupdates : ∀ t, (floatWriter db k (w t)).updates ↔ 0 < (w t).dataversion := fun t => by
    by_cases hpos : 0 < (w t).dataversion
    · obtain ⟨_, _, h₃, h₄⟩ := floatWriter_pos (d := db) (k := k) hpos
      exact iff_of_true (by unfold Writer.updates; omega) hpos
    · obtain ⟨_, _, h₃, h₄⟩ := floatWriter_neg (d := db) (k := k) hpos
      exact iff_of_false (by unfold Writer.updates; omega) hpos
  have hsets : ∀ t, 0 < (w t).dataversion → (a.max t = some g ↔ SetsMax db k w a.past t g) :=
    fun t hpos => max_eq_iff hinv hc hV (hdone t) hpos
  have hgr : ∀ m, IsGreatest (s.db.keyVersions k) m ↔ m = g :=
    fun m => ⟨fun hm => hm.unique hg, fun hm => hm ▸ hg⟩
  simp only [hgr, exists_eq_left]
  rw [hmaxOf, hinv.greatest_iff hne' hdone (by simp only [hkeys]; exact hg)
    (fun t _ _ hno => absurd (hfirst t) hno) (fun t ht hno => ?_)]
  · refine or_congr (exists_congr fun t => ?_) (forall_congr' fun t => ?_)
    · rw [hupdates]
      constructor
      · rintro ⟨hpos, hf, hm⟩
        rw [(floatWriter_pos hpos).2.1] at hf
        exact ⟨hf, (hsets t hpos).1 hm⟩
      · rintro ⟨hf, hm⟩
        refine ⟨hm.1, ?_, (hsets t hm.1).2 hm⟩
        rw [(floatWriter_pos hm.1).2.1]
        exact hf
    · rw [hupdates, and_iff_right (hfirst t)]
      exact ⟨fun ⟨hpos, hm⟩ => (hsets t hpos).1 hm, fun hm => ⟨hm.1, (hsets t hm.1).2 hm⟩⟩
  · have hpos := (hupdates t).1 ht.1
    have hneg : ¬ 0 < (w t.other).dataversion := fun hp => hno ⟨(hupdates t.other).2 hp, hfirst t.other⟩
    change (w t.other).dataversion < (w t).dataversion
    omega

/-- Two concurrent writes of one key with different versions, both of a grid or both of a float. -/
theorem concurrentWrites_iff (cat : Catalog) (k : Key) (db : Db) (l : List Tx) :
    (∀ (w : Tx → GridWrite) (s : GridRace), (w .first).dataversion ≠ (w .second).dataversion →
      exec (gridStatement cat k w) (.start db) l = some s → (∀ t, s.pc t = .committed) →
      (s.db.GridMaxOf k ↔ ∃ t : Tx, l = List.replicate 4 t.other ++ List.replicate 4 t ∧
        ∀ n ∈ insert (w t.other).dataversion (db.gridVersions k), n ≤ (w t).dataversion)) ∧
    (∀ (w : Tx → FloatWrite) (s : FloatRace), (w .first).dataversion ≠ (w .second).dataversion → Canonical db →
      exec (floatStatement cat k w) (.start db) l = some s → (∀ t, s.pc t = .committed) →
      (s.db.FloatMaxOf k ↔ ∃ g, IsGreatest
          (insert (w .first).dataversion (insert (w .second).dataversion (db.keyVersions k))) g ∧
        ((∃ t : Tx, Follows l t 3 t.other (w t.other).length ∧ SetsMax db k w l t g) ∨
          ∀ t, SetsMax db k w l t g))) :=
  ⟨fun _ _ hne h hend => gridRace_iff hne h hend, fun _ _ hne hc h hend => floatRace_iff hne hc h hend⟩

/-- Versions 1 and 2 of a grid value. -/
def racingGrids : Tx → GridWrite
  | .first => ⟨1, 0, 1, 0⟩
  | .second => ⟨2, 0, 2, 0⟩

/-- Versions 1 and 2 of a float value. -/
def racingFloats : Tx → FloatWrite
  | .first => ⟨oneSession, 1, 0, 0, 0⟩
  | .second => ⟨oneSession, 2, 0, 0, 0⟩

/-- The key of both. -/
def oneKey : Key := ⟨⟨1, 1, 0, 1, 1, 0, 0, 0⟩, 0, 0, 0⟩

/-- One after the other, the second writes keep the maxima right. -/
theorem concurrentWrites_serial :
    (∃ s, exec (gridStatement oneName oneKey racingGrids) (.start .empty)
      (List.replicate 4 .first ++ List.replicate 4 .second) = some s ∧ s.db.GridMaxOf oneKey) ∧
    ∃ s, exec (floatStatement oneName oneKey racingFloats) (.start .empty)
      (List.replicate 6 .first ++ List.replicate 6 .second) = some s ∧ s.db.FloatMaxOf oneKey := by
  obtain ⟨s, hs, hend⟩ : ∃ s ∈ exec (gridStatement oneName oneKey racingGrids) (.start .empty)
      (List.replicate 4 .first ++ List.replicate 4 .second),
      s.pc .first = .committed ∧ s.pc .second = .committed := by decide
  obtain ⟨s', hs', hend'⟩ : ∃ s ∈ exec (floatStatement oneName oneKey racingFloats) (.start .empty)
      (List.replicate 6 .first ++ List.replicate 6 .second),
      s.pc .first = .committed ∧ s.pc .second = .committed := by decide
  refine ⟨⟨s, hs, ?_⟩, s', hs', ?_⟩
  · refine ((concurrentWrites_iff oneName oneKey .empty _).1 _ s (by decide) hs
      ((Tx.forall_iff .first).2 hend)).2 ⟨.second, rfl, ?_⟩
    rintro n (rfl | ⟨v, hv, _⟩)
    · decide
    · cases hv
  · refine ((concurrentWrites_iff oneName oneKey .empty _).2 _ s' (by decide) (fun _ h => nomatch h) hs'
      ((Tx.forall_iff .first).2 hend')).2
      ⟨2, ⟨Or.inr (Or.inl rfl), ?_⟩, Or.inl ⟨.second, ?_, by decide, ?_, ?_⟩⟩
    · rintro n (rfl | rfl | ⟨x, hx, _⟩)
      · decide
      · decide
      · cases hx
    · exact ⟨List.replicate 6 .first ++ List.replicate 3 .second, List.replicate 2 .second, rfl, rfl, rfl⟩
    · exact Or.inl ⟨by decide, Or.inl rfl⟩
    · rintro n (⟨_, rfl | ⟨rfl, _⟩⟩ | ⟨x, hx, _⟩)
      · decide
      · decide
      · cases hx

/-- Taken in turns, they leave both versions their own maximum. -/
theorem concurrentWrites_lost :
    (∃ l s, exec (gridStatement oneName oneKey racingGrids) (.start .empty) l = some s ∧
      (∀ t, s.pc t = .committed) ∧ ¬ s.db.GridMaxOf oneKey) ∧
    ∃ l s, exec (floatStatement oneName oneKey racingFloats) (.start .empty) l = some s ∧
      (∀ t, s.pc t = .committed) ∧ ¬ s.db.FloatMaxOf oneKey := by
  obtain ⟨s, hs, hend, v, hv, hk, u, hu, huk, hlt⟩ :
      ∃ s ∈ exec (gridStatement oneName oneKey racingGrids) (.start .empty)
        (List.replicate 4 [.first, .second]).flatten,
      (s.pc .first = .committed ∧ s.pc .second = .committed) ∧
      ∃ v ∈ s.db.gridvalue.rows, v.toKey = oneKey ∧ ∃ u ∈ s.db.gridvalue.rows, u.toKey = oneKey ∧
        v.maxdataversion < u.dataversion := by decide
  obtain ⟨s', hs', hend', x, hx, hxk, y, hy, hyk, hlt'⟩ :
      ∃ s ∈ exec (floatStatement oneName oneKey racingFloats) (.start .empty)
        (List.replicate 6 [.first, .second]).flatten,
      (s.pc .first = .committed ∧ s.pc .second = .committed) ∧
      ∃ x ∈ s.db.floats, floatKey x = oneKey ∧ ∃ y ∈ s.db.floats, floatKey y = oneKey ∧
        x.1.maxdataversion < y.2.dataversion := by decide
  refine ⟨⟨_, s, hs, (Tx.forall_iff .first).2 hend, fun h => ?_⟩,
    _, s', hs', (Tx.forall_iff .first).2 hend', fun h => ?_⟩
  · exact absurd ((h v hv hk).2 ⟨u, hu, huk, rfl⟩) (not_le.2 hlt)
  · exact absurd ((h x hx hxk).2 ⟨y, hy, hyk, rfl⟩) (not_le.2 hlt')

end Wdb.Store
