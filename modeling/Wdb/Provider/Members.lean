import Wdb.Provider.Forest

/-! What `wci.addDataProviderToGroup` does to the members of every group.

    The members of a provider are those whose interval lies in its own, itself among them; this is
    the test of `wci.getdataprovidersingroup` and of the provider filter of `wci.read`. Moving a
    provider into a group moves one interval of length two. Its own members stay behind, and the
    left bounds that move with the right ones may leave members outside. `MoveSafe` is the exact
    condition under which every set of members is as it should be. -/

namespace Wdb.Provider
open Relational SqlTypes NestedSet Runs

/-- Provider `m` is a member of provider `p` in a namespace. -/
def Member (db : Db) (ns p m : ℤ) : Prop :=
  ∃ a ∈ db.dataprovidername.rows, a.dataprovidernamespaceid = ns ∧ a.dataproviderid = p ∧
    ∃ b ∈ db.dataprovidername.rows, b.dataprovidernamespaceid = ns ∧ b.dataproviderid = m ∧
      a.span.Contains b.span

instance (db : Db) (ns p m : ℤ) : Decidable (Member db ns p m) :=
  inferInstanceAs (Decidable (∃ a ∈ db.dataprovidername.rows, _))

/-- In a namespace, the provider `p` has the name `name`. -/
def Named (db : Db) (ns p : ℤ) (name : String) : Prop :=
  ∃ a ∈ db.dataprovidername.rows, a.dataprovidernamespaceid = ns ∧ a.dataproviderid = p ∧
    a.dataprovidername = name

/-- What putting the provider `dpid` into the group `gpid` should do: the group and its ancestors gain
    the provider and its members, the provider keeps its members, its other ancestors lose them, and
    nothing else changes in any namespace. -/
structure MembersMoved (db db' : Db) (ns dpid gpid : ℤ) : Prop where
  group : ∀ p, Member db ns p gpid → ∀ m,
    (Member db' ns p m ↔ Member db ns p m ∨ m = dpid ∨ Member db ns dpid m)
  provider : ∀ m, (Member db' ns dpid m ↔ Member db ns dpid m)
  former : ∀ p, p ≠ dpid → Member db ns p dpid → ¬ Member db ns p gpid → ∀ m,
    (Member db' ns p m ↔ Member db ns p m ∧ ¬ Member db ns dpid m)
  other : ∀ k p, (k = ns → ¬ Member db ns p gpid ∧ ¬ Member db ns p dpid) → ∀ m,
    (Member db' k p m ↔ Member db k p m)

/-- The condition for `MembersMoved`. The provider has no members of its own, and the left bounds
    that move stay before those of the members; the last two conditions say that no other interval
    ends with the group or overlaps it, as in every forest. -/
structure MoveSafe (names : List DataProviderName) (ns dpid gpid gleft gprgt : ℤ) : Prop where
  leaf : ∀ d ∈ names, d.dataprovidernamespaceid = ns → d.dataproviderid = dpid →
    ∀ q ∈ names, q.dataprovidernamespaceid = ns → d.span.Contains q.span → q.dataproviderid = dpid
  room : ∀ m ∈ names, ∀ n ∈ names, m.dataprovidernamespaceid = n.dataprovidernamespaceid →
    ¬ (m.dataprovidernamespaceid = ns ∧ m.dataproviderid = dpid) →
    ¬ (n.dataprovidernamespaceid = ns ∧ n.dataproviderid = dpid) →
    n.dataprovidernamerightset ≤ gprgt → gprgt < m.dataprovidernamerightset →
    m.dataprovidernameleftset ≤ n.dataprovidernameleftset →
    m.dataprovidernameleftset + 2 ≤ n.dataprovidernameleftset
  ends : ∀ p ∈ names, p.dataprovidernamespaceid = ns → p.dataproviderid ≠ dpid →
    p.dataproviderid ≠ gpid → p.dataprovidernamerightset = gprgt →
    ¬ p.dataprovidernameleftset ≤ gleft
  beside : ∀ p ∈ names, p.dataprovidernamespaceid = ns → p.dataproviderid ≠ dpid →
    p.dataproviderid ≠ gpid → gprgt < p.dataprovidernamerightset →
    p.dataprovidernameleftset + 2 ≤ gprgt → p.dataprovidernameleftset ≤ gleft

/-- In a forest no interval ends with the group or overlaps it. -/
theorem Forest.moveSafe {names : List DataProviderName} (h : Forest names) {ns dpid : ℤ}
    {g : DataProviderName} (hg : g ∈ names) (hgns : g.dataprovidernamespaceid = ns)
    (hleaf : ∀ d ∈ names, d.dataprovidernamespaceid = ns → d.dataproviderid = dpid →
      ∀ q ∈ names, q.dataprovidernamespaceid = ns → d.span.Contains q.span →
        q.dataproviderid = dpid)
    (hroom : ∀ m ∈ names, ∀ n ∈ names, m.dataprovidernamespaceid = n.dataprovidernamespaceid →
      ¬ (m.dataprovidernamespaceid = ns ∧ m.dataproviderid = dpid) →
      ¬ (n.dataprovidernamespaceid = ns ∧ n.dataproviderid = dpid) →
      n.dataprovidernamerightset ≤ g.dataprovidernamerightset →
      g.dataprovidernamerightset < m.dataprovidernamerightset →
      m.dataprovidernameleftset ≤ n.dataprovidernameleftset →
      m.dataprovidernameleftset + 2 ≤ n.dataprovidernameleftset) :
    MoveSafe names ns dpid g.dataproviderid g.dataprovidernameleftset
      g.dataprovidernamerightset := by
  have hcompat : ∀ p ∈ names, p.dataprovidernamespaceid = ns →
      p.dataproviderid ≠ g.dataproviderid → p.span.Compatible g.span :=
    fun p hp hpns => h.compatible hp hg (hpns.trans hgns.symm)
  have hordered := h.ordered g hg
  unfold Span.Compatible Span.Distinct Span.Apart Span.Within DataProviderName.span at hcompat
  unfold Span.Proper DataProviderName.span at hordered
  refine ⟨hleaf, hroom, fun p hp hpns _ hpg heq => ?_, fun p hp hpns _ hpg hgt hle => ?_⟩
  · exact absurd heq (hcompat p hp hpns hpg).1.2.2.2
  · have hp' := hcompat p hp hpns hpg
    simp only at hp' hordered
    omega

/-! ### Members by rows -/

/-- The names returned for a group are those of the members of the providers that bear its name. -/
theorem mem_getDataProvidersInGroup {db : Db} {session : Session} {group name : String} :
    name ∈ getDataProvidersInGroup db session group ↔
      ∃ p m, Named db session.dataprovidernamespaceid p group ∧
        Named db session.dataprovidernamespaceid m name ∧
        Member db session.dataprovidernamespaceid p m := by
  unfold getDataProvidersInGroup
  simp only [List.mem_map, List.mem_mergeSort, List.mem_flatMap, List.mem_filter,
    decide_eq_true_eq]
  constructor
  · rintro ⟨b, ⟨a, ⟨ha, hans, hname⟩, hb, hbns, hl, hr⟩, rfl⟩
    exact ⟨a.dataproviderid, b.dataproviderid, ⟨a, ha, hans, rfl, hname⟩, ⟨b, hb, hbns, rfl, rfl⟩,
      a, ha, hans, rfl, b, hb, hbns, rfl, hl, hr⟩
  · rintro ⟨p, m, ⟨a, ha, hans, hap, hname⟩, ⟨b, hb, hbns, hbm, rfl⟩, a', ha', hans', hap',
      b', hb', hbns', hbm', hc⟩
    have hae := name_eq ha' ha (hap'.trans hap.symm) (hans'.trans hans.symm)
    have hbe := name_eq hb' hb (hbm'.trans hbm.symm) (hbns'.trans hbns.symm)
    subst hae hbe
    exact ⟨b', ⟨a', ⟨ha, hans, hname⟩, hb, hbns, hc.1, hc.2⟩, rfl⟩

section Rows
variable {db : Db} {ns : ℤ}

/-- Membership of the providers of two rows is containment of the rows. -/
theorem member_iff {a b : DataProviderName} (ha : a ∈ db.dataprovidername.rows)
    (hb : b ∈ db.dataprovidername.rows) (hans : a.dataprovidernamespaceid = ns)
    (hbns : b.dataprovidernamespaceid = ns) :
    Member db ns a.dataproviderid b.dataproviderid ↔ a.span.Contains b.span := by
  constructor
  · rintro ⟨a', ha', hans', hid, b', hb', hbns', hid', hc⟩
    rw [name_eq ha' ha hid (hans'.trans hans.symm),
      name_eq hb' hb hid' (hbns'.trans hbns.symm)] at hc
    exact hc
  · intro hc
    exact ⟨a, ha, hans, rfl, b, hb, hbns, rfl, hc⟩

end Rows

/-- The members after the move when the provider has none of its own: it is a member of itself and of
    what had the group as a member, and all else is as before. -/
def Target (db : Db) (ns dpid gpid k p m : ℤ) : Prop :=
  if k = ns ∧ p = dpid then m = dpid
  else if k = ns ∧ m = dpid then Member db ns p gpid
  else Member db k p m

/-- `MembersMoved` says that the provider has no other members, and what the members are after. -/
theorem membersMoved_iff_target {db db' : Db} {ns dpid gpid : ℤ}
    (hself : Member db ns dpid dpid) (hanc : ¬ Member db ns dpid gpid)
    (hslot : ∀ m, Member db' ns dpid m ↔ m = dpid) :
    MembersMoved db db' ns dpid gpid ↔
      (∀ m, Member db ns dpid m → m = dpid) ∧
      ∀ k p m, Member db' k p m ↔ Target db ns dpid gpid k p m := by
  constructor
  · intro h
    have hleaf : ∀ m, Member db ns dpid m → m = dpid := fun m hm =>
      (hslot m).1 ((h.provider m).2 hm)
    refine ⟨hleaf, fun k p m => ?_⟩
    unfold Target
    by_cases hp : k = ns ∧ p = dpid
    · rw [if_pos hp, hp.1, hp.2]; exact hslot m
    rw [if_neg hp]
    by_cases hk : k = ns
    · subst hk
      have hpd : p ≠ dpid := fun he => hp ⟨rfl, he⟩
      by_cases hpg : Member db k p gpid
      · rw [h.group p hpg m]
        split
        · next hm => exact iff_of_true (Or.inr (Or.inl hm.2)) hpg
        · next hm =>
          refine ⟨?_, Or.inl⟩
          rintro (h' | rfl | h')
          · exact h'
          · exact absurd ⟨rfl, rfl⟩ hm
          · exact absurd ⟨rfl, hleaf m h'⟩ hm
      by_cases hpm : Member db k p dpid
      · rw [h.former p hpd hpm hpg m]
        split
        · next hm => rw [hm.2]; exact iff_of_false (fun h' => h'.2 hself) hpg
        · next hm => exact ⟨And.left, fun h' => ⟨h', fun hd => hm ⟨rfl, hleaf m hd⟩⟩⟩
      · rw [h.other k p (fun _ => ⟨hpg, hpm⟩) m]
        split
        · next hm => rw [hm.2]; exact iff_of_false hpm hpg
        · exact Iff.rfl
    · rw [if_neg fun hm => hk hm.1]
      exact h.other k p (fun he => absurd he hk) m
  · rintro ⟨hleaf, h⟩
    have hgroup : ∀ p, Member db ns p gpid → p ≠ dpid := by rintro p hp rfl; exact hanc hp
    refine ⟨fun p hp m => ?_, fun m => ?_, fun p hpd hpm hpg m => ?_, fun k p hkp m => ?_⟩
    · rw [h, Target, if_neg fun he => hgroup p hp he.2]
      split
      · next hm => exact iff_of_true hp (Or.inr (Or.inl hm.2))
      · next hm =>
        refine ⟨Or.inl, ?_⟩
        rintro (h' | rfl | h')
        · exact h'
        · exact absurd ⟨rfl, rfl⟩ hm
        · exact absurd ⟨rfl, hleaf m h'⟩ hm
    · rw [hslot]
      exact ⟨fun he => he ▸ hself, hleaf m⟩
    · rw [h, Target, if_neg fun he => hpd he.2]
      split
      · next hm => rw [hm.2]; exact iff_of_false hpg fun h' => h'.2 hself
      · next hm => exact ⟨fun h' => ⟨h', fun hd => hm ⟨rfl, hleaf m hd⟩⟩, And.left⟩
    · rw [h, Target]
      have hpd : ¬ (k = ns ∧ p = dpid) := by rintro ⟨hk, rfl⟩; exact (hkp hk).2 hself
      rw [if_neg hpd]
      split
      · next hm => rw [hm.1, hm.2]; exact iff_of_false (hkp hm.1).1 (hkp hm.1).2
      · exact Iff.rfl

/-! ### The move by rows -/

section Move
variable {db : Db} {ns : ℤ} {d g : DataProviderName}

/-- The names after the move. -/
theorem mem_moved {gprgt dpid gpid : ℤ} {b : DataProviderName} :
    b ∈ (moveToGroup db ns dpid gpid gprgt).dataprovidername.rows ↔
      ∃ a ∈ db.dataprovidername.rows, a.withSpan (placed ns dpid gpid gprgt a) = b := by
  rw [moveToGroup_rows, List.mem_map]

/-- Members after the move, by rows. -/
theorem member_moved_iff {gprgt dpid gpid k : ℤ} {a b : DataProviderName}
    (ha : a ∈ db.dataprovidername.rows) (hb : b ∈ db.dataprovidername.rows)
    (hak : a.dataprovidernamespaceid = k) (hbk : b.dataprovidernamespaceid = k) :
    Member (moveToGroup db ns dpid gpid gprgt) k a.dataproviderid b.dataproviderid ↔
      (placed ns dpid gpid gprgt a).Contains (placed ns dpid gpid gprgt b) :=
  member_iff (mem_moved.2 ⟨a, ha, rfl⟩) (mem_moved.2 ⟨b, hb, rfl⟩) hak hbk

/-- The move makes no new rows. -/
theorem rows_of_member_moved {gprgt dpid gpid k p m : ℤ}
    (h : Member (moveToGroup db ns dpid gpid gprgt) k p m) :
    ∃ a ∈ db.dataprovidername.rows, a.dataprovidernamespaceid = k ∧ a.dataproviderid = p ∧
      ∃ b ∈ db.dataprovidername.rows, b.dataprovidernamespaceid = k ∧ b.dataproviderid = m := by
  obtain ⟨_, ha, hak, hap, _, hb, hbk, hbm, _⟩ := h
  obtain ⟨a, ha', rfl⟩ := mem_moved.1 ha
  obtain ⟨b, hb', rfl⟩ := mem_moved.1 hb
  exact ⟨a, ha', hak, hap, b, hb', hbk, hbm⟩

/-- The new intervals contain each other as the old ones did, but for the moved provider, which is in
    those that had the group. -/
def RowsMoved (names : List DataProviderName) (ns : ℤ) (d g : DataProviderName) : Prop :=
  (∀ a ∈ names, ∀ b ∈ names, a.dataprovidernamespaceid = b.dataprovidernamespaceid →
    ¬ (a.dataprovidernamespaceid = ns ∧ a.dataproviderid = d.dataproviderid) →
    ¬ (b.dataprovidernamespaceid = ns ∧ b.dataproviderid = d.dataproviderid) →
    ((placed ns d.dataproviderid g.dataproviderid g.dataprovidernamerightset a).Contains
        (placed ns d.dataproviderid g.dataproviderid g.dataprovidernamerightset b) ↔
      a.span.Contains b.span)) ∧
  ∀ a ∈ names, a.dataprovidernamespaceid = ns → a.dataproviderid ≠ d.dataproviderid →
    ((placed ns d.dataproviderid g.dataproviderid g.dataprovidernamerightset a).Contains
        ⟨g.dataprovidernamerightset, g.dataprovidernamerightset + 1⟩ ↔ a.span.Contains g.span)

variable (hd : d ∈ db.dataprovidername.rows) (hg : g ∈ db.dataprovidername.rows)
  (hdns : d.dataprovidernamespaceid = ns) (hgns : g.dataprovidernamespaceid = ns)

include hd hg hdns hgns in
theorem target_iff_rowsMoved
    (hslot : ∀ m, Member (moveToGroup db ns d.dataproviderid g.dataproviderid
      g.dataprovidernamerightset) ns d.dataproviderid m ↔ m = d.dataproviderid) :
    (∀ k p m, Member (moveToGroup db ns d.dataproviderid g.dataproviderid
        g.dataprovidernamerightset) k p m ↔
      Target db ns d.dataproviderid g.dataproviderid k p m) ↔
      RowsMoved db.dataprovidername.rows ns d g := by
  have hpd : placed ns d.dataproviderid g.dataproviderid g.dataprovidernamerightset d =
      ⟨g.dataprovidernamerightset, g.dataprovidernamerightset + 1⟩ := placed_provider ⟨hdns, rfl⟩
  constructor
  · intro h
    refine ⟨fun a ha b hb hab had hbd => ?_, fun a ha hans had => ?_⟩
    · rw [← member_moved_iff ha hb rfl hab.symm, h, Target, if_neg had, hab, if_neg hbd]
      exact member_iff ha hb hab rfl
    · rw [← hpd, ← member_moved_iff ha hd hans hdns, h, Target, if_neg fun he => had he.2,
        if_pos ⟨rfl, rfl⟩]
      exact member_iff ha hg hans hgns
  · rintro ⟨hkeep, hjoin⟩ k p m
    unfold Target
    by_cases hp : k = ns ∧ p = d.dataproviderid
    · rw [if_pos hp, hp.1, hp.2]; exact hslot m
    rw [if_neg hp]
    by_cases hm : k = ns ∧ m = d.dataproviderid
    · rw [if_pos hm, hm.1, hm.2]
      constructor
      · intro h
        obtain ⟨a, ha, hak, rfl, _⟩ := rows_of_member_moved h
        rw [member_moved_iff ha hd hak hdns, hpd, hjoin a ha hak fun he => hp ⟨hm.1, he⟩] at h
        exact (member_iff ha hg hak hgns).2 h
      · rintro ⟨a, ha, hak, rfl, b, hb, hbk, hbg, hc⟩
        rw [name_eq hb hg hbg (hbk.trans hgns.symm)] at hc
        rw [member_moved_iff ha hd hak hdns, hpd, hjoin a ha hak fun he => hp ⟨hm.1, he⟩]
        exact hc
    · rw [if_neg hm]
      constructor
      · intro h
        obtain ⟨a, ha, rfl, rfl, b, hb, hbk, rfl⟩ := rows_of_member_moved h
        rw [member_moved_iff ha hb rfl hbk, hkeep a ha b hb hbk.symm hp (hbk ▸ hm)] at h
        exact (member_iff ha hb rfl hbk).2 h
      · rintro ⟨a, ha, rfl, rfl, b, hb, hbk, rfl, hc⟩
        rw [member_moved_iff ha hb rfl hbk, hkeep a ha b hb hbk.symm hp (hbk ▸ hm)]
        exact hc

include hg hgns in
/-- The intervals are moved as they should be exactly under the last three conditions of
    `MoveSafe`. -/
theorem rowsMoved_iff (hdg : d.dataproviderid ≠ g.dataproviderid)
    (hleaf : ∀ a ∈ db.dataprovidername.rows, a.dataprovidernamespaceid = ns →
      a.dataproviderid = d.dataproviderid → ∀ q ∈ db.dataprovidername.rows,
      q.dataprovidernamespaceid = ns → a.span.Contains q.span → q.dataproviderid = d.dataproviderid)
    (hgo : g.span.Proper) :
    RowsMoved db.dataprovidername.rows ns d g ↔
      MoveSafe db.dataprovidername.rows ns d.dataproviderid g.dataproviderid
        g.dataprovidernameleftset g.dataprovidernamerightset := by
  have isg : ∀ m ∈ db.dataprovidername.rows,
      m.dataprovidernamespaceid = ns ∧ m.dataproviderid = g.dataproviderid → m = g :=
    fun m hm hmg => name_eq hm hg hmg.2 (hmg.1.trans hgns.symm)
  have hgd : ¬ (g.dataprovidernamespaceid = ns ∧ g.dataproviderid = d.dataproviderid) :=
    fun he => hdg he.2.symm
  have hpg := placed_group hgns hdg
  have hgr : g.span.right = g.dataprovidernamerightset := rfl
  constructor
  · rintro ⟨hkeep, hjoin⟩
    refine ⟨hleaf, fun m hm n hn hmn hmd hnd hle hgt => ?_, fun p hp hpns hpd hpg' => ?_,
      fun p hp hpns hpd hpg' hgt => ?_⟩
    · have hmg : ¬ (m.dataprovidernamespaceid = ns ∧ m.dataproviderid = g.dataproviderid) :=
        fun he => by rw [isg m hm he] at hgt; exact lt_irrefl _ hgt
      have hk := hkeep m hm n hn hmn hmd hnd
      rw [placed_other hmd hmg] at hk
      rcases placed_cases isg hn with hd' | rfl | ⟨_, hng⟩
      · exact absurd hd' hnd
      · rw [hpg] at hk
        exact (Span.shift_contains_widen.1 hk).1 hgt
      · rw [placed_other hnd hng] at hk
        exact Span.contains_shift.1 hk hle hgt
    all_goals
      have hj := hjoin p hp hpns hpd
      rw [placed_other (fun he => hpd he.2) fun he => hpg' he.2] at hj
    · exact (Span.shift_contains_slot (t := g.span).1 hj).2
    · exact ((Span.shift_contains_slot (t := g.span).1 hj).1 hgt).1
  · intro h
    constructor
    · intro a ha b hb hab had hbd
      rcases placed_cases isg ha with hd' | rfl | ⟨_, hag⟩
      · exact absurd hd' had
      · rw [hpg]
        rcases placed_cases isg hb with hd' | rfl | ⟨_, hbg⟩
        · exact absurd hd' hbd
        · rw [hpg]
          exact iff_of_true ⟨le_rfl, le_rfl⟩ ⟨le_rfl, le_rfl⟩
        · rw [placed_other hbd hbg]
          exact Span.widen_contains_shift
      · rw [placed_other had hag]
        rcases placed_cases isg hb with hd' | rfl | ⟨_, hbg⟩
        · exact absurd hd' hbd
        · rw [hpg]
          have hans := hab.trans hgns
          exact Span.shift_contains_widen.2 ⟨h.room a ha b hb hab had hbd le_rfl,
            h.ends a ha hans (fun he => had ⟨hans, he⟩) fun he => hag ⟨hans, he⟩⟩
        · rw [placed_other hbd hbg]
          exact Span.contains_shift.2 (h.room a ha b hb hab had hbd)
    · intro p hp hpns hpd
      have hpd' : ¬ (p.dataprovidernamespaceid = ns ∧ p.dataproviderid = d.dataproviderid) :=
        fun he => hpd he.2
      rcases placed_cases isg hp with he | rfl | ⟨_, hpg'⟩
      · exact absurd he hpd'
      · rw [hpg]
        exact iff_of_true (Span.widen_contains_slot hgo) ⟨le_rfl, le_rfl⟩
      · rw [placed_other hpd' hpg']
        have hpgid : p.dataproviderid ≠ g.dataproviderid := fun he => hpg' ⟨hpns, he⟩
        refine Span.shift_contains_slot (t := g.span).2 ⟨fun hgt => ⟨h.beside p hp hpns hpd hpgid hgt, ?_⟩,
          h.ends p hp hpns hpd hpgid⟩
        intro hle
        have hroom := h.room p hp g hg (hpns.trans hgns.symm) hpd' hgd le_rfl hgt hle
        exact le_trans hroom (le_of_lt hgo)

include hd hg hdns hgns in
/-- The move changes the members as it should exactly when it is safe. -/
theorem moveToGroup_members (hdg : d.dataproviderid ≠ g.dataproviderid)
    (hordered : ∀ n ∈ db.dataprovidername.rows, n.span.Proper)
    (hanc : ¬ Member db ns d.dataproviderid g.dataproviderid) :
    MembersMoved db (moveToGroup db ns d.dataproviderid g.dataproviderid
        g.dataprovidernamerightset) ns d.dataproviderid g.dataproviderid ↔
      MoveSafe db.dataprovidername.rows ns d.dataproviderid g.dataproviderid
        g.dataprovidernameleftset g.dataprovidernamerightset := by
  have isg : ∀ m ∈ db.dataprovidername.rows,
      m.dataprovidernamespaceid = ns ∧ m.dataproviderid = g.dataproviderid → m = g :=
    fun m hm hmg => name_eq hm hg hmg.2 (hmg.1.trans hgns.symm)
  have hself : Member db ns d.dataproviderid d.dataproviderid :=
    (member_iff hd hd hdns hdns).2 ⟨le_rfl, le_rfl⟩
  have hslot : ∀ m, Member (moveToGroup db ns d.dataproviderid g.dataproviderid
      g.dataprovidernamerightset) ns d.dataproviderid m ↔ m = d.dataproviderid := by
    intro m
    constructor
    · intro h
      obtain ⟨_, _, _, _, b, hb, hbns, rfl⟩ := rows_of_member_moved h
      by_contra hbd
      have hbd' : ¬ (b.dataprovidernamespaceid = ns ∧ b.dataproviderid = d.dataproviderid) :=
        fun he => hbd he.2
      rw [member_moved_iff hd hb hdns hbns, placed_provider ⟨hdns, rfl⟩] at h
      rcases placed_cases isg hb with he | rfl | ⟨_, hbg⟩
      · exact hbd' he
      · rw [placed_group hgns hdg] at h
        exact Span.not_slot_contains_widen h
      · rw [placed_other hbd' hbg] at h
        exact Span.not_slot_contains_shift (hordered b hb) h
    · rintro rfl
      rw [member_moved_iff hd hd hdns hdns]
      exact ⟨le_rfl, le_rfl⟩
  rw [membersMoved_iff_target hself hanc hslot, target_iff_rowsMoved hd hg hdns hgns hslot]
  constructor
  · rintro ⟨hleaf, hrows⟩
    refine (rowsMoved_iff hg hgns hdg ?_ (hordered g hg)).1 hrows
    intro a ha hans had q hq hqns hc
    exact hleaf _ ⟨a, ha, hans, had, q, hq, hqns, rfl, hc⟩
  · intro h
    refine ⟨?_, (rowsMoved_iff hg hgns hdg h.leaf (hordered g hg)).2 h⟩
    rintro m ⟨a, ha, hans, had, q, hq, hqns, rfl, hc⟩
    exact h.leaf a ha hans had q hq hqns hc

end Move

/-! ### Reachable tables -/

/-- In every reachable table the bounds of a name are in order. -/
theorem step_ordered (db : Db) (c : Call)
    (h : Linked db ∧ ∀ n ∈ db.dataprovidername.rows, n.span.Proper) :
    Linked (step db c) ∧ ∀ n ∈ (step db c).dataprovidername.rows, n.span.Proper := by
  obtain ⟨hl, ho⟩ := h
  refine ⟨step_linked db c hl, ?_⟩
  have hgrown : ∀ {names}, Grown db.dataprovidername.rows names → ∀ n ∈ names, n.span.Proper := by
    rintro names (rfl | ⟨p, a, k, rfl, hspan, _⟩) n hn
    · exact ho n hn
    · rcases List.mem_append.1 hn with hn | hn
      · exact ho n (List.mem_of_mem_filter hn)
      · rw [List.mem_singleton.1 hn, hspan]; exact add_lt_add_right one_lt_two k
  unfold step
  cases hc : exec db c with
  | none => rw [Option.getD_none, (failed_rows db c).2.1]; exact ho
  | some db' =>
    rw [Option.getD_some]
    cases c with
    | addDataProvider => exact hgrown (addDataProvider_spec hl hc).2
    | setDataProviderName => exact hgrown (setDataProviderName_spec hl hc).2
    | addDataProviderToGroup session name group =>
      obtain ⟨d, g, _, _, rfl⟩ := addDataProviderToGroup_spec hc
      intro n hn
      obtain ⟨a, ha, rfl⟩ := mem_moved.1 hn
      exact placed_proper (ho a ha)

/-- In every reachable table, putting a provider into a group of which it is not an ancestor changes
    the members of every provider as it should exactly when the move is safe. -/
theorem addDataProviderToGroup_members (namespaces : List ℤ) (calls : List Call)
    (session : Session) (name group : String) (d g : DataProviderV)
    (hd : findDataProvider (run step (Db.empty namespaces) calls) name
      session.dataprovidernamespaceid = some d)
    (hg : findDataProvider (run step (Db.empty namespaces) calls) group
      session.dataprovidernamespaceid = some g)
    (hdg : d.dataproviderid ≠ g.dataproviderid)
    (hanc : ¬ Member (run step (Db.empty namespaces) calls) session.dataprovidernamespaceid
      d.dataproviderid g.dataproviderid) :
    MembersMoved (run step (Db.empty namespaces) calls)
        (step (run step (Db.empty namespaces) calls) (.addDataProviderToGroup session name group))
        session.dataprovidernamespaceid d.dataproviderid g.dataproviderid ↔
      MoveSafe (run step (Db.empty namespaces) calls).dataprovidername.rows
        session.dataprovidernamespaceid d.dataproviderid g.dataproviderid
        g.dataprovidernameleftset g.dataprovidernamerightset := by
  have hinv := inv_run_all step (fun db => Linked db ∧
    ∀ n ∈ db.dataprovidername.rows, n.span.Proper) step_ordered calls (Db.empty namespaces)
    ⟨linked_empty namespaces, fun n hn => nomatch hn⟩
  generalize run step (Db.empty namespaces) calls = db at *
  have hstep : step db (.addDataProviderToGroup session name group) =
      moveToGroup db session.dataprovidernamespaceid d.dataproviderid g.dataproviderid
        g.dataprovidernamerightset := by
    have hexec : exec db (.addDataProviderToGroup session name group) = some _ :=
      addDataProviderToGroup_of_find hd hg
    unfold step
    rw [hexec, Option.getD_some]
  obtain ⟨a, ha, hsa, hans⟩ := exists_name_of_find hd
  obtain ⟨b, hb, hsb, hbns⟩ := exists_name_of_find hg
  rw [hsa.1, hsb.1] at hdg hanc
  rw [hstep, hsa.1, hsb.1, hsb.2.2.2.1, hsb.2.2.2.2]
  exact moveToGroup_members ha hb hans hbns hdg hinv.2 hanc

/-- The view row of provider `id`, called `name`, in the tables of `nestedCalls`. -/
def nestedRow (id : ℤ) (name type : String) (left right : ℤ) : DataProviderV :=
  ⟨id, type, "any", 1, name, left, right, id, ""⟩

/-- When the group `a` with its member `b` is put into the group `c`, it loses `b`. -/
theorem members_lost : ∃ session d g,
    findDataProvider (run step (Db.empty [1]) (nestedCalls.take 4)) "a"
      session.dataprovidernamespaceid = some d ∧
    findDataProvider (run step (Db.empty [1]) (nestedCalls.take 4)) "c"
      session.dataprovidernamespaceid = some g ∧
    d.dataproviderid ≠ g.dataproviderid ∧
    ¬ Member (run step (Db.empty [1]) (nestedCalls.take 4)) session.dataprovidernamespaceid
      d.dataproviderid g.dataproviderid ∧
    ¬ MembersMoved (run step (Db.empty [1]) (nestedCalls.take 4))
      (step (run step (Db.empty [1]) (nestedCalls.take 4))
        (.addDataProviderToGroup session "a" "c"))
      session.dataprovidernamespaceid d.dataproviderid g.dataproviderid := by
  refine ⟨⟨1, 1, 1, ⟨0, []⟩⟩, nestedRow 1 "a" "data provider group" 1 4,
    nestedRow 3 "c" "person" 7 8, by decide, by decide, by decide, by decide, fun h => ?_⟩
  exact absurd ((h.provider 2).2 (by decide)) (by decide)

/-- A provider without members goes into a group that stands alone. -/
theorem addDataProviderToGroup_members_take :
    MembersMoved (run step (Db.empty [1]) (nestedCalls.take 3))
      (step (run step (Db.empty [1]) (nestedCalls.take 3))
        (.addDataProviderToGroup ⟨1, 1, 1, ⟨0, []⟩⟩ "b" "a")) 1 2 1 :=
  (addDataProviderToGroup_members [1] (nestedCalls.take 3) ⟨1, 1, 1, ⟨0, []⟩⟩ "b" "a"
    (nestedRow 2 "b" "data provider group" 3 4) (nestedRow 1 "a" "data provider group" 1 2)
    (by decide) (by decide) (by decide) (by decide)).2
    ⟨by decide, by decide, by decide, by decide⟩

end Wdb.Provider
