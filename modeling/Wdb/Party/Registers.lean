import Wdb.Party.Changes

/-! The parties refine three registers.

    A register holds one entry for each key: an organization for its alias, a person for the initials, a
    version of software for its name and code. A call puts its entry in the place of the one it finds, which
    keeps its number and, without a new comment, its comment. The views show what the registers hold,
    whatever calls are made: every row of `party` belongs to one kind, and has one comment at most. -/

namespace Wdb.Party
open Relational Parameter

/-! ### Registers -/

/-- What is kept under a key. -/
abbrev Register (K D : Type) : Type := K → Option (Entry D)

section Register
variable {K D : Type} [DecidableEq K] (key : D → K) (clash : D → D → Prop)

/-- The entry under the key of a request, with the next number when it is new. -/
def Register.entry (m : Register K D) (q : Request D) (next : ℤ) : Entry D :=
  ⟨((m (key q.row)).map Entry.partyid).getD next, q.validfrom, q.validto, q.row,
    q.comment.or ((m (key q.row)).bind Entry.comment)⟩

open Classical in
/-- A request to a register: what it holds then, the next number, and the number of the entry. It is refused
    when the row clashes with that of an entry that is not found. -/
noncomputable def Register.put (m : Register K D) (found : D → Bool) (q : Option (Request D)) (next : ℤ) :
    Register K D × ℤ × Option ℤ :=
  let next' := if ∃ k e, m k = some e ∧ found e.row then next else next + 1
  match q with
  | none => (m, next', none)
  | some q =>
    if ∃ k e, m k = some e ∧ found e.row = false ∧ clash e.row q.row then (m, next', none)
    else (Function.update m (key q.row) (some (m.entry key q next)), next', some (m.entry key q next).partyid)

end Register

/-- The registers of all parties, and the next number. -/
structure Registers where
  organizations : Register (Varchar 80) Organization
  persons : Register (Varchar 80) Person
  softwareversions : Register SoftwareVersion SoftwareVersion
  next : ℤ

def Registers.empty : Registers := ⟨fun _ => none, fun _ => none, fun _ => none, 1⟩

/-- A call to the registers, and the number that it returns. -/
noncomputable def Registers.call (organizationtype : List (Varchar 80)) (m : Registers) (c : Call) :
    Registers × Option ℤ :=
  if c.initialized then
    match c.function with
    | .addOrganization a =>
      let (organizations, next, partyid) := m.organizations.put Organization.organizationalias
        Organization.clash a.found ((a.given organizationtype).request c.now) m.next
      ({ m with organizations, next }, partyid)
    | .addPerson a =>
      let (persons, next, partyid) := m.persons.put Person.initials Person.clash a.found
        (a.given.request c.now) m.next
      ({ m with persons, next }, partyid)
    | .addSoftwareVersion a =>
      let (softwareversions, next, partyid) := m.softwareversions.put id SoftwareVersion.clash a.found
        (a.given.request c.now) m.next
      ({ m with softwareversions, next }, partyid)
  else (m, none)

/-! ### The views -/

section Views
variable {D : Type} {clash : D → D → Prop} {s : PartyTables} {members : Members D clash} {partytype : PartyType}

/-- A row of a view without the kind. -/
def PartyV.entry (v : PartyV D) : Entry D := ⟨v.partyid, v.partyvalidfrom, v.partyvalidto, v.row, v.comment⟩

/-- Every member has one row in the view. -/
theorem view_member (hs : Sound s) (hk : OfKind s members.rows partytype) {d : Member D} (hd : d ∈ members.rows) :
    ∃ v : PartyV D, s.view [d] = [v] ∧ v.partytype = partytype ∧ Describes s partytype d v.entry := by
  obtain ⟨⟨_, _, validfrom, validto⟩, hpy, rfl, rfl⟩ := hk d hd
  have hparty := Table.filter_eq_singleton (l := s.party.rows) (p := fun py => decide (py.partyid = d.partyid))
    (s.party.nodup PartyRow.clash_refl) hpy (by simp) fun py hpy' hid => party_eq hpy' hpy (of_decide_eq_true hid)
  unfold PartyTables.view
  rw [List.flatMap_singleton, hparty, List.flatMap_singleton]
  by_cases hc : ∃ pc ∈ s.partycomment.rows, pc.partyid = d.partyid
  · obtain ⟨⟨_, text, time⟩, hpc, hid⟩ := hc
    have hcomment := Table.filter_eq_singleton (l := s.partycomment.rows)
      (p := fun pc => decide (d.partyid = pc.partyid))
      (s.partycomment.nodup PartyComment.clash_refl) hpc (decide_eq_true hid.symm) fun pc hpc' hid' =>
        hs.once pc hpc' _ hpc ((of_decide_eq_true hid').symm.trans hid.symm)
    rw [hcomment]
    refine ⟨_, rfl, rfl, rfl, rfl, hpy, fun text' time' => ?_⟩
    simp only [PartyV.entry, Option.map_some, Option.some.injEq, Prod.mk.injEq]
    constructor
    · rintro ⟨rfl, rfl⟩
      exact hid ▸ hpc
    · intro hpc'
      have heq := hs.once _ hpc _ hpc' hid
      rw [PartyComment.mk.injEq] at heq
      exact heq.2
  · have hnone : s.partycomment.rows.filter (fun pc => decide (d.partyid = pc.partyid)) = [] :=
      List.filter_eq_nil_iff.2 fun pc hpc hid => hc ⟨pc, hpc, (of_decide_eq_true hid).symm⟩
    rw [hnone]
    refine ⟨_, rfl, rfl, rfl, rfl, hpy, fun text time => ?_⟩
    exact iff_of_false (by simp [PartyV.entry]) fun hpc => hc ⟨_, hpc, rfl⟩

theorem view_eq_flatMap (members : List (Member D)) : s.view members = members.flatMap fun d => s.view [d] :=
  List.flatMap_congr fun d _ => by rw [PartyTables.view, List.flatMap_singleton]

theorem mem_view (hs : Sound s) (hk : OfKind s members.rows partytype) {v : PartyV D} :
    v ∈ s.view members.rows ↔
      v.partytype = partytype ∧ ∃ d ∈ members.rows, Describes s partytype d v.entry := by
  rw [view_eq_flatMap, List.mem_flatMap]
  constructor
  · rintro ⟨d, hd, hv⟩
    obtain ⟨w, hw, htype, hdescribes⟩ := view_member hs hk hd
    rw [hw, List.mem_singleton] at hv
    exact ⟨hv ▸ htype, d, hd, hv ▸ hdescribes⟩
  · rintro ⟨htype, d, hd, hdescribes⟩
    obtain ⟨w, hw, htype', hdescribes'⟩ := view_member hs hk hd
    refine ⟨d, hd, ?_⟩
    rw [hw, List.mem_singleton]
    have hentry := hdescribes.unique hdescribes'
    obtain ⟨_, t, _, _, _, _⟩ := v
    obtain ⟨_, t', _, _, _, _⟩ := w
    simp only [PartyV.entry, Entry.mk.injEq] at hentry
    obtain ⟨rfl, rfl, rfl, rfl, rfl⟩ := hentry
    obtain rfl : t = t' := htype.trans htype'.symm
    rfl

/-- No party is in a view twice. -/
theorem nodup_view (hs : Sound s) (hk : OfKind s members.rows partytype) :
    ((s.view members.rows).map PartyV.partyid).Nodup := by
  have hids : (s.view members.rows).map PartyV.partyid = members.rows.map Member.partyid := by
    rw [view_eq_flatMap, List.map_flatMap, ← List.flatMap_singleton' members.rows, List.map_flatMap,
      List.flatMap_singleton']
    refine List.flatMap_congr fun d hd => ?_
    obtain ⟨v, hv, -, hdescribes⟩ := view_member hs hk hd
    rw [hv, List.map_singleton, List.map_singleton]
    exact congrArg (fun i => [i]) hdescribes.partyid
  rw [hids, List.nodup_iff_pairwise_ne, List.pairwise_map]
  exact members.unique.imp fun {_ _} h heq => h (Or.inl heq)

end Views

/-! ### One call -/

section Put
variable {K D : Type} {key : D → K} {clash : D → D → Prop} {s s' : PartyTables}
  {members members' : Members D clash} {partytype : PartyType} {m : Register K D}

/-- A register holds what the tables say about the members of a kind. -/
def Shows (key : D → K) (s : PartyTables) (members : List (Member D)) (partytype : PartyType)
    (m : Register K D) : Prop :=
  ∀ k e, m k = some e ↔ ∃ d ∈ members, key d.row = k ∧ Describes s partytype d e

/-- What the unique indexes of a kind are to its key, and what a call is that finds a member. -/
structure Keyed (key : D → K) (clash : D → D → Prop) (found : D → Bool) (g : Given D) : Prop where
  symm : ∀ a b, clash a b → clash b a
  clash_of_key : ∀ a b, key a = key b → clash a b
  key_of_found : ∀ d row, found d → g.row = some row → key row = key d

theorem Shows.describes (hm : Shows key s members.rows partytype m) (hs : Sound s)
    (hk : OfKind s members.rows partytype) {d : Member D} (hd : d ∈ members.rows) :
    ∃ e, m (key d.row) = some e ∧ Describes s partytype d e := by
  obtain ⟨e, he⟩ := exists_describes hs hk hd
  exact ⟨e, (hm _ _).2 ⟨d, hd, rfl, he⟩, he⟩

/-- The register holds the entry of a request that the tables hold. -/
theorem Enters.shows [DecidableEq K] {ppid next : ℤ} {q : Request D}
    (h : Enters s s' members.rows members'.rows partytype ppid q) (hm : Shows key s members.rows partytype m)
    (hkey : ∀ d ∈ members.rows, key d.row = key q.row ↔ d.partyid = ppid)
    (hid : ((m (key q.row)).map Entry.partyid).getD next = ppid)
    (hcomment : ∀ text time, (m (key q.row)).bind Entry.comment = some (text, time) ↔
      ⟨ppid, text, time⟩ ∈ s.partycomment.rows) :
    Shows key s' members'.rows partytype (Function.update m (key q.row) (some (m.entry key q next))) := by
  have hnew : Describes s' partytype ⟨ppid, q.row⟩ (m.entry key q next) := by
    refine ⟨hid, rfl, (h.party _).2 (Or.inr rfl), fun text time => ?_⟩
    rw [h.comment, Register.entry, Option.or_eq_some_iff, hcomment]
  intro k e
  by_cases hkq : k = key q.row
  · subst hkq
    rw [Function.update_self, Option.some.injEq]
    constructor
    · rintro rfl
      exact ⟨_, (h.members _).2 (Or.inr rfl), rfl, hnew⟩
    · rintro ⟨d, hd, hdk, he⟩
      rcases (h.members d).1 hd with ⟨hd, hne⟩ | rfl
      · exact absurd ((hkey d hd).1 hdk) hne
      · exact hnew.unique he
  · rw [Function.update_of_ne hkq, hm]
    constructor
    · rintro ⟨d, hd, rfl, he⟩
      have hne : d.partyid ≠ ppid := fun heq => hkq ((hkey d hd).2 heq)
      exact ⟨d, (h.members d).2 (Or.inl ⟨hd, hne⟩), rfl, (h.describes_other hne).2 he⟩
    · rintro ⟨d, hd, rfl, he⟩
      rcases (h.members d).1 hd with ⟨hd, hne⟩ | rfl
      · exact ⟨d, hd, rfl, (h.describes_other hne).1 he⟩
      · exact absurd rfl hkq

/-- A call leaves what the tables say about other kinds. -/
def LeavesOthers (s s' : PartyTables) (partytype : PartyType) : Prop :=
  ∀ (D' : Type) (others : List (Member D')) (t' : PartyType), t' ≠ partytype → OfKind s others t' →
    OfKind s' others t' ∧ ∀ d ∈ others, ∀ e, Describes s' t' d e ↔ Describes s t' d e

theorem Enters.leavesOthers {ppid : ℤ} {q : Request D}
    (h : Enters s s' members.rows members'.rows partytype ppid q)
    (hppid : ∀ py ∈ s.party.rows, py.partyid = ppid → py.partytype = partytype) :
    LeavesOthers s s' partytype := by
  intro D' others t' ht hk
  have hid : ∀ d ∈ others, d.partyid ≠ ppid := by
    intro d hd heq
    obtain ⟨py, hpy, hpyid, rfl⟩ := hk d hd
    exact ht (hppid py hpy (hpyid.trans heq))
  exact ⟨h.ofKind_other hk hid, fun d hd e => h.describes_other (hid d hd)⟩

/-- Drawing a number changes no table. -/
theorem Sound.draw (hs : Sound s) : Sound { s with partyidSeq := s.partyidSeq + 1 } :=
  ⟨fun py hpy => (hs.drawn py hpy).trans (lt_add_one _), hs.refers, hs.once⟩

theorem describes_draw {D' : Type} {t' : PartyType} {d : Member D'} {e : Entry D'} (n : ℤ) :
    Describes { s with partyidSeq := n } t' d e ↔ Describes s t' d e :=
  ⟨fun h => ⟨h.partyid, h.row, h.party, h.comment⟩, fun h => ⟨h.partyid, h.row, h.party, h.comment⟩⟩

theorem Shows.draw (hm : Shows key s members.rows partytype m) (n : ℤ) :
    Shows key { s with partyidSeq := n } members.rows partytype m := fun k e => by
  simp only [describes_draw, hm k e]

theorem LeavesOthers.refl : LeavesOthers s s partytype := fun _ _ _ _ hk => ⟨hk, fun _ _ _ => Iff.rfl⟩

theorem LeavesOthers.draw {n : ℤ} (h : LeavesOthers { s with partyidSeq := n } s' partytype) :
    LeavesOthers s s' partytype := by
  intro D' others t' ht hk
  obtain ⟨hk', hdescribes⟩ := h D' others t' ht hk
  exact ⟨hk', fun d hd e => (hdescribes d hd e).trans (describes_draw n)⟩

theorem Shows.leaves (hm : Shows key s members.rows partytype m) {t : PartyType} (ht : partytype ≠ t)
    (hk : OfKind s members.rows partytype) (h : LeavesOthers s s' t) :
    OfKind s' members.rows partytype ∧ Shows key s' members.rows partytype m := by
  obtain ⟨hk', hdescribes⟩ := h D members.rows partytype ht hk
  refine ⟨hk', fun k e => (hm k e).trans ?_⟩
  exact exists_congr fun d => and_congr_right fun hd => and_congr_right fun _ => (hdescribes d hd e).symm

/-- What a call to the tables of a kind has to do with a call to its register. -/
structure Refined (key : D → K) (partytype : PartyType) (s : PartyTables)
    (r : PartyTables × Members D clash × Option ℤ) (a : Register K D × ℤ × Option ℤ) : Prop where
  sound : Sound r.1
  ofKind : OfKind r.1 r.2.1.rows partytype
  shows : Shows key r.1 r.2.1.rows partytype a.1
  next : r.1.partyidSeq = a.2.1
  returned : r.2.2 = a.2.2
  leaves : LeavesOthers s r.1 partytype

variable [DecidableEq K] {found : D → Bool} {g : Given D} {q : Option (Request D)}

open Classical in
/-- The next number after a call. -/
theorem put_refused (next : ℤ)
    (h : ∀ q', q = some q' → ∃ k e, m k = some e ∧ found e.row = false ∧ clash e.row q'.row) :
    m.put key clash found q next =
      (m, if ∃ k e, m k = some e ∧ found e.row then next else next + 1, none) := by
  unfold Register.put
  cases q with
  | none => rfl
  | some q' => exact if_pos (h q' rfl)

open Classical in
theorem put_accepted (next : ℤ) {q : Request D}
    (h : ¬ ∃ k e, m k = some e ∧ found e.row = false ∧ clash e.row q.row) :
    m.put key clash found (some q) next =
      (Function.update m (key q.row) (some (m.entry key q next)),
        if ∃ k e, m k = some e ∧ found e.row then next else next + 1, some (m.entry key q next).partyid) :=
  if_neg h

variable [DecidableRel clash]

/-- A call does to the tables of a kind what it does to the register. -/
theorem addParty_refined (now : ℤ) (hs : Sound s) (hk : OfKind s members.rows partytype)
    (hm : Shows key s members.rows partytype m) (hkeyed : Keyed key clash found g) :
    Refined key partytype s (s.addParty members partytype found g now)
      (m.put key clash found (g.request now) s.partyidSeq) := by
  -- what clashes with a member that is not found clashes with its entry
  have hentry : ∀ d ∈ members.rows, ∀ row, found d.row = false → clash d.row row →
      ∃ k e, m k = some e ∧ found e.row = false ∧ clash e.row row := by
    intro d hd row hfound hrow
    obtain ⟨e, he, hdescribes⟩ := hm.describes hs hk hd
    exact ⟨_, e, he, hdescribes.row ▸ hfound, hdescribes.row ▸ hrow⟩
  unfold PartyTables.addParty
  cases hfind : (s.view members.rows).find? fun v => found v.row with
  | none =>
    have hno : ∀ d ∈ members.rows, found d.row = false := by
      intro d hd
      obtain ⟨v, hv, htype, hdescribes⟩ := view_member hs hk hd
      have hmem : v ∈ s.view members.rows := (mem_view hs hk).2 ⟨htype, d, hd, hdescribes⟩
      have hrow : v.row = d.row := hdescribes.row
      rw [← hrow]
      simpa using List.find?_eq_none.1 hfind v hmem
    have hnone : ¬ ∃ k e, m k = some e ∧ found e.row := by
      rintro ⟨k, e, he, hfound⟩
      obtain ⟨d, hd, -, hdescribes⟩ := (hm k e).1 he
      rw [hdescribes.row, hno d hd] at hfound
      cases hfound
    have hfresh : ∀ py ∈ s.party.rows, py.partyid ≠ s.partyidSeq := fun py hpy => (hs.drawn py hpy).ne
    have hmembers : ∀ d ∈ members.rows, d.partyid ≠ s.partyidSeq := by
      intro d hd heq
      obtain ⟨py, hpy, hpyid, -⟩ := hk d hd
      exact hfresh py hpy (hpyid.trans heq)
    have hcomments : ∀ pc ∈ s.partycomment.rows, pc.partyid ≠ s.partyidSeq := by
      intro pc hpc heq
      obtain ⟨py, hpy, hpyid⟩ := hs.refers pc hpc
      exact hfresh py hpy (hpyid.trans heq)
    have hstores : StoresParty { s with partyidSeq := s.partyidSeq + 1 } members partytype s.partyidSeq
        (g.request now) _ := insertParty_stores hfresh hcomments hmembers
    rcases hstores with ⟨q, s', members', hq, happart, hinsert, henters⟩ | ⟨hinsert, hclash⟩
    · have hkey : ∀ d ∈ members.rows, key d.row ≠ key q.row := fun d hd heq =>
        happart d hd (hmembers d hd) (hkeyed.clash_of_key _ _ heq)
      have hnew : m (key q.row) = none := by
        rw [Option.eq_none_iff_forall_ne_some]
        intro e he
        obtain ⟨d, hd, hdk, -⟩ := (hm _ e).1 he
        exact hkey d hd hdk
      have hfree : ¬ ∃ k e, m k = some e ∧ found e.row = false ∧ clash e.row q.row := by
        rintro ⟨k, e, he, -, hrow⟩
        obtain ⟨d, hd, -, hdescribes⟩ := (hm k e).1 he
        exact happart d hd (hmembers d hd) (hdescribes.row ▸ hrow)
      have hid : ((m (key q.row)).map Entry.partyid).getD s.partyidSeq = s.partyidSeq := by rw [hnew]; rfl
      have hput : m.put key clash found (some q) s.partyidSeq = _ := put_accepted s.partyidSeq hfree
      rw [if_neg hnone] at hput
      simp only [hinsert, hq, hput]
      refine ⟨henters.sound hs.draw (lt_add_one _), henters.ofKind hk, (henters.shows (hm.draw _) ?_ hid ?_),
        henters.partyidSeq, congrArg some hid.symm, ?_⟩
      · exact fun d hd => iff_of_false (hkey d hd) (hmembers d hd)
      · intro text time
        rw [hnew]
        exact iff_of_false (by simp) fun hpc => hcomments _ hpc rfl
      · exact (henters.leavesOthers fun py hpy heq => absurd heq (hfresh py hpy)).draw
    · have hput : m.put key clash found _ s.partyidSeq = _ := put_refused s.partyidSeq fun q hq => by
        obtain ⟨d, hd, -, hrow⟩ := hclash q hq
        exact hentry d hd _ (hno d hd) hrow
      rw [if_neg hnone] at hput
      simp only [hinsert, hput]
      exact ⟨hs.draw, hk, hm.draw _, rfl, rfl, LeavesOthers.refl.draw⟩
  | some v =>
    obtain ⟨htype, d₀, hd₀, hdescribes₀⟩ := (mem_view hs hk).1 (List.mem_of_find?_eq_some hfind)
    have hfound₀ : found d₀.row := by
      have hrow : v.row = d₀.row := hdescribes₀.row
      rw [← hrow]
      exact List.find?_some (p := fun v : PartyV D => found v.row) hfind
    have hid₀ : d₀.partyid = v.partyid := hdescribes₀.partyid.symm
    have he₀ : m (key d₀.row) = some v.entry := (hm _ _).2 ⟨d₀, hd₀, rfl, hdescribes₀⟩
    have hsome : ∃ k e, m k = some e ∧ found e.row := ⟨_, _, he₀, by
      have hrow : v.entry.row = d₀.row := hdescribes₀.row
      rwa [hrow]⟩
    -- members of one key are one member
    have hsame : ∀ d ∈ members.rows, key d.row = key d₀.row ↔ d.partyid = v.partyid := by
      intro d hd
      constructor
      · intro hkey
        have heq := members.eq_of_clash (fun a b h => h.imp Eq.symm (hkeyed.symm _ _)) hd hd₀
          (Or.inr (hkeyed.clash_of_key _ _ hkey))
        rw [heq, hid₀]
      · intro hid
        have heq := members.eq_of_clash (fun a b h => h.imp Eq.symm (hkeyed.symm _ _)) hd hd₀
          (Or.inl (hid.trans hid₀.symm))
        rw [heq]
    have hstores : StoresParty s members partytype v.partyid (g.request now) _ :=
      updateParty_stores hs hk hkeyed.symm hd₀ hid₀
    rcases hstores with ⟨q, s', members', hq, happart, hupdate, henters⟩ | ⟨hupdate, hclash⟩
    · have hkeyq : key q.row = key d₀.row :=
        hkeyed.key_of_found d₀.row q.row hfound₀ (request_eq_some.1 hq).2.2.1
      have hfree : ¬ ∃ k e, m k = some e ∧ found e.row = false ∧ clash e.row q.row := by
        rintro ⟨k, e, he, hfound, hrow⟩
        obtain ⟨d, hd, -, hdescribes⟩ := (hm k e).1 he
        rw [hdescribes.row] at hfound hrow
        refine happart d hd (fun hid => ?_) hrow
        have heq := members.eq_of_clash (fun a b h => h.imp Eq.symm (hkeyed.symm _ _)) hd hd₀
          (Or.inl (hid.trans hid₀.symm))
        rw [heq, hfound₀] at hfound
        cases hfound
      have hid : ((m (key q.row)).map Entry.partyid).getD s.partyidSeq = v.partyid := by
        rw [hkeyq, he₀]
        rfl
      have hput : m.put key clash found (some q) s.partyidSeq = _ := put_accepted s.partyidSeq hfree
      rw [if_pos hsome] at hput
      simp only [hupdate, hq, hput]
      obtain ⟨py₀, hpy₀, hpyid₀, htype₀⟩ := hk d₀ hd₀
      refine ⟨henters.sound hs (hid₀ ▸ hpyid₀ ▸ hs.drawn py₀ hpy₀), henters.ofKind hk,
        henters.shows hm ?_ hid ?_, henters.partyidSeq, congrArg some hid.symm,
        henters.leavesOthers fun py hpy heq => ?_⟩
      · exact fun d hd => hkeyq ▸ hsame d hd
      · intro text time
        rw [hkeyq, he₀, ← hid₀]
        exact hdescribes₀.comment text time
      · rw [party_eq hpy hpy₀ (heq.trans (hid₀.symm.trans hpyid₀.symm)), htype₀]
    · have hput : m.put key clash found _ s.partyidSeq = _ := put_refused s.partyidSeq fun q hq => by
        obtain ⟨d, hd, hid, hrow⟩ := hclash q hq
        refine hentry d hd _ (Bool.eq_false_iff.2 fun hfound => hid ?_) hrow
        rw [← hsame d hd, ← hkeyed.key_of_found d.row q.row hfound (request_eq_some.1 hq).2.2.1]
        exact hkeyed.key_of_found d₀.row q.row hfound₀ (request_eq_some.1 hq).2.2.1
      rw [if_pos hsome] at hput
      simp only [hupdate, hput]
      exact ⟨hs, hk, hm, rfl, rfl, LeavesOthers.refl⟩

end Put

/-! ### Every run -/

/-- What a column holds can be assigned to it again. -/
theorem assign_stored {n : ℕ} {v w : Varchar n} (h : assign n (some v.1) = some w) : w = v :=
  Subtype.ext (Option.some.inj ((assign_eq_some h).1 fun _ ht => Option.some.inj ht ▸ v.2)).symm

theorem keyed_organization (types : List (Varchar 80)) (a : AddOrganization) :
    Keyed Organization.organizationalias Organization.clash a.found (a.given types) where
  symm _ _ h := h.imp Eq.symm Eq.symm
  clash_of_key _ _ h := Or.inl h
  key_of_found o row hfound hrow := by
    have halias : a.alias_ = some o.organizationalias.1 := of_decide_eq_true hfound
    simp only [AddOrganization.given, AddOrganization.row, halias, Option.bind_eq_bind,
      Option.bind_eq_some_iff] at hrow
    obtain ⟨name, -, alias_, hassign, type, -, hrow⟩ := hrow
    split at hrow
    · obtain rfl := Option.some.inj hrow
      exact assign_stored hassign
    · cases hrow

theorem keyed_person (a : AddPerson) : Keyed Person.initials Person.clash a.found a.given where
  symm _ _ h := Eq.symm h
  clash_of_key _ _ h := h
  key_of_found p row hfound hrow := by
    have hinitials : a.initials_ = some p.initials.1 := of_decide_eq_true hfound
    simp only [AddPerson.given, AddPerson.row, hinitials, Option.bind_eq_bind, Option.bind_eq_some_iff] at hrow
    obtain ⟨_, -, _, -, _, -, _, -, initials, hassign, _, -, _, -, _, -, _, -, hrow⟩ := hrow
    split at hrow
    · obtain rfl := Option.some.inj hrow
      exact assign_stored hassign
    · cases hrow

theorem keyed_softwareversion (a : AddSoftwareVersion) : Keyed id SoftwareVersion.clash a.found a.given where
  symm _ _ h := Eq.symm h
  clash_of_key _ _ h := h
  key_of_found v row hfound hrow := by
    obtain ⟨hname, hversion⟩ := of_decide_eq_true hfound
    simp only [AddSoftwareVersion.given, AddSoftwareVersion.row, hname, hversion, Option.bind_eq_bind,
      Option.bind_eq_some_iff, Option.pure_def, Option.some.injEq] at hrow
    obtain ⟨name, hname', version, hversion', rfl⟩ := hrow
    rw [assign_stored hname', assign_stored hversion']

/-- The tables hold what the registers do. -/
structure Holds (s : Parties) (m : Registers) : Prop where
  sound : Sound s.toPartyTables
  organization : OfKind s.toPartyTables s.organization.rows .organization
  person : OfKind s.toPartyTables s.person.rows .person
  softwareversion : OfKind s.toPartyTables s.softwareversion.rows .software
  organizations : Shows Organization.organizationalias s.toPartyTables s.organization.rows .organization
    m.organizations
  persons : Shows Person.initials s.toPartyTables s.person.rows .person m.persons
  softwareversions : Shows id s.toPartyTables s.softwareversion.rows .software m.softwareversions
  next : s.partyidSeq = m.next

theorem holds_installed (types : List (Varchar 80)) : Holds (.installed types) .empty := by
  have hshows : ∀ {K D : Type} (key : D → K) (t : PartyType),
      Shows key (Parties.installed types).toPartyTables [] t fun _ => none := by
    intro K D key _ k e
    simp
  refine ⟨⟨?_, ?_, ?_⟩, ?_, ?_, ?_, hshows _ _, hshows _ _, hshows _ _, rfl⟩
  · exact fun _ h => absurd h List.not_mem_nil
  · exact fun _ h => absurd h List.not_mem_nil
  · exact fun _ h => absurd h List.not_mem_nil
  · exact fun _ h => absurd h List.not_mem_nil
  · exact fun _ h => absurd h List.not_mem_nil
  · exact fun _ h => absurd h List.not_mem_nil

theorem Holds.call {s : Parties} {m : Registers} (h : Holds s m) (c : Call) :
    Holds (s.call c).1 (m.call s.organizationtype c).1 ∧ (s.call c).2 = (m.call s.organizationtype c).2 ∧
      (s.call c).1.organizationtype = s.organizationtype := by
  unfold Parties.call Registers.call
  split
  swap
  · exact ⟨h, rfl, rfl⟩
  cases c.function with
  | addOrganization a =>
    have hr := addParty_refined c.now h.sound h.organization h.organizations (keyed_organization s.organizationtype a)
    rw [h.next] at hr
    obtain ⟨hperson, hpersons⟩ := h.persons.leaves (by decide) h.person hr.leaves
    obtain ⟨hsoftware, hsoftwares⟩ := h.softwareversions.leaves (by decide) h.softwareversion hr.leaves
    exact ⟨⟨hr.sound, hr.ofKind, hperson, hsoftware, hr.shows, hpersons, hsoftwares, hr.next⟩, hr.returned, rfl⟩
  | addPerson a =>
    have hr := addParty_refined c.now h.sound h.person h.persons (keyed_person a)
    rw [h.next] at hr
    obtain ⟨horganization, horganizations⟩ := h.organizations.leaves (by decide) h.organization hr.leaves
    obtain ⟨hsoftware, hsoftwares⟩ := h.softwareversions.leaves (by decide) h.softwareversion hr.leaves
    exact ⟨⟨hr.sound, horganization, hr.ofKind, hsoftware, horganizations, hr.shows, hsoftwares, hr.next⟩,
      hr.returned, rfl⟩
  | addSoftwareVersion a =>
    have hr := addParty_refined c.now h.sound h.softwareversion h.softwareversions (keyed_softwareversion a)
    rw [h.next] at hr
    obtain ⟨horganization, horganizations⟩ := h.organizations.leaves (by decide) h.organization hr.leaves
    obtain ⟨hperson, hpersons⟩ := h.persons.leaves (by decide) h.person hr.leaves
    exact ⟨⟨hr.sound, horganization, hperson, hr.ofKind, horganizations, hpersons, hr.shows, hr.next⟩,
      hr.returned, rfl⟩

/-- A view shows a register: a row for each entry, under its key, and no party twice. -/
structure Lists {K D : Type} (key : D → K) (view : List (PartyV D)) (partytype : PartyType) (m : Register K D) :
    Prop where
  rows : ∀ v, v ∈ view ↔ v.partytype = partytype ∧ m (key v.row) = some v.entry
  keys : ∀ k e, m k = some e → key e.row = k
  once : (view.map PartyV.partyid).Nodup

theorem lists_of_shows {K D : Type} {key : D → K} {clash : D → D → Prop} {s : PartyTables}
    {members : Members D clash} {partytype : PartyType} {m : Register K D} (hs : Sound s)
    (hk : OfKind s members.rows partytype) (hm : Shows key s members.rows partytype m) :
    Lists key (s.view members.rows) partytype m := by
  refine ⟨fun v => ?_, fun k e he => ?_, nodup_view hs hk⟩
  · rw [mem_view hs hk]
    refine and_congr_right fun _ => ((hm _ _).trans ?_).symm
    refine exists_congr fun d => and_congr_right fun _ => and_iff_right_of_imp fun hdescribes => ?_
    exact congrArg key hdescribes.row.symm
  · obtain ⟨d, -, rfl, hdescribes⟩ := (hm k e).1 he
    rw [hdescribes.row]

/-- The tables refine the registers: the views list them, and a call returns what it returns of them. -/
structure Refines (s : Parties) (m : Registers) : Prop where
  organization_v : Lists Organization.organizationalias (s.view s.organization.rows) .organization m.organizations
  person_v : Lists Person.initials (s.view s.person.rows) .person m.persons
  softwareversion_v : Lists id (s.view s.softwareversion.rows) .software m.softwareversions
  returned : ∀ c, (s.call c).2 = (m.call s.organizationtype c).2

/-- After any calls, successful or not, the parties refine the registers after the same calls. -/
theorem parties_refine (types : List (Varchar 80)) (calls : List Call) :
    Refines (Runs.run Parties.step (.installed types) calls)
      (Runs.run (fun m c => (Registers.call types m c).1) .empty calls) := by
  have hrun : ∀ (calls : List Call) (s : Parties) (m : Registers), s.organizationtype = types → Holds s m →
      (Runs.run Parties.step s calls).organizationtype = types ∧
        Holds (Runs.run Parties.step s calls) (Runs.run (fun m c => (Registers.call types m c).1) m calls) := by
    intro calls
    induction calls with
    | nil => exact fun s m ht h => ⟨ht, h⟩
    | cons c calls ih =>
      rintro s m rfl h
      obtain ⟨hnext, -, htypes⟩ := h.call c
      exact ih _ _ htypes hnext
  obtain ⟨htypes, h⟩ := hrun calls _ _ rfl (holds_installed types)
  refine ⟨lists_of_shows h.sound h.organization h.organizations, lists_of_shows h.sound h.person h.persons,
    lists_of_shows h.sound h.softwareversion h.softwareversions, fun c => ?_⟩
  exact (h.call c).2.1

end Wdb.Party
