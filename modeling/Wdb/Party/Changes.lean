import Wdb.Party.Tables

/-! What a call changes in the tables of parties.

    A call asks for a row, dates and perhaps a comment under a number, and all of them are stored or none is.
    It is refused when one of them cannot be stored, or the row clashes with a member of another number; else
    the tables hold them, and all other parties are as they were. -/

namespace Wdb.Party
open Relational Parameter

/-! ### Requests -/

/-- A party that is registered. -/
structure Entry (D : Type) where
  partyid : ℤ
  validfrom : Date
  validto : Date
  row : D
  comment : Option Comment

/-- A party that is to be registered. -/
structure Request (D : Type) where
  validfrom : Date
  validto : Date
  row : D
  comment : Option Comment

/-- The comment that a call gives, if it can be stored. -/
def Given.comment {D : Type} (g : Given D) (now : ℤ) : Option (Option Comment) :=
  if g.comment_.isNone then some none else (assign 255 g.comment_).map fun text => some (text, now)

/-- What a call asks for, if it can be stored. -/
def Given.request {D : Type} (g : Given D) (now : ℤ) : Option (Request D) := do
  let validfrom ← g.validfrom_
  let validto ← g.validto_
  let row ← g.row
  let comment ← g.comment now
  return ⟨validfrom, validto, row, comment⟩

/-! ### What a successful call changes -/

section Changes
variable {D : Type} {clash : D → D → Prop}

/-- Every party has a number that was drawn and one comment at most, and comments have a party. -/
structure Sound (s : PartyTables) : Prop where
  drawn : ∀ py ∈ s.party.rows, py.partyid < s.partyidSeq
  refers : ∀ pc ∈ s.partycomment.rows, ∃ py ∈ s.party.rows, py.partyid = pc.partyid
  once : ∀ a ∈ s.partycomment.rows, ∀ b ∈ s.partycomment.rows, a.partyid = b.partyid → a = b

/-- The members of a kind are parties of the kind. -/
def OfKind (s : PartyTables) (members : List (Member D)) (partytype : PartyType) : Prop :=
  ∀ d ∈ members, ∃ py ∈ s.party.rows, py.partyid = d.partyid ∧ py.partytype = partytype

/-- The tables hold a request under a number; all else is as it was. -/
structure Enters (s s' : PartyTables) (members members' : List (Member D)) (partytype : PartyType) (ppid : ℤ)
    (q : Request D) : Prop where
  party : ∀ py, py ∈ s'.party.rows ↔
    py ∈ s.party.rows ∧ py.partyid ≠ ppid ∨ py = ⟨ppid, partytype, q.validfrom, q.validto⟩
  members : ∀ d, d ∈ members' ↔ d ∈ members ∧ d.partyid ≠ ppid ∨ d = ⟨ppid, q.row⟩
  others : ∀ pc : PartyComment, pc.partyid ≠ ppid → (pc ∈ s'.partycomment.rows ↔ pc ∈ s.partycomment.rows)
  comment : ∀ text time, ⟨ppid, text, time⟩ ∈ s'.partycomment.rows ↔
    q.comment = some (text, time) ∨ q.comment = none ∧ ⟨ppid, text, time⟩ ∈ s.partycomment.rows
  partyidSeq : s'.partyidSeq = s.partyidSeq

/-- A member is registered with an entry. -/
structure Describes (s : PartyTables) (partytype : PartyType) (d : Member D) (e : Entry D) : Prop where
  partyid : e.partyid = d.partyid
  row : e.row = d.row
  party : ⟨d.partyid, partytype, e.validfrom, e.validto⟩ ∈ s.party.rows
  comment : ∀ text time, e.comment = some (text, time) ↔ ⟨d.partyid, text, time⟩ ∈ s.partycomment.rows

variable {s s' : PartyTables} {members members' : List (Member D)} {partytype : PartyType} {ppid : ℤ}
  {q : Request D} {d : Member D} {e e' : Entry D}

/-- Two parties with one number are one party. -/
theorem party_eq {a b : PartyRow} (ha : a ∈ s.party.rows) (hb : b ∈ s.party.rows)
    (h : a.partyid = b.partyid) : a = b :=
  s.party.eq_of_clash (fun _ _ h => h.symm) ha hb h

theorem Describes.unique (h : Describes s partytype d e) (h' : Describes s partytype d e') : e = e' := by
  obtain ⟨i, f, t, r, c⟩ := e
  obtain ⟨i', f', t', r', c'⟩ := e'
  obtain rfl : i = i' := h.partyid.trans h'.partyid.symm
  obtain rfl : r = r' := h.row.trans h'.row.symm
  have hparty := party_eq h.party h'.party rfl
  simp only [PartyRow.mk.injEq, true_and] at hparty
  obtain ⟨rfl, rfl⟩ := hparty
  have hcomment : c = c' := by
    ext ⟨text, time⟩
    exact (h.comment text time).trans (h'.comment text time).symm
  rw [hcomment]

theorem exists_describes (hs : Sound s) (hk : OfKind s members partytype) (hd : d ∈ members) :
    ∃ e, Describes s partytype d e := by
  obtain ⟨⟨_, _, validfrom, validto⟩, hpy, rfl, rfl⟩ := hk d hd
  by_cases hc : ∃ pc ∈ s.partycomment.rows, pc.partyid = d.partyid
  · obtain ⟨⟨_, text, time⟩, hpc, hid⟩ := hc
    refine ⟨⟨d.partyid, validfrom, validto, d.row, some (text, time)⟩, rfl, rfl, hpy, fun text' time' => ?_⟩
    simp only [Option.some.injEq, Prod.mk.injEq]
    constructor
    · rintro ⟨rfl, rfl⟩
      exact hid ▸ hpc
    · intro hpc'
      have heq := hs.once _ hpc _ hpc' hid
      simp only [PartyComment.mk.injEq] at heq
      exact heq.2
  · refine ⟨⟨d.partyid, validfrom, validto, d.row, none⟩, rfl, rfl, hpy, fun text time => ?_⟩
    exact iff_of_false (by simp) fun hpc => hc ⟨_, hpc, rfl⟩

theorem Enters.sound (h : Enters s s' members members' partytype ppid q) (hs : Sound s)
    (hdrawn : ppid < s.partyidSeq) : Sound s' := by
  have hsame : ∀ pc ∈ s'.partycomment.rows, pc.partyid = ppid →
      q.comment = some (pc.partycomment, pc.partycommentstoretime) ∨
        q.comment = none ∧ pc ∈ s.partycomment.rows := by
    rintro ⟨i, text, time⟩ hpc rfl
    exact (h.comment text time).1 hpc
  refine ⟨fun py hpy => ?_, fun pc hpc => ?_, fun a ha b hb hab => ?_⟩
  · rw [h.partyidSeq]
    rcases (h.party py).1 hpy with ⟨hpy, -⟩ | rfl
    · exact hs.drawn py hpy
    · exact hdrawn
  · by_cases hid : pc.partyid = ppid
    · exact ⟨_, (h.party _).2 (Or.inr rfl), hid.symm⟩
    · obtain ⟨py, hpy, hpyid⟩ := hs.refers pc ((h.others pc hid).1 hpc)
      exact ⟨py, (h.party py).2 (Or.inl ⟨hpy, fun heq => hid (hpyid.symm.trans heq)⟩), hpyid⟩
  · by_cases hid : a.partyid = ppid
    · rcases hsame a ha hid with hsome | ⟨hnone, ha⟩
      · rcases hsame b hb (hab.symm.trans hid) with hsome' | ⟨hnone', -⟩
        · obtain ⟨i, text, time⟩ := a
          obtain ⟨i', text', time'⟩ := b
          have heq := Option.some.inj (hsome.symm.trans hsome')
          simp only [Prod.mk.injEq] at heq
          obtain ⟨rfl, rfl⟩ := heq
          rw [PartyComment.mk.injEq]
          exact ⟨hab, rfl, rfl⟩
        · rw [hnone'] at hsome
          cases hsome
      · rcases hsame b hb (hab.symm.trans hid) with hsome' | ⟨-, hb⟩
        · rw [hnone] at hsome'
          cases hsome'
        · exact hs.once a ha b hb hab
    · exact hs.once a ((h.others a hid).1 ha) b ((h.others b fun heq => hid (hab.trans heq)).1 hb) hab

theorem Enters.ofKind (h : Enters s s' members members' partytype ppid q) (hk : OfKind s members partytype) :
    OfKind s' members' partytype := by
  intro d hd
  rcases (h.members d).1 hd with ⟨hd, hid⟩ | rfl
  · obtain ⟨py, hpy, hpyid, htype⟩ := hk d hd
    exact ⟨py, (h.party py).2 (Or.inl ⟨hpy, fun heq => hid (hpyid.symm.trans heq)⟩), hpyid, htype⟩
  · exact ⟨_, (h.party _).2 (Or.inr rfl), rfl, rfl⟩

/-- What the tables say about a member with another number is as it was. -/
theorem Enters.describes_other {D' : Type} {t' : PartyType} {d : Member D'} {e : Entry D'}
    (h : Enters s s' members members' partytype ppid q) (hid : d.partyid ≠ ppid) :
    Describes s' t' d e ↔ Describes s t' d e := by
  have hparty : ∀ validfrom validto, (⟨d.partyid, t', validfrom, validto⟩ : PartyRow) ∈ s'.party.rows ↔
      (⟨d.partyid, t', validfrom, validto⟩ : PartyRow) ∈ s.party.rows := by
    intro validfrom validto
    rw [h.party, PartyRow.mk.injEq]
    simp [hid]
  have hcomment : ∀ text time, (⟨d.partyid, text, time⟩ : PartyComment) ∈ s'.partycomment.rows ↔
      (⟨d.partyid, text, time⟩ : PartyComment) ∈ s.partycomment.rows := fun text time => h.others _ hid
  constructor
  · rintro ⟨hi, hr, hp, hc⟩
    exact ⟨hi, hr, (hparty _ _).1 hp, fun text time => (hc text time).trans (hcomment text time)⟩
  · rintro ⟨hi, hr, hp, hc⟩
    exact ⟨hi, hr, (hparty _ _).2 hp, fun text time => (hc text time).trans (hcomment text time).symm⟩

/-- Members of another kind are as they were. -/
theorem Enters.ofKind_other {D' : Type} {t' : PartyType} {others : List (Member D')}
    (h : Enters s s' members members' partytype ppid q) (hk : OfKind s others t')
    (hid : ∀ d ∈ others, d.partyid ≠ ppid) : OfKind s' others t' := by
  intro d hd
  obtain ⟨py, hpy, hpyid, htype⟩ := hk d hd
  exact ⟨py, (h.party py).2 (Or.inl ⟨hpy, fun heq => hid d hd (hpyid.symm.trans heq)⟩), hpyid, htype⟩

end Changes

/-! ### The tables after a call -/

section Calls
variable {D : Type} {clash : D → D → Prop} [DecidableRel clash] {s s' : PartyTables} {members : Members D clash}
  {partytype : PartyType} {ppid now : ℤ} {g : Given D} {q : Request D}

/-- A request can be stored when each of its parts can. -/
theorem request_eq_some : g.request now = some q ↔ g.validfrom_ = some q.validfrom ∧
    g.validto_ = some q.validto ∧ g.row = some q.row ∧ g.comment now = some q.comment := by
  obtain ⟨validfrom, validto, row, comment⟩ := q
  simp only [Given.request, Option.bind_eq_bind, Option.bind_eq_some_iff, Option.pure_def, Option.some.injEq,
    Request.mk.injEq]
  constructor
  · rintro ⟨f, hf, t, ht, r, hr, c, hc, rfl, rfl, rfl, rfl⟩
    exact ⟨hf, ht, hr, hc⟩
  · rintro ⟨hf, ht, hr, hc⟩
    exact ⟨_, hf, _, ht, _, hr, _, hc, rfl, rfl, rfl, rfl⟩

/-- The comments hold a request's comment for a party, if it has one. -/
structure Comments (s s' : PartyTables) (ppid : ℤ) (comment : Option Comment) : Prop where
  party : s'.party = s.party
  partyidSeq : s'.partyidSeq = s.partyidSeq
  others : ∀ pc : PartyComment, pc.partyid ≠ ppid → (pc ∈ s'.partycomment.rows ↔ pc ∈ s.partycomment.rows)
  comment : ∀ text time, ⟨ppid, text, time⟩ ∈ s'.partycomment.rows ↔
    comment = some (text, time) ∨ comment = none ∧ ⟨ppid, text, time⟩ ∈ s.partycomment.rows

/-- A comment is stored when it can be. -/
def StoresComment (s : PartyTables) (ppid : ℤ) (g : Given D) (now : ℤ) (r : Option PartyTables) : Prop :=
  (∃ comment s', g.comment now = some comment ∧ r = some s' ∧ Comments s s' ppid comment) ∨
    g.comment now = none ∧ r = none

theorem insertComment_stores (hno : ∀ pc ∈ s.partycomment.rows, pc.partyid ≠ ppid) :
    StoresComment s ppid g now (s.insertComment ppid g.comment_ now) := by
  unfold PartyTables.insertComment StoresComment Given.comment
  split
  · exact Or.inl ⟨none, s, rfl, rfl, rfl, rfl, fun _ _ => Iff.rfl, fun text time => by simp⟩
  · cases htext : assign 255 g.comment_ with
    | none => exact Or.inr ⟨rfl, rfl⟩
    | some text =>
      obtain ⟨t, ht, hrows⟩ := Table.insert_of_noClash (t := s.partycomment)
        (a := (⟨ppid, text, now⟩ : PartyComment)) fun pc hpc hclash => hno pc hpc hclash.1
      refine Or.inl ⟨some (text, now), { s with partycomment := t }, rfl, by simp [ht], rfl, rfl, ?_, ?_⟩
      · intro pc hid
        simp only [hrows, List.mem_append, List.mem_singleton]
        refine or_iff_left ?_
        rintro rfl
        exact hid rfl
      · intro text' time'
        simp only [hrows, List.mem_append, List.mem_singleton, PartyComment.mk.injEq, true_and,
          Option.some.injEq, Prod.mk.injEq]
        constructor
        · rintro (hpc | ⟨rfl, rfl⟩)
          · exact absurd rfl (hno _ hpc)
          · exact Or.inl ⟨rfl, rfl⟩
        · rintro (⟨rfl, rfl⟩ | ⟨hnone, -⟩)
          · exact Or.inr ⟨rfl, rfl⟩
          · cases hnone

/-- A checked update whose rows pass the checks, and keep apart, succeeds. -/
theorem updateChecked_of {α : Type} {clash : α → α → Prop} [DecidableRel clash] (t : Table α clash)
    {p : α → Bool} {f : α → Option α} (hsome : ∀ a ∈ t.rows, p a → (f a).isSome)
    (happart : ∀ a ∈ t.rows, ∀ b ∈ t.rows, ¬ clash a b →
      ¬ clash (Table.updateRow p (fun a => (f a).getD a) a) (Table.updateRow p (fun a => (f a).getD a) b)) :
    ∃ t', t.updateChecked p f = some t' ∧
      t'.rows = t.rows.map (Table.updateRow p fun a => (f a).getD a) := by
  have hpairwise : (t.rows.map (Table.updateRow p fun a => (f a).getD a)).Pairwise fun a b => ¬ clash a b := by
    rw [List.pairwise_map]
    exact t.unique.imp_of_mem fun ha hb => happart _ ha _ hb
  unfold Table.updateChecked
  rw [dif_pos ⟨hsome, hpairwise⟩]
  exact ⟨_, rfl, rfl⟩

/-- The rows of a table after an update. -/
theorem mem_updated {α : Type} {l : List α} {p : α → Bool} {f : α → α} {b : α} :
    b ∈ l.map (Table.updateRow p f) ↔ b ∈ l ∧ p b = false ∨ ∃ a ∈ l, p a ∧ f a = b := by
  simp only [List.mem_map, Table.updateRow]
  constructor
  · rintro ⟨a, ha, rfl⟩
    split
    · next hp => exact Or.inr ⟨a, ha, hp, rfl⟩
    · next hp => exact Or.inl ⟨ha, by simpa using hp⟩
  · rintro (⟨hb, hp⟩ | ⟨a, ha, hp, rfl⟩)
    · exact ⟨b, hb, by simp [hp]⟩
    · exact ⟨a, ha, by simp [hp]⟩

theorem setComment_stores (hs : Sound s) :
    StoresComment s ppid g now (s.setComment ppid g.comment_ now) := by
  unfold PartyTables.setComment
  split
  · next hnone =>
    have hcomment : g.comment now = some none := if_pos hnone
    exact Or.inl ⟨none, s, hcomment, rfl, rfl, rfl, fun _ _ => Iff.rfl, fun text time => by simp⟩
  · next hsome =>
    split
    · next hany =>
      have hcomment : g.comment now = (assign 255 g.comment_).map fun text => some (text, now) := if_neg hsome
      obtain ⟨pc₀, hpc₀, hid₀⟩ := List.any_eq_true.1 hany
      simp only [decide_eq_true_eq] at hid₀
      cases htext : assign 255 g.comment_ with
      | none => exact Or.inr ⟨by rw [hcomment, htext]; rfl, rfl⟩
      | some text =>
        -- the one comment of the party is changed
        obtain ⟨t, ht, hrows⟩ := updateChecked_of s.partycomment (p := fun pc => pc.partyid = ppid)
          (f := fun pc => some { pc with partycomment := text, partycommentstoretime := now })
          (fun _ _ _ => rfl) fun a ha b hb hab hclash => by
            have hid : a.partyid = b.partyid := by
              have := hclash.1
              unfold Table.updateRow at this
              split at this <;> split at this <;> exact this
            obtain rfl := hs.once a ha b hb hid
            exact hab ⟨rfl, rfl⟩
        refine Or.inl ⟨some (text, now), { s with partycomment := t }, by rw [hcomment, htext]; rfl,
          by simp [ht], rfl, rfl, fun pc hid => ?_, fun text' time' => ?_⟩
        · simp only [hrows, mem_updated, decide_eq_false_iff_not, decide_eq_true_eq]
          constructor
          · rintro (⟨hpc, -⟩ | ⟨a, -, ha, rfl⟩)
            · exact hpc
            · exact absurd ha hid
          · exact fun hpc => Or.inl ⟨hpc, hid⟩
        · simp only [hrows, mem_updated, decide_eq_false_iff_not, decide_eq_true_eq, not_true_eq_false,
            and_false, false_or, Option.getD_some, PartyComment.mk.injEq, Option.some.injEq, Prod.mk.injEq,
            reduceCtorEq, false_and, or_false]
          constructor
          · rintro ⟨a, -, -, -, rfl, rfl⟩
            exact ⟨rfl, rfl⟩
          · rintro ⟨rfl, rfl⟩
            exact ⟨pc₀, hpc₀, hid₀, hid₀, rfl, rfl⟩
    · next hany =>
      refine insertComment_stores fun pc hpc hid => hany ?_
      exact List.any_eq_true.2 ⟨pc, hpc, by simpa using hid⟩

/-- What a call that enters a request does: it is refused when the request cannot be stored, or clashes with a
    member of another number. -/
def StoresParty (s : PartyTables) (members : Members D clash) (partytype : PartyType) (ppid : ℤ)
    (q : Option (Request D)) (r : Option (PartyTables × Members D clash)) : Prop :=
  (∃ q' s' members', q = some q' ∧ (∀ d ∈ members.rows, d.partyid ≠ ppid → ¬ clash d.row q'.row) ∧
    r = some (s', members') ∧ Enters s s' members.rows members'.rows partytype ppid q') ∨
  r = none ∧ ∀ q', q = some q' → ∃ d ∈ members.rows, d.partyid ≠ ppid ∧ clash d.row q'.row

theorem insertParty_stores (hparty : ∀ py ∈ s.party.rows, py.partyid ≠ ppid)
    (hcomment : ∀ pc ∈ s.partycomment.rows, pc.partyid ≠ ppid)
    (hmembers : ∀ d ∈ members.rows, d.partyid ≠ ppid) :
    StoresParty s members partytype ppid (g.request now) (s.insertParty members partytype g ppid now) := by
  cases hf : g.validfrom_ with
  | none => exact Or.inr ⟨by simp [PartyTables.insertParty, hf], by simp [Given.request, hf]⟩
  | some validfrom =>
  cases ht : g.validto_ with
  | none => exact Or.inr ⟨by simp [PartyTables.insertParty, hf, ht], by simp [Given.request, hf, ht]⟩
  | some validto =>
  obtain ⟨party, hinsert, hrows⟩ := Table.insert_of_noClash (t := s.party)
    (a := (⟨ppid, partytype, validfrom, validto⟩ : PartyRow)) fun py hpy hclash => hparty py hpy hclash
  cases hr : g.row with
  | none =>
    exact Or.inr ⟨by simp [PartyTables.insertParty, hf, ht, hr], by simp [Given.request, hf, ht, hr]⟩
  | some row =>
  by_cases hclash : ∃ d ∈ members.rows, clash d.row row
  · obtain ⟨d, hd, hrow⟩ := hclash
    have hnone : members.insert (⟨ppid, row⟩ : Member D) = none := Table.insert_of_clash hd (Or.inr hrow)
    refine Or.inr ⟨by simp [PartyTables.insertParty, hf, ht, hr, hnone], fun q' hq' => ?_⟩
    obtain rfl : row = q'.row := Option.some.inj (hr.symm.trans (request_eq_some.1 hq').2.2.1)
    exact ⟨d, hd, hmembers d hd, hrow⟩
  obtain ⟨members', hinsert', hrows'⟩ := Table.insert_of_noClash (t := members)
    (a := (⟨ppid, row⟩ : Member D)) fun d hd h =>
      h.elim (hmembers d hd) fun hrow => hclash ⟨d, hd, hrow⟩
  rcases insertComment_stores (s := { s with party }) (g := g) hcomment with
    ⟨comment, s', hc, hs', hcomments⟩ | ⟨hc, hs'⟩
  · refine Or.inl ⟨⟨validfrom, validto, row, comment⟩, s', members', request_eq_some.2 ⟨hf, ht, hr, hc⟩,
      fun d hd _ hrow => hclash ⟨d, hd, hrow⟩,
      by simp [PartyTables.insertParty, hf, ht, hinsert, hr, hinsert', hs'], ?_, ?_, hcomments.others,
      hcomments.comment, hcomments.partyidSeq⟩
    · intro py
      rw [hcomments.party]
      simp only [hrows, List.mem_append, List.mem_singleton]
      exact or_congr_left (iff_self_and.2 (hparty py))
    · intro d
      simp only [hrows', List.mem_append, List.mem_singleton]
      exact or_congr_left (iff_self_and.2 (hmembers d))
  · refine Or.inr ⟨by simp [PartyTables.insertParty, hf, ht, hinsert, hr, hinsert', hs'], fun q' hq' => ?_⟩
    rw [(request_eq_some.1 hq').2.2.2] at hc
    cases hc

/-- The dates of a party are changed when both are given. -/
theorem updateDates_eq {py₀ : PartyRow} (hpy₀ : py₀ ∈ s.party.rows) (hid₀ : py₀.partyid = ppid) :
    (∃ validfrom validto s', g.validfrom_ = some validfrom ∧ g.validto_ = some validto ∧
      s.updateDates g ppid = some s' ∧ s'.partycomment = s.partycomment ∧ s'.partyidSeq = s.partyidSeq ∧
      ∀ py, py ∈ s'.party.rows ↔
        py ∈ s.party.rows ∧ py.partyid ≠ ppid ∨ py = ⟨ppid, py₀.partytype, validfrom, validto⟩) ∨
    s.updateDates g ppid = none ∧ (g.validfrom_ = none ∨ g.validto_ = none) := by
  unfold PartyTables.updateDates
  cases hf : g.validfrom_ with
  | none =>
    refine Or.inr ⟨?_, Or.inl rfl⟩
    rw [Option.bind_eq_bind, Option.bind_eq_none_iff]
    intro t ht
    have hsome := (Table.updateChecked_eq_some ht).1 py₀ hpy₀ (by simp [hid₀])
    simp at hsome
  | some validfrom =>
  cases ht : g.validto_ with
  | none =>
    refine Or.inr ⟨?_, Or.inr rfl⟩
    rw [Option.bind_eq_bind, Option.bind_eq_none_iff]
    intro t ht
    have hsome := (Table.updateChecked_eq_some ht).1 py₀ hpy₀ (by simp [hid₀])
    simp at hsome
  | some validto =>
  obtain ⟨party, hparty, hrows⟩ := updateChecked_of s.party (p := fun py => py.partyid = ppid)
    (f := fun py => some { py with partyvalidfrom := validfrom, partyvalidto := validto })
    (fun _ _ _ => rfl) fun a _ b _ hab hclash => hab <| by
      unfold Table.updateRow PartyRow.clash at hclash
      split at hclash <;> split at hclash <;> exact hclash
  refine Or.inl ⟨validfrom, validto, { s with party }, rfl, rfl, by simp [hparty], rfl, rfl, fun py => ?_⟩
  simp only [hrows, mem_updated, Option.getD_some, decide_eq_false_iff_not, decide_eq_true_eq]
  refine or_congr_right ⟨?_, ?_⟩
  · rintro ⟨a, ha, hid, rfl⟩
    rw [party_eq ha hpy₀ (hid.trans hid₀.symm), hid₀]
  · rintro rfl
    exact ⟨py₀, hpy₀, hid₀, by rw [hid₀]⟩

/-- The member of a party is replaced when the new row clashes with no other member. -/
theorem updateMembers_eq (hsymm : ∀ a b, clash a b → clash b a) {d₀ : Member D} (hd₀ : d₀ ∈ members.rows)
    (hid₀ : d₀.partyid = ppid) :
    (∃ row members', g.row = some row ∧ (∀ d ∈ members.rows, d.partyid ≠ ppid → ¬ clash d.row row) ∧
      updateMembers members g ppid = some members' ∧
      ∀ d, d ∈ members'.rows ↔ d ∈ members.rows ∧ d.partyid ≠ ppid ∨ d = ⟨ppid, row⟩) ∨
    updateMembers members g ppid = none ∧
      ∀ row, g.row = some row → ∃ d ∈ members.rows, d.partyid ≠ ppid ∧ clash d.row row := by
  unfold updateMembers
  cases hr : g.row with
  | none =>
    refine Or.inr ⟨?_, fun _ h => by cases h⟩
    rw [Option.eq_none_iff_forall_ne_some]
    intro t ht
    have hsome := (Table.updateChecked_eq_some ht).1 d₀ hd₀ (by simp [hid₀])
    cases hsome
  | some row =>
  have hmem : ∀ {t : Members D clash}, t.rows = members.rows.map (Table.updateRow (fun d => d.partyid = ppid)
      fun d => ((some row).map fun row => ({ d with row } : Member D)).getD d) → ∀ d, d ∈ t.rows ↔
        d ∈ members.rows ∧ d.partyid ≠ ppid ∨ d = ⟨ppid, row⟩ := by
    intro t ht d
    simp only [ht, mem_updated, Option.map_some, Option.getD_some, decide_eq_false_iff_not, decide_eq_true_eq]
    refine or_congr_right ⟨?_, ?_⟩
    · rintro ⟨a, -, rfl, rfl⟩
      rfl
    · rintro rfl
      exact ⟨d₀, hd₀, hid₀, by rw [hid₀]⟩
  by_cases hclash : ∃ d ∈ members.rows, d.partyid ≠ ppid ∧ clash d.row row
  · refine Or.inr ⟨?_, fun row' hrow' => Option.some.inj hrow' ▸ hclash⟩
    obtain ⟨d, hd, hid, hrow⟩ := hclash
    rw [Option.eq_none_iff_forall_ne_some]
    intro t ht
    -- the two rows would be one
    have hmem' := hmem (Table.updateChecked_eq_some ht).2
    have heq := t.eq_of_clash (fun a b h => h.imp Eq.symm (hsymm _ _)) ((hmem' d).2 (Or.inl ⟨hd, hid⟩))
      ((hmem' _).2 (Or.inr rfl)) (Or.inr hrow)
    exact hid (congrArg Member.partyid heq)
  · obtain ⟨members', hmembers', hrows'⟩ := updateChecked_of members (p := fun d => d.partyid = ppid)
      (f := fun d => (some row).map fun row => { d with row }) (fun _ _ _ => rfl)
      fun a ha b hb hab hclash' => by
        unfold Table.updateRow at hclash'
        simp only [Option.map_some, Option.getD_some, decide_eq_true_eq] at hclash'
        split at hclash' <;> split at hclash'
        · next hida hidb => exact hab (Or.inl (hida.trans hidb.symm))
        · next hida hidb =>
          rcases hclash' with hid | hrow
          · exact hidb (hid.symm.trans hida)
          · exact hclash ⟨b, hb, hidb, hsymm _ _ hrow⟩
        · next hida hidb =>
          rcases hclash' with hid | hrow
          · exact hida (hid.trans hidb)
          · exact hclash ⟨a, ha, hida, hrow⟩
        · exact hab hclash'
    exact Or.inl ⟨row, members', rfl, fun d hd hid hrow => hclash ⟨d, hd, hid, hrow⟩, hmembers', hmem hrows'⟩

theorem updateParty_stores (hs : Sound s) (hk : OfKind s members.rows partytype)
    (hsymm : ∀ a b, clash a b → clash b a) {d₀ : Member D} (hd₀ : d₀ ∈ members.rows) (hid₀ : d₀.partyid = ppid) :
    StoresParty s members partytype ppid (g.request now) (s.updateParty members g ppid now) := by
  obtain ⟨py₀, hpy₀, hpyid₀, rfl⟩ := hk d₀ hd₀
  unfold PartyTables.updateParty
  rcases updateDates_eq (g := g) hpy₀ (hpyid₀.trans hid₀) with
    ⟨validfrom, validto, s₁, hf, ht, hs₁, hcomments₁, hseq₁, hparty⟩ | ⟨hnone, hdates⟩
  swap
  · refine Or.inr ⟨by simp [hnone], fun q' hq' => ?_⟩
    obtain ⟨hf, ht, -⟩ := request_eq_some.1 hq'
    rw [hf, ht] at hdates
    rcases hdates with h | h <;> cases h
  rcases updateMembers_eq (g := g) hsymm hd₀ hid₀ with ⟨row, members', hr, happart, hmembers', hmem⟩ | ⟨hnone, hrow⟩
  swap
  · exact Or.inr ⟨by simp [hs₁, hnone], fun q' hq' => hrow _ (request_eq_some.1 hq').2.2.1⟩
  have hsound : Sound s₁ := by
    refine ⟨fun py hpy => ?_, fun pc hpc => ?_, hcomments₁ ▸ hs.once⟩
    · rw [hseq₁]
      rcases (hparty py).1 hpy with ⟨hpy, -⟩ | rfl
      · exact hs.drawn py hpy
      · exact hpyid₀.trans hid₀ ▸ hs.drawn py₀ hpy₀
    · obtain ⟨py, hpy, hid⟩ := hs.refers pc (hcomments₁ ▸ hpc)
      by_cases hppid : py.partyid = ppid
      · exact ⟨_, (hparty _).2 (Or.inr rfl), hppid.symm.trans hid⟩
      · exact ⟨py, (hparty py).2 (Or.inl ⟨hpy, hppid⟩), hid⟩
  have hset : StoresComment s₁ ppid g now (s₁.setComment ppid g.comment_ now) := setComment_stores hsound
  rcases hset with ⟨comment, s', hc, hs', hcomments⟩ | ⟨hc, hs'⟩
  · refine Or.inl ⟨⟨validfrom, validto, row, comment⟩, s', members', request_eq_some.2 ⟨hf, ht, hr, hc⟩,
      happart, by simp [hs₁, hmembers', hs'], fun py => ?_, hmem, ?_, ?_, hcomments.partyidSeq.trans hseq₁⟩
    · rw [hcomments.party]
      exact hparty py
    · exact hcomments₁ ▸ hcomments.others
    · exact hcomments₁ ▸ hcomments.comment
  · refine Or.inr ⟨by simp [hs₁, hmembers', hs'], fun q' hq' => ?_⟩
    rw [(request_eq_some.1 hq').2.2.2] at hc
    cases hc

end Calls

end Wdb.Party
