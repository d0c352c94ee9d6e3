import Mathlib

/-! Grouped queries: `SELECT key, min(low), max(high), count(*) FROM … GROUP BY key`.

    The rows of a table are a list. A grouped query gives one row for each key that occurs; joining
    the grouped queries of two tables with `UNION ALL` does the same for the rows of both exactly when
    no key occurs in both. -/

namespace Grouping

/-- The select list of a grouped query: the grouping columns, and the columns whose minimum and maximum
    are asked for. -/
structure SelectList (α κ ρ : Type) where
  key : α → κ
  low : α → ρ
  high : α → ρ

/-- A row of the result. -/
structure Group (κ ρ : Type) where
  key : κ
  low : ρ
  high : ρ
  count : ℕ
  deriving DecidableEq

section Queries
variable {α κ ρ : Type} [DecidableEq κ] (q : SelectList α κ ρ) (rows : List α)

/-- The rows with a key. -/
def SelectList.members (k : κ) : List α := rows.filter fun a => q.key a = k

variable [LinearOrder ρ]

/-- The row of a key, if it occurs. -/
def SelectList.group (k : κ) : Option (Group κ ρ) :=
  ((q.members rows k).map q.low).min?.bind fun low =>
  ((q.members rows k).map q.high).max?.map fun high => ⟨k, low, high, (q.members rows k).length⟩

/-- The result: one row for every key, in the order in which the keys come last. -/
def SelectList.groupBy : List (Group κ ρ) := (rows.map q.key).dedup.filterMap (q.group rows)

/-- A row that says how often its key occurs, and within which bounds, all of them attained. -/
structure SelectList.Describes (g : Group κ ρ) : Prop where
  count : g.count = (q.members rows g.key).length
  low_mem : ∃ a ∈ q.members rows g.key, q.low a = g.low
  low_le : ∀ a ∈ q.members rows g.key, g.low ≤ q.low a
  high_mem : ∃ a ∈ q.members rows g.key, q.high a = g.high
  le_high : ∀ a ∈ q.members rows g.key, q.high a ≤ g.high

/-- A result that has every key once, with its description. -/
structure SelectList.Summarises (result : List (Group κ ρ)) : Prop where
  once : (result.map Group.key).Nodup
  all : ∀ a ∈ rows, q.key a ∈ result.map Group.key
  describes : ∀ g ∈ result, q.Describes rows g

end Queries

section Members
variable {α κ ρ : Type} [DecidableEq κ] {q : SelectList α κ ρ} {rows r s : List α}

theorem SelectList.mem_members {k : κ} {a : α} : a ∈ q.members rows k ↔ a ∈ rows ∧ q.key a = k := by
  simp [members]

theorem SelectList.members_append (k : κ) :
    q.members (r ++ s) k = q.members r k ++ q.members s k := List.filter_append _ _

variable (rows) in
/-- A key that does not occur has no members. -/
theorem SelectList.members_eq_nil {k : κ} (h : ∀ a ∈ rows, q.key a ≠ k) : q.members rows k = [] :=
  List.filter_eq_nil_iff.2 fun a ha => by simpa using h a ha

end Members

section Lemmas
variable {α κ ρ : Type} [DecidableEq κ] [LinearOrder ρ] {q : SelectList α κ ρ} {rows r s : List α}

/-- The row of a key describes it. -/
theorem SelectList.group_describes {k : κ} {g : Group κ ρ} (h : q.group rows k = some g) :
    g.key = k ∧ q.Describes rows g := by
  obtain ⟨low, hlow, h⟩ := Option.bind_eq_some_iff.1 h
  obtain ⟨high, hhigh, rfl⟩ := Option.map_eq_some_iff.1 h
  obtain ⟨hlow, hle⟩ := List.min?_eq_some_iff.1 hlow
  obtain ⟨hhigh, hge⟩ := List.max?_eq_some_iff.1 hhigh
  exact ⟨rfl, rfl, List.mem_map.1 hlow, fun a ha => hle _ (List.mem_map_of_mem ha),
    List.mem_map.1 hhigh, fun a ha => hge _ (List.mem_map_of_mem ha)⟩

/-- A key that occurs has a row. -/
theorem SelectList.exists_group {a : α} (ha : a ∈ rows) : ∃ g, q.group rows (q.key a) = some g := by
  have hmem : a ∈ q.members rows (q.key a) := mem_members.2 ⟨ha, rfl⟩
  cases hlow : ((q.members rows (q.key a)).map q.low).min? with
  | none =>
    rw [List.min?_eq_none_iff, List.map_eq_nil_iff] at hlow
    rw [hlow] at hmem
    cases hmem
  | some low =>
    cases hhigh : ((q.members rows (q.key a)).map q.high).max? with
    | none =>
      rw [List.max?_eq_none_iff, List.map_eq_nil_iff] at hhigh
      rw [hhigh] at hmem
      cases hmem
    | some high =>
      unfold group
      rw [hlow, hhigh]
      exact ⟨_, rfl⟩

theorem SelectList.mem_groupBy {g : Group κ ρ} :
    g ∈ q.groupBy rows ↔ ∃ a ∈ rows, q.group rows (q.key a) = some g := by
  simp [groupBy]

/-- The keys of the result are the keys that occur. -/
theorem SelectList.keys_groupBy : (q.groupBy rows).map Group.key = (rows.map q.key).dedup := by
  have h : ∀ l : List κ, (∀ k ∈ l, k ∈ rows.map q.key) →
      (l.filterMap (q.group rows)).map Group.key = l := by
    intro l hl
    induction l with
    | nil => rfl
    | cons k l ih =>
      obtain ⟨a, ha, rfl⟩ := List.mem_map.1 (hl k List.mem_cons_self)
      obtain ⟨g, hg⟩ := exists_group (q := q) ha
      rw [List.filterMap_cons, hg]
      simp only [List.map_cons, (group_describes hg).1]
      rw [ih fun k hk => hl k (List.mem_cons_of_mem _ hk)]
  exact h _ fun k hk => List.mem_dedup.1 hk

/-- A grouped query summarises its rows. -/
theorem SelectList.summarises_groupBy (q : SelectList α κ ρ) (rows : List α) :
    q.Summarises rows (q.groupBy rows) := by
  refine ⟨?_, fun a ha => ?_, fun g hg => ?_⟩
  · rw [keys_groupBy]
    exact List.nodup_dedup _
  · rw [keys_groupBy, List.mem_dedup]
    exact List.mem_map_of_mem ha
  · obtain ⟨a, _, hg⟩ := mem_groupBy.1 hg
    exact (group_describes hg).2

/-- A row describes a key in two lists as well as in one when the other has no member. -/
theorem SelectList.Describes.congr {g : Group κ ρ} (h : q.Describes r g)
    (hmembers : q.members s g.key = q.members r g.key) : q.Describes s g := by
  constructor
  · rw [hmembers]; exact h.count
  · rw [hmembers]; exact h.low_mem
  · rw [hmembers]; exact h.low_le
  · rw [hmembers]; exact h.high_mem
  · rw [hmembers]; exact h.le_high

/-- Two grouped queries joined by `UNION ALL` summarise the rows of both exactly when these have no key
    in common. -/
theorem SelectList.unionAll_iff (q : SelectList α κ ρ) (r s : List α) :
    q.Summarises (r ++ s) (q.groupBy r ++ q.groupBy s) ↔ ∀ a ∈ r, ∀ b ∈ s, q.key a ≠ q.key b := by
  constructor
  · intro h a ha b hb hab
    have hnodup := h.once
    rw [List.map_append, keys_groupBy, keys_groupBy] at hnodup
    refine List.disjoint_of_nodup_append hnodup
      (List.mem_dedup.2 (List.mem_map_of_mem ha)) (List.mem_dedup.2 ?_)
    rw [hab]
    exact List.mem_map_of_mem hb
  · intro h
    have hr := q.summarises_groupBy r
    have hs := q.summarises_groupBy s
    refine ⟨?_, fun a ha => ?_, fun g hg => ?_⟩
    · rw [List.map_append, List.nodup_append]
      refine ⟨hr.once, hs.once, ?_⟩
      rw [keys_groupBy, keys_groupBy]
      intro k hk l hl
      obtain ⟨a, ha, rfl⟩ := List.mem_map.1 (List.mem_dedup.1 hk)
      obtain ⟨b, hb, rfl⟩ := List.mem_map.1 (List.mem_dedup.1 hl)
      exact h a ha b hb
    · rw [List.map_append, List.mem_append]
      rcases List.mem_append.1 ha with ha | ha
      · exact Or.inl (hr.all a ha)
      · exact Or.inr (hs.all a ha)
    · rcases List.mem_append.1 hg with hg | hg
      · have hd := hr.describes g hg
        obtain ⟨a, ha, _⟩ := hd.low_mem
        obtain ⟨ha, hk⟩ := mem_members.1 ha
        refine hd.congr ?_
        rw [members_append, members_eq_nil s, List.append_nil]
        intro b hb hbk
        exact h a ha b hb (hk.trans hbk.symm)
      · have hd := hs.describes g hg
        obtain ⟨b, hb, _⟩ := hd.low_mem
        obtain ⟨hb, hk⟩ := mem_members.1 hb
        refine hd.congr ?_
        rw [members_append, members_eq_nil r, List.nil_append]
        intro a ha hak
        exact h a ha b hb (hak.trans hk.symm)

end Lemmas

end Grouping
