import Mathlib

/-! Relational tables with unique constraints.

    A table is the list of its rows in heap order. Its type carries a relation `clash a b`: the rows
    `a` and `b` agree on the columns of some unique index. The constraint is a field of the table, so
    that a table that breaks it cannot be built. `INSERT` is refused on a clash; `DELETE` and an
    `UPDATE` that leaves the indexed columns alone always succeed. -/

namespace Relational

/-- A table whose rows respect a unique constraint pairwise. -/
structure Table (α : Type*) (clash : α → α → Prop) where
  rows : List α
  unique : rows.Pairwise fun a b => ¬ clash a b

namespace Table

variable {α : Type*} {clash : α → α → Prop}

/-- The table without rows. -/
def empty : Table α clash := ⟨[], List.Pairwise.nil⟩

/-- `INSERT`: refused when a stored row clashes with the new one. -/
def insert [DecidableRel clash] (t : Table α clash) (a : α) : Option (Table α clash) :=
  if h : ∀ b ∈ t.rows, ¬ clash b a then
    some ⟨t.rows ++ [a], List.pairwise_append.2
      ⟨t.unique, List.pairwise_singleton _ _, by simpa using h⟩⟩
  else none

/-- `DELETE … WHERE p`. -/
def delete (t : Table α clash) (p : α → Bool) : Table α clash :=
  ⟨t.rows.filter fun a => !p a, t.unique.filter _⟩

/-- One row of `UPDATE … SET f WHERE p`. -/
def updateRow (p : α → Bool) (f : α → α) (a : α) : α := if p a then f a else a

/-- `UPDATE … SET f WHERE p`, for an `f` that leaves the indexed columns alone. -/
def update (t : Table α clash) (p : α → Bool) (f : α → α)
    (hl : ∀ a b, clash (f a) b → clash a b) (hr : ∀ a b, clash a (f b) → clash a b) :
    Table α clash :=
  ⟨t.rows.map (updateRow p f), by
    rw [List.pairwise_map]
    refine t.unique.imp fun {a b} hab hc => hab ?_
    have hleft : clash a (updateRow p f b) := by
      revert hc; unfold updateRow; split
      · exact hl a _
      · exact id
    revert hleft; unfold updateRow; split
    · exact hr a b
    · exact id⟩

/-- `UPDATE … SET f WHERE p`, for any `f`: refused when a check fails for a row (`none`), or when two
    rows clash afterwards. -/
def updateChecked [DecidableRel clash] (t : Table α clash) (p : α → Bool) (f : α → Option α) :
    Option (Table α clash) :=
  if h : (∀ a ∈ t.rows, p a → (f a).isSome) ∧
      (t.rows.map (updateRow p fun a => (f a).getD a)).Pairwise fun a b => ¬ clash a b then
    some ⟨t.rows.map (updateRow p fun a => (f a).getD a), h.2⟩
  else none

@[simp] theorem empty_rows : (empty : Table α clash).rows = [] := rfl

@[simp] theorem delete_rows (t : Table α clash) (p : α → Bool) :
    (t.delete p).rows = t.rows.filter fun a => !p a := rfl

@[simp] theorem update_rows (t : Table α clash) (p : α → Bool) (f : α → α) (hl hr) :
    (t.update p f hl hr).rows = t.rows.map (updateRow p f) := rfl

/-- What a successful `INSERT` did. -/
theorem insert_eq_some [DecidableRel clash] {t t' : Table α clash} {a : α}
    (h : t.insert a = some t') : (∀ b ∈ t.rows, ¬ clash b a) ∧ t'.rows = t.rows ++ [a] := by
  unfold insert at h
  split at h
  · next hc => cases h; exact ⟨hc, rfl⟩
  · cases h

/-- An `INSERT` that clashes with no stored row succeeds. -/
theorem insert_of_noClash [DecidableRel clash] {t : Table α clash} {a : α}
    (h : ∀ b ∈ t.rows, ¬ clash b a) : ∃ t', t.insert a = some t' ∧ t'.rows = t.rows ++ [a] := by
  unfold insert
  rw [dif_pos h]
  exact ⟨_, rfl, rfl⟩

/-- An `INSERT` that clashes with a stored row is refused. -/
theorem insert_of_clash [DecidableRel clash] {t : Table α clash} {a b : α}
    (hb : b ∈ t.rows) (h : clash b a) : t.insert a = none := by
  unfold insert
  rw [dif_neg fun hall => hall b hb h]

/-- What a successful checked `UPDATE` did. -/
theorem updateChecked_eq_some [DecidableRel clash] {t t' : Table α clash} {p : α → Bool}
    {f : α → Option α} (h : t.updateChecked p f = some t') :
    (∀ a ∈ t.rows, p a → (f a).isSome) ∧
      t'.rows = t.rows.map (updateRow p fun a => (f a).getD a) := by
  unfold updateChecked at h
  split at h
  · next hc => cases h; exact ⟨hc.1, rfl⟩
  · cases h

/-- Two stored rows that clash are one row. -/
theorem eq_of_clash (hs : ∀ a b, clash a b → clash b a) (t : Table α clash) {a b : α}
    (ha : a ∈ t.rows) (hb : b ∈ t.rows) (h : clash a b) : a = b := by
  by_contra hne
  have hsym : Std.Symm fun a b => ¬ clash a b := ⟨fun a b hn hc => hn (hs b a hc)⟩
  exact t.unique.forall ha hb hne h

/-- When every row clashes with itself, no row is stored twice. -/
theorem nodup (hr : ∀ a, clash a a) (t : Table α clash) : t.rows.Nodup :=
  t.unique.imp fun {a b} h (he : a = b) => h (he ▸ hr a)

/-- In a list without repetitions, a symmetric relation holds pairwise when it holds of any two
    different elements. -/
theorem pairwise_iff_of_nodup {l : List α} (hn : l.Nodup) {R : α → α → Prop}
    (hs : ∀ a b, R a b → R b a) : l.Pairwise R ↔ ∀ a ∈ l, ∀ b ∈ l, a ≠ b → R a b := by
  have hsym : Std.Symm R := ⟨hs⟩
  refine hn.pairwise_coe.symm.trans ⟨fun h a ha b hb hne => h ha hb hne, ?_⟩
  exact fun h a ha b hb hne => h a ha b hb hne

/-- The only row that meets a condition. -/
theorem filter_eq_singleton {l : List α} {p : α → Bool} {a : α} (hn : l.Nodup) (ha : a ∈ l)
    (hp : p a = true) (huniq : ∀ b ∈ l, p b = true → b = a) : l.filter p = [a] := by
  have hmem : ∀ b ∈ l.filter p, b = a := fun b hb =>
    huniq b (List.mem_of_mem_filter hb) (List.mem_filter.1 hb).2
  have hperm := (List.perm_ext_iff_of_nodup (hn.filter p) (List.nodup_singleton a)).2 fun b =>
    ⟨fun hb => List.mem_singleton.2 (hmem b hb),
      fun hb => List.mem_filter.2 (by rw [List.mem_singleton.1 hb]; exact ⟨ha, hp⟩)⟩
  exact List.perm_singleton.1 hperm

/-- The row that is found by a key that no two rows share. -/
theorem find?_key_eq_some {κ : Type*} [DecidableEq κ] {f : α → κ} (hs : ∀ a b, clash a b → clash b a)
    (hkey : ∀ a b, f a = f b → clash a b) (t : Table α clash) {k : κ} {a : α} :
    t.rows.find? (fun b => f b = k) = some a ↔ a ∈ t.rows ∧ f a = k := by
  constructor
  · intro h
    exact ⟨List.mem_of_find?_eq_some h, by simpa using List.find?_some h⟩
  · rintro ⟨ha, rfl⟩
    obtain ⟨b, hb⟩ := Option.isSome_iff_exists.1
      (List.find?_isSome (p := fun b => decide (f b = f a)) |>.2 ⟨a, ha, by simp⟩)
    have hbkey : f b = f a := by simpa using List.find?_some hb
    rw [hb, t.eq_of_clash hs (List.mem_of_find?_eq_some hb) ha (hkey b a hbkey)]

theorem mem_delete {t : Table α clash} {p : α → Bool} {a : α} :
    a ∈ (t.delete p).rows ↔ a ∈ t.rows ∧ p a = false := by
  simp

end Table

/-- Among the elements of a list that meet a condition, one has the greatest value. -/
theorem exists_greatest {α : Type*} (f : α → ℤ) {l : List α} {p : α → Prop}
    (h : ∃ a ∈ l, p a) : ∃ a ∈ l, p a ∧ ∀ b ∈ l, p b → f b ≤ f a := by
  have hfin : {a | a ∈ l ∧ p a}.Finite := l.finite_toSet.subset fun a ha => ha.1
  obtain ⟨a, ⟨ha, hpa⟩, hmax⟩ := Set.exists_max_image _ f hfin h
  exact ⟨a, ha, hpa, fun b hb hpb => hmax b ⟨hb, hpb⟩⟩

end Relational
