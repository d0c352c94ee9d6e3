import Mathlib

/-! Tables whose rows have versions, and references between them that no constraint keeps.

    A version knows the open transaction that inserted it and the open transaction that deleted it. A
    transaction sees what is committed and what it did itself. `commit` and `abort` settle the versions
    of one transaction in a table.

    A version `r` supports a version `v` when it is there wherever `v` is: it is committed or of the
    same transaction, and whoever deletes it deletes `v` too. As long as every version of one table has
    its support in another, every committed row has a committed row, whatever commits or aborts. -/

namespace Mvcc

/-- A version of a row. -/
structure Version (α : Type*) where
  row : α
  xmin : Option ℕ
  xmax : Option ℕ
  deriving DecidableEq

variable {α β : Type*}

/-- What a transaction sees. -/
def Version.visible (v : Version α) (xid : ℕ) : Bool :=
  (v.xmin = none ∨ v.xmin = some xid) ∧ v.xmax ≠ some xid

section Statements
variable (t : List (Version α)) (xid : ℕ)

/-- `INSERT`. -/
def insert (a : α) : List (Version α) := t ++ [⟨a, some xid, none⟩]

/-- The versions that a `DELETE` or an `UPDATE` is about. -/
def selects (p : α → Bool) (v : Version α) : Bool := v.visible xid && p v.row

/-- No other transaction has locked a version that is selected. While one has, the statement waits. -/
def Free (p : α → Bool) : Prop := ∀ v ∈ t, selects xid p v → v.xmax = none

instance (p : α → Bool) : Decidable (Free t xid p) := inferInstanceAs (Decidable (∀ v ∈ _, _))

/-- `DELETE … WHERE p`. -/
def delete (p : α → Bool) : List (Version α) :=
  t.map fun v => if selects xid p v then { v with xmax := some xid } else v

/-- `UPDATE … SET f WHERE p`: the selected versions are deleted, and new ones are inserted. -/
def update (p : α → Bool) (f : α → α) : List (Version α) :=
  delete t xid p ++ (t.filter (selects xid p)).map fun v => ⟨f v.row, some xid, none⟩

/-- What a transaction did becomes visible. -/
def commit : List (Version α) :=
  (t.filter fun v => v.xmax ≠ some xid).map fun v =>
    if v.xmin = some xid then { v with xmin := none } else v

/-- What a transaction did is undone. -/
def abort : List (Version α) :=
  (t.filter fun v => v.xmin ≠ some xid).map fun v =>
    if v.xmax = some xid then { v with xmax := none } else v

/-- The rows that are committed. -/
def committed : List α := (t.filter fun v => v.xmin = none).map (·.row)

end Statements

section Lemmas
variable {t : List (Version α)} {xid : ℕ} {v : Version α}

theorem selects_iff {p : α → Bool} :
    selects xid p v = true ↔ v.visible xid = true ∧ p v.row = true := by
  simp [selects]

theorem mem_insert {a : α} : v ∈ insert t xid a ↔ v ∈ t ∨ v = ⟨a, some xid, none⟩ := by
  simp [insert]

theorem mem_committed {a : α} :
    a ∈ committed t ↔ ∃ v ∈ t, v.xmin = none ∧ v.row = a := by
  simp [committed, and_assoc]

/-- A version after a `DELETE` is one that was not selected, or one that is deleted now. -/
theorem mem_delete {p : α → Bool} : v ∈ delete t xid p ↔
    v ∈ t ∧ ¬ selects xid p v ∨ ∃ u ∈ t, selects xid p u ∧ v = { u with xmax := some xid } := by
  unfold delete
  rw [List.mem_map]
  constructor
  · rintro ⟨u, hu, rfl⟩
    by_cases h : selects xid p u = true
    · rw [if_pos h]; exact Or.inr ⟨u, hu, h, rfl⟩
    · rw [if_neg h]; exact Or.inl ⟨hu, h⟩
  · rintro (⟨hv, h⟩ | ⟨u, hu, h, rfl⟩)
    · exact ⟨v, hv, if_neg h⟩
    · exact ⟨u, hu, if_pos h⟩

theorem mem_commit : v ∈ commit t xid ↔
    ∃ u ∈ t, u.xmax ≠ some xid ∧ v = { u with xmin := if u.xmin = some xid then none else u.xmin } := by
  unfold commit
  simp only [List.mem_map, List.mem_filter, decide_eq_true_eq, and_assoc]
  refine exists_congr fun u => and_congr_right fun _ => and_congr_right fun _ => ?_
  by_cases h : u.xmin = some xid
  · rw [if_pos h, if_pos h]; exact eq_comm
  · rw [if_neg h, if_neg h]; exact eq_comm

theorem mem_abort : v ∈ abort t xid ↔
    ∃ u ∈ t, u.xmin ≠ some xid ∧ v = { u with xmax := if u.xmax = some xid then none else u.xmax } := by
  unfold abort
  simp only [List.mem_map, List.mem_filter, decide_eq_true_eq, and_assoc]
  refine exists_congr fun u => and_congr_right fun _ => and_congr_right fun _ => ?_
  by_cases h : u.xmax = some xid
  · rw [if_pos h, if_pos h]; exact eq_comm
  · rw [if_neg h, if_neg h]; exact eq_comm

end Lemmas

/-- A version that is there wherever the other is. -/
structure Version.Supports (r : Version β) (v : Version α) : Prop where
  xmin : r.xmin = none ∨ r.xmin = v.xmin
  xmax : ∀ xid, r.xmax = some xid → v.xmax = some xid

/-- Every version of `t` has a version of `u` that supports it and stands in the relation. -/
def Supported (R : α → β → Prop) (t : List (Version α)) (u : List (Version β)) : Prop :=
  ∀ v ∈ t, ∃ r ∈ u, R v.row r.row ∧ r.Supports v

namespace Supported
variable {R : α → β → Prop} {t : List (Version α)} {u : List (Version β)} {xid : ℕ}

/-- The committed rows of the one table are in the relation with committed rows of the other. -/
theorem committed (h : Supported R t u) {a : α} (ha : a ∈ committed t) :
    ∃ b ∈ Mvcc.committed u, R a b := by
  obtain ⟨v, hv, hmin, rfl⟩ := mem_committed.1 ha
  obtain ⟨r, hr, hR, hsup⟩ := h v hv
  refine ⟨r.row, mem_committed.2 ⟨r, hr, ?_, rfl⟩, hR⟩
  rcases hsup.xmin with h | h
  · exact h
  · exact h.trans hmin

theorem commit (h : Supported R t u) : Supported R (commit t xid) (Mvcc.commit u xid) := by
  intro w hw
  obtain ⟨v, hv, hmax, rfl⟩ := mem_commit.1 hw
  obtain ⟨r, hr, hR, hsup⟩ := h v hv
  refine ⟨_, mem_commit.2 ⟨r, hr, fun hr => hmax (hsup.xmax _ hr), rfl⟩, hR, ?_, hsup.xmax⟩
  rcases hsup.xmin with hmin | hmin
  · left
    simp [hmin]
  · right
    simp [hmin]

theorem abort (h : Supported R t u) : Supported R (abort t xid) (Mvcc.abort u xid) := by
  intro w hw
  obtain ⟨v, hv, hmin, rfl⟩ := mem_abort.1 hw
  obtain ⟨r, hr, hR, hsup⟩ := h v hv
  have hrmin : r.xmin ≠ some xid := by
    rcases hsup.xmin with h | h
    · rw [h]; exact (Option.some_ne_none xid).symm
    · rw [h]; exact hmin
  refine ⟨_, mem_abort.2 ⟨r, hr, hrmin, rfl⟩, hR, hsup.xmin, fun x hx => ?_⟩
  by_cases hxid : r.xmax = some xid
  · simp [hxid] at hx
  · simp only [if_neg hxid] at hx ⊢
    have hv := hsup.xmax x hx
    have hne : v.xmax ≠ some xid := by rw [hv, ← hx]; exact hxid
    rw [if_neg hne, hv]

/-- A row may be inserted when it has its support. -/
theorem insert {a : α} (h : Supported R t u)
    (ha : ∃ r ∈ u, R a r.row ∧ (r.xmin = none ∨ r.xmin = some xid) ∧ r.xmax = none) :
    Supported R (insert t xid a) u := by
  intro v hv
  rcases mem_insert.1 hv with hv | rfl
  · exact h v hv
  · obtain ⟨r, hr, hR, hmin, hmax⟩ := ha
    exact ⟨r, hr, hR, hmin, fun x hx => by rw [hmax] at hx; cases hx⟩

/-- More versions support more. -/
theorem mono {u' : List (Version β)} (h : Supported R t u) (hu : ∀ r ∈ u, r ∈ u') :
    Supported R t u' := fun v hv =>
  let ⟨r, hr, hR, hsup⟩ := h v hv
  ⟨r, hu r hr, hR, hsup⟩

/-- A row that no other transaction has locked may be deleted. -/
theorem delete {p : α → Bool} (hfree : Free t xid p) (h : Supported R t u) :
    Supported R (delete t xid p) u := by
  intro v hv
  rcases mem_delete.1 hv with ⟨hv, _⟩ | ⟨w, hw, hsel, rfl⟩
  · exact h v hv
  · obtain ⟨r, hr, hR, hsup⟩ := h w hw
    refine ⟨r, hr, hR, hsup.xmin, fun x hx => ?_⟩
    have hmax := hsup.xmax x hx
    rw [hfree w hw hsel] at hmax
    cases hmax

/-- A supporting row may be deleted when every row it supports is deleted by the same transaction. -/
theorem delete_right {p : β → Bool} (hrefs : ∀ v ∈ t, ∀ r ∈ u, R v.row r.row → selects xid p r →
      v.xmax = some xid) (h : Supported R t u) : Supported R t (Mvcc.delete u xid p) := by
  intro v hv
  obtain ⟨r, hr, hR, hsup⟩ := h v hv
  by_cases hsel : selects xid p r = true
  · refine ⟨_, mem_delete.2 (Or.inr ⟨r, hr, hsel, rfl⟩), hR, hsup.xmin, fun x hx => ?_⟩
    rw [← Option.some_inj.1 hx]
    exact hrefs v hv r hr hR hsel
  · exact ⟨r, mem_delete.2 (Or.inl ⟨hr, hsel⟩), hR, hsup⟩

end Supported

end Mvcc
