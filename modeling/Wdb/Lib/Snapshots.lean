import Wdb.Lib.Mvcc

/-! What a transaction sees of a table with versions, as a list of rows.

    The rows that a transaction sees are those that will be committed once it commits. What another
    transaction inserts, deletes or undoes is not seen; what another one commits is. -/

namespace Mvcc

variable {α : Type*}

/-- The rows that a transaction sees. -/
def seen (t : List (Version α)) (xid : ℕ) : List α := (t.filter fun v => v.visible xid).map (·.row)

/-- The transaction has inserted and deleted nothing that is not settled. -/
def Untouched (t : List (Version α)) (xid : ℕ) : Prop :=
  ∀ v ∈ t, v.xmin ≠ some xid ∧ v.xmax ≠ some xid

section Lemmas
variable {t : List (Version α)} {xid other : ℕ} {v : Version α} {a : α} {p : α → Bool}

theorem visible_iff :
    v.visible xid = true ↔ (v.xmin = none ∨ v.xmin = some xid) ∧ v.xmax ≠ some xid := by
  simp [Version.visible]

theorem mem_seen : a ∈ seen t xid ↔ ∃ v ∈ t, v.visible xid = true ∧ v.row = a := by
  simp [seen, and_assoc]

/-- Two lists of versions, of which the same ones are kept with the same rows. -/
theorem map_filter_map {f : Version α → Version α} {P Q : Version α → Bool} (hP : ∀ v ∈ t, P (f v) = Q v)
    (hrow : ∀ v, (f v).row = v.row) : ((t.map f).filter P).map (·.row) = (t.filter Q).map (·.row) := by
  have hfilter : t.filter (P ∘ f) = t.filter Q := List.filter_congr hP
  rw [List.filter_map, List.map_map, hfilter]
  exact List.map_congr_left fun v _ => hrow v

/-! ### What is inserted -/

theorem committed_insert : committed (insert t xid a) = committed t := by
  simp [committed, insert]

theorem seen_insert_self : seen (insert t xid a) xid = seen t xid ++ [a] := by
  simp [seen, insert, Version.visible]

theorem seen_insert_other (h : other ≠ xid) : seen (insert t xid a) other = seen t other := by
  simp [seen, insert, Version.visible, Ne.symm h]

/-! ### What is deleted -/

theorem row_delete (v : Version α) :
    (if selects xid p v then { v with xmax := some xid } else v).row = v.row := by
  split <;> rfl

theorem committed_delete : committed (delete t xid p) = committed t := by
  refine map_filter_map (fun v _ => ?_) row_delete
  split <;> rfl

theorem seen_delete_self :
    seen (delete t xid p) xid = (seen t xid).filter fun a => !p a := by
  have hmap : seen (delete t xid p) xid = (t.filter fun v => v.visible xid && !p v.row).map (·.row) := by
    refine map_filter_map (fun v _ => ?_) row_delete
    by_cases hv : v.visible xid = true
    · by_cases hp : p v.row = true
      · rw [if_pos (selects_iff.2 ⟨hv, hp⟩), hp]
        simp [Version.visible]
      · rw [if_neg fun h => hp (selects_iff.1 h).2, hv]
        simp [hp]
    · have hfalse : v.visible xid = false := by simpa using hv
      rw [if_neg fun h => hv (selects_iff.1 h).1, hfalse, Bool.false_and]
  rw [hmap, seen, List.filter_map, List.filter_filter]
  simp only [Function.comp_apply, Bool.and_comm]

/-- The versions that another transaction deletes are still seen. -/
theorem seen_delete_other (hfree : Free t xid p) (h : other ≠ xid) :
    seen (delete t xid p) other = seen t other := by
  refine map_filter_map (fun v hv => ?_) row_delete
  split
  · next hsel =>
    have hmax := hfree v hv hsel
    rw [Bool.eq_iff_iff, visible_iff, visible_iff]
    simp [hmax, Ne.symm h]
  · rfl

/-! ### What is settled -/

/-- What a transaction has seen is committed with it. -/
theorem committed_commit : committed (commit t xid) = seen t xid := by
  have hmap : committed (commit t xid) =
      ((t.filter fun v => v.xmax ≠ some xid).filter fun v => v.xmin = none ∨ v.xmin = some xid).map
        (·.row) := by
    refine map_filter_map (fun v _ => ?_) fun v => ?_
    · by_cases hv : v.xmin = some xid <;> simp [hv]
    · split <;> rfl
  rw [hmap, List.filter_filter, seen]
  congr 1
  refine List.filter_congr fun v _ => ?_
  simp [Version.visible]

theorem committed_abort : committed (abort t xid) = committed t := by
  have hmap : committed (abort t xid) =
      ((t.filter fun v => v.xmin ≠ some xid).filter fun v => v.xmin = none).map (·.row) := by
    refine map_filter_map (fun v _ => ?_) fun v => ?_ <;> split <;> rfl
  rw [hmap, List.filter_filter, committed]
  congr 1
  refine List.filter_congr fun v _ => ?_
  cases hv : v.xmin <;> simp

theorem seen_abort_other (h : other ≠ xid) : seen (abort t xid) other = seen t other := by
  have hmap : seen (abort t xid) other =
      ((t.filter fun v => v.xmin ≠ some xid).filter fun v => v.visible other).map (·.row) := by
    refine map_filter_map (fun v _ => ?_) fun v => ?_
    · split
      · next hv =>
        rw [Bool.eq_iff_iff, visible_iff, visible_iff]
        simp [hv, Ne.symm h]
      · rfl
    · split <;> rfl
  rw [hmap, List.filter_filter, seen]
  congr 1
  refine List.filter_congr fun v _ => ?_
  rw [Bool.eq_iff_iff, Bool.and_eq_true, visible_iff, decide_eq_true_eq, and_iff_left_iff_imp]
  rintro ⟨hmin, _⟩ hxid
  rcases hmin with hmin | hmin
  · rw [hmin] at hxid
    cases hxid
  · rw [hmin] at hxid
    exact h (Option.some_inj.1 hxid)

/-- Nothing is committed of a transaction that has changed nothing. -/
theorem commit_eq_self (h : Untouched t xid) : commit t xid = t := by
  have hall : (t.filter fun v => v.xmax ≠ some xid) = t :=
    List.filter_eq_self.2 fun v hv => decide_eq_true (h v hv).2
  rw [commit, hall, List.map_congr_left fun v hv => if_neg (h v hv).1, List.map_id']

/-- One that has inserted nothing sees a part of what is committed. -/
theorem seen_sublist (h : ∀ v ∈ t, v.xmin ≠ some xid) :
    (seen t xid).Sublist (committed t) := by
  refine List.Sublist.map _ ?_
  have hsub : (t.filter fun v => v.visible xid) = (t.filter fun v => v.xmin = none).filter
      fun v => v.visible xid := by
    rw [List.filter_filter]
    refine List.filter_congr fun v hv => ?_
    rw [Bool.eq_iff_iff, Bool.and_eq_true, visible_iff, decide_eq_true_eq]
    have hne := h v hv
    tauto
  rw [hsub]
  exact List.filter_sublist

end Lemmas

end Mvcc
