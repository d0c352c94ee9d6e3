import Mathlib

/-! An ordered map over a comparison that can go wrong.

    The entries stand in the order of the comparison. A key is looked up at its lower bound: the first
    entry that is not before the key is its own, unless the key is before it. Where the comparison is
    that of positions in a linear order, different for different keys, the map is a function of them. -/

namespace OrderedMap

variable {κ υ ο : Type*}

/-- The value at a key; nothing at all when a comparison goes wrong. -/
def find (lt : κ → κ → Option Bool) (k : κ) : List (κ × υ) → Option (Option υ)
  | [] => some none
  | (k', v) :: m => (lt k' k).bind fun before =>
    if before then find lt k m
    else (lt k k').map fun after => if after then none else some v

/-- The map after an assignment: the entry of the key is changed, or a new one is put in front of its
    lower bound. -/
def assign (lt : κ → κ → Option Bool) (k : κ) (v : υ) : List (κ × υ) → Option (List (κ × υ))
  | [] => some [(k, v)]
  | (k', w) :: m => (lt k' k).bind fun before =>
    if before then (assign lt k v m).map ((k', w) :: ·)
    else (lt k k').map fun after => if after then (k, v) :: (k', w) :: m else (k', v) :: m

variable [LinearOrder ο]

/-- On a set of keys the comparison is that of their positions, which are different. -/
structure Orders (lt : κ → κ → Option Bool) (pos : κ → ο) (S : Set κ) : Prop where
  lt_eq : ∀ a ∈ S, ∀ b ∈ S, lt a b = some (decide (pos a < pos b))
  injOn : Set.InjOn pos S

/-- The entries have keys of the set, and stand in the order of their positions. -/
structure Sorted (pos : κ → ο) (S : Set κ) (m : List (κ × υ)) : Prop where
  keys : ∀ e ∈ m, e.1 ∈ S
  sorted : m.Pairwise fun a b => pos a.1 < pos b.1

/-- The map is a given function of the keys of the set. -/
structure Represents (pos : κ → ο) (S : Set κ) (m : List (κ × υ)) (f : κ → Option υ) : Prop
    extends Sorted pos S m where
  value : ∀ k ∈ S, ∀ v, f k = some v ↔ (k, v) ∈ m

section Maps
variable {lt : κ → κ → Option Bool} {pos : κ → ο} {S : Set κ} {k : κ} {v : υ} {m : List (κ × υ)}

theorem Sorted.tail {e : κ × υ} (h : Sorted pos S (e :: m)) : Sorted pos S m :=
  ⟨fun e' he' => h.keys e' (List.mem_cons_of_mem _ he'), h.sorted.of_cons⟩

theorem Sorted.head_lt {e e' : κ × υ} (h : Sorted pos S (e :: m)) (he' : e' ∈ m) : pos e.1 < pos e'.1 :=
  List.rel_of_pairwise_cons h.sorted he'

/-- What is found at a key is its entry. -/
theorem Orders.find_eq (ho : Orders lt pos S) (h : Sorted pos S m) (hk : k ∈ S) :
    ∃ o, find lt k m = some o ∧ ∀ v, o = some v ↔ (k, v) ∈ m := by
  induction m with
  | nil => exact ⟨none, rfl, by simp⟩
  | cons e m ih =>
    obtain ⟨k', w⟩ := e
    have hk' : k' ∈ S := h.keys _ List.mem_cons_self
    have habove : ∀ v, (k, v) ∈ m → pos k' < pos k := fun v hv => h.head_lt hv
    rw [find, ho.lt_eq _ hk' _ hk, ho.lt_eq _ hk _ hk']
    rcases lt_trichotomy (pos k') (pos k) with hlt | heq | hgt
    · obtain ⟨o, hfind, ho⟩ := ih h.tail
      refine ⟨o, by simpa [hlt] using hfind, fun v => ?_⟩
      have hne : k ≠ k' := by rintro rfl; exact lt_irrefl _ hlt
      simp [ho v, hne]
    · obtain rfl := ho.injOn hk' hk heq
      refine ⟨some w, by simp, fun v => ?_⟩
      have hnot : (k', v) ∉ m := fun hv => lt_irrefl _ (habove v hv)
      simp [hnot, eq_comm]
    · have hne : k ≠ k' := by rintro rfl; exact lt_irrefl _ hgt
      refine ⟨none, by simp [hgt, hgt.le], fun v => ?_⟩
      have hnot : (k, v) ∉ m := fun hv => lt_asymm hgt (habove v hv)
      simp [hnot, hne]

/-- An assignment replaces the entry of its key and leaves the others. -/
theorem Orders.assign_eq (ho : Orders lt pos S) (h : Sorted pos S m) (hk : k ∈ S) :
    ∃ m', assign lt k v m = some m' ∧ Sorted pos S m' ∧ ∀ e, e ∈ m' ↔ e = (k, v) ∨ e ∈ m ∧ e.1 ≠ k := by
  induction m with
  | nil => exact ⟨[(k, v)], rfl, ⟨by simpa using hk, by simp⟩, by simp⟩
  | cons e m ih =>
    obtain ⟨k', w⟩ := e
    have hk' : k' ∈ S := h.keys _ List.mem_cons_self
    have habove : ∀ e ∈ m, pos k' < pos e.1 := fun e he => h.head_lt he
    rw [assign, ho.lt_eq _ hk' _ hk, ho.lt_eq _ hk _ hk']
    rcases lt_trichotomy (pos k') (pos k) with hlt | heq | hgt
    · obtain ⟨m', hassign, hs, hmem⟩ := ih h.tail
      refine ⟨(k', w) :: m', by simp [hlt, hassign],
        ⟨?_, List.pairwise_cons.2 ⟨fun e he => ?_, hs.sorted⟩⟩, ?_⟩
      · intro e he
        rcases List.mem_cons.1 he with rfl | he
        · exact hk'
        · exact hs.keys e he
      · rcases (hmem e).1 he with rfl | ⟨he, -⟩
        · exact hlt
        · exact habove e he
      · intro e
        have hne : k' ≠ k := by rintro rfl; exact lt_irrefl _ hlt
        rw [List.mem_cons, List.mem_cons, hmem]
        constructor
        · rintro (rfl | rfl | ⟨he, hek⟩)
          · exact Or.inr ⟨Or.inl rfl, hne⟩
          · exact Or.inl rfl
          · exact Or.inr ⟨Or.inr he, hek⟩
        · rintro (rfl | ⟨rfl | he, hek⟩)
          · exact Or.inr (Or.inl rfl)
          · exact Or.inl rfl
          · exact Or.inr (Or.inr ⟨he, hek⟩)
    · obtain rfl := ho.injOn hk' hk heq
      refine ⟨(k', v) :: m, by simp, ⟨?_, List.pairwise_cons.2 ⟨habove, h.sorted.of_cons⟩⟩, ?_⟩
      · intro e he
        rcases List.mem_cons.1 he with rfl | he
        · exact hk'
        · exact h.tail.keys e he
      · intro e
        rw [List.mem_cons, List.mem_cons]
        have hne : e ∈ m → e.1 ≠ k' := by rintro he rfl; exact lt_irrefl _ (habove e he)
        constructor
        · rintro (rfl | he)
          · exact Or.inl rfl
          · exact Or.inr ⟨Or.inr he, hne he⟩
        · rintro (rfl | ⟨rfl | he, hek⟩)
          · exact Or.inl rfl
          · exact absurd rfl hek
          · exact Or.inr he
    · refine ⟨(k, v) :: (k', w) :: m, by simp [hgt, hgt.le],
        ⟨?_, List.pairwise_cons.2 ⟨?_, h.sorted⟩⟩, ?_⟩
      · intro e he
        rcases List.mem_cons.1 he with rfl | he
        · exact hk
        · exact h.keys e he
      · intro e he
        rcases List.mem_cons.1 he with rfl | he
        · exact hgt
        · exact hgt.trans (habove e he)
      · intro e
        have hne : e ∈ (k', w) :: m → e.1 ≠ k := by
          rintro he rfl
          rcases List.mem_cons.1 he with rfl | he
          · exact lt_irrefl _ hgt
          · exact lt_asymm hgt (habove e he)
        rw [List.mem_cons]
        exact ⟨fun he => he.imp_right fun he => ⟨he, hne he⟩, fun he => he.imp_right fun he => he.1⟩

theorem represents_nil : Represents (υ := υ) pos S [] fun _ => none :=
  ⟨⟨by simp, List.Pairwise.nil⟩, by simp⟩

variable {f : κ → Option υ}

theorem Orders.find_represents (ho : Orders lt pos S) (h : Represents pos S m f) (hk : k ∈ S) :
    find lt k m = some (f k) := by
  obtain ⟨o, hfind, hval⟩ := ho.find_eq h.toSorted hk
  rw [hfind, Option.some_inj]
  exact Option.ext fun v => (hval v).trans (h.value k hk v).symm

theorem Orders.assign_represents [DecidableEq κ] (ho : Orders lt pos S) (h : Represents pos S m f)
    (hk : k ∈ S) :
    ∃ m', assign lt k v m = some m' ∧ Represents pos S m' (Function.update f k (some v)) := by
  obtain ⟨m', hassign, hs, hmem⟩ := ho.assign_eq (v := v) h.toSorted hk
  refine ⟨m', hassign, hs, fun k' hk' w => ?_⟩
  rw [hmem]
  rcases eq_or_ne k' k with rfl | hne
  · simp [eq_comm]
  · simp [hne, h.value k' hk' w]

end Maps

end OrderedMap
