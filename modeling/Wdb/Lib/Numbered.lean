import Wdb.Lib.Versioned

/-! Rows that are numbered within their keys.

    A writer gives a row the version after the greatest one that it finds of the key, or 0 when it finds
    none, and the store refuses a version that the key has already. If a writer finds all rows of a key
    or none of them, the rows of every key are then numbered from 0 on in the order of the writes, whoever
    writes, and the newest row of a key is the last one. -/

namespace Versioned

variable {α κ : Type*} [DecidableEq κ] (key : α → κ) (version maxVersion : α → ℤ)

/-- The number of rows of a key. -/
def count (l : List α) (k : κ) : ℕ := l.countP fun a => key a = k

/-- The version of every row is the number of rows of its key before it. -/
def Numbered (l : List α) : Prop := ∀ p a q, l = p ++ a :: q → version a = count key p (key a)

/-- The rows that no row of their key follows. -/
def lasts : List α → List α
  | [] => []
  | a :: l => if ∃ b ∈ l, key b = key a then lasts l else a :: lasts l

/-- The versions of a key. -/
def versions (l : List α) (k : κ) : Set ℤ := {n | ∃ a ∈ l, key a = k ∧ version a = n}

variable {key version maxVersion} {l : List α} {k : κ}

theorem count_append (p q : List α) : count key (p ++ q) k = count key p k + count key q k :=
  List.countP_append

theorem count_singleton (a : α) : count key [a] k = if key a = k then 1 else 0 := by
  simp [count, List.countP_singleton]

theorem count_map {f : α → α} (hkey : ∀ a, key (f a) = key a) : count key (l.map f) k = count key l k := by
  simp [count, List.countP_map, Function.comp_def, hkey]

theorem numbered_nil : Numbered key version ([] : List α) := by
  intro p a q h
  cases p <;> cases h

/-- Writing a row. -/
theorem numbered_concat {b : α} : Numbered key version (l ++ [b]) ↔
    Numbered key version l ∧ version b = count key l (key b) := by
  constructor
  · intro h
    refine ⟨fun p a q hl => h p a (q ++ [b]) (by simp [hl]), h l b [] rfl⟩
  · rintro ⟨hl, hb⟩ p a q hsplit
    rcases List.eq_nil_or_concat q with rfl | ⟨q, c, rfl⟩
    · obtain ⟨rfl, hab⟩ := List.append_inj' hsplit rfl
      cases hab
      exact hb
    · rw [List.concat_eq_append, ← List.cons_append, ← List.append_assoc] at hsplit
      exact hl p a q (List.append_inj' hsplit rfl).1

/-- Changing neither keys nor versions. -/
theorem numbered_map {f : α → α} (hkey : ∀ a, key (f a) = key a)
    (hversion : ∀ a, version (f a) = version a) (h : Numbered key version l) :
    Numbered key version (l.map f) := by
  induction l using List.reverseRecOn with
  | nil => exact numbered_nil
  | append_singleton l b ih =>
    obtain ⟨hl, hb⟩ := numbered_concat.1 h
    rw [List.map_append, List.map_singleton, numbered_concat, hkey, hversion, count_map hkey]
    exact ⟨ih hl, hb⟩

/-- A key has the versions from 0 on, as many as it has rows. -/
theorem Numbered.mem_versions (h : Numbered key version l) {n : ℤ} :
    n ∈ versions key version l k ↔ 0 ≤ n ∧ n < count key l k := by
  unfold versions
  rw [Set.mem_ofPred_eq]
  induction l using List.reverseRecOn with
  | nil =>
    simp only [List.not_mem_nil, false_and, exists_false, false_iff, not_and]
    intro hn
    exact not_lt.2 hn
  | append_singleton l b ih =>
    obtain ⟨hl, hb⟩ := numbered_concat.1 h
    have hexists : (∃ a ∈ l ++ [b], key a = k ∧ version a = n) ↔
        (∃ a ∈ l, key a = k ∧ version a = n) ∨ (key b = k ∧ version b = n) := by
      simp [or_and_right, exists_or]
    rw [hexists, ih hl, count_append, count_singleton, hb]
    by_cases hk : key b = k
    · rw [hk, if_pos rfl, eq_self, true_and, Nat.cast_add, Nat.cast_one]
      omega
    · rw [if_neg hk, Nat.add_zero]
      exact or_iff_left fun hbk => hk hbk.1

/-- The greatest version of a key. -/
theorem Numbered.greatest (h : Numbered key version l) {m : ℤ}
    (hm : IsGreatest (versions key version l k) m) : m + 1 = count key l k := by
  have hmem := h.mem_versions.1 hm.1
  have hle := hm.2 (h.mem_versions.2 ⟨by omega, by omega⟩ : (count key l k : ℤ) - 1 ∈ _)
  omega

/-- The version that a writer takes, who finds nothing of a key or all of it, is the number of its rows
    unless the key has it already. -/
theorem Numbered.next (h : Numbered key version l) {found : Option ℤ} {v : ℤ}
    (hfound : ∀ m, found = some m → IsGreatest (versions key version l k) m)
    (hv : v = found.elim 0 (· + 1)) (hfree : v ∉ versions key version l k) : v = count key l k := by
  cases found with
  | none =>
    obtain rfl : v = 0 := hv
    rw [h.mem_versions] at hfree
    omega
  | some m =>
    obtain rfl : v = m + 1 := hv
    exact h.greatest (hfound m rfl)

/-- Later rows of a key have higher versions. -/
theorem Numbered.pairwise (h : Numbered key version l) :
    l.Pairwise fun a b => key a = key b → version a < version b := by
  induction l using List.reverseRecOn with
  | nil => exact List.Pairwise.nil
  | append_singleton l b ih =>
    obtain ⟨hl, hb⟩ := numbered_concat.1 h
    refine List.pairwise_append.2 ⟨ih hl, List.pairwise_singleton _ _, fun a ha c hc hac => ?_⟩
    rw [List.mem_singleton.1 hc] at hac ⊢
    have hmem : version a ∈ versions key version l (key b) := ⟨a, ha, hac, rfl⟩
    rw [hl.mem_versions] at hmem
    omega

/-- Where later rows have higher versions, the newest rows are the last ones of their keys. -/
theorem filter_newest (h : l.Pairwise fun a b => key a = key b → version a < version b) :
    (l.filter fun a => Newest key version l a) = lasts key l := by
  induction l with
  | nil => rfl
  | cons a l ih =>
    obtain ⟨ha, hl⟩ := List.pairwise_cons.1 h
    have hrest : (l.filter fun b => Newest key version (a :: l) b) = lasts key l := by
      rw [← ih hl]
      refine List.filter_congr fun b hb => ?_
      rw [decide_eq_decide]
      refine ⟨fun hnew c hc => hnew c (List.mem_cons_of_mem a hc), fun hnew c hc hcb => ?_⟩
      rcases List.mem_cons.1 hc with rfl | hc
      · exact (ha b hb hcb).le
      · exact hnew c hc hcb
    have hfirst : Newest key version (a :: l) a ↔ ¬ ∃ b ∈ l, key b = key a := by
      constructor
      · rintro hnew ⟨b, hb, hba⟩
        have hle := hnew b (List.mem_cons_of_mem a hb) hba
        have hlt := ha b hb hba.symm
        omega
      · intro hno b hb hba
        rcases List.mem_cons.1 hb with rfl | hb
        · exact le_rfl
        · exact absurd ⟨b, hb, hba⟩ hno
    rw [List.filter_cons, hrest, lasts]
    simp only [decide_eq_true_eq, hfirst, ite_not]

/-- The column of every row is one less than the number of rows of its key. -/
theorem Numbered.maxVersion_eq (h : Numbered key version l)
    (hmax : MaxCorrect key version maxVersion l) {a : α} (ha : a ∈ l) :
    maxVersion a + 1 = count key l (key a) := by
  obtain ⟨⟨b, hb, hkey, hver⟩, hle⟩ := hmax a ha
  refine h.greatest ⟨⟨b, hb, hkey, hver⟩, ?_⟩
  rintro n ⟨c, hc, hca, rfl⟩
  exact hle c hc hca

end Versioned
