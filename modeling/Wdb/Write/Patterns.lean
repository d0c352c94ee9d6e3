import Wdb.Write.Spelling

/-! Which parameter strings are patterns.

    Both types look at the character in front of each wildcard: it is escaped when that is a backslash.
    In a `LIKE` pattern a backslash may be escaped itself, and a wildcard is escaped behind an odd number
    of them. -/

namespace Wdb.Write
open SqlTypes

/-- `%` and `_`. -/
def isWildcard (c : Char) : Bool := c = '%' || c = '_'

/-- The loop over the wildcards, with the character in front of the text that is left. -/
def findWildcard : Option Char → List Char → Bool
  | _, [] => false
  | before, c :: s => (isWildcard c && before ≠ some '\\') || findWildcard (some c) s

/-- `isPattern()` of both types, for the normalized text. -/
def isPattern (specification_ : String) : Bool := findWildcard none specification_.toList

/-! ### What is claimed of them -/

/-- The text has a wildcard that is not escaped when it is read as a `LIKE` pattern; the first argument is
    whether the next character is escaped. -/
def hasWildcard : Bool → List Char → Bool
  | _, [] => false
  | true, _ :: s => hasWildcard false s
  | false, c :: s => isWildcard c || hasWildcard (c = '\\') s

/-- The pattern that `LIKE` reads has a wildcard. -/
theorem hasWildcard_iff_likeTokens {s : List Char} {P : List LikeToken} (h : likeTokens s = some P) :
    hasWildcard false s = true ↔ LikeToken.any ∈ P ∨ LikeToken.one ∈ P := by
  induction s using likeTokens.induct generalizing P with
  | case1 =>
    obtain rfl := Option.some.inj h
    simp [hasWildcard]
  | case2 p ih | case3 p ih =>
    rw [likeTokens] at h
    obtain ⟨Q, hQ, rfl⟩ := Option.map_eq_some_iff.1 h
    simp [hasWildcard, isWildcard]
  | case4 => cases h
  | case5 c p ih =>
    rw [likeTokens] at h
    obtain ⟨Q, hQ, rfl⟩ := Option.map_eq_some_iff.1 h
    simp [hasWildcard, isWildcard, ih hQ]
  | case6 c p hany hone hend hesc ih =>
    have hb : c ≠ '\\' := by
      rintro rfl
      cases p with
      | nil => exact hend rfl rfl
      | cons d p => exact hesc d p rfl rfl
    rw [likeTokens_cons ⟨hany, hone, hb⟩] at h
    obtain ⟨Q, hQ, rfl⟩ := Option.map_eq_some_iff.1 h
    simp [hasWildcard, isWildcard, ih hQ, hb, show c ≠ '%' from hany, show c ≠ '_' from hone]

/-- Patterns are told as `LIKE` reads them, and a text that has been normalized is accepted and stays. -/
structure WellNormalized (specification : String) : Prop where
  value : ∀ v, valueParameterType specification = some v →
    (isPattern v = true ↔ hasWildcard false v.toList = true)
  level : ∀ l, levelParameterType specification = some l →
    (isPattern l = true ↔ hasWildcard false l.toList = true)
  again : ∀ v, valueParameterType specification = some v → valueParameterType v = some v

/-- A wildcard without a backslash in front of it. -/
def Bare (s : List Char) : Prop := ∃ p c q, s = p ++ c :: q ∧ isWildcard c ∧ p.getLast? ≠ some '\\'

/-- A wildcard behind pairs of backslashes. -/
def AfterPairs (s : List Char) : Prop := ∃ p n c q,
  s = p ++ List.replicate (2 * n + 2) '\\' ++ c :: q ∧ isWildcard c ∧ p.getLast? ≠ some '\\'

/-- The word that is removed, with nothing but white space behind it, or once more. -/
def InstantAgain (specification : String) : Prop := ∃ ws rest,
  (lower specification).toList = "instant".toList ++ ws ++ rest ∧ ws ≠ [] ∧ (∀ c ∈ ws, isSpace c) ∧
    (rest = [] ∨ ∃ c s, rest = "instant".toList ++ c :: s ∧ isSpace c)

/-! ### Scans -/

section Scan
variable {next : Bool → Char → Bool} {e r : Bool} {s t p w : List Char} {c : Char}

/-- A scan for a wildcard that is not escaped: `next` says whether what follows a character is. -/
def scan (next : Bool → Char → Bool) : Bool → List Char → Bool
  | _, [] => false
  | e, c :: s => (isWildcard c && !e) || scan next (next e c) s

/-- A backslash escapes what follows it. -/
def lookBack (_ : Bool) (c : Char) : Bool := c = '\\'

/-- A backslash that is not escaped does. -/
def escape (e : Bool) (c : Char) : Bool := !e && c = '\\'

/-- Only a backslash escapes. -/
def Plainly (next : Bool → Char → Bool) : Prop := ∀ e c, c ≠ '\\' → next e c = false

theorem plainly_lookBack : Plainly lookBack := fun _ _ h => decide_eq_false h

theorem plainly_escape : Plainly escape := fun e c h => by simp [escape, h]

theorem findWildcard_eq_scan (before : Option Char) :
    findWildcard before s = scan lookBack (before = some '\\') s := by
  induction s generalizing before with
  | nil => rfl
  | cons c s ih =>
    rw [findWildcard, scan, ih, lookBack]
    simp

theorem hasWildcard_eq_scan : hasWildcard e s = scan escape e s := by
  induction s generalizing e with
  | nil => cases e <;> rfl
  | cons c s ih => cases e <;> simp [hasWildcard, scan, escape, ih]

theorem isWildcard_toLower (c : Char) : isWildcard c.toLower = isWildcard c := by
  refine toLower_blind (b := false) (fun c hc => ?_) c
  simp only [isWildcard, Bool.or_eq_false_iff, decide_eq_false_iff_not]
  constructor <;> rintro rfl <;> exact absurd hc (by decide)

theorem toLower_eq_backslash (c : Char) : c.toLower = '\\' ↔ c = '\\' := by
  have h : decide (c.toLower = '\\') = decide (c = '\\') :=
    toLower_blind (p := fun c => c = '\\') (b := false) (fun c hc => decide_eq_false (by
      rintro rfl
      exact absurd hc (by decide))) c
  simpa using h

theorem next_toLower (h : Plainly next) : next e c.toLower = next e c := by
  by_cases hc : c = '\\'
  · rw [hc]
    rfl
  · rw [h _ _ hc, h _ _ (mt (toLower_eq_backslash c).1 hc)]

/-- White space is neither a wildcard nor a backslash. -/
theorem isWildcard_of_isSpace (hc : isSpace c) : isWildcard c = false ∧ c ≠ '\\' := by
  constructor
  · simp only [isWildcard, Bool.or_eq_false_iff, decide_eq_false_iff_not]
    constructor <;> rintro rfl <;> exact absurd hc (by decide)
  · rintro rfl
    exact absurd hc (by decide)

/-- The case of letters does not matter to a scan. -/
theorem scan_map_toLower (h : Plainly next) : scan next e (s.map Char.toLower) = scan next e s := by
  induction s generalizing e with
  | nil => rfl
  | cons c s ih => rw [List.map_cons, scan, scan, isWildcard_toLower, next_toLower h, ih]

theorem scan_cons_of_isSpace (h : Plainly next) (hc : isSpace c) :
    scan next e (c :: s) = scan next false s := by
  obtain ⟨hw, hb⟩ := isWildcard_of_isSpace hc
  rw [scan, hw, h _ _ hb, Bool.false_and, Bool.false_or]

/-- Nor does the amount of white space. -/
theorem scan_collapse (h : Plainly next) (hr : r = true → e = false) :
    scan next e (collapse r s) = scan next e s := by
  induction s generalizing e r with
  | nil => rfl
  | cons c s ih =>
    by_cases hc : isSpace c
    · rw [collapse, if_pos hc, scan_cons_of_isSpace h hc]
      cases r with
      | true => rw [if_pos rfl, ih fun _ => hr rfl, hr rfl]
      | false => rw [if_neg Bool.false_ne_true, scan_cons_of_isSpace h (by decide), ih fun _ => rfl]
    · rw [collapse, if_neg hc, scan, scan, ih fun hfalse => absurd hfalse Bool.false_ne_true]

theorem scan_append (h : Plainly next) (hw : ∀ c ∈ w, isWildcard c = false ∧ c ≠ '\\') :
    scan next false (w ++ t) = scan next false t := by
  induction w with
  | nil => rfl
  | cons c w ih =>
    obtain ⟨hc, hb⟩ := hw c List.mem_cons_self
    rw [List.cons_append, scan, hc, h _ _ hb, Bool.false_and, Bool.false_or,
      ih fun c hc => hw c (List.mem_cons_of_mem _ hc)]

/-- Nor does the word that is removed. -/
theorem scan_eraseInstant (h : Plainly next) : scan next false (eraseInstant s) = scan next false s := by
  rw [eraseInstant]
  split_ifs with hs
  · have hw : ∀ c ∈ instant, isWildcard c = false ∧ c ≠ '\\' := fun c hc => by
      obtain ⟨hany, hone, hesc⟩ := plain_instant c hc
      exact ⟨by simp [isWildcard, hany, hone], hesc⟩
    rw [← scan_append h hw, ← hs, List.take_append_drop]
  · rfl

/-- A scan looks for a place: a wildcard, and a text in front of it that leaves it unescaped. -/
theorem scan_iff : scan next e s = true ↔
    ∃ p c q, s = p ++ c :: q ∧ isWildcard c ∧ p.foldl next e = false := by
  induction s generalizing e with
  | nil => simp [scan]
  | cons c s ih =>
    rw [scan, Bool.or_eq_true, Bool.and_eq_true, ih]
    constructor
    · rintro (⟨hc, he⟩ | ⟨p, d, q, rfl, hd, hp⟩)
      · exact ⟨[], c, s, rfl, hc, by simpa using he⟩
      · exact ⟨c :: p, d, q, rfl, hd, hp⟩
    · rintro ⟨p, d, q, hs, hd, hp⟩
      cases p with
      | nil =>
        obtain ⟨rfl, rfl⟩ := List.cons.inj hs
        exact Or.inl ⟨hd, by simpa using hp⟩
      | cons b p =>
        obtain ⟨rfl, rfl⟩ := List.cons.inj hs
        exact Or.inr ⟨p, d, q, rfl, hd, hp⟩

theorem foldl_lookBack : p.foldl lookBack false = decide (p.getLast? = some '\\') := by
  induction p using List.reverseRecOn with
  | nil => rfl
  | append_singleton p c ih => simp [lookBack]

/-- Behind a text that does not end in a backslash, an odd number of them escapes. -/
theorem foldl_escape_replicate {k : ℕ} (hp : p.getLast? ≠ some '\\') :
    (p ++ List.replicate k '\\').foldl escape false = decide (k % 2 = 1) := by
  induction k with
  | zero =>
    induction p using List.reverseRecOn with
    | nil => rfl
    | append_singleton p c _ =>
      have hc : c ≠ '\\' := by simpa using hp
      simp [escape, hc]
  | succ k ih =>
    rw [List.replicate_succ', ← List.append_assoc, List.foldl_append, ih]
    rcases Nat.mod_two_eq_zero_or_one k with h | h <;> simp [escape, h, Nat.add_mod]

theorem exists_replicate (p : List Char) :
    ∃ p' k, p = p' ++ List.replicate k '\\' ∧ p'.getLast? ≠ some '\\' := by
  induction p using List.reverseRecOn with
  | nil => exact ⟨[], 0, rfl, by simp⟩
  | append_singleton p c ih =>
    by_cases hc : c = '\\'
    · obtain ⟨p', k, rfl, hp'⟩ := ih
      exact ⟨p', k + 1, by rw [hc, List.replicate_succ', List.append_assoc], hp'⟩
    · exact ⟨p ++ [c], 0, by simp, by simpa using hc⟩

theorem scan_lookBack : scan lookBack false s = true ↔ Bare s := by
  simp only [scan_iff, foldl_lookBack, decide_eq_false_iff_not, Bare]

theorem scan_escape : scan escape false s = true ↔ Bare s ∨ AfterPairs s := by
  rw [scan_iff]
  constructor
  · rintro ⟨p, c, q, rfl, hc, hp⟩
    obtain ⟨p', k, rfl, hp'⟩ := exists_replicate p
    rw [foldl_escape_replicate hp', decide_eq_false_iff_not] at hp
    obtain ⟨n, rfl⟩ : ∃ n, k = 2 * n := ⟨k / 2, by omega⟩
    cases n with
    | zero => exact Or.inl ⟨p', c, q, by simp, hc, hp'⟩
    | succ n => exact Or.inr ⟨p', n, c, q, rfl, hc, hp'⟩
  · rintro (⟨p, c, q, rfl, hc, hp⟩ | ⟨p, n, c, q, rfl, hc, hp⟩)
    · have h := foldl_escape_replicate (k := 0) hp
      exact ⟨p, c, q, rfl, hc, by simpa using h⟩
    · refine ⟨_, c, q, rfl, hc, ?_⟩
      rw [foldl_escape_replicate hp]
      simp

end Scan

/-! ### The word that is removed -/

section Instant
variable {b : Bool} {s t w ws x y : List Char} {c : Char}

theorem collapse_false_eq_nil : collapse false s = [] ↔ s = [] := by
  cases s with
  | nil => simp [collapse]
  | cons c s => by_cases hc : isSpace c <;> simp [collapse, hc]

theorem collapse_true : collapse true s = collapse false (s.dropWhile isSpace) := by
  induction s with
  | nil => rfl
  | cons c s ih => by_cases hc : isSpace c <;> simp [collapse, hc, ih]

/-- Behind white space. -/
theorem collapse_true_iff : collapse true s = y ↔
    ∃ ws t, s = ws ++ t ∧ (∀ c ∈ ws, isSpace c) ∧ (∀ c ∈ t.head?, isSpace c = false) ∧
      collapse false t = y := by
  rw [collapse_true]
  constructor
  · intro h
    refine ⟨s.takeWhile isSpace, s.dropWhile isSpace, List.takeWhile_append_dropWhile.symm,
      fun c hc => List.mem_takeWhile_imp hc, fun c hc => ?_, h⟩
    have hhead := List.head?_dropWhile_not isSpace s
    rw [Option.mem_def.1 hc] at hhead
    simpa using hhead
  · rintro ⟨ws, t, rfl, hws, ht, h⟩
    rw [List.dropWhile_append_of_pos hws]
    cases t with
    | nil => exact h
    | cons c t => rwa [List.dropWhile_cons_of_neg (by simp [ht c rfl])]

/-- A word is that of the text. -/
theorem collapse_false_append (hw : ∀ c ∈ w, isSpace c = false) : collapse false s = w ++ y ↔
    ∃ t, s = w ++ t ∧ collapse false t = y := by
  induction w generalizing s with
  | nil => simp
  | cons c w ih =>
    have hc := hw c List.mem_cons_self
    have ih := fun s => ih (s := s) fun c hc => hw c (List.mem_cons_of_mem _ hc)
    cases s with
    | nil => simp [collapse]
    | cons d s =>
      by_cases hd : isSpace d
      · refine iff_of_false (fun h => ?_) ?_
        · rw [collapse, if_pos hd, if_neg Bool.false_ne_true] at h
          rw [← (List.cons.inj h).1] at hc
          exact absurd hc (by decide)
        · rintro ⟨t, h, -⟩
          rw [(List.cons.inj h).1, hc] at hd
          cases hd
      · rw [collapse, if_neg hd, List.cons_append, List.cons.injEq, ih]
        simp only [List.cons_append, List.cons.injEq, and_assoc, exists_and_left]

/-- A blank is the white space of the text. -/
theorem collapse_false_blank : collapse false s = ' ' :: y ↔
    ∃ c t, s = c :: t ∧ isSpace c ∧ collapse true t = y := by
  cases s with
  | nil => simp [collapse]
  | cons c s =>
    by_cases hc : isSpace c
    · simp [collapse, hc]
    · have hne : c ≠ ' ' := by
        rintro rfl
        exact hc (by decide)
      simp [collapse, hc, hne]

theorem instant_space : ∀ c ∈ "instant".toList, isSpace c = false := by
  have h : ("instant".toList.all fun c => !isSpace c) = true := by decide
  simpa using h

/-- The word in front of a normalized text. -/
theorem collapse_instant : collapse false s = instant ++ y ↔
    ∃ c t, s = "instant".toList ++ c :: t ∧ isSpace c ∧ collapse true t = y := by
  have happend : instant ++ y = "instant".toList ++ ' ' :: y := rfl
  rw [happend, collapse_false_append instant_space]
  simp only [collapse_false_blank]
  constructor
  · rintro ⟨_, rfl, c, t, rfl, hc, h⟩
    exact ⟨c, t, rfl, hc, h⟩
  · rintro ⟨c, t, rfl, hc, h⟩
    exact ⟨_, rfl, c, t, rfl, hc, h⟩

theorem take_instant : s.take 8 = instant ↔ ∃ y, s = instant ++ y := by
  constructor
  · intro h
    exact ⟨s.drop 8, by rw [← h, List.take_append_drop]⟩
  · rintro ⟨y, rfl⟩
    rfl

theorem instant_head {s : List Char} : ∀ c ∈ ("instant".toList ++ s).head?, isSpace c = false := by
  intro c hc
  obtain rfl : 'i' = c := Option.some.inj hc
  decide

/-- A text that loses the word again, or has nothing else. -/
theorem instantAgain_iff {specification : String} : InstantAgain specification ↔
    ∃ y, collapse false (lower specification).toList = instant ++ y ∧ (y = [] ∨ y.take 8 = instant) := by
  simp only [collapse_instant, InstantAgain]
  constructor
  · rintro ⟨ws, rest, hspec, hne, hws, hrest⟩
    obtain ⟨c, ws, rfl⟩ := List.exists_cons_of_ne_nil hne
    have hhead : ∀ c ∈ rest.head?, isSpace c = false := by
      rcases hrest with rfl | ⟨d, s, rfl, -⟩
      · simp
      · exact instant_head
    have hrun := collapse_true_iff.2
      ⟨ws, rest, rfl, fun d hd => hws d (List.mem_cons_of_mem _ hd), hhead, rfl⟩
    refine ⟨collapse false rest, ⟨c, ws ++ rest, by rw [hspec, List.append_assoc]; rfl,
      hws c List.mem_cons_self, hrun⟩, ?_⟩
    rcases hrest with rfl | ⟨d, s, rfl, hd⟩
    · exact Or.inl rfl
    · exact Or.inr (take_instant.2 ⟨_, collapse_instant.2 ⟨d, s, rfl, hd, rfl⟩⟩)
  · rintro ⟨y, ⟨c, t, hspec, hc, ht⟩, hy⟩
    obtain ⟨ws, rest, rfl, hws, -, hrest⟩ := collapse_true_iff.1 ht
    refine ⟨c :: ws, rest, by rw [hspec, List.append_assoc]; rfl, List.cons_ne_nil _ _,
      List.forall_mem_cons.2 ⟨hc, hws⟩, ?_⟩
    rcases hy with rfl | hy
    · exact Or.inl (collapse_false_eq_nil.1 hrest)
    · obtain ⟨z, rfl⟩ := take_instant.1 hy
      obtain ⟨d, s, rfl, hd, -⟩ := collapse_instant.1 hrest
      exact Or.inr ⟨d, s, rfl, hd⟩

end Instant

section Normal
variable {specification v : String} {next : Bool → Char → Bool} {x y : List Char}

theorem map_toLower_collapse {b : Bool} {s : List Char} (h : ∀ c ∈ s, c.toLower = c) :
    ∀ c ∈ collapse b s, c.toLower = c := by
  intro c hc
  rcases mem_collapse hc with hc | rfl
  · exact h c hc
  · rfl

/-- What is left is in lower case, and normal. -/
theorem collapse_eraseInstant : collapse false
    (lower (String.ofList (eraseInstant (collapse false (lower specification).toList)))).toList =
      eraseInstant (collapse false (lower specification).toList) := by
  have hspec : ∀ c ∈ (lower specification).toList, c.toLower = c := by
    simp [lower]
  have hlower : (eraseInstant (collapse false (lower specification).toList)).map Char.toLower =
      eraseInstant (collapse false (lower specification).toList) := by
    refine (List.map_congr_left fun c hc => ?_).trans (List.map_id _)
    exact map_toLower_collapse hspec c ((eraseInstant_isInfix _).subset hc)
  rw [lower, String.toList_ofList, String.toList_ofList, hlower]
  exact collapse_eq_self_iff.2 ((collapse_single false _).of_isInfix (eraseInstant_isInfix _))

/-- Something stays as it is when it does not begin with the word. -/
theorem eraseInstant_eq_self : eraseInstant x = x ↔ x.take 8 ≠ instant := by
  constructor
  · intro h hx
    obtain ⟨y, rfl⟩ := take_instant.1 hx
    rw [eraseInstant_append] at h
    have hlen := congrArg List.length h
    rw [List.length_append, length_instant] at hlen
    omega
  · intro h
    rw [eraseInstant, if_neg h]

/-- The normalized text of a specification is normalized to itself unless it loses the word again. -/
theorem again_iff (hv : valueParameterType specification = some v) :
    valueParameterType v = some v ↔ ¬ InstantAgain specification := by
  rw [valueParameterType, normalized] at hv
  split_ifs at hv with hspec
  · cases hv
  obtain rfl := Option.some.inj hv
  have hne : collapse false (lower specification).toList ≠ [] := by
    rw [Ne, collapse_false_eq_nil]
    simpa [lower] using hspec
  have hnormal := @collapse_eraseInstant specification
  rw [instantAgain_iff, valueParameterType, normalized, hnormal]
  generalize collapse false (lower specification).toList = x at *
  have hagain : (Option.map (fun s => String.ofList (eraseInstant s))
      (if String.ofList (eraseInstant x) = "" then none else some (eraseInstant x)) =
        some (String.ofList (eraseInstant x))) ↔
          eraseInstant x ≠ [] ∧ (eraseInstant x).take 8 ≠ instant := by
    rw [← eraseInstant_eq_self]
    split_ifs with h
    · simp_all
    · have hnil : eraseInstant x ≠ [] := by simpa using h
      rw [Option.map_some, Option.some_inj, String.ofList_inj]
      exact (and_iff_right hnil).symm
  refine hagain.trans ?_
  by_cases hx : ∃ y, x = instant ++ y
  · obtain ⟨y, rfl⟩ := hx
    rw [eraseInstant_append]
    simp [not_or]
  · have herase : eraseInstant x = x := eraseInstant_eq_self.2 (mt take_instant.1 hx)
    rw [herase]
    refine iff_of_true ⟨hne, mt take_instant.1 hx⟩ ?_
    rintro ⟨y, hy, -⟩
    exact hx ⟨y, hy⟩

/-- A scan sees in the normalized text what it sees in the specification. -/
theorem scan_normalized (h : Plainly next) :
    scan next false (collapse false (lower specification).toList) =
      scan next false specification.toList := by
  rw [scan_collapse h fun hfalse => absurd hfalse Bool.false_ne_true, lower, String.toList_ofList,
    scan_map_toLower h]

end Normal

theorem isPattern_ofList (s : List Char) : isPattern (String.ofList s) = scan lookBack false s := by
  rw [isPattern, findWildcard_eq_scan, String.toList_ofList]
  rfl

/-- The types tell patterns, and their normal forms stay, when a wildcard has no backslash in front of it
    or none stands behind pairs of them, and the text does not lose the word again. -/
theorem wellNormalized_iff (specification : String) : WellNormalized specification ↔
    (Bare specification.toList ∨ ¬ AfterPairs specification.toList) ∧ ¬ InstantAgain specification := by
  by_cases hspec : specification = ""
  · subst hspec
    refine iff_of_true ⟨fun v hv => ?_, fun l hl => ?_, fun v hv => ?_⟩ ⟨Or.inr ?_, ?_⟩
    · cases hv
    · cases hl
    · cases hv
    · rintro ⟨p, n, c, q, h, -, -⟩
      simp at h
    · rintro ⟨ws, rest, h, -⟩
      simp [lower] at h
  · have hv : valueParameterType specification =
        some (String.ofList (eraseInstant (collapse false (lower specification).toList))) := by
      rw [valueParameterType, normalized, if_neg hspec]
      rfl
    have hl : levelParameterType specification =
        some (String.ofList (collapse false (lower specification).toList)) := by
      rw [levelParameterType, normalized, if_neg hspec]
      rfl
    have htell : (scan lookBack false specification.toList = true ↔
        scan escape false specification.toList = true) ↔
          (Bare specification.toList ∨ ¬ AfterPairs specification.toList) := by
      rw [scan_lookBack, scan_escape]
      tauto
    rw [← htell, ← again_iff hv]
    constructor
    · intro h
      refine ⟨?_, h.again _ hv⟩
      have hlevel := h.level _ hl
      rwa [isPattern_ofList, hasWildcard_eq_scan, String.toList_ofList, scan_normalized plainly_escape,
        scan_normalized plainly_lookBack] at hlevel
    · rintro ⟨htell, hagain⟩
      refine ⟨fun v hv' => ?_, fun l hl' => ?_, fun v hv' => ?_⟩
      · obtain rfl := Option.some.inj (hv.symm.trans hv')
        rwa [isPattern_ofList, hasWildcard_eq_scan, String.toList_ofList,
          scan_eraseInstant plainly_escape, scan_normalized plainly_escape,
          scan_eraseInstant plainly_lookBack, scan_normalized plainly_lookBack]
      · obtain rfl := Option.some.inj (hl.symm.trans hl')
        rwa [isPattern_ofList, hasWildcard_eq_scan, String.toList_ofList, scan_normalized plainly_escape,
          scan_normalized plainly_lookBack]
      · obtain rfl := Option.some.inj (hv.symm.trans hv')
        exact hagain

/-- Two backslashes and a wildcard: the second backslash is escaped, and the wildcard is not. -/
theorem not_wellNormalized_pair : ¬ WellNormalized "\\\\%" := by
  intro h
  exact absurd ((h.value "\\\\%" (by decide)).2 (by decide)) (by decide)

end Wdb.Write
