import Mathlib

/-! SQL text and number types: `lower`, `btrim`, `varchar(n)`, `LIKE` and the cast to `real`. -/

namespace SqlTypes

/-- `lower(s)` (ASCII letters). -/
def lower (s : String) : String := String.ofList (s.toList.map Char.toLower)

/-- A class that takes all letters or none does not tell their cases apart. -/
theorem toLower_blind {p : Char → Bool} {b : Bool} (h : ∀ c : Char, c.isAlpha → p c = b) (c : Char) :
    p c.toLower = p c := by
  by_cases hc : c.isUpper = true
  · have halpha : c.isAlpha := by simp [Char.isAlpha, hc]
    rw [h c halpha, h c.toLower (by rw [Char.isAlpha_toLower_eq_isAlpha, halpha])]
  · rw [Char.toLower_eq_of_not_isUpper hc]

/-- A character that is no letter is the lower case of itself only. -/
theorem toLower_eq_iff {c d : Char} (hd : d.isAlpha = false) : c.toLower = d ↔ c = d := by
  have hblind := toLower_blind (p := fun c => decide (c = d)) (b := false) (fun e he => by
    refine decide_eq_false fun heq => ?_
    rw [heq, hd] at he
    cases he) c
  exact decide_eq_decide.1 hblind

/-- Lower case makes no character of a pattern special, and none plain. -/
theorem lower_lower (s : String) : lower (lower s) = lower s := by
  simp [lower, Function.comp_def]

/-- `btrim(s)`: without the blanks at both ends. -/
def btrim (s : String) : String :=
  String.ofList ((s.toList.dropWhile (· = ' ')).reverse.dropWhile (· = ' ')).reverse

/-- Assignment to a `varchar(n)` column: refused when too long, unless the excess is blanks. -/
def varchar (n : ℕ) (s : String) : Option String :=
  if (s.toList.drop n).all (· = ' ') then some (String.ofList (s.toList.take n)) else none

theorem length_varchar {n : ℕ} {s t : String} (h : varchar n s = some t) : t.toList.length ≤ n := by
  unfold varchar at h
  split at h
  · cases h
    simp
  · cases h

theorem varchar_of_length_le {n : ℕ} {s : String} (h : s.toList.length ≤ n) :
    varchar n s = some s := by
  unfold varchar
  rw [List.drop_eq_nil_of_le h, List.take_of_length_le h]
  simp

/-- A `varchar(n)` column keeps a text that does not end with a blank as it is. -/
theorem varchar_eq_self {n : ℕ} {s t : String} (h : varchar n s = some t)
    (hlast : s.toList.getLast? ≠ some ' ') : t = s := by
  unfold varchar at h
  split at h
  · next hblanks =>
    have hdrop : s.toList.drop n = [] := by
      by_contra hne
      have hmem := List.all_eq_true.1 hblanks _ (List.getLast_mem hne)
      rw [List.getLast?_eq_some_getLast (fun hnil => hne (by rw [hnil, List.drop_nil])),
        ← List.getLast_drop hne] at hlast
      exact hlast (congrArg some (of_decide_eq_true hmem))
    have htake : s.toList.take n = s.toList := by
      have happend := List.take_append_drop n s.toList
      rwa [hdrop, List.append_nil] at happend
    cases h
    rw [htake, String.ofList_toList]
  · cases h

/-! ### Blanks at the ends -/

theorem toList_btrim (s : String) :
    (btrim s).toList = (s.toList.dropWhile (· = ' ')).rdropWhile (· = ' ') := String.toList_ofList

theorem btrim_head? (s : String) : (btrim s).toList.head? ≠ some ' ' := by
  rw [toList_btrim]
  intro h
  obtain ⟨t, ht⟩ := List.head?_eq_some_iff.1 h
  obtain ⟨r, hr⟩ := List.rdropWhile_prefix (· = ' ') (s.toList.dropWhile (· = ' '))
  rw [ht, List.cons_append] at hr
  have hnot := List.head?_dropWhile_not (· = ' ') s.toList
  rw [← hr] at hnot
  simp at hnot

theorem btrim_getLast? (s : String) : (btrim s).toList.getLast? ≠ some ' ' := by
  rw [toList_btrim]
  intro h
  have hne : (s.toList.dropWhile (· = ' ')).rdropWhile (· = ' ') ≠ [] := by
    intro hnil
    rw [hnil] at h
    cases h
  have hlast := (List.getLast_eq_iff_getLast?_eq_some hne).2 h
  exact List.rdropWhile_last_not (· = ' ') _ hne (decide_eq_true hlast)

/-- A text is left alone when it has no blank at either end. -/
theorem btrim_eq_self_iff {s : String} :
    btrim s = s ↔ s.toList.head? ≠ some ' ' ∧ s.toList.getLast? ≠ some ' ' := by
  constructor
  · intro h
    rw [← h]
    exact ⟨btrim_head? s, btrim_getLast? s⟩
  · rintro ⟨hhead, hlast⟩
    refine String.toList_inj.1 ?_
    have hfront : s.toList.dropWhile (· = ' ') = s.toList := by
      refine List.dropWhile_eq_self_iff.2 fun hpos hblank => hhead ?_
      rw [List.head?_eq_getElem?, List.getElem?_eq_getElem hpos, of_decide_eq_true hblank]
    rw [toList_btrim, hfront, List.rdropWhile_eq_self_iff]
    intro hne hblank
    rw [List.getLast?_eq_some_getLast hne, of_decide_eq_true hblank] at hlast
    exact hlast rfl

/-- Only blanks are trimmed to nothing. -/
theorem eq_blank_of_btrim_eq_nil {s : String} (h : (btrim s).toList = []) :
    ∀ c ∈ s.toList, c = ' ' := by
  rw [toList_btrim, List.rdropWhile_eq_nil_iff] at h
  have hnil : s.toList.dropWhile (· = ' ') = [] := by
    cases hrest : s.toList.dropWhile (· = ' ') with
    | nil => rfl
    | cons c t =>
      have hnot := List.head?_dropWhile_not (· = ' ') s.toList
      rw [hrest] at hnot h
      exact absurd (h c List.mem_cons_self) (by simpa using hnot)
  exact fun c hc => of_decide_eq_true (List.dropWhile_eq_nil_iff.1 hnil c hc)

theorem toLower_eq_blank_iff {c : Char} : c.toLower = ' ' ↔ c = ' ' := toLower_eq_iff (by decide)

/-- Trimming and lowering can be done in either order. -/
theorem lower_btrim (s : String) : lower (btrim s) = btrim (lower s) := by
  refine String.toList_inj.1 ?_
  have hblank : (fun c => decide (c = ' ')) ∘ Char.toLower = fun c => decide (c = ' ') :=
    funext fun c => decide_eq_decide.2 toLower_eq_blank_iff
  rw [toList_btrim, lower, lower, String.toList_ofList, String.toList_ofList, toList_btrim,
    List.rdropWhile, List.rdropWhile, List.dropWhile_map, hblank, ← List.map_reverse,
    List.dropWhile_map, hblank, List.map_reverse]

/-- One element of a `LIKE` pattern. -/
inductive LikeToken where
  | any | one | char (c : Char)

def LikeToken.isOne : LikeToken → Bool
  | .one => true
  | _ => false

def LikeToken.isWildcard : LikeToken → Bool
  | .char _ => false
  | _ => true

/-- Read a `LIKE` pattern with backslash as the escape character; a pattern must not end with it. -/
@[grind =] def likeTokens : List Char → Option (List LikeToken)
  | [] => some []
  | '%' :: p => (likeTokens p).map (LikeToken.any :: ·)
  | '_' :: p => (likeTokens p).map (LikeToken.one :: ·)
  | ['\\'] => none
  | '\\' :: c :: p => (likeTokens p).map (LikeToken.char c :: ·)
  | c :: p => (likeTokens p).map (LikeToken.char c :: ·)

/-- Match a text against the elements of a pattern. -/
@[grind =] def likeMatch : List LikeToken → List Char → Bool
  | [], t => t.isEmpty
  | .any :: p, t => t.tails.any (likeMatch p)
  | .one :: p, _ :: t => likeMatch p t
  | .char d :: p, c :: t => c = d && likeMatch p t
  | _ :: _, [] => false

/-- Whether the match comes to what is behind the elements, with text left for it. Wildcards after `%` are
    passed without a look at the text behind them. -/
def likeReaches : List LikeToken → List Char → Bool
  | [], t => !t.isEmpty
  | .any :: p, t =>
    if p.all LikeToken.isWildcard then !t.isEmpty && p.countP LikeToken.isOne ≤ t.length
    else t.tails.any (likeReaches p)
  | .one :: p, _ :: t => likeReaches p t
  | .char d :: p, c :: t => c = d && likeReaches p t
  | _ :: _, [] => false

/-- `s LIKE pattern`. A pattern that ends with the escape character matches nothing, and it is an error
    (`none`) for a text with which the match comes to its end. -/
def like (s pattern : String) : Option Bool :=
  match likeTokens pattern.toList with
  | some p => some (likeMatch p s.toList)
  | none =>
    if (likeTokens pattern.toList.dropLast).any fun p => likeReaches p s.toList then none else some false

theorem like_of_tokens {s pattern : String} {p : List LikeToken} (h : likeTokens pattern.toList = some p) :
    like s pattern = some (likeMatch p s.toList) := by
  rw [like, h]

/-- What matches, matches the elements of a pattern. -/
theorem like_eq_true_iff {s pattern : String} :
    like s pattern = some true ↔ ∃ p, likeTokens pattern.toList = some p ∧ likeMatch p s.toList = true := by
  cases htokens : likeTokens pattern.toList with
  | some p => simp [like_of_tokens htokens]
  | none =>
    rw [like, htokens]
    dsimp only
    split <;> simp

/-- The nearest integer, ties to the even one. -/
def roundHalfEven (q : ℚ) : ℤ :=
  if q - q.floor < 1 / 2 then q.floor
  else if 1 / 2 < q - q.floor then q.floor + 1
  else if q.floor % 2 = 0 then q.floor else q.floor + 1

/-- The cast of a finite double precision number to `real` (24 significant bits, smallest exponent
    of the last bit -149); `none` is the overflow or underflow error. -/
def toReal (q : ℚ) : Option ℚ :=
  if q = 0 then some 0
  else
    let ulp : ℚ := 2 ^ (max (Int.log 2 |q|) (-126) - 23)
    let r := roundHalfEven (q / ulp) * ulp
    if r = 0 ∨ 2 ^ 128 ≤ |r| then none else some r

/-- The nearest double precision number, for a number in their range. -/
def toDouble (q : ℚ) : ℚ :=
  if q = 0 then 0
  else
    let ulp : ℚ := 2 ^ (max (Int.log 2 |q|) (-1022) - 52)
    roundHalfEven (q / ulp) * ulp

/-- The nearest decimal number with `n` significant digits. -/
def significant (n : ℕ) (q : ℚ) : ℚ :=
  if q = 0 then 0
  else
    let unit : ℚ := 10 ^ (Int.log 10 |q| - (n - 1))
    roundHalfEven (q / unit) * unit

/-- `round(q, s)` of a `numeric`: ties go away from zero. -/
def roundNumeric (s : ℕ) (q : ℚ) : ℚ :=
  if 0 ≤ q then (⌊q * 10 ^ s + 1 / 2⌋ : ℤ) / 10 ^ s else -((⌊-q * 10 ^ s + 1 / 2⌋ : ℤ) / 10 ^ s)

end SqlTypes
