import Mathlib

/-! Recognizers that skip blanks, in the manner of Spirit.

    A recognizer takes a text from its start and leaves the rest, or fails. The first alternative that
    matches is taken and is not given up later, and a repetition takes as much as it can. Every primitive
    skips blanks first; the characters of a word or of a number stand together. -/

namespace Spirit

/-- What a recognizer leaves of a text. -/
abbrev Rec := List Char → Option (List Char)

/-- `space_p`. -/
def space (c : Char) : Bool := c = ' ' || (9 ≤ c.toNat && c.toNat ≤ 13)

def skip (s : List Char) : List Char := s.dropWhile space

/-! ### Primitives -/

/-- The text after a word, each of its characters compared as `f` has it. -/
def afterWord (f : Char → Char) : List Char → Rec
  | [], s => some s
  | _ :: _, [] => none
  | d :: w, c :: s => if f c = d then afterWord f w s else none

/-- `str_p`. -/
def str (w : String) : Rec := fun s => afterWord id w.toList (skip s)

/-- `str_p` below `as_lower_d`. -/
def strLower (w : String) : Rec := fun s => afterWord Char.toLower w.toList (skip s)

/-- One character of a kind. -/
def char (p : Char → Bool) : Rec := fun s =>
  match skip s with
  | [] => none
  | c :: s => if p c then some s else none

/-- `ch_p`. -/
def ch (d : Char) : Rec := char (· = d)

/-- A sign, if there is one; whether it is a minus. -/
def sign : List Char → Bool × List Char
  | '-' :: s => (true, s)
  | '+' :: s => (false, s)
  | s => (false, s)

/-- Digits, at least one. -/
def digits (s : List Char) : Option (List Char × List Char) :=
  if s.takeWhile Char.isDigit = [] then none else some (s.takeWhile Char.isDigit, s.dropWhile Char.isDigit)

/-- The number that digits denote. -/
def numeral (ds : List Char) : ℤ := ds.foldl (fun n d => 10 * n + (d.toNat - '0'.toNat)) 0

/-- `int_p`, with the number. It fails when the number is not an `int`. -/
def int (s : List Char) : Option (ℤ × List Char) :=
  (digits (sign (skip s)).2).bind fun x =>
    let n := if (sign (skip s)).1 then -numeral x.1 else numeral x.1
    if -2 ^ 31 ≤ n ∧ n < 2 ^ 31 then some (n, x.2) else none

/-- The exponent of a number: once there is its letter, there have to be digits. -/
def exponent : Rec
  | c :: s => if c.toLower = 'e' then (digits (sign s).2).map (·.2) else some (c :: s)
  | [] => some []

/-- `real_p`: a number before or after the point, or on both sides. -/
def real : Rec := fun s =>
  let s := (sign (skip s)).2
  let n := digits s
  match (n.map (·.2)).getD s with
  | '.' :: t =>
    match digits t with
    | some x => exponent x.2
    | none => if n.isSome then exponent t else none
  | t => if n.isSome then exponent t else none

/-! ### Combinators -/

/-- The first of several that matches. -/
def alts (rs : List Rec) : Rec := fun s => rs.findSome? (· s)

/-- At most that many times. -/
def times (r : Rec) : ℕ → List Char → List Char
  | 0, s => s
  | n + 1, s => (r s).elim s (times r n)

/-- As often as it matches. -/
def star (r : Rec) : Rec := fun s => some (times r s.length s)

/-- At least once. -/
def plus (r : Rec) : Rec := r >=> star r

/-- How many characters are taken, blanks apart. -/
def taken (s rest : List Char) : ℕ := s.countP (!space ·) - rest.countP (!space ·)

/-- The first recognizer, unless the second takes as much. -/
def diff (a b : Rec) : Rec := fun s =>
  (a s).bind fun rest =>
    match b s with
    | some rest' => if taken s rest' < taken s rest then some rest else none
    | none => some rest

/-- The text that a recognizer takes, without the blanks before it. -/
def matched (s rest : List Char) : List Char := (skip s).take ((skip s).length - rest.length)

/-! ### Repetitions -/

section Star
variable {r : Rec}

/-- A recognizer that takes something whenever it matches. -/
def Progresses (r : Rec) : Prop := ∀ s rest, r s = some rest → rest.length < s.length

theorem times_eq_times (h : Progresses r) : ∀ (n m : ℕ) (s : List Char), s.length ≤ n → s.length ≤ m →
    times r n s = times r m s
  | 0, 0, _, _, _ => rfl
  | 0, m + 1, s, hn, _ => by
    cases hr : r s with
    | none => simp [times, hr]
    | some rest =>
      have := h s rest hr
      omega
  | n + 1, 0, s, _, hm => by
    cases hr : r s with
    | none => simp [times, hr]
    | some rest =>
      have := h s rest hr
      omega
  | n + 1, m + 1, s, hn, hm => by
    cases hr : r s with
    | none => simp [times, hr]
    | some rest =>
      have hlt := h s rest hr
      simp only [times, hr, Option.elim_some]
      exact times_eq_times h n m rest (by omega) (by omega)

/-- The length of the text is enough: a repetition ends where the recognizer fails. -/
theorem star_eq (h : Progresses r) (s : List Char) :
    star r s = (r s).elim (some s) (star r) := by
  cases s with
  | nil =>
    cases hr : r [] with
    | none => rfl
    | some rest => exact absurd (h [] rest hr) (by simp)
  | cons c s =>
    cases hr : r (c :: s) with
    | none => simp [star, times, hr]
    | some rest =>
      have hlt := h _ rest hr
      rw [List.length_cons] at hlt
      simp only [star, List.length_cons, times, hr, Option.elim_some, Option.some.injEq]
      exact times_eq_times h _ _ rest (by omega) le_rfl

end Star

/-! ### The characters that are taken -/

section Takes
variable {P : Char → Prop}

/-- The rest of a text after characters of one kind. -/
def After (P : Char → Prop) (s rest : List Char) : Prop := ∃ t, s = t ++ rest ∧ ∀ c ∈ t, P c

/-- Whenever a recognizer matches, it takes characters of one kind. -/
def Takes (P : Char → Prop) (r : Rec) : Prop := ∀ s rest, r s = some rest → After P s rest

theorem After.refl (s : List Char) : After P s s := ⟨[], rfl, by simp⟩

theorem After.trans {s₁ s₂ s₃ : List Char} (h₁ : After P s₁ s₂) (h₂ : After P s₂ s₃) : After P s₁ s₃ := by
  obtain ⟨t₁, rfl, ht₁⟩ := h₁
  obtain ⟨t₂, rfl, ht₂⟩ := h₂
  refine ⟨t₁ ++ t₂, (List.append_assoc _ _ _).symm, fun c hc => ?_⟩
  rcases List.mem_append.1 hc with hc | hc
  · exact ht₁ c hc
  · exact ht₂ c hc

theorem After.cons {c : Char} {s rest : List Char} (hc : P c) (h : After P s rest) :
    After P (c :: s) rest := by
  obtain ⟨t, rfl, ht⟩ := h
  refine ⟨c :: t, rfl, fun d hd => ?_⟩
  rcases List.mem_cons.1 hd with rfl | hd
  · exact hc
  · exact ht d hd

theorem after_dropWhile {p : Char → Bool} (h : ∀ c, p c → P c) (s : List Char) :
    After P s (s.dropWhile p) :=
  ⟨s.takeWhile p, List.takeWhile_append_dropWhile.symm, fun c hc => h c (List.mem_takeWhile_imp hc)⟩

theorem after_word {f : Char → Char} : ∀ {w s rest : List Char}, (∀ c, f c ∈ w → P c) →
    afterWord f w s = some rest → After P s rest
  | [], s, rest, _, h => by
    obtain rfl := Option.some.inj h
    exact After.refl s
  | d :: w, [], rest, _, h => nomatch h
  | d :: w, c :: s, rest, hw, h => by
    rw [afterWord] at h
    split at h
    · next heq =>
      exact (after_word (fun c hc => hw c (List.mem_cons_of_mem _ hc)) h).cons
        (hw c (heq ▸ List.mem_cons_self))
    · cases h

section Primitives
variable (hspace : ∀ c, space c → P c)
include hspace

theorem takes_str {w : String} (hw : ∀ c ∈ w.toList, P c) : Takes P (str w) := fun s _ h =>
  (after_dropWhile hspace s).trans (after_word hw h)

theorem takes_char {p : Char → Bool} (hp : ∀ c, p c → P c) : Takes P (char p) := by
  intro s rest h
  refine (after_dropWhile hspace s).trans ?_
  unfold char skip at h
  split at h
  · cases h
  · next c t heq =>
    split at h
    · next hc =>
      obtain rfl := Option.some.inj h
      rw [heq]
      exact (After.refl t).cons (hp c hc)
    · cases h

theorem takes_ch {d : Char} (hd : P d) : Takes P (ch d) :=
  takes_char hspace fun c hc => by
    rw [of_decide_eq_true hc]
    exact hd

end Primitives

theorem Takes.seq {a b : Rec} (ha : Takes P a) (hb : Takes P b) : Takes P (a >=> b) := by
  intro s rest h
  obtain ⟨mid, hmid, hrest⟩ := Option.bind_eq_some_iff.1 h
  exact (ha s mid hmid).trans (hb mid rest hrest)

theorem takes_alts {rs : List Rec} (h : ∀ r ∈ rs, Takes P r) : Takes P (alts rs) := by
  intro s rest hs
  obtain ⟨r, hr, hrest⟩ := List.exists_of_findSome?_eq_some hs
  exact h r hr s rest hrest

theorem Takes.star {r : Rec} (h : Takes P r) : Takes P (star r) := by
  intro s rest hs
  obtain rfl := Option.some.inj hs
  generalize s.length = n
  induction n generalizing s with
  | zero => exact After.refl s
  | succ n ih =>
    cases hr : r s with
    | none =>
      rw [times, hr]
      exact After.refl s
    | some mid =>
      rw [times, hr]
      exact (h s mid hr).trans (ih mid rfl)

section Numbers
variable (hspace : ∀ c, space c → P c) (hdigit : ∀ c, c.isDigit → P c) (hminus : P '-') (hplus : P '+')
include hminus hplus

theorem after_sign (s : List Char) : After P s (sign s).2 := by
  unfold sign
  split
  · exact (After.refl _).cons hminus
  · exact (After.refl _).cons hplus
  · exact After.refl s

omit hminus hplus in
include hdigit in
theorem after_digits {s : List Char} {x : List Char × List Char} (h : digits s = some x) :
    After P s x.2 := by
  unfold digits at h
  split at h
  · cases h
  · obtain rfl := Option.some.inj h
    exact after_dropWhile hdigit s

include hdigit in
theorem takes_exponent (he : ∀ c : Char, c.toLower = 'e' → P c) : Takes P exponent := by
  intro s rest h
  cases s with
  | nil =>
    obtain rfl := Option.some.inj h
    exact After.refl []
  | cons c s =>
    rw [exponent] at h
    split at h
    · next hc =>
      obtain ⟨x, hx, rfl⟩ := Option.map_eq_some_iff.1 h
      exact ((after_sign hminus hplus s).trans (after_digits hdigit hx)).cons (he c hc)
    · obtain rfl := Option.some.inj h
      exact After.refl _

include hspace hdigit in
theorem takes_real (he : ∀ c : Char, c.toLower = 'e' → P c) (hdot : P '.') : Takes P real := by
  intro s rest h
  have hexp := takes_exponent hdigit hminus hplus he
  refine (after_dropWhile hspace s).trans ((after_sign hminus hplus _).trans ?_)
  have hn : After P (sign (skip s)).2 (((digits (sign (skip s)).2).map (·.2)).getD (sign (skip s)).2) := by
    cases hd : digits (sign (skip s)).2 with
    | none => exact After.refl _
    | some x => exact after_digits hdigit hd
  refine hn.trans ?_
  simp only [real] at h
  split at h
  · next t heq =>
    rw [heq]
    refine After.cons hdot ?_
    split at h
    · next x hx => exact (after_digits hdigit hx).trans (hexp _ _ h)
    · split at h
      · exact hexp _ _ h
      · cases h
  · split at h
    · exact hexp _ _ h
    · cases h

end Numbers

end Takes

/-! ### Words -/

section Words
variable {f : Char → Char} {s rest t : List Char} {c : Char}

theorem skip_of_head (h : ∀ c ∈ s.head?, space c = false) : skip s = s := by
  cases s with
  | nil => rfl
  | cons c s => rw [skip, List.dropWhile_cons, h c rfl, if_neg Bool.false_ne_true]

@[simp] theorem skip_blank (s : List Char) : skip (' ' :: s) = skip s := by
  rw [skip, List.dropWhile_cons, if_pos (by decide)]
  rfl

/-- What is before the rest is the word, in the sense of the comparison. -/
theorem afterWord_eq_some_iff {w : List Char} : afterWord f w s = some rest ↔
    ∃ v, s = v ++ rest ∧ v.map f = w := by
  induction w generalizing s with
  | nil =>
    constructor
    · intro h
      obtain rfl := Option.some.inj h
      exact ⟨[], rfl, rfl⟩
    · rintro ⟨v, rfl, hv⟩
      rw [List.map_eq_nil_iff.1 hv]
      rfl
  | cons d w ih =>
    cases s with
    | nil =>
      refine iff_of_false nofun ?_
      rintro ⟨v, hv, hw⟩
      rw [(List.append_eq_nil_iff.1 hv.symm).1] at hw
      cases hw
    | cons c s =>
      rw [afterWord]
      constructor
      · intro h
        split at h
        · next hc =>
          obtain ⟨v, rfl, hv⟩ := ih.1 h
          exact ⟨c :: v, rfl, by rw [List.map_cons, hc, hv]⟩
        · cases h
      · rintro ⟨v, hv, hw⟩
        cases v with
        | nil => cases hw
        | cons e v =>
          obtain ⟨rfl, rfl⟩ := List.cons.inj hv
          obtain ⟨hc, hw⟩ := List.cons.inj hw
          rw [if_pos hc]
          exact ih.2 ⟨v, rfl, hw⟩

/-- A blank before the text does not matter. -/
theorem str_blank (w : String) (s : List Char) : str w (' ' :: s) = str w s := by rw [str, str, skip_blank]

theorem char_blank (p : Char → Bool) (s : List Char) : char p (' ' :: s) = char p s := by
  rw [char, char, skip_blank]

theorem char_of_skip {p : Char → Bool} (h : skip s = c :: t) : char p s = if p c then some t else none := by
  rw [char, h]

theorem progresses_char (p : Char → Bool) : Progresses (char p) := by
  intro s rest h
  have hle : (skip s).length ≤ s.length := (List.dropWhile_suffix _).length_le
  rw [char] at h
  split at h
  · cases h
  · next c t heq =>
    rw [heq, List.length_cons] at hle
    split at h
    · obtain rfl := Option.some.inj h
      omega
    · cases h

theorem star_of_none {r : Rec} (h : r s = none) : star r s = some s := by
  cases s with
  | nil => rfl
  | cons c s => simp [star, times, h]

/-- A repetition before a recognizer that skips blanks does. -/
theorem star_seq_blank {r b : Rec} (hprogresses : Progresses r) (hr : ∀ s, r (' ' :: s) = r s)
    (hb : ∀ s, b (' ' :: s) = b s) (s : List Char) : (star r >=> b) (' ' :: s) = (star r >=> b) s := by
  change (star r (' ' :: s)).bind b = (star r s).bind b
  rw [star_eq hprogresses, hr, star_eq hprogresses s]
  cases r s with
  | none => exact hb s
  | some rest => rfl

/-- A text that does not end with a blank, or is empty. -/
def Ends (s : List Char) : Prop := ∀ c ∈ s.getLast?, space c = false

theorem Ends.of_append {a b : List Char} (h : Ends (a ++ b)) : Ends b := by
  intro c hc
  refine h c ?_
  rw [List.getLast?_append, hc]
  rfl

/-- Any characters are all that is left. -/
theorem star_any (h : Ends s) : star (char fun _ => true) s = some [] := by
  induction hn : s.length using Nat.strong_induction_on generalizing s with
  | _ n ih =>
    rw [star_eq (progresses_char _)]
    cases hskip : skip s with
    | nil =>
      cases s with
      | nil => rfl
      | cons c s =>
        -- the last character would be a blank
        have hall := List.dropWhile_eq_nil_iff.1 hskip
        have hlast : (c :: s).getLast (List.cons_ne_nil c s) ∈ (c :: s).getLast? := List.getLast?_eq_getLast_of_ne_nil _
        have hblank := hall _ (List.getLast_mem (List.cons_ne_nil c s))
        rw [h _ hlast] at hblank
        cases hblank
    | cons c t =>
      rw [char_of_skip hskip, if_pos rfl, Option.elim_some]
      have hsuffix : c :: t <:+ s := hskip ▸ List.dropWhile_suffix _
      obtain ⟨a, rfl⟩ := hsuffix
      have hends : Ends t := Ends.of_append (a := a ++ [c]) (by simpa using h)
      exact ih t.length (by simp at hn; omega) hends rfl

end Words

/-! ### Printed numbers -/

theorem numeral_eq {ds : List Char} (h : ∀ d ∈ ds, d.isDigit) (n : ℕ) :
    ds.foldl (fun (n : ℤ) d => 10 * n + (d.toNat - '0'.toNat)) n = Nat.ofDigitChars 10 ds n := by
  induction ds generalizing n with
  | nil => rfl
  | cons d ds ih =>
    have hlow : '0'.toNat ≤ d.toNat := by
      have hd := h d List.mem_cons_self
      simp only [Char.isDigit, Bool.and_eq_true, decide_eq_true_eq, ge_iff_le] at hd
      exact UInt32.le_iff_toNat_le.1 hd.1
    rw [List.foldl_cons, Nat.ofDigitChars_cons, ← ih fun e he => h e (List.mem_cons_of_mem d he)]
    rw [Nat.cast_add, Nat.cast_mul, Nat.cast_sub hlow]
    rfl

theorem not_space_of_le {c : Char} (h : 33 ≤ c.toNat) : space c = false := by
  have hblank : c ≠ ' ' := by
    rintro rfl
    exact absurd h (by decide)
  simp only [space, Bool.or_eq_false_iff, Bool.and_eq_false_iff, decide_eq_false_iff_not]
  exact ⟨hblank, Or.inr (by omega)⟩

theorem not_space_of_isDigit {c : Char} (h : c.isDigit) : space c = false := by
  have hlow : '0'.toNat ≤ c.toNat := by
    simp only [Char.isDigit, Bool.and_eq_true, decide_eq_true_eq, ge_iff_le] at h
    exact UInt32.le_iff_toNat_le.1 h.1
  exact not_space_of_le (le_trans (by decide) hlow)

theorem sign_of_isDigit {c : Char} (h : c.isDigit) (s : List Char) : sign (c :: s) = (false, c :: s) := by
  unfold sign
  split
  · next heq =>
    obtain ⟨rfl, -⟩ := List.cons.inj heq
    cases h
  · next heq =>
    obtain ⟨rfl, -⟩ := List.cons.inj heq
    cases h
  · rfl

theorem digits_toDigits (k : ℕ) {t : List Char} (ht : ∀ c ∈ t.head?, c.isDigit = false) :
    digits (Nat.toDigits 10 k ++ t) = some (Nat.toDigits 10 k, t) := by
  have hdigits : ∀ d ∈ Nat.toDigits 10 k, d.isDigit := fun d hd =>
    Nat.isDigit_of_mem_toDigits (by decide) (by decide) hd
  have hnone : t.takeWhile Char.isDigit = [] ∧ t.dropWhile Char.isDigit = t := by
    cases t with
    | nil => exact ⟨rfl, rfl⟩
    | cons c t => simp [ht c rfl]
  have hne : Nat.toDigits 10 k ≠ [] := by
    rw [← Nat.toList_repr]
    simp
  rw [digits, List.takeWhile_append_of_pos hdigits, List.dropWhile_append_of_pos hdigits, hnone.1, hnone.2,
    List.append_nil, if_neg hne]

theorem numeral_toDigits (k : ℕ) : numeral (Nat.toDigits 10 k) = k := by
  have hdigits : ∀ d ∈ Nat.toDigits 10 k, d.isDigit := fun d hd =>
    Nat.isDigit_of_mem_toDigits (by decide) (by decide) hd
  have hnumeral := numeral_eq hdigits 0
  rw [Nat.ofDigitChars_ten_toDigits] at hnumeral
  exact hnumeral

/-- A printed number is read back, up to what is no digit. -/
theorem int_toString {n : ℤ} (hlow : -2 ^ 31 ≤ n) (hhigh : n < 2 ^ 31) {t : List Char}
    (ht : ∀ c ∈ t.head?, c.isDigit = false) : int ((toString n).toList ++ t) = some (n, t) := by
  cases n with
  | ofNat k =>
    have hlist : (toString (Int.ofNat k)).toList = Nat.toDigits 10 k := Nat.toList_repr
    obtain ⟨c, cs, hcs⟩ : ∃ c cs, Nat.toDigits 10 k = c :: cs := by
      refine List.exists_cons_of_ne_nil ?_
      rw [← Nat.toList_repr]
      simp
    have hc : c.isDigit := Nat.isDigit_of_mem_toDigits (b := 10) (n := k) (by decide) (by decide) (by simp [hcs])
    have hskip : skip (Nat.toDigits 10 k ++ t) = Nat.toDigits 10 k ++ t := by
      refine skip_of_head fun d hd => ?_
      rw [hcs] at hd
      obtain rfl := Option.some.inj hd
      exact not_space_of_isDigit hc
    have hsign : sign (Nat.toDigits 10 k ++ t) = (false, Nat.toDigits 10 k ++ t) := by
      rw [hcs]
      exact sign_of_isDigit hc _
    rw [hlist, int, hskip, hsign, digits_toDigits k ht, Option.bind_some]
    simp only [numeral_toDigits]
    exact if_pos ⟨hlow, hhigh⟩
  | negSucc k =>
    have hlist : (toString (Int.negSucc k)).toList = '-' :: Nat.toDigits 10 (k + 1) := by
      rw [← Nat.toList_repr]
      change ("-" ++ (k + 1).repr).toList = _
      simp
    have hskip : skip ('-' :: Nat.toDigits 10 (k + 1) ++ t) = '-' :: (Nat.toDigits 10 (k + 1) ++ t) :=
      skip_of_head fun d hd => by
        obtain rfl := Option.some.inj hd
        decide
    rw [hlist, int, hskip, sign, digits_toDigits (k + 1) ht, Option.bind_some]
    simp only [numeral_toDigits]
    exact if_pos ⟨hlow, hhigh⟩

/-- A number is taken from the text. -/
theorem length_of_int {s t : List Char} {n : ℤ} (h : int s = some (n, t)) : t.length ≤ s.length := by
  obtain ⟨x, hx, hn⟩ := Option.bind_eq_some_iff.1 h
  simp only [Option.ite_none_right_eq_some, Option.some.injEq, Prod.mk.injEq] at hn
  obtain ⟨-, -, rfl⟩ := hn
  obtain ⟨a, ha, -⟩ : After (fun _ => True) s x.2 :=
    (after_dropWhile (fun _ _ => trivial) s).trans
      ((after_sign trivial trivial _).trans (after_digits (fun _ _ => trivial) hx))
  rw [ha, List.length_append]
  omega

end Spirit
