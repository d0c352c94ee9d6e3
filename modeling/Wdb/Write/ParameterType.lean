import Wdb.Lib.SqlTypes

/-! `ValueParameterType` and `LevelParameterType`: how a parameter string is normalized before it is
    looked up.

    Both lower the letters and put one blank in the place of every run of white space. A value parameter
    loses the word `instant` in front of it. -/

namespace Wdb.Write
open SqlTypes

/-- `\s`: the blank, and the characters from tab to carriage return. -/
def isSpace (c : Char) : Bool := c = ' ' || (9 ≤ c.toNat && c.toNat ≤ 13)

/-- `regex_replace(s, "(\\s+)", " ")`. `inRun` is whether the character before is white space. -/
def collapse : Bool → List Char → List Char
  | _, [] => []
  | inRun, c :: s =>
    if isSpace c then if inRun then collapse true s else ' ' :: collapse true s
    else c :: collapse false s

/-- What both types do to a specification; an empty one is invalid. -/
def normalized (specification : String) : Option (List Char) :=
  if specification = "" then none else some (collapse false (lower specification).toList)

/-- The word that is removed. -/
def instant : List Char := "instant ".toList

/-- `s` without the word. -/
def eraseInstant (s : List Char) : List Char := if s.take 8 = instant then s.drop 8 else s

/-- `ValueParameterType(specification).str()`; `none` is the `logic_error`. -/
def valueParameterType (specification : String) : Option String :=
  (normalized specification).map fun s => String.ofList (eraseInstant s)

/-- `LevelParameterType(specification).str()`. -/
def levelParameterType (specification : String) : Option String :=
  (normalized specification).map String.ofList

example : valueParameterType "Instant  Air\tTemperature" = some "air temperature" := by decide

/-! ### White space -/

section Collapse
variable {b : Bool} {s t : List Char} {c : Char}

/-- White space is at most a blank. -/
theorem isSpace_of_le (h : 33 ≤ c.toNat) : isSpace c = false := by
  have hblank : c ≠ ' ' := by
    rintro rfl
    exact absurd h (by decide)
  simp only [isSpace, Bool.or_eq_false_iff, Bool.and_eq_false_iff, decide_eq_false_iff_not]
  exact ⟨hblank, Or.inr (by omega)⟩

theorem isSpace_of_isAlpha (hc : c.isAlpha) : isSpace c = false := by
  refine isSpace_of_le ?_
  have hupper : 'A'.val.toNat = 65 := rfl
  have hlower : 'a'.val.toNat = 97 := rfl
  have hnat : c.toNat = c.val.toNat := rfl
  simp only [Char.isAlpha, Char.isUpper, Char.isLower, Bool.or_eq_true, Bool.and_eq_true,
    decide_eq_true_eq, ge_iff_le, UInt32.le_iff_toNat_le] at hc
  omega

theorem isSpace_of_isDigit (hc : c.isDigit) : isSpace c = false := by
  refine isSpace_of_le ?_
  have hzero : '0'.val.toNat = 48 := rfl
  have hnat : c.toNat = c.val.toNat := rfl
  simp only [Char.isDigit, Bool.and_eq_true, decide_eq_true_eq, ge_iff_le, UInt32.le_iff_toNat_le] at hc
  omega

@[simp] theorem isSpace_toLower (c : Char) : isSpace c.toLower = isSpace c :=
  toLower_blind (fun _ h => isSpace_of_isAlpha h) c

theorem collapse_append (hc : isSpace c = false) :
    collapse b (s ++ c :: t) = collapse b s ++ c :: collapse false t := by
  induction s generalizing b with
  | nil => simp [collapse, hc]
  | cons d s ih => cases b <;> by_cases hd : isSpace d <;> simp [collapse, hd, ih]

theorem mem_collapse {b : Bool} (h : c ∈ collapse b s) : c ∈ s ∨ c = ' ' := by
  induction s generalizing b with
  | nil => cases h
  | cons d s ih =>
    rw [collapse] at h
    split_ifs at h
    · exact (ih h).imp_left (List.mem_cons_of_mem _)
    · rcases List.mem_cons.1 h with rfl | h
      · exact Or.inr rfl
      · exact (ih h).imp_left (List.mem_cons_of_mem _)
    · rcases List.mem_cons.1 h with rfl | h
      · exact Or.inl List.mem_cons_self
      · exact (ih h).imp_left (List.mem_cons_of_mem _)

end Collapse

end Wdb.Write
