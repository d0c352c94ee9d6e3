import Wdb.Write.ParameterType

/-! `WdbConfigFile`: configuration files of keys with values, and of keys that are not loaded.

    A line is cut at its comment, and nothing is done when nothing is left. A line that begins with `!`
    is kept under the whole of it, after white space has been normalized. A key that is not there is
    looked up behind `! `. -/

namespace Wdb.Configuration
open Write

/-! ### The source -/

/-- What is thrown. -/
inductive Failure where
  | invalidArgument (what : String)
  | ignoreValue (what : String)
  | outOfRange (what : String)
  deriving DecidableEq

/-- `configTable_`, the last entry first. -/
abbrev ConfigTable := List (List Char × List Char)

/-- `regex_replace(s, "(\\s+,)", ",")`: white space goes in front of a comma. -/
def commas : List Char → List Char
  | [] => []
  | c :: s => if isSpace c && (commas s).head? = some ',' then commas s else c :: commas s

/-- `trim`. -/
def trim (s : List Char) : List Char := (s.dropWhile isSpace).rdropWhile isSpace

/-- `substr(find_first_of("=") + 1)`: without `=` this is the whole text. -/
def afterEquals (s : List Char) : List Char :=
  if '=' ∈ s then (s.dropWhile (· ≠ '=')).tail else s

section Parse
variable (fileName : String)

def extractKey (specification : List Char) : Except Failure (List Char) :=
  let ret := trim (specification.takeWhile (· ≠ '='))
  if ret = [] then
    .error (.invalidArgument ("Specification in file " ++ fileName ++ " does not contain a key: " ++
      String.ofList specification))
  else .ok ret

def extractValue (specification : List Char) : Except Failure (List Char) :=
  let ret := trim (afterEquals specification)
  if ret = [] then
    .error (.invalidArgument ("Specification in file " ++ fileName ++ " does not contain a value: " ++
      String.ofList specification))
  else .ok ret

def parse (configTable : ConfigTable) (specification : List Char) : Except Failure ConfigTable := do
  let specification := specification.takeWhile (· ≠ '#')
  if specification = [] then return configTable
  let loadValue := decide (specification.head? ≠ some '!')
  let specification := trim (commas (collapse false specification))
  let key ← extractKey fileName specification
  let value ← (if loadValue then extractValue fileName specification else .ok "NULL".toList)
  return (key, value) :: configTable

/-- `open`, for a file that can be opened: `getline` gives the lines, also the empty one at the end. -/
def openText (text : List Char) : Except Failure ConfigTable :=
  (text.splitOn '\n').foldlM (parse fileName) []

end Parse

def get (configTable : ConfigTable) (key : List Char) : Except Failure (List Char) :=
  match configTable.lookup key with
  | some value => .ok value
  | none =>
    match configTable.lookup ("! ".toList ++ key) with
    | some _ => .error (.ignoreValue ("Key value " ++ String.ofList key ++ " is ignored."))
    | none => .error (.outOfRange ("Key value " ++ String.ofList key ++
        " is not defined in configuration file."))

/-! ### Configuration texts -/

/-- White space within a line. -/
structure Blanks where
  chars : List Char
  blank : ∀ c ∈ chars, isSpace c ∧ c ≠ '\n'

/-- A value: a text on one line, without a comment and without white space around it. -/
structure Value where
  chars : List Char
  ne_nil : chars ≠ []
  line : '\n' ∉ chars
  noComment : '#' ∉ chars
  head : ∀ c ∈ chars.head?, isSpace c = false
  last : ∀ c ∈ chars.getLast?, isSpace c = false

/-- A key is such a text without `=`, and does not begin with the mark of keys that are not loaded. -/
structure Key extends Value where
  noEquals : '=' ∉ chars
  unmarked : chars.head? ≠ some '!'

/-- The lines of a configuration. -/
inductive Line where
  | blank
  | spaces (b : Blanks) (ne_nil : b.chars ≠ [])
  | comment (b : Blanks) (text : List Char) (line : '\n' ∉ text)
  | assignment (b₁ : Blanks) (key : Key) (b₂ b₃ : Blanks) (value : Value) (b₄ : Blanks)
  | ignored (b₁ b₂ : Blanks) (key : Key) (b₃ : Blanks)

def Line.chars : Line → List Char
  | .blank => []
  | .spaces b _ => b.chars
  | .comment b text _ => b.chars ++ '#' :: text
  | .assignment b₁ key b₂ b₃ value b₄ =>
    b₁.chars ++ key.chars ++ b₂.chars ++ '=' :: (b₃.chars ++ value.chars ++ b₄.chars)
  | .ignored b₁ b₂ key b₃ => b₁.chars ++ '!' :: (b₂.chars ++ key.chars ++ b₃.chars)

/-- The text of the lines. -/
def textOf (lines : List Line) : List Char := ['\n'].intercalate (lines.map Line.chars)

/-- Normalized white space. -/
def normal (s : List Char) : List Char := trim (commas (collapse false s))

/-- The value that a line assigns to a key. -/
def Line.assigns (k : List Char) : Line → Option (List Char)
  | .assignment _ key _ _ value _ => if normal key.chars = k then some (normal value.chars) else none
  | _ => none

/-- A line says that a key is not loaded. -/
def Line.ignores (k : List Char) : Line → Bool
  | .ignored _ _ key _ => normal key.chars = k
  | _ => false

/-- The value of the last assignment of a key. -/
def lastValue (lines : List Line) (k : List Char) : Option (List Char) :=
  (lines.filterMap (Line.assigns k)).getLast?

/-- What `get` is to do for a key. -/
def expected (lines : List Line) (k : List Char) : Except Failure (List Char) :=
  match lastValue lines k with
  | some value => .ok value
  | none =>
    if lines.any (Line.ignores k) then
      .error (.ignoreValue ("Key value " ++ String.ofList k ++ " is ignored."))
    else
      .error (.outOfRange ("Key value " ++ String.ofList k ++ " is not defined in configuration file."))

/-- The text is read without a failure, and `get` does what it is to do for every key. -/
def ReadsWell (fileName : String) (lines : List Line) : Prop :=
  ∃ configTable, openText fileName (textOf lines) = .ok configTable ∧
    ∀ q : Key, get configTable (normal q.chars) = expected lines (normal q.chars)

/-- A line that is not empty and has nothing but white space in front of its comment. -/
def Line.hollow : Line → Bool
  | .spaces _ _ => true
  | .comment b _ _ => b.chars ≠ []
  | _ => false

/-- A line that keeps its key behind `! `: there is white space after the mark, and no comma after it. -/
def Line.keeps (k : List Char) : Line → Bool
  | .ignored _ b₂ key _ => normal key.chars = k ∧ b₂.chars ≠ [] ∧ key.chars.head? ≠ some ','
  | _ => false

/-! ### White space -/

section Space
variable {b : Bool} {s t u ws : List Char} {c : Char}

/-- White space is not a character that means something. -/
theorem ne_of_isSpace (hc : isSpace c) : c ≠ ',' ∧ c ≠ '=' ∧ c ≠ '#' ∧ c ≠ '!' := by
  refine ⟨?_, ?_, ?_, ?_⟩ <;> rintro rfl <;> exact absurd hc (by decide)

theorem commas_append (hc : isSpace c = false) (hne : c ≠ ',') :
    commas (s ++ c :: t) = commas s ++ c :: commas t := by
  induction s with
  | nil => simp [commas, hc]
  | cons d s ih =>
    rw [List.cons_append, commas, commas, ih]
    cases commas s with
    | nil => simp [hne]
    | cons e s' =>
      simp only [List.cons_append, List.head?_cons]
      by_cases h : isSpace d ∧ e = ',' <;> simp [h]

/-- A character that is neither white space nor a comma splits the text. -/
theorem normalize_append (hc : isSpace c = false) (hne : c ≠ ',') :
    commas (collapse false (s ++ c :: t)) =
      commas (collapse false s) ++ c :: commas (collapse false t) := by
  rw [collapse_append hc, commas_append hc hne]

theorem dropWhile_commas_blank :
    (commas (' ' :: s)).dropWhile isSpace = (commas s).dropWhile isSpace := by
  rw [commas]
  split
  · rfl
  · rw [List.dropWhile_cons_of_pos (by decide)]

theorem dropWhile_collapse : (commas (collapse b s)).dropWhile isSpace =
    (commas (collapse false s)).dropWhile isSpace := by
  cases b with
  | false => rfl
  | true =>
    cases s with
    | nil => rfl
    | cons c s =>
      by_cases hc : isSpace c
      · simp only [collapse, hc, if_true, Bool.false_eq_true, if_false, dropWhile_commas_blank]
      · simp [collapse, hc]

/-- White space in front. -/
theorem dropWhile_normalize (hws : ∀ c ∈ ws, isSpace c) :
    (commas (collapse b (ws ++ s))).dropWhile isSpace =
      (commas (collapse false s)).dropWhile isSpace := by
  induction ws generalizing b with
  | nil => exact dropWhile_collapse
  | cons c ws ih =>
    have hc := hws c List.mem_cons_self
    have ih := ih (b := true) fun c hc => hws c (List.mem_cons_of_mem _ hc)
    rw [List.cons_append, collapse, if_pos hc]
    split
    · exact ih
    · rw [dropWhile_commas_blank, ih]

theorem collapse_true_spaces (hws : ∀ c ∈ ws, isSpace c) : collapse true ws = [] := by
  induction ws with
  | nil => rfl
  | cons c ws ih =>
    rw [collapse, if_pos (hws c List.mem_cons_self), if_pos rfl]
    exact ih fun c hc => hws c (List.mem_cons_of_mem _ hc)

theorem collapse_spaces (hws : ∀ c ∈ ws, isSpace c) : ∀ c ∈ collapse b ws, isSpace c := by
  induction ws generalizing b with
  | nil => simp [collapse]
  | cons c ws ih =>
    have ih := ih (b := true) fun c hc => hws c (List.mem_cons_of_mem _ hc)
    rw [collapse, if_pos (hws c List.mem_cons_self)]
    split
    · exact ih
    · exact List.forall_mem_cons.2 ⟨by decide, ih⟩

/-- White space behind stays behind. -/
theorem collapse_append_spaces (hws : ∀ c ∈ ws, isSpace c) :
    ∃ tail, collapse b (s ++ ws) = collapse b s ++ tail ∧ ∀ c ∈ tail, isSpace c := by
  induction s generalizing b with
  | nil => exact ⟨collapse b ws, rfl, collapse_spaces hws⟩
  | cons c s ih =>
    rw [List.cons_append, collapse, collapse]
    split
    · obtain ⟨tail, htail, h⟩ := ih (b := true)
      split
      · exact ⟨tail, htail, h⟩
      · exact ⟨tail, by rw [htail]; rfl, h⟩
    · obtain ⟨tail, htail, h⟩ := ih (b := false)
      exact ⟨tail, by rw [htail]; rfl, h⟩

theorem commas_append_spaces (hws : ∀ c ∈ ws, isSpace c) : commas (s ++ ws) = commas s ++ ws := by
  have hhead : ws.head? ≠ some ',' := by
    intro h
    exact (ne_of_isSpace (hws _ (List.mem_of_mem_head? h))).1 rfl
  induction s with
  | nil =>
    clear hhead
    induction ws with
    | nil => rfl
    | cons c ws ih =>
      have ih := ih fun c hc => hws c (List.mem_cons_of_mem _ hc)
      simp only [List.nil_append, commas] at ih ⊢
      rw [ih, if_neg]
      cases ws with
      | nil => simp
      | cons d ws => simp [(ne_of_isSpace (hws d (by simp))).1]
  | cons c s ih =>
    rw [List.cons_append, commas, commas, ih]
    cases commas s with
    | nil => simp [hhead]
    | cons d s' =>
      simp only [List.cons_append, List.head?_cons]
      by_cases h : isSpace c ∧ d = ',' <;> simp [h]

theorem rdropWhile_append_spaces (hws : ∀ c ∈ ws, isSpace c) :
    (s ++ ws).rdropWhile isSpace = s.rdropWhile isSpace := by
  rw [List.rdropWhile, List.reverse_append, List.dropWhile_append_of_pos]
  · rfl
  · intro c hc
    exact hws c (List.mem_reverse.1 hc)

theorem rdropWhile_append_cons (hc : isSpace c = false) :
    (s ++ c :: t).rdropWhile isSpace = s ++ c :: t.rdropWhile isSpace := by
  induction t using List.reverseRecOn with
  | nil => exact List.rdropWhile_concat_neg _ _ _ (by simp [hc])
  | append_singleton t d ih =>
    rw [show s ++ c :: (t ++ [d]) = (s ++ c :: t) ++ [d] by simp]
    by_cases hd : isSpace d
    · rw [List.rdropWhile_concat_pos _ _ _ hd, List.rdropWhile_concat_pos _ _ _ hd, ih]
    · rw [List.rdropWhile_concat_neg _ _ _ hd, List.rdropWhile_concat_neg _ _ _ hd]
      simp

theorem dropWhile_append_cons (hc : isSpace c = false) :
    (s ++ c :: t).dropWhile isSpace = s.dropWhile isSpace ++ c :: t := by
  induction s with
  | nil => simp [hc]
  | cons d s ih =>
    by_cases hd : isSpace d
    · rw [List.cons_append, List.dropWhile_cons_of_pos hd, List.dropWhile_cons_of_pos hd, ih]
    · rw [List.cons_append, List.dropWhile_cons_of_neg hd, List.dropWhile_cons_of_neg hd,
        List.cons_append]

/-- Trimming leaves a character that is not white space, and works on both sides of it. -/
theorem trim_append_cons (hc : isSpace c = false) :
    trim (s ++ c :: t) = s.dropWhile isSpace ++ c :: t.rdropWhile isSpace := by
  rw [trim, dropWhile_append_cons hc, rdropWhile_append_cons hc]

theorem trim_append_spaces (hws : ∀ c ∈ ws, isSpace c) : trim (s ++ ws) = trim s := by
  by_cases h : ∀ c ∈ s, isSpace c
  · have hs : s.dropWhile isSpace = [] := List.dropWhile_eq_nil_iff.2 h
    have hall : (s ++ ws).dropWhile isSpace = [] := List.dropWhile_eq_nil_iff.2 fun c hc =>
      (List.mem_append.1 hc).elim (h c) (hws c)
    rw [trim, trim, hs, hall]
  · obtain ⟨c, hmem, hc⟩ : ∃ c ∈ s, isSpace c = false := by simpa using h
    obtain ⟨p, q, rfl⟩ := List.append_of_mem hmem
    rw [List.append_assoc, List.cons_append, trim_append_cons hc, trim_append_cons hc,
      rdropWhile_append_spaces hws]

theorem trim_dropWhile : trim (s.dropWhile isSpace) = trim s := by
  rw [trim, trim, List.dropWhile_idempotent]

theorem trim_rdropWhile : trim (s.rdropWhile isSpace) = trim s := by
  have h : ∀ c ∈ s.rtakeWhile isSpace, isSpace c := fun c hc => List.mem_rtakeWhile_imp hc
  rw [← trim_append_spaces h, List.rdropWhile_append_rtakeWhile]

theorem trim_trim : trim (trim s) = trim s := by
  calc trim (trim s) = trim ((s.dropWhile isSpace).rdropWhile isSpace) := rfl
    _ = trim s := by rw [trim_rdropWhile, trim_dropWhile]

theorem mem_of_mem_trim (h : c ∈ trim s) : c ∈ s :=
  (List.dropWhile_suffix _).subset ((List.rdropWhile_prefix _ _).subset h)

/-- White space around a text is not in its normal form. -/
theorem normal_around (hws : ∀ c ∈ ws, isSpace c) (hu : ∀ c ∈ u, isSpace c) :
    trim (commas (collapse false (ws ++ s ++ u))) = normal s := by
  obtain ⟨tail, htail, hspace⟩ := collapse_append_spaces (b := false) (s := s) hu
  rw [List.append_assoc, ← trim_dropWhile, dropWhile_normalize hws, trim_dropWhile, htail,
    commas_append_spaces hspace, trim_append_spaces hspace, normal]

end Space

/-! ### Lines -/

section Lines
variable {fileName : String} {configTable : ConfigTable} {s t u k key value : List Char} {c : Char}

theorem mem_commas (h : c ∈ commas s) : c ∈ s := by
  induction s with
  | nil => cases h
  | cons d s ih =>
    rw [commas] at h
    split_ifs at h
    · exact List.mem_cons_of_mem _ (ih h)
    · rcases List.mem_cons.1 h with rfl | h
      · exact List.mem_cons_self
      · exact List.mem_cons_of_mem _ (ih h)

/-- Normalization brings in no other characters than blanks. -/
theorem mem_normalize (h : c ∈ commas (collapse false s)) : c ∈ s ∨ c = ' ' :=
  mem_collapse (mem_commas h)

theorem not_mem_normalize (hc : isSpace c = false) (h : c ∉ s) : c ∉ commas (collapse false s) := by
  intro hmem
  rcases mem_normalize hmem with hmem | rfl
  · exact h hmem
  · exact absurd hc (by decide)

/-- A text that begins with another character than white space is not normalized to nothing. -/
theorem normal_cons (hc : isSpace c = false) :
    normal (c :: t) = c :: (commas (collapse false t)).rdropWhile isSpace := by
  have hn : commas (collapse false (c :: t)) = [] ++ c :: commas (collapse false t) := by
    simp [collapse, commas, hc]
  rw [normal, hn, trim_append_cons hc]
  rfl

theorem Value.exists_cons (v : Value) : ∃ c t, v.chars = c :: t ∧ isSpace c = false := by
  cases h : v.chars with
  | nil => exact absurd h v.ne_nil
  | cons c t => exact ⟨c, t, rfl, v.head c (by simp [h])⟩

theorem Value.normal_ne_nil (v : Value) : normal v.chars ≠ [] := by
  obtain ⟨c, t, h, hc⟩ := v.exists_cons
  rw [h, normal_cons hc]
  exact List.cons_ne_nil _ _

theorem Value.head_normal (v : Value) : (normal v.chars).head? = v.chars.head? := by
  obtain ⟨c, t, h, hc⟩ := v.exists_cons
  rw [h, normal_cons hc]
  rfl

/-- What `parse` does to a line of which something is left. -/
theorem parse_of_extract (hu : s.takeWhile (fun c => decide (c ≠ '#')) = u) (hne : u ≠ [])
    (hkey : extractKey fileName (trim (commas (collapse false u))) = .ok key)
    (hvalue : u.head? ≠ some '!' →
      extractValue fileName (trim (commas (collapse false u))) = .ok value) :
    parse fileName configTable s =
      .ok ((key, if u.head? ≠ some '!' then value else "NULL".toList) :: configTable) := by
  rw [parse, hu, if_neg hne]
  simp only [hkey]
  by_cases hhead : u.head? ≠ some '!'
  · simp only [decide_eq_true hhead, if_true, if_pos hhead, hvalue hhead]
    rfl
  · simp only [decide_eq_false hhead, Bool.false_eq_true, if_false, if_neg hhead]
    rfl

theorem parse_of_extract_error {e : Failure} (hu : s.takeWhile (fun c => decide (c ≠ '#')) = u)
    (hne : u ≠ []) (hkey : extractKey fileName (trim (commas (collapse false u))) = .error e) :
    parse fileName configTable s = .error e := by
  rw [parse, hu, if_neg hne]
  simp only [hkey]
  rfl

theorem parse_nil : parse fileName configTable [] = .ok configTable := rfl

theorem Blanks.forall_isSpace (b : Blanks) : ∀ c ∈ b.chars, isSpace c := fun c hc => (b.blank c hc).1

theorem Blanks.not_mem (b : Blanks) (hc : isSpace c = false) : c ∉ b.chars := fun h => by
  have h := (b.blank c h).1
  rw [hc] at h
  cases h

theorem forall_ne {d : Char} (hs : d ∉ s) : ∀ c ∈ s, decide (c ≠ d) = true := by
  intro c hc
  refine decide_eq_true ?_
  rintro rfl
  exact hs hc

/-- The key and the value of a normalized text with `=`. -/
theorem extractKey_append (hs : '=' ∉ s) (hne : trim s ≠ []) :
    extractKey fileName (s ++ '=' :: t) = .ok (trim s) := by
  have htake : (s ++ '=' :: t).takeWhile (fun c => decide (c ≠ '=')) = s := by
    rw [List.takeWhile_append_of_pos (forall_ne hs)]
    simp
  rw [extractKey, htake]
  exact if_neg hne

theorem extractValue_append (hs : '=' ∉ s) (hne : trim t ≠ []) :
    extractValue fileName (s ++ '=' :: t) = .ok (trim t) := by
  have hafter : afterEquals (s ++ '=' :: t) = t := by
    rw [afterEquals, if_pos (by simp), List.dropWhile_append_of_pos (forall_ne hs)]
    simp
  rw [extractValue, hafter]
  exact if_neg hne

/-- A normalized text without `=` is both. -/
theorem extract_of_not_mem (fileName : String) (hs : '=' ∉ s) (hne : trim s ≠ []) :
    extractKey fileName s = .ok (trim s) ∧ extractValue fileName s = .ok (trim s) := by
  have htake : s.takeWhile (fun c => decide (c ≠ '=')) = s := List.takeWhile_eq_self_iff.2 (forall_ne hs)
  rw [extractKey, extractValue, htake, afterEquals, if_neg hs]
  exact ⟨if_neg hne, if_neg hne⟩

/-- An assignment. -/
theorem parse_assignment (b₁ : Blanks) (key : Key) (b₂ b₃ : Blanks) (value : Value) (b₄ : Blanks) :
    parse fileName configTable (Line.assignment b₁ key b₂ b₃ value b₄).chars =
      .ok ((normal key.chars, normal value.chars) :: configTable) := by
  have hcomment : '#' ∉ (Line.assignment b₁ key b₂ b₃ value b₄).chars := by
    simp [Line.chars, key.noComment, value.noComment,
      Blanks.not_mem _ (show isSpace '#' = false by decide)]
  have hhead : (Line.assignment b₁ key b₂ b₃ value b₄).chars.head? ≠ some '!' := by
    cases hb : b₁.chars with
    | nil =>
      obtain ⟨c, t, hkey, -⟩ := key.exists_cons
      have h := key.unmarked
      simpa [Line.chars, hb, hkey] using h
    | cons c t =>
      have h := (ne_of_isSpace (b₁.blank c (by simp [hb])).1).2.2.2
      simpa [Line.chars, hb] using h
  have hequals :
      '=' ∉ (commas (collapse false (b₁.chars ++ key.chars ++ b₂.chars))).dropWhile isSpace := by
    intro h
    refine not_mem_normalize (by decide) ?_ (List.dropWhile_suffix _ |>.subset h)
    simp [key.noEquals, Blanks.not_mem _ (show isSpace '=' = false by decide)]
  have hkey := normal_around (s := key.chars) b₁.forall_isSpace b₂.forall_isSpace
  have hvalue := normal_around (s := value.chars) b₃.forall_isSpace b₄.forall_isSpace
  have hne :
      trim ((commas (collapse false (b₁.chars ++ key.chars ++ b₂.chars))).dropWhile isSpace) ≠ [] := by
    rw [trim_dropWhile, hkey]
    exact key.normal_ne_nil
  have hne' :
      trim ((commas (collapse false (b₃.chars ++ value.chars ++ b₄.chars))).rdropWhile isSpace) ≠ [] := by
    rw [trim_rdropWhile, hvalue]
    exact value.normal_ne_nil
  have hnorm : trim (commas (collapse false (Line.assignment b₁ key b₂ b₃ value b₄).chars)) =
      (commas (collapse false (b₁.chars ++ key.chars ++ b₂.chars))).dropWhile isSpace ++
        '=' :: (commas (collapse false (b₃.chars ++ value.chars ++ b₄.chars))).rdropWhile isSpace := by
    rw [Line.chars, normalize_append (by decide) (by decide), trim_append_cons (by decide)]
  have hk : extractKey fileName (trim (commas (collapse false
      (Line.assignment b₁ key b₂ b₃ value b₄).chars))) = .ok (normal key.chars) := by
    rw [hnorm, extractKey_append hequals hne, trim_dropWhile, hkey]
  have hv : extractValue fileName (trim (commas (collapse false
      (Line.assignment b₁ key b₂ b₃ value b₄).chars))) = .ok (normal value.chars) := by
    rw [hnorm, extractValue_append hequals hne', trim_rdropWhile, hvalue]
  rw [parse_of_extract (List.takeWhile_eq_self_iff.2 (forall_ne hcomment)) (by simp [Line.chars]) hk
    fun _ => hv, if_pos hhead]

/-- What is kept for a key that is not loaded. -/
def ignoredKey (b₂ : Blanks) (key : Key) : List Char :=
  '!' :: if b₂.chars ≠ [] ∧ key.chars.head? ≠ some ',' then ' ' :: normal key.chars
    else normal key.chars

/-- White space after the mark is one blank, or nothing in front of a comma. -/
theorem normalize_blanks_key (b₂ : Blanks) (key : Key) :
    (commas (collapse false (b₂.chars ++ key.chars))).rdropWhile isSpace =
      if b₂.chars ≠ [] ∧ key.chars.head? ≠ some ',' then ' ' :: normal key.chars
      else normal key.chars := by
  obtain ⟨c, t, hkey, hc⟩ := key.exists_cons
  have hcons : commas (c :: collapse false t) = c :: commas (collapse false t) := by simp [commas, hc]
  rw [hkey, collapse_append hc, normal_cons hc]
  cases hb : b₂.chars with
  | nil => simpa [collapse, hcons] using rdropWhile_append_cons (s := []) hc
  | cons d ws =>
    have hws : ∀ e ∈ d :: ws, isSpace e := fun e he => b₂.forall_isSpace e (hb ▸ he)
    have hcollapse : collapse false (d :: ws) = [' '] := by
      have hrun : collapse true ws = [] :=
        collapse_true_spaces fun e he => hws e (List.mem_cons_of_mem _ he)
      simp [collapse, hws d List.mem_cons_self, hrun]
    rw [hcollapse, List.singleton_append, commas, hcons]
    by_cases hcomma : c = ','
    · simpa [hcomma, show isSpace ' ' = true by decide] using
        rdropWhile_append_cons (s := []) (hcomma ▸ hc)
    · simpa [hcomma] using rdropWhile_append_cons (s := [' ']) hc

theorem parse_ignored (fileName : String) (configTable : ConfigTable) (b₁ b₂ : Blanks) (key : Key)
    (b₃ : Blanks) : ∃ value,
    parse fileName configTable (Line.ignored b₁ b₂ key b₃).chars =
      .ok ((ignoredKey b₂ key, value) :: configTable) := by
  have hcomment : '#' ∉ (Line.ignored b₁ b₂ key b₃).chars := by
    simp [Line.chars, key.noComment, Blanks.not_mem _ (show isSpace '#' = false by decide)]
  have hnorm : trim (commas (collapse false (Line.ignored b₁ b₂ key b₃).chars)) = ignoredKey b₂ key := by
    have hleft := dropWhile_normalize (b := false) (s := []) b₁.forall_isSpace
    obtain ⟨tail, htail, hspace⟩ :=
      collapse_append_spaces (b := false) (s := b₂.chars ++ key.chars) b₃.forall_isSpace
    rw [List.append_nil] at hleft
    rw [Line.chars, normalize_append (by decide) (by decide), trim_append_cons (by decide), hleft, htail,
      commas_append_spaces hspace, rdropWhile_append_spaces hspace, normalize_blanks_key]
    rfl
  have htrim : trim (ignoredKey b₂ key) = ignoredKey b₂ key := by
    rw [← hnorm]
    exact trim_trim
  have hequals : '=' ∉ ignoredKey b₂ key := by
    rw [← hnorm]
    refine fun h => not_mem_normalize (by decide) ?_ (mem_of_mem_trim h)
    simp [Line.chars, key.noEquals, Blanks.not_mem _ (show isSpace '=' = false by decide)]
  have hne : trim (ignoredKey b₂ key) ≠ [] := by
    rw [htrim]
    exact List.cons_ne_nil _ _
  obtain ⟨hk, hv⟩ := extract_of_not_mem fileName hequals hne
  rw [← hnorm] at hk hv
  have hparse := @parse_of_extract fileName configTable _ _ _ _
    (List.takeWhile_eq_self_iff.2 (forall_ne hcomment)) (by simp [Line.chars]) hk fun _ => hv
  rw [hnorm, htrim] at hparse
  exact ⟨_, hparse⟩

/-- A line with nothing but white space in front of its comment is not accepted. -/
theorem parse_spaces {ws : List Char} (hws : ∀ c ∈ ws, isSpace c) (hne : ws ≠ [])
    (ht : t = [] ∨ t.head? = some '#') : ∃ e, parse fileName configTable (ws ++ t) = .error e := by
  have htake : (ws ++ t).takeWhile (fun c => decide (c ≠ '#')) = ws := by
    rw [List.takeWhile_append_of_pos fun c hc => decide_eq_true (ne_of_isSpace (hws c hc)).2.2.1]
    obtain rfl | ht := ht
    · simp
    · obtain ⟨u, rfl⟩ := List.head?_eq_some_iff.1 ht
      simp
  have hnil : trim (commas (collapse false ws)) = [] := by
    have h := dropWhile_normalize (b := false) (s := []) hws
    rw [List.append_nil] at h
    rw [trim, h]
    rfl
  exact ⟨_, parse_of_extract_error htake hne (by rw [hnil]; rfl)⟩

end Lines

/-! ### The table -/

section Table
variable {fileName : String} {configTable : ConfigTable} {lines : List Line} {line : Line}

theorem Line.not_mem_newline (line : Line) : '\n' ∉ line.chars := by
  have hb : ∀ b : Blanks, '\n' ∉ b.chars := fun b h => (b.blank _ h).2 rfl
  cases line with
  | blank => exact List.not_mem_nil
  | spaces b ne_nil => exact hb b
  | comment b text line => simp [Line.chars, hb, line]
  | assignment b₁ key b₂ b₃ value b₄ => simp [Line.chars, hb, key.line, value.line]
  | ignored b₁ b₂ key b₃ => simp [Line.chars, hb, key.line]

/-- The table has the last values of the keys, and keeps behind `! ` the keys of lines with a blank. -/
structure Represents (configTable : ConfigTable) (lines : List Line) : Prop where
  value : ∀ q : Key, configTable.lookup (normal q.chars) = lastValue lines (normal q.chars)
  ignored : ∀ q : Key, (configTable.lookup ("! ".toList ++ normal q.chars)).isSome =
    lines.any (Line.keeps (normal q.chars))

theorem represents_nil : Represents [] [] := ⟨fun _ => rfl, fun _ => rfl⟩

theorem lastValue_concat (k : List Char) :
    lastValue (lines ++ [line]) k = (line.assigns k).or (lastValue lines k) := by
  cases h : line.assigns k <;> simp [lastValue, List.filterMap_append, h]

theorem Key.head_normal_ne (q : Key) : (normal q.chars).head? ≠ some '!' := by
  rw [q.head_normal]
  exact q.unmarked

/-- A key that is not loaded is kept behind `! ` when its line has a blank and no comma there. -/
theorem marked_eq_ignoredKey {q key : Key} {b₂ : Blanks} :
    "! ".toList ++ normal q.chars = ignoredKey b₂ key ↔
      normal key.chars = normal q.chars ∧ b₂.chars ≠ [] ∧ key.chars.head? ≠ some ',' := by
  have hmark : "! ".toList ++ normal q.chars = '!' :: ' ' :: normal q.chars := rfl
  rw [hmark, ignoredKey, List.cons.injEq, eq_self_iff_true, true_and]
  split_ifs with h
  · simp [h, eq_comm]
  · refine iff_of_false (fun heq => ?_) fun h' => h h'.2
    obtain ⟨c, t, hkey, hc⟩ := key.exists_cons
    rw [hkey, normal_cons hc, List.cons.injEq] at heq
    rw [← heq.1] at hc
    exact absurd hc (by decide)

/-- What is kept for a key that is not loaded begins with the mark. -/
theorem normal_ne_ignoredKey {q key : Key} {b₂ : Blanks} : normal q.chars ≠ ignoredKey b₂ key := by
  intro h
  exact q.head_normal_ne (by rw [h]; rfl)

theorem lookup_cons_of_ne {k k' v : List Char} (h : k ≠ k') :
    List.lookup k ((k', v) :: configTable) = configTable.lookup k := by
  rw [List.lookup_cons, beq_false_of_ne h]

theorem lookup_cons_self {k v : List Char} : List.lookup k ((k, v) :: configTable) = some v := by
  rw [List.lookup_cons, beq_self_eq_true]

/-- A line that is not hollow keeps the table as it is to be. -/
theorem Represents.step (fileName : String) (h : Represents configTable lines)
    (hline : line.hollow = false) :
    ∃ configTable', parse fileName configTable line.chars = .ok configTable' ∧
      Represents configTable' (lines ++ [line]) := by
  have hkeeps : ∀ k, (lines ++ [line]).any (Line.keeps k) = (lines.any (Line.keeps k) || line.keeps k) :=
    fun k => by simp
  cases line with
  | blank =>
    refine ⟨configTable, parse_nil, fun q => ?_, fun q => ?_⟩
    · rw [lastValue_concat, h.value]
      rfl
    · rw [hkeeps, h.ignored]
      exact (Bool.or_false _).symm
  | spaces b ne_nil => cases hline
  | comment b text line =>
    have hb : b.chars = [] := by simpa [Line.hollow] using hline
    refine ⟨configTable, by rw [Line.chars, hb]; rfl, fun q => ?_, fun q => ?_⟩
    · rw [lastValue_concat, h.value]
      rfl
    · rw [hkeeps, h.ignored]
      exact (Bool.or_false _).symm
  | assignment b₁ key b₂ b₃ value b₄ =>
    refine ⟨_, parse_assignment b₁ key b₂ b₃ value b₄, fun q => ?_, fun q => ?_⟩
    · rw [lastValue_concat, Line.assigns]
      split_ifs with hk
      · rw [hk, lookup_cons_self, Option.some_or]
      · rw [lookup_cons_of_ne (Ne.symm hk), h.value, Option.none_or]
    · have hne : "! ".toList ++ normal q.chars ≠ normal key.chars := fun heq =>
        key.head_normal_ne (by rw [← heq]; rfl)
      rw [lookup_cons_of_ne hne, hkeeps, h.ignored]
      exact (Bool.or_false _).symm
  | ignored b₁ b₂ key b₃ =>
    obtain ⟨value, hparse⟩ := parse_ignored fileName configTable b₁ b₂ key b₃
    refine ⟨_, hparse, fun q => ?_, fun q => ?_⟩
    · rw [lookup_cons_of_ne normal_ne_ignoredKey, lastValue_concat, h.value]
      rfl
    · rw [hkeeps, Line.keeps]
      by_cases hk : "! ".toList ++ normal q.chars = ignoredKey b₂ key
      · rw [hk, lookup_cons_self, decide_eq_true (marked_eq_ignoredKey.1 hk), Bool.or_true]
        rfl
      · rw [lookup_cons_of_ne hk, h.ignored, decide_eq_false (mt marked_eq_ignoredKey.2 hk),
          Bool.or_false]

theorem Represents.run {lines₀ : List Line} (fileName : String) (h : Represents configTable lines₀)
    (hlines : ∀ line ∈ lines, line.hollow = false) :
    ∃ configTable', (lines.map Line.chars).foldlM (parse fileName) configTable = .ok configTable' ∧
      Represents configTable' (lines₀ ++ lines) := by
  induction lines generalizing configTable lines₀ with
  | nil => exact ⟨configTable, rfl, by rwa [List.append_nil]⟩
  | cons line lines ih =>
    obtain ⟨t, hparse, ht⟩ := h.step fileName (hlines line List.mem_cons_self)
    obtain ⟨t', hrun, ht'⟩ := ih ht fun l hl => hlines l (List.mem_cons_of_mem _ hl)
    refine ⟨t', ?_, by rwa [List.append_assoc] at ht'⟩
    rw [List.map_cons, List.foldlM_cons, hparse]
    exact hrun

/-- A hollow line is not accepted. -/
theorem parse_hollow (fileName : String) (configTable : ConfigTable) (hline : line.hollow = true) :
    ∃ e, parse fileName configTable line.chars = .error e := by
  cases line with
  | spaces b ne_nil =>
    rw [Line.chars, ← List.append_nil b.chars]
    exact parse_spaces b.forall_isSpace ne_nil (Or.inl rfl)
  | comment b text line =>
    have hb : b.chars ≠ [] := by simpa [Line.hollow] using hline
    exact parse_spaces b.forall_isSpace hb (Or.inr rfl)
  | _ => cases hline

theorem foldlM_hollow (fileName : String) (configTable : ConfigTable)
    (h : ∃ line ∈ lines, line.hollow = true) :
    ∃ e, (lines.map Line.chars).foldlM (parse fileName) configTable = .error e := by
  induction lines generalizing configTable with
  | nil => simp at h
  | cons line lines ih =>
    rw [List.map_cons, List.foldlM_cons]
    cases hparse : parse fileName configTable line.chars with
    | error e => exact ⟨e, rfl⟩
    | ok t =>
      refine ih t ?_
      obtain ⟨l, hl, hhollow⟩ := h
      rcases List.mem_cons.1 hl with rfl | hl
      · obtain ⟨e, he⟩ := parse_hollow fileName configTable hhollow
        rw [hparse] at he
        cases he
      · exact ⟨l, hl, hhollow⟩

theorem openText_textOf : openText fileName (textOf lines) =
    (lines.map Line.chars).foldlM (parse fileName) [] := by
  cases lines with
  | nil => rfl
  | cons line lines =>
    rw [openText, textOf, List.splitOn_intercalate '\n' _ (by simp)]
    intro l hl
    obtain ⟨line, -, rfl⟩ := List.mem_map.1 hl
    exact line.not_mem_newline

theorem ignores_of_keeps {k : List Char} (h : lines.any (Line.keeps k) = true) :
    lines.any (Line.ignores k) = true := by
  obtain ⟨line, hline, hk⟩ := List.any_eq_true.1 h
  refine List.any_eq_true.2 ⟨line, hline, ?_⟩
  cases line with
  | ignored b₁ b₂ key b₃ => exact decide_eq_true (of_decide_eq_true hk).1
  | _ => cases hk

/-- What `get` finds. -/
theorem Represents.get_eq (h : Represents configTable lines) (q : Key) :
    get configTable (normal q.chars) = expected lines (normal q.chars) ↔
      (lines.any (Line.ignores (normal q.chars)) = true → lastValue lines (normal q.chars) = none →
        lines.any (Line.keeps (normal q.chars)) = true) := by
  have hignored := h.ignored q
  rw [get, expected, h.value]
  cases hvalue : lastValue lines (normal q.chars) with
  | some value => simp
  | none =>
    cases hlookup : configTable.lookup ("! ".toList ++ normal q.chars) with
    | some value =>
      rw [hlookup] at hignored
      simp [← hignored, ignores_of_keeps hignored.symm]
    | none =>
      rw [hlookup] at hignored
      cases hi : lines.any (Line.ignores (normal q.chars)) <;> simp [← hignored]

end Table

/-- A configuration is read well when no line has only white space in front of its comment or its end,
    and every key that is only in lines with `!` is in one with a blank after it, in front of no comma. -/
theorem readsWell_iff (fileName : String) (lines : List Line) : ReadsWell fileName lines ↔
    (∀ line ∈ lines, line.hollow = false) ∧
      ∀ q : Key, lines.any (Line.ignores (normal q.chars)) = true →
        lastValue lines (normal q.chars) = none → lines.any (Line.keeps (normal q.chars)) = true := by
  rw [ReadsWell, openText_textOf]
  constructor
  · rintro ⟨configTable, hopen, hget⟩
    have hhollow : ∀ line ∈ lines, line.hollow = false := by
      by_contra hne
      have hhollow : ∃ line ∈ lines, line.hollow = true := by simpa using hne
      obtain ⟨e, he⟩ := foldlM_hollow fileName [] hhollow
      rw [he] at hopen
      cases hopen
    obtain ⟨configTable', hrun, hrep⟩ := represents_nil.run fileName hhollow
    obtain rfl := Except.ok.inj (hrun.symm.trans hopen)
    exact ⟨hhollow, fun q => (hrep.get_eq q).1 (hget q)⟩
  · rintro ⟨hhollow, hkeys⟩
    obtain ⟨configTable, hrun, hrep⟩ := represents_nil.run fileName hhollow
    exact ⟨configTable, hrun, fun q => (hrep.get_eq q).2 (hkeys q)⟩

/-- A comment with a blank in front of it. -/
theorem not_readsWell_indented :
    ¬ ReadsWell "wdb.conf" [.comment ⟨[' '], by simp [isSpace]⟩ ['x'] (by simp)] := by
  rintro ⟨configTable, hopen, -⟩
  rw [openText_textOf] at hopen
  obtain ⟨e, he⟩ := foldlM_hollow "wdb.conf" []
    ⟨Line.comment ⟨[' '], by simp [isSpace]⟩ ['x'] (by simp), List.mem_singleton_self _, rfl⟩
  rw [he] at hopen
  cases hopen

end Wdb.Configuration
