import Wdb.Lib.Hexadecimal
import Wdb.Lib.Regex

/-! The paths of the files that hold grid values.

    The path of an id has its sixteen hexadecimal digits, those of the unsigned number for a negative id.
    The id of a path is read as a signed number: sixteen digits from `8` on are too large. -/

namespace Wdb.Blob
open Perl Hexadecimal

/-! ### Paths -/

/-- `FileId`. -/
abbrev FileId := BitVec 64

abbrev Path := List Char

/-- `branch_path`: the path without what follows the last separators, which are kept only as the root. -/
def branchPath (p : Path) : Path :=
  let dir := p.rdropWhile (· ≠ '/')
  if dir.all (· = '/') then dir.take 1 else dir.rdropWhile (· = '/')

/-- What paths are compared by: their elements. -/
def elements (p : Path) : List Path :=
  (if p.head? = some '/' then [['/']] else []) ++ (p.splitOn '/').filter (· ≠ [])

/-- The generator of a storage directory, which is named after the database. -/
structure PathGenerator where
  basePath : Path
  named : basePath.getLast? ≠ none ∧ basePath.getLast? ≠ some '/'

/-- `(.*/)?([0-9a-fA-F]{16})[.]dat` -/
def fileNameRegex : Regex :=
  seqs [opt (.group 1 (.seq (.star fun _ => true) (.char (· = '/')))),
    .group 2 (classes (List.replicate 16 isDigit)), classes (".dat".toList.map fun c d => d = c)]

namespace PathGenerator
variable (g : PathGenerator)

/-- `operator()`. -/
def path (id : FileId) : Path := g.basePath ++ '/' :: (padded 16 id.toNat ++ ".dat".toList)

/-- `val >> std::hex >> ret`: the extraction fails when the number is too large. -/
def extract (t : List Char) : Option FileId :=
  if value t < 2 ^ 63 then some (BitVec.ofNat 64 (value t)) else none

/-- `reverse`. -/
def reverse (blobFileName : Path) : Except String FileId :=
  let f := String.ofList blobFileName
  if elements (branchPath blobFileName) ≠ elements g.basePath then
    .error (f ++ " is not a blob file for this database")
  else
    match regexMatch fileNameRegex blobFileName with
    | none => .error ("Invalid file name: " ++ f)
    | some m =>
      match extract (m.group 2) with
      | none => .error ("Invalid file name (possible decoding error): " ++ f)
      | some ret => .ok ret

end PathGenerator

/-! ### The storage directory -/

/-- A file of the directory, with the seconds since its last write when it is visited. -/
structure DirectoryEntry where
  name : List Char
  simple : '/' ∉ name
  age : ℤ

/-- What `removeUnreferencedFiles` has done. -/
structure Removal where
  removed : List DirectoryEntry
  skipped : List FileId
  warningOut : List String

namespace PathGenerator
variable (g : PathGenerator)

/-- The path under which a file of the directory is found. -/
def found (name : List Char) : Path := g.basePath ++ '/' :: name

/-- The loop of `removeUnreferencedFiles` over one file. -/
def visit (referencedFiles : List FileId) (s : Removal) (it : DirectoryEntry) : Removal :=
  match g.reverse (g.found it.name) with
  | .error e => { s with warningOut := s.warningOut ++ [e ++ "\n"] }
  | .ok fileId =>
    if fileId ∈ referencedFiles then s
    else if it.age > 3600 then { s with removed := s.removed ++ [it] }
    else { s with skipped := s.skipped ++ [fileId] }

def removeUnreferencedFiles (referencedFiles : List FileId) (files : List DirectoryEntry) : Removal :=
  files.foldl (g.visit referencedFiles) ⟨[], [], []⟩

/-- Ids and paths are one for one, for a set of ids and a set of names in the directory, and old files
    are removed by the id under which they are read. -/
structure OneForOne (ids : Set FileId) (names : Set (List Char)) : Prop where
  reverse_path : ∀ id ∈ ids, g.reverse (g.path id) = .ok id
  path_injective : ∀ id id', g.path id = g.path id' → id = id'
  path_reverse : ∀ name ∈ names, '/' ∉ name → ∀ id, g.reverse (g.found name) = .ok id →
    g.path id = g.found name
  removes : ∀ referencedFiles (files : List DirectoryEntry), (∀ f ∈ files, f.name ∈ names) → ∀ f,
    f ∈ (g.removeUnreferencedFiles referencedFiles files).removed ↔
      f ∈ files ∧ f.age > 3600 ∧ ∃ id, g.path id = g.found f.name ∧ id ∉ referencedFiles

end PathGenerator

/-! ### File names -/

section Names
variable {g : PathGenerator} {name digits v : List Char} {m : Result} {id : FileId}

theorem forall₂_replicate {n : ℕ} {p : Char → Bool} :
    List.Forall₂ (fun p c => p c = true) (List.replicate n p) v ↔ v.length = n ∧ ∀ c ∈ v, p c := by
  induction n generalizing v with
  | zero => cases v <;> simp
  | succ n ih =>
    rw [List.replicate_succ, List.forall₂_cons_left_iff]
    constructor
    · rintro ⟨c, v, hc, hv, rfl⟩
      exact ⟨by simp [(ih.1 hv).1], List.forall_mem_cons.2 ⟨hc, (ih.1 hv).2⟩⟩
    · rintro ⟨hlen, hv⟩
      cases v with
      | nil => simp at hlen
      | cons c v =>
        exact ⟨c, v, hv c List.mem_cons_self, ih.2 ⟨by simpa using hlen, (List.forall_mem_cons.1 hv).2⟩, rfl⟩

theorem forall₂_dat : List.Forall₂ (fun p c => p c = true) (".dat".toList.map fun c d => decide (d = c)) v ↔
    v = ".dat".toList := by
  rw [List.forall₂_map_left_iff]
  simp only [decide_eq_true_eq]
  exact ⟨fun h => List.forall₂_eq_eq_eq ▸ h.flip, fun h => h ▸ List.forall₂_same.2 fun _ _ => rfl⟩

/-- The part of a path that ends with its last slash. -/
theorem rdropWhile_slash {u s : List Char} (hs : '/' ∉ s) :
    (u ++ '/' :: s).rdropWhile (fun c => c ≠ '/') = u ++ ['/'] := by
  have hs : ∀ c ∈ s.reverse, decide (c ≠ '/') = true := fun c hc =>
    decide_eq_true fun h => hs (h ▸ List.mem_reverse.1 hc)
  rw [List.rdropWhile, List.reverse_append, List.reverse_cons, List.append_assoc,
    List.dropWhile_append_of_pos hs]
  simp

/-- What follows the last slash, and what is before it. -/
theorem slash_inj {u u' s s' : List Char} (hs : '/' ∉ s) (hs' : '/' ∉ s')
    (h : u ++ '/' :: s = u' ++ '/' :: s') : u = u' ∧ s = s' := by
  have hd := congrArg (List.rdropWhile fun c => c ≠ '/') h
  rw [rdropWhile_slash hs, rdropWhile_slash hs'] at hd
  obtain rfl := List.append_cancel_right hd
  exact ⟨rfl, (List.cons.inj (List.append_cancel_left h)).2⟩

theorem branchPath_found (hname : '/' ∉ name) : branchPath (g.found name) = g.basePath := by
  obtain ⟨u, c, hu⟩ : ∃ u c, g.basePath = u ++ [c] := by
    obtain h | ⟨u, c, h⟩ := List.eq_nil_or_concat g.basePath
    · exact absurd (by rw [h]; rfl) g.named.1
    · exact ⟨u, c, by simpa using h⟩
  have hc : c ≠ '/' := fun h => g.named.2 (by rw [hu, h]; simp)
  have hall : ¬ (g.basePath ++ ['/']).all (fun c => c = '/') = true := by simp [hu, hc]
  rw [branchPath, PathGenerator.found, rdropWhile_slash hname, if_neg hall,
    List.rdropWhile_concat_pos _ _ _ (by simp), hu, List.rdropWhile_concat_neg _ _ _ (by simpa using hc)]

/-- There is no slash in the digits and the extension. -/
theorem not_mem_found (hdigits : ∀ c ∈ digits, isDigit c) : '/' ∉ digits ++ ".dat".toList := by
  intro hmem
  rcases List.mem_append.1 hmem with hmem | hmem
  · exact absurd (hdigits _ hmem) (by decide)
  · exact absurd hmem (by decide)

/-- What the optional directory leaves of a text: all, or what follows a slash. -/
theorem rest_of_directory {t : List Char} {x : Result}
    (hx : x ∈ (opt (.group 1 (.seq (.star fun _ => true) (.char (· = '/'))))).results t) :
    x.rest = t ∨ ∃ u, t = u ++ '/' :: x.rest := by
  rcases List.mem_append.1 hx with hx | hx
  · obtain ⟨v, y, hy, -, hrest, -⟩ := mem_results_group hx
    obtain ⟨a, ha, b, hb, rfl⟩ := mem_results_seq hy
    obtain ⟨u, hu, -⟩ := mem_results_star ha
    obtain ⟨c, hc, -, hslash⟩ := mem_results_char hb
    obtain rfl := of_decide_eq_true hslash
    exact Or.inr ⟨u, by rw [hu, hc, ← hrest]⟩
  · exact Or.inl (by rw [List.mem_singleton.1 hx])

/-- The regular expression on a file of a directory: sixteen digits and the extension. -/
theorem regexMatch_found (hname : '/' ∉ name) (h : regexMatch fileNameRegex (g.found name) = some m) :
    name = m.group 2 ++ ".dat".toList ∧ (m.group 2).length = 16 ∧ ∀ c ∈ m.group 2, isDigit c := by
  obtain ⟨hm, hrest⟩ := rest_of_regexMatch h
  obtain ⟨x, hx, y, hy, rfl⟩ := mem_results_seq hm
  obtain ⟨z, hz, w, hw, rfl⟩ := mem_results_seq hy
  obtain ⟨v, z', hz', hv, hzr, hzg⟩ := mem_results_group hz
  obtain ⟨v', hv', hzg', hdigits⟩ := mem_results_classes.1 hz'
  obtain ⟨w', hw', e, he, rfl⟩ := mem_results_seq hw
  obtain ⟨d, hd, hwg, hdat⟩ := mem_results_classes.1 hw'
  obtain rfl := List.mem_singleton.1 he
  have hrest : w'.rest = [] := hrest
  rw [hrest, List.append_nil, forall₂_dat.1 hdat] at hd
  obtain rfl : v = v' := List.append_cancel_right (hv.symm.trans (hzr ▸ hv'))
  obtain ⟨hlen, hdigits⟩ := forall₂_replicate.1 hdigits
  have hgroup : (Result.mk ((([] ++ w'.groups) ++ z.groups) ++ x.groups) w'.rest).group 2 = v := by
    rw [hwg, hzg, hzg']
    rfl
  have hslash : '/' ∉ x.rest := by
    rw [hv, hd]
    exact not_mem_found hdigits
  refine ⟨?_, by rw [hgroup, hlen], by rwa [hgroup]⟩
  rw [hgroup, ← hd, ← hv]
  rcases rest_of_directory hx with hx | ⟨u, hu⟩
  · rw [hx, PathGenerator.found] at hslash
    exact absurd (by simp) hslash
  · exact (slash_inj hname hslash hu).2

theorem exists_regexMatch_found (hlen : digits.length = 16) (hdigits : ∀ c ∈ digits, isDigit c) :
    ∃ m, regexMatch fileNameRegex (g.found (digits ++ ".dat".toList)) = some m := by
  have hstar : ⟨[], '/' :: (digits ++ ".dat".toList)⟩ ∈
      (Regex.star fun _ => true).results (g.found (digits ++ ".dat".toList)) :=
    List.mem_map.2 ⟨_, append_mem_greedy _ _, rfl⟩
  have hslash : ⟨[], digits ++ ".dat".toList⟩ ∈
      (Regex.char (· = '/')).results ('/' :: (digits ++ ".dat".toList)) := by simp [Regex.results]
  obtain ⟨x, hx, hxr⟩ := group_mem_results 1 (seq_mem_results hstar hslash)
  have hdir : x ∈ (opt (.group 1 (.seq (.star fun _ => true) (.char (· = '/'))))).results
      (g.found (digits ++ ".dat".toList)) := List.mem_append_left _ hx
  have hclasses : ⟨[], ".dat".toList⟩ ∈ (classes (List.replicate 16 isDigit)).results x.rest :=
    mem_results_classes.2 ⟨digits, hxr, rfl, forall₂_replicate.2 ⟨hlen, hdigits⟩⟩
  obtain ⟨y, hy, hyr⟩ := group_mem_results 2 hclasses
  have hdat : ⟨[], []⟩ ∈ (classes (".dat".toList.map fun c d => decide (d = c))).results y.rest :=
    mem_results_classes.2 ⟨".dat".toList, by simpa using hyr, rfl, forall₂_dat.2 rfl⟩
  exact exists_regexMatch
    (seq_mem_results hdir (seq_mem_results hy (seq_mem_results hdat (List.mem_singleton.2 rfl)))) rfl

/-! ### Ids and paths -/

/-- What `reverse` finds for a file of the directory. -/
theorem reverse_found (hname : '/' ∉ name) : g.reverse (g.found name) = .ok id ↔
    ∃ digits : List Char, name = digits ++ ".dat".toList ∧ digits.length = 16 ∧
      (∀ c ∈ digits, isDigit c) ∧ value digits < 2 ^ 63 ∧ id = BitVec.ofNat 64 (value digits) := by
  rw [PathGenerator.reverse, branchPath_found hname, if_neg (not_not.2 rfl)]
  constructor
  · intro h
    cases hm : regexMatch fileNameRegex (g.found name) with
    | none => simp [hm] at h
    | some m =>
      obtain ⟨heq, hlen, hdigits⟩ := regexMatch_found hname hm
      refine ⟨m.group 2, heq, hlen, hdigits, ?_⟩
      simp only [hm, PathGenerator.extract] at h
      split_ifs at h with hlt
      exact ⟨hlt, (Except.ok.inj h).symm⟩
  · rintro ⟨digits, rfl, hlen, hdigits, hlt, rfl⟩
    obtain ⟨m, hm⟩ := exists_regexMatch_found (g := g) hlen hdigits
    obtain rfl : digits = m.group 2 := List.append_cancel_right (regexMatch_found hname hm).1
    simp only [hm, PathGenerator.extract, if_pos hlt]

theorem path_eq_found : g.path id = g.found name ↔ name = padded 16 id.toNat ++ ".dat".toList := by
  rw [PathGenerator.path, PathGenerator.found, List.append_right_inj, List.cons.injEq]
  exact ⟨fun h => h.2.symm, fun h => ⟨rfl, h.symm⟩⟩

theorem path_injective {id' : FileId} (h : g.path id = g.path id') : id = id' := by
  have h := congrArg value (List.append_cancel_right (path_eq_found.1 h))
  rw [value_padded, value_padded] at h
  exact (BitVec.eq_of_toNat_eq h).symm

/-- A file with the path of a negative id, or one that is not named as its id would be. -/
def Misread (name : List Char) : Prop :=
  ∃ digits : List Char, name = digits ++ ".dat".toList ∧ digits.length = 16 ∧
    (∀ c ∈ digits, isDigit c) ∧ (value digits < 2 ^ 63 ↔ ¬ ∀ c ∈ digits, isLower c)

theorem value_lt_of_length (hlen : digits.length = 16) (hdigits : ∀ c ∈ digits, isDigit c) :
    value digits < 2 ^ 64 := by
  have h := value_lt hdigits
  rwa [hlen, show (16 : ℕ) ^ 16 = 2 ^ 64 by norm_num] at h

/-- The path of the number of sixteen digits that are written. -/
theorem path_value (hlen : digits.length = 16) (hdigits : ∀ c ∈ digits, isDigit c)
    (hlower : ∀ c ∈ digits, isLower c) :
    g.path (BitVec.ofNat 64 (value digits)) = g.found (digits ++ ".dat".toList) := by
  rw [path_eq_found, BitVec.toNat_ofNat, Nat.mod_eq_of_lt (value_lt_of_length hlen hdigits)]
  have h := (padded_value hdigits (by omega)).2 hlower
  rw [hlen] at h
  rw [h]

/-- Other files are read under the id that is found for them. -/
theorem reverse_iff_path (hname : '/' ∉ name) (h : ¬ Misread name) :
    g.reverse (g.found name) = .ok id ↔ g.path id = g.found name := by
  rw [reverse_found hname]
  constructor
  · rintro ⟨digits, rfl, hlen, hdigits, hlt, rfl⟩
    refine path_value hlen hdigits ?_
    by_contra hupper
    exact h ⟨digits, rfl, hlen, hdigits, iff_of_true hlt hupper⟩
  · intro hpath
    have heq := path_eq_found.1 hpath
    have hlen : (padded 16 id.toNat).length = 16 :=
      length_padded (by decide) (lt_of_lt_of_eq id.isLt (by norm_num))
    have hdigits : ∀ c ∈ padded 16 id.toNat, isDigit c := fun c hc => isDigit_of_isLower (isLower_padded c hc)
    refine ⟨_, heq, hlen, hdigits, ?_, by rw [value_padded, BitVec.ofNat_toNat, BitVec.setWidth_eq]⟩
    by_contra hlt
    exact h ⟨_, heq, hlen, hdigits, iff_of_false hlt (not_not.2 isLower_padded)⟩

theorem toNat_lt_iff : id.toNat < 2 ^ 63 ↔ 0 ≤ id.toInt := by
  have h := id.isLt
  rw [BitVec.toInt_eq_toNat_cond]
  split <;> omega

/-- The path of an id is reversed when the id is not negative. -/
theorem reverse_path_iff : g.reverse (g.path id) = .ok id ↔ 0 ≤ id.toInt := by
  have hname : '/' ∉ padded 16 id.toNat ++ ".dat".toList :=
    not_mem_found fun c hc => isDigit_of_isLower (isLower_padded c hc)
  have heq : g.path id = g.found (padded 16 id.toNat ++ ".dat".toList) := path_eq_found.2 rfl
  rw [heq, reverse_found hname, ← toNat_lt_iff]
  constructor
  · rintro ⟨digits, hdigits, -, -, hlt, -⟩
    rwa [← List.append_cancel_right hdigits, value_padded] at hlt
  · intro hlt
    exact ⟨_, rfl, length_padded (by decide) (lt_of_lt_of_eq id.isLt (by norm_num)),
      fun c hc => isDigit_of_isLower (isLower_padded c hc), by rwa [value_padded],
      by rw [value_padded, BitVec.ofNat_toNat, BitVec.setWidth_eq]⟩

/-- A file that is removed: an old one whose id is found and not referenced. -/
theorem mem_visit {referencedFiles : List FileId} {s : Removal} {it f : DirectoryEntry} :
    f ∈ (g.visit referencedFiles s it).removed ↔ f ∈ s.removed ∨ f = it ∧ f.age > 3600 ∧
      ∃ id, g.reverse (g.found f.name) = .ok id ∧ id ∉ referencedFiles := by
  rw [PathGenerator.visit]
  cases hrev : g.reverse (g.found it.name) with
  | error e =>
    refine (or_iff_left ?_).symm
    rintro ⟨rfl, -, id, hid, -⟩
    rw [hrev] at hid
    cases hid
  | ok fileId =>
    have hid : ∀ id, g.reverse (g.found it.name) = .ok id ↔ fileId = id := fun id => by
      rw [hrev, Except.ok.injEq]
    dsimp only
    split_ifs with href hage
    · refine (or_iff_left ?_).symm
      rintro ⟨rfl, -, id, h, hnot⟩
      exact hnot ((hid id).1 h ▸ href)
    · rw [List.mem_append, List.mem_singleton]
      refine or_congr_right ⟨?_, fun h => h.1⟩
      rintro rfl
      exact ⟨rfl, hage, fileId, hrev, href⟩
    · refine (or_iff_left ?_).symm
      rintro ⟨rfl, h, -⟩
      exact hage h

theorem mem_removeUnreferencedFiles {referencedFiles : List FileId} {files : List DirectoryEntry}
    {f : DirectoryEntry} : f ∈ (g.removeUnreferencedFiles referencedFiles files).removed ↔
      f ∈ files ∧ f.age > 3600 ∧ ∃ id, g.reverse (g.found f.name) = .ok id ∧ id ∉ referencedFiles := by
  have hrun : ∀ s : Removal, f ∈ (files.foldl (g.visit referencedFiles) s).removed ↔ f ∈ s.removed ∨
      f ∈ files ∧ f.age > 3600 ∧ ∃ id, g.reverse (g.found f.name) = .ok id ∧ id ∉ referencedFiles := by
    induction files with
    | nil => simp
    | cons it files ih =>
      intro s
      rw [List.foldl_cons, ih, mem_visit, List.mem_cons, or_assoc, or_and_right]
  exact (hrun ⟨[], [], []⟩).trans (or_iff_right List.not_mem_nil)

end Names

/-- Ids and paths are one for one when no id is negative, and no file has the path of a negative id or
    is named by sixteen digits, of a number that is not too large, with a capital letter. -/
theorem oneForOne_iff (g : PathGenerator) (ids : Set FileId) (names : Set (List Char)) :
    g.OneForOne ids names ↔ (∀ id ∈ ids, 0 ≤ id.toInt) ∧ ∀ name ∈ names, ¬ Misread name := by
  constructor
  · intro h
    refine ⟨fun id hid => reverse_path_iff.1 (h.reverse_path id hid), ?_⟩
    rintro name hname ⟨digits, rfl, hlen, hdigits, hiff⟩
    have hslash := not_mem_found hdigits
    by_cases hlower : ∀ c ∈ digits, isLower c
    · -- the path of a negative id: the file is kept though nothing refers to it
      have hpath := path_value (g := g) hlen hdigits hlower
      have hrem := (h.removes [] [⟨_, hslash, 3601⟩] (by simpa using hname) ⟨_, hslash, 3601⟩).2
        ⟨List.mem_singleton.2 rfl, show (3601 : ℤ) > 3600 by decide, _, hpath, List.not_mem_nil⟩
      obtain ⟨-, -, id, hid, -⟩ := mem_removeUnreferencedFiles.1 hrem
      obtain ⟨digits', heq, -, -, hlt, -⟩ := (reverse_found hslash).1 hid
      rw [← List.append_cancel_right heq] at hlt
      exact hiff.1 hlt hlower
    · -- a capital letter: the path of the id is another one
      have hid := (reverse_found (g := g) hslash).2 ⟨digits, rfl, hlen, hdigits, hiff.2 hlower, rfl⟩
      have hpath := path_eq_found.1 (h.path_reverse _ hname hslash _ hid)
      rw [List.append_cancel_right hpath] at hlower
      exact hlower isLower_padded
  · rintro ⟨hids, hnames⟩
    refine ⟨fun id hid => reverse_path_iff.2 (hids id hid), fun _ _ => path_injective,
      fun name hname hslash id hid => (reverse_iff_path hslash (hnames name hname)).1 hid, ?_⟩
    intro referencedFiles files hfiles f
    rw [mem_removeUnreferencedFiles]
    refine and_congr_right fun hf => and_congr_right fun _ => exists_congr fun id => ?_
    rw [reverse_iff_path f.simple (hnames _ (hfiles f hf))]

/-- The path of an id below zero has digits that are read as too large a number. -/
theorem not_oneForOne : ¬ (PathGenerator.mk "/var/wdb".toList (by decide)).OneForOne Set.univ Set.univ := by
  intro h
  exact absurd (reverse_path_iff.1 (h.reverse_path (-1) trivial)) (by decide)

end Wdb.Blob
