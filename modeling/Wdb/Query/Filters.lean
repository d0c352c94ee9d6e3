import Wdb.Lib.SinglePrecision
import Wdb.Query.Additions
import Wdb.Query.Denotes

/-! The conditions of a query for parameters, levels and data versions.

    Names are alternatives that are quoted, bounds of a level are printed numbers, and versions are integers or
    sums. Each of them decides what the argument asks for, where there is a result. -/

namespace Wdb.Query
open SqlText SqlSelect SqlTypes Traverse Wdb.Read
open Store (LevelCode Level ValueV nameLike)

/-- A text that is written as a literal. -/
def literal (s : String) : Term := ⟨.literal s.toList, none⟩

/-! ### Alternatives -/

section Alternatives
variable {f : String → Test}

/-- Alternatives that are written alike, each with a string of its own. -/
theorem meant_alternatives (opening sep closing : String) (before : List Token) (v : String) (vs : List String)
    (ho : meant (code opening) = .symbol '(' :: before)
    (hs : meant (code sep) = .word "OR".toList :: before) (hc : meant (code closing) = [.symbol ')'])
    (hf : ∀ v, (f v).tokens = before ++ [.literal v.toList]) :
    meant (code opening ++ quoted v ++ vs.flatMap (fun v => code sep ++ quoted v) ++ code closing) =
      (Condition.anyOf ((v :: vs).map fun v => [f v])).tokens := by
  have hquoted : ∀ v, meant (quoted v) = [.literal v.toList] := fun _ => rfl
  have hrest : meant (vs.flatMap fun v => code sep ++ quoted v) =
      vs.flatMap fun v => .word "OR".toList :: (f v).tokens := by
    rw [meant_flatMap]
    refine List.flatMap_congr fun u _ => ?_
    rw [meant_append, hs, hquoted, hf, List.cons_append]
  rw [meant_append, meant_append, meant_append, ho, hc, hquoted, hrest]
  simp [Condition.tokens, joined, conjoined, hf, List.flatMap_map]

variable {times : Times} {scope : Scope} {names : List String} {p : String → Prop}

/-- One of several alternatives of a single test. -/
theorem decides_alternatives (h : ∀ v ∈ names, Decides ((f v).eval times scope) (p v)) :
    Decides ((Condition.anyOf (names.map fun v => [f v])).eval times scope) (∃ v ∈ names, p v) := by
  rw [Condition.eval, List.map_map]
  exact decides_disj_map fun v hv => ((h v hv).conj_cons decides_conj_nil).congr (by simp)

theorem named_alternatives (hne : names ≠ []) (h : ∀ v, (f v).Named) :
    (Condition.anyOf (names.map fun v => [f v])).Named := by
  refine ⟨by simpa using hne, fun c hc => ?_⟩
  obtain ⟨v, -, rfl⟩ := List.mem_map.1 hc
  exact ⟨List.cons_ne_nil _ _, by simpa using h v⟩

end Alternatives

/-- A column is like a pattern. -/
def likes (column pattern : String) : Test := .like (columnTerm column) (literal pattern)

theorem decides_likes {times : Times} {scope : Scope} {column s pattern : String}
    (hcolumn : (columnTerm column).value times scope = some (some (.text s)))
    (hsome : (like s pattern).isSome) :
    Decides ((likes column pattern).eval times scope) (like s pattern = some true) := by
  have hliteral : (literal pattern).value times scope = some (some (.unknown pattern)) := by
    simp [literal, Term.value, Base.value]
  obtain ⟨matches_, hlike⟩ := Option.isSome_iff_exists.1 hsome
  have heval : (likes column pattern).eval times scope = some (some matches_) := by
    simp [likes, Test.eval, hcolumn, hliteral, liked, hlike]
  rw [heval, hlike, Option.some_inj]
  exact decides_some _

section Filters
variable {β : Type} {times : Times} {value : β → Datum} {dom : ValueV β → Prop} {b b' : Builder}
  {f : ValueV β → Option Bool}

/-! ### Parameters -/

/-- Where names come to a result, each pattern does, and one of them is like the name. -/
theorem addParameterQuery_value {names : List String} {w : ValueV β}
    (hf : Store.addParameterQuery (.value names) = some f) (hsome : (f w).isSome) :
    (∀ v ∈ names.map lower, (like w.names.vp.parametername v).isSome) ∧
      (f w = some true ↔ ∃ v ∈ names.map lower, like w.names.vp.parametername v = some true) := by
  rw [Store.addParameterQuery] at hf
  split at hf
  · cases hf
  · obtain rfl := Option.some.inj hf
    dsimp only at hsome ⊢
    split at hsome
    · next hall =>
      rw [if_pos hall]
      exact ⟨by simpa [Store.comparable] using hall, by simp [nameLike]⟩
    · cases hsome

/-- The condition for parameters decides which rows it asks for, where each comes to a result. -/
theorem restricts_parameter {parameter : Option (List String)} (h : addParameterQuery b parameter = .ok b')
    (hf : Store.addParameterQuery (argument some parameter) = some f) (hsome : ∀ w, dom w → (f w).isSome) :
    ∃ cs, Restricts times value dom b b' (fun w => f w = some true) cs := by
  cases parameter with
  | none =>
    obtain rfl := Except.ok.inj h
    obtain rfl := Option.some.inj hf
    exact ⟨[], (Restricts.refl b).congr fun w => by simp⟩
  | some names =>
    cases names with
    | nil =>
      obtain rfl := Except.ok.inj h
      obtain rfl := Option.some.inj hf
      exact ⟨_, (restricts_false b (by decide)).congr fun w => by simp⟩
    | cons name names =>
      obtain rfl := addParameterQuery_cons h
      have hmeant := meant_alternatives (f := likes "valueparametername") "(valueparametername LIKE "
        " OR valueparametername LIKE " ")" ((columnTerm "valueparametername").tokens ++ [.word "LIKE".toList])
        (lower name) (names.map lower) (by decide) (by decide) (by decide) fun _ => rfl
      have hnamed : ∀ v, (likes "valueparametername" v).Named := fun _ => ⟨⟨⟨by simp, by decide⟩⟩, ⟨trivial⟩⟩
      refine ⟨_, restricts_where b hmeant (named_alternatives (by simp) hnamed) fun scope w hw hdom => ?_⟩
      obtain ⟨hlike, hiff⟩ := addParameterQuery_value hf (hsome w hdom)
      exact (decides_alternatives fun v hv => decides_likes (hw.term rfl) (hlike v hv)).congr hiff.symm

/-! ### Levels -/

/-- A `float` that is read from a decimal number is not negative. -/
theorem nonneg_of_lexicalFloat {q r : ℚ} (hq : 0 ≤ q) (h : lexicalFloat q = some r) : 0 ≤ r := by
  unfold lexicalFloat at h
  split at h
  · obtain rfl := Option.some.inj h
    cases hreal : toReal q with
    | none => exact le_rfl
    | some r => exact toReal_nonneg hq hreal
  · exact toReal_nonneg hq h

theorem nonneg_of_parse {spec : String} {lvl : LevelSpecification} (h : LevelSpecification.parse spec = .ok lvl) :
    0 ≤ lvl.from_ ∧ 0 ≤ lvl.to_ := by
  obtain ⟨m, from_, to_, -, hfrom, hto, rfl⟩ := LevelSpecification.parse_match h
  have hdecimal : ∀ ds, 0 ≤ decimal ds := by
    intro ds
    unfold decimal
    positivity
  have hfrom := nonneg_of_lexicalFloat (hdecimal _) hfrom
  refine ⟨hfrom, ?_⟩
  split at hto
  · obtain rfl := Option.some.inj hto
    exact hfrom
  · exact nonneg_of_lexicalFloat (hdecimal _) hto

/-- The name of a code. -/
def levelName : LevelCode → String
  | .exact => "exact"
  | .inside => "inside"
  | .below => "below"
  | .above => "above"
  | .any => "any"

/-- What is asked of the two bounds. -/
def levelRelations : LevelCode → Option Relation × Option Relation
  | .exact => (some .eq, some .eq)
  | .inside => (some .ge, some .le)
  | .below => (some .lt, none)
  | .above => (none, some .gt)
  | .any => (none, none)

def levelTests (c : LevelCode) (from_ to_ : Numeral) : List Test :=
  (levelRelations c).1.toList.map (fun r => compares "levelfrom" r ⟨.numeral from_, none⟩) ++
    (levelRelations c).2.toList.map (fun r => compares "levelto" r ⟨.numeral to_, none⟩)

section Level
variable {lvl : LevelSpecification} {c : LevelCode} {from_ to_ : Numeral} {q q' : ℚ} {scope : Scope}

/-- The bounds follow a test. -/
theorem meant_levelRange (hc : levelCode lvl.indeterminate_ = some c) (hfrom : Prints (showFloat lvl.from_) from_ q)
    (hto : Prints (showFloat lvl.to_) to_ q') :
    meant (levelRange lvl) = (levelTests c from_ to_).flatMap fun t => .word "AND".toList :: t.tokens := by
  have hone : ∀ (column : String) (r : Relation) {s t : String} {n : Numeral} {x : ℚ}, Prints t n x →
      meant (code s) = .word "AND".toList :: ((columnTerm column).tokens ++ r.tokens) →
      meant (code s ++ code t) = .word "AND".toList :: (compares column r ⟨.numeral n, none⟩).tokens := by
    intro column r s t n x hn hs
    rw [meant_append, hs, meant_numeral hn.named hn.text]
    simp [compares, Test.tokens, Term.tokens, Base.tokens]
  have htwo : ∀ {s s' : String} {r r' : Relation},
      meant (code s) = .word "AND".toList :: ((columnTerm "levelfrom").tokens ++ r.tokens) →
      meant (code s') = .word "AND".toList :: ((columnTerm "levelto").tokens ++ r'.tokens) →
      meant (code s ++ code (showFloat lvl.from_) ++ code s' ++ code (showFloat lvl.to_)) =
        [compares "levelfrom" r ⟨.numeral from_, none⟩, compares "levelto" r' ⟨.numeral to_, none⟩].flatMap
          fun t => .word "AND".toList :: t.tokens := by
    intro s s' r r' hs hs'
    rw [List.append_assoc, meant_append, hone _ _ hfrom hs, hone _ _ hto hs']
    simp
  have hname : lvl.indeterminate_ = levelName c := by
    obtain ⟨before, after, hcodes, -⟩ := List.lookup_eq_some_iff.1 hc
    have hmem := List.mem_append_right before (List.mem_cons_self (a := (lvl.indeterminate_, c)) (l := after))
    rw [← hcodes] at hmem
    simp only [List.mem_cons, Prod.mk.injEq, List.not_mem_nil, or_false] at hmem
    rcases hmem with ⟨h, rfl⟩ | ⟨h, rfl⟩ | ⟨h, rfl⟩ | ⟨h, rfl⟩ | ⟨h, rfl⟩ <;> exact h
  unfold levelRange
  cases c with
  | exact =>
    have hcode : lvl.indeterminate_ = "exact" := hname
    rw [if_pos hcode]
    exact htwo (by decide) (by decide)
  | inside =>
    have hcode : lvl.indeterminate_ = "inside" := hname
    rw [if_neg (by simp [hcode]), if_pos hcode]
    exact htwo (by decide) (by decide)
  | below =>
    have hcode : lvl.indeterminate_ = "below" := hname
    rw [if_neg (by simp [hcode]), if_neg (by simp [hcode]), if_pos hcode, hone "levelfrom" .lt hfrom (by decide)]
    simp [levelTests, levelRelations]
  | above =>
    have hcode : lvl.indeterminate_ = "above" := hname
    rw [if_neg (by simp [hcode]), if_neg (by simp [hcode]), if_neg (by simp [hcode]), if_pos hcode,
      hone "levelto" .gt hto (by decide)]
    simp [levelTests, levelRelations]
  | any =>
    have hcode : lvl.indeterminate_ = "any" := hname
    rw [if_neg (by simp [hcode]), if_neg (by simp [hcode]), if_neg (by simp [hcode]), if_neg (by simp [hcode]),
      if_pos hcode]
    rfl

theorem named_levelTests (hfrom : from_.Named) (hto : to_.Named) : ∀ t ∈ levelTests c from_ to_, t.Named := by
  intro t ht
  rcases List.mem_append.1 ht with ht | ht
  · obtain ⟨r, -, rfl⟩ := List.mem_map.1 ht
    exact named_compares _ r (by decide) ⟨hfrom⟩
  · obtain ⟨r, -, rfl⟩ := List.mem_map.1 ht
    exact named_compares _ r (by decide) ⟨hto⟩

/-- A `real` is compared with a printed number. -/
theorem decides_numeral {column : String} {a : ℚ} {n : Numeral} (r : Relation)
    (ha : (columnTerm column).value times scope = some (some (.real a))) :
    Decides ((compares column r ⟨.numeral n, none⟩).eval times scope) (r.holds a (toDouble n.value) = true) := by
  have hn : Term.value times scope ⟨.numeral n, none⟩ = some (some n.datum) := rfl
  rw [compares, Test.eval, ha, hn, asked_some, compare_datum]
  exact decides_some _

theorem decides_levelTests {w : ValueV β} (hw : Shows value scope w) (hfrom : from_.value = significant 6 q)
    (hto : to_.value = significant 6 q') :
    Decides (conj ((levelTests c from_ to_).map (Test.eval times scope)))
      ((∀ r ∈ (levelRelations c).1, r.holds w.levelfrom (printed q)) ∧
        ∀ r ∈ (levelRelations c).2, r.holds w.levelto (printed q')) := by
  have hcolumnFrom : (columnTerm "levelfrom").value times scope = some (some (.real w.levelfrom)) := hw.term rfl
  have hcolumnTo : (columnTerm "levelto").value times scope = some (some (.real w.levelto)) := hw.term rfl
  rw [levelTests, List.map_append]
  refine (decides_relations fun r _ => ?_).conj_append (decides_relations fun r _ => ?_)
  · rw [printed, ← hfrom]
    exact decides_numeral r hcolumnFrom
  · rw [printed, ← hto]
    exact decides_numeral r hcolumnTo

end Level

/-- The condition for a level decides which rows it asks for, where each comes to a result. -/
theorem restricts_level {level : Option String} (h : addLevelQuery b level = .ok b')
    (hf : Store.addLevelQuery (argument levelSpecification level) = some f) (hsome : ∀ w, dom w → (f w).isSome) :
    ∃ cs, Restricts times value dom b b' (fun w => f w = some true) cs := by
  cases level with
  | none =>
    obtain rfl := Except.ok.inj h
    obtain rfl := Option.some.inj hf
    exact ⟨[], (Restricts.refl b).congr fun w => by simp⟩
  | some levelSpec =>
    obtain ⟨lvl, hlvl, h⟩ := of_bind_eq_ok h
    obtain rfl := Except.ok.inj h
    obtain ⟨l, hl, hf⟩ := of_argument rfl hf
    rw [levelSpecification_parse hlvl] at hl
    obtain ⟨c, hc, rfl⟩ := Option.map_eq_some_iff.1 hl
    obtain ⟨from_, hfrom⟩ := exists_prints (nonneg_of_parse hlvl).1
    obtain ⟨to_, hto⟩ := exists_prints (nonneg_of_parse hlvl).2
    rw [Store.addLevelQuery_value] at hf
    obtain rfl := Option.some.inj hf
    have hmeant : meant (code "(" ++ code "levelparametername LIKE " ++ lquote lvl.parameter_ ++ levelRange lvl ++
        code ")") = (Condition.anyOf [likes "levelparametername" (lower lvl.parameter_) ::
          levelTests c from_ to_]).tokens := by
      have hopen : meant (code "(") = [.symbol '('] := by decide
      have hclose : meant (code ")") = [.symbol ')'] := by decide
      have hlike : meant (code "levelparametername LIKE ") =
          (columnTerm "levelparametername").tokens ++ [.word "LIKE".toList] := by decide
      have hquoted : meant (lquote lvl.parameter_) = (literal (lower lvl.parameter_)).tokens := rfl
      rw [meant_append, meant_append, meant_append, meant_append, hopen, hclose, hlike, hquoted,
        meant_levelRange hc hfrom hto]
      simp [Condition.tokens, joined, conjoined, likes, Test.tokens]
    have hnamed : ∀ t ∈ likes "levelparametername" (lower lvl.parameter_) :: levelTests c from_ to_, t.Named := by
      refine List.forall_mem_cons.2 ⟨⟨⟨⟨by simp, by decide⟩⟩, ⟨trivial⟩⟩, named_levelTests hfrom.named hto.named⟩
    refine ⟨_, restricts_where b hmeant ⟨by simp, by simpa using hnamed⟩ fun scope w hw hdom => ?_⟩
    have hcomparable : Store.comparable w.names.lp.parametername lvl.parameter_ := by
      by_contra hnot
      simpa [hnot] using hsome w hdom
    have htests : Decides (conj ((levelTests c from_ to_).map (Test.eval times scope))) _ :=
      decides_levelTests hw hfrom.value hto.value
    have hlike : Decides ((likes "levelparametername" (lower lvl.parameter_)).eval times scope) _ :=
      decides_likes (hw.term rfl) hcomparable
    refine ((hlike.conj_cons htests).disj_cons decides_disj_nil).congr ?_
    dsimp only
    rw [if_pos hcomparable, Option.some_inj]
    cases c <;> simp [levelRelations, Relation.holds, nameLike, Store.Level.covers]

/-! ### Data versions -/

/-- Versions are integers, and there is a result when they are counted from a greatest one. -/
structure Counts (versions : List ℤ) (m : ℤ) : Prop where
  low : -2 ^ 31 ≤ m
  counted : ∀ n ∈ versions, n < 0 → Counted m (-n)

/-- Where there is a result, the negations and every sum are computed. -/
theorem Counts.computed {versions : List ℤ} {m : ℤ} (h : Counts versions m)
    (hnegated : ∀ n ∈ versions, n < 0 → -n < 2 ^ 31) : ∀ n ∈ versions, Store.Computed m n := by
  intro n hn hneg
  obtain ⟨hnext, hsum⟩ := h.counted n hn hneg
  have hlow := h.low
  have hn' := hnegated n hn hneg
  have hnegation := MachineInt.int_eq_some (by omega) hn'
  have hgreatest := MachineInt.int_eq_some (by omega) hnext
  have hversion := MachineInt.int_eq_some hsum (by omega)
  rw [hnegation, hgreatest, hversion]
  exact ⟨rfl, rfl, rfl⟩

theorem versionMatches_iff {versions : List ℤ} {d m : ℤ} (h : ∀ n ∈ versions, Store.Computed m n) :
    Store.versionMatches versions d m = some true ↔
      (∃ n ∈ versions.filter (fun n => ¬ n < 0), n = d) ∨
        ∃ k ∈ (versions.filter fun n => n < 0).map (fun n => -n), m + 1 - k = d := by
  rw [Store.versionMatches, if_pos h, Option.some.injEq, List.any_eq_true]
  constructor
  · rintro ⟨n, hn, hd⟩
    by_cases hsign : n < 0
    · rw [if_pos hsign, decide_eq_true_eq] at hd
      exact Or.inr ⟨-n, List.mem_map_of_mem (List.mem_filter.2 ⟨hn, decide_eq_true hsign⟩), hd.symm⟩
    · rw [if_neg hsign, decide_eq_true_eq] at hd
      exact Or.inl ⟨n, List.mem_filter.2 ⟨hn, decide_eq_true hsign⟩, hd.symm⟩
  · rintro (⟨n, hn, hd⟩ | ⟨k, hk, hd⟩)
    · obtain ⟨hn, hsign⟩ := List.mem_filter.1 hn
      exact ⟨n, hn, by rw [if_neg (of_decide_eq_true hsign), decide_eq_true hd.symm]⟩
    · obtain ⟨n, hn, rfl⟩ := List.mem_map.1 hk
      obtain ⟨hn, hsign⟩ := List.mem_filter.1 hn
      exact ⟨n, hn, by rw [if_pos (of_decide_eq_true hsign), decide_eq_true hd.symm]⟩

theorem named_versions {ps ks : List ℤ} (hne : versionsCondition ps ks ≠ []) :
    (ofMemberships (versionsCondition ps ks)).Named := by
  have hamong : ∀ {g : ℤ → Value} {ns : List ℤ}, (∀ n c, (g n).first = .column c → isLabel c) →
      ∀ m ∈ among g ns, isLabel m.column ∧ ∀ v ∈ m.head :: m.others, ∀ c, v.first = .column c → isLabel c := by
    intro g ns hg m hm
    cases ns with
    | nil => cases hm
    | cons n ns =>
      obtain rfl := List.mem_singleton.1 hm
      have hcolumn : isLabel "dataversion".toList := by decide
      refine ⟨hcolumn, fun v hv => ?_⟩
      obtain ⟨k, -, rfl⟩ := List.mem_map.1 (show v ∈ (n :: ns).map g from hv)
      exact hg k
  refine named_ofMemberships hne fun m hm => ⟨named_versionsCondition ps ks m hm, ?_⟩
  rcases List.mem_append.1 hm with hm | hm
  · exact hamong (fun _ _ hc => by cases hc) m hm
  · refine hamong (fun _ c hc => ?_) m hm
    obtain rfl := Atom.column.inj hc
    decide

theorem hasIntegers_versionRow {scope : Scope} {w : ValueV β} (hw : Shows value scope w) :
    HasIntegers (versionRow w.dataversion w.maxdataversion) scope := by
  intro name n hn
  unfold versionRow at hn
  split at hn
  · next hname =>
    obtain rfl := Option.some.inj hn
    subst hname
    exact hw _ _ ((lookup_full _ "dataversion").trans rfl)
  · split at hn
    · next hname =>
      obtain rfl := Option.some.inj hn
      subst hname
      exact hw _ _ ((lookup_full _ "maxdataversion").trans rfl)
    · cases hn

/-- The condition for data versions decides which rows it asks for. -/
theorem restricts_dataVersion {dataVersion : Option (List ℤ)}
    (hrange : ∀ versions ∈ dataVersion, ∀ n ∈ versions, -2 ^ 31 ≤ n ∧ n < 2 ^ 31)
    (hdom : ∀ w, dom w → ∀ versions ∈ dataVersion, Counts versions w.maxdataversion)
    (h : addDataVersionQuery b dataVersion = .ok b')
    {version : ValueV β → Option Bool}
    (hf : Store.addDataVersionQuery (argument some dataVersion) = some version) :
    ∃ cs, Restricts times value dom b b' (fun w => version w = some true) cs := by
  cases dataVersion with
  | none =>
    obtain rfl := Except.ok.inj h
    obtain rfl := Option.some.inj hf
    exact ⟨[], (Restricts.refl b).congr fun w => by simp⟩
  | some versions =>
    obtain rfl := Option.some.inj hf
    cases versions with
    | nil =>
      obtain rfl := Except.ok.inj h
      exact ⟨_, (restricts_false b (by decide)).congr fun w => by simp [Store.versionMatches]⟩
    | cons n ns =>
      have hrange : ∀ k ∈ n :: ns, -2 ^ 31 ≤ k ∧ k < 2 ^ 31 := hrange _ rfl
      have hnegative : ∀ k ∈ (n :: ns).filter (fun k => k < 0), -2 ^ 31 ≤ k ∧ k < 0 := fun k hk =>
        ⟨(hrange k (List.mem_of_mem_filter hk)).1, of_decide_eq_true (List.mem_filter.1 hk).2⟩
      rw [addDataVersionQuery_eq] at h
      cases hks : ((n :: ns).filter fun k => k < 0).mapM negate with
      | error e =>
        rw [hks] at h
        cases h
      | ok ks =>
        rw [hks] at h
        obtain rfl := Except.ok.inj h
        obtain ⟨hleast, rfl⟩ := (mapM_negate_iff hnegative).1 hks
        have hps : ∀ k ∈ (n :: ns).filter (fun k => ¬ k < 0), 0 ≤ k ∧ k < 2 ^ 31 := by
          intro k hk
          obtain ⟨hk, hsign⟩ := List.mem_filter.1 hk
          exact ⟨not_lt.1 (of_decide_eq_true hsign), (hrange k hk).2⟩
        have hks : ∀ k ∈ ((n :: ns).filter fun k => k < 0).map (fun k => -k), 0 ≤ k ∧ k < 2 ^ 31 := by
          intro k hk
          obtain ⟨j, hj, rfl⟩ := List.mem_map.1 hk
          have hj' := hnegative j hj
          have hne := hleast j hj
          omega
        have hne : (n :: ns).filter (fun k => ¬ k < 0) ≠ [] ∨
            ((n :: ns).filter fun k => k < 0).map (fun k => -k) ≠ [] := by
          by_cases hsign : n < 0
          · exact Or.inr (by simp [hsign])
          · exact Or.inl (by simp [hsign])
        obtain ⟨m, ms, hcondition, hmeant⟩ := meant_versionsText (fun k hk => (hps k hk).1)
          (fun k hk => (hks k hk).1) hne
        rw [← tokens_ofMemberships] at hmeant
        have hnamed := named_versions (hcondition ▸ List.cons_ne_nil m ms)
        rw [hcondition] at hnamed
        refine ⟨_, restricts_where b hmeant hnamed fun scope w hw hdomain => ?_⟩
        have hcounts : Counts (n :: ns) w.maxdataversion := hdom w hdomain _ rfl
        have hnegated : ∀ j ∈ n :: ns, j < 0 → -j < 2 ^ 31 := fun j hj hneg =>
          (hks (-j) (List.mem_map_of_mem (List.mem_filter.2 ⟨hj, decide_eq_true hneg⟩))).2
        have hholds := conditionHolds_versions (d := w.dataversion) hcounts.low hps hks fun k hk => by
          obtain ⟨j, hj, rfl⟩ := List.mem_map.1 hk
          exact hcounts.counted j (List.mem_of_mem_filter hj) (hnegative j hj).2
        rw [hcondition] at hholds
        refine (decides_ofMemberships (hasIntegers_versionRow hw) hholds).congr ?_
        rw [decide_eq_true_eq, versionMatches_iff (hcounts.computed hnegated)]

end Filters

end Wdb.Query
