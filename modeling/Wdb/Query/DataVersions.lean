import Wdb.Lib.SqlConditions
import Wdb.Query.BuildQuery

/-! What `addDataVersionQuery` asks for.

    The clause is read as a condition on the columns `dataversion` and `maxdataversion`. A version that
    is counted from the greatest one is found by a sum, which must be an `integer` at every step, and
    the program has no negation of the least `int`. -/

namespace Wdb.Query
open SqlText MachineInt Traverse

/-! ### The tokens of the clause -/

theorem isWord_of_isDigit {c : Char} (h : c.isDigit) : isWord c := by
  simp [isWord, Char.isAlphanum, h]

theorem scan_digits {u w : List Char} (h : ∀ c ∈ w, c.isDigit) : scan (.word u) w = ([], .word (u ++ w)) := by
  induction w generalizing u with
  | nil => simp
  | cons c w ih =>
    have hc := isWord_of_isDigit (h c List.mem_cons_self)
    simp [scan, step, hc, ih fun d hd => h d (List.mem_cons_of_mem c hd)]

/-- A digit starts a word. -/
theorem start_digit {c : Char} (h : c.isDigit) : start c = ([], .word [c]) := by
  have hquote : c ≠ '\'' := by
    rintro rfl
    cases h
  have hdash : c ≠ '-' := by
    rintro rfl
    cases h
  rw [start, if_neg hquote, if_neg hdash, if_pos (isWord_of_isDigit h)]

theorem digits (n : ℕ) : ∃ c cs, (toString n).toList = c :: cs ∧ c.isDigit ∧ (∀ d ∈ cs, d.isDigit) ∧
    Nat.toDigits 10 n = c :: cs := by
  obtain ⟨c, cs, hcs⟩ := List.exists_cons_of_ne_nil (Nat.toDigits_ne_nil (b := 10) (n := n))
  have hdigits : ∀ d ∈ c :: cs, d.isDigit := fun d hd =>
    Nat.isDigit_of_mem_toDigits (by decide) (by decide) (hcs ▸ hd)
  refine ⟨c, cs, ?_, hdigits c List.mem_cons_self, fun d hd => hdigits d (List.mem_cons_of_mem c hd), hcs⟩
  rw [Nat.toString_eq_repr, Nat.toList_repr, hcs]

theorem meant_number (n : ℕ) : meant (code (toString n)) = [.word (Nat.toDigits 10 n)] := by
  obtain ⟨c, cs, hlist, hc, hcs, hdigits⟩ := digits n
  have hscan : scan .code (c :: cs) = ([], .word (c :: cs)) := by
    simp [scan, step, start_digit hc, scan_digits hcs]
  rw [meant_code, Part.tokens, hlist, hscan, hdigits]
  rfl

theorem meant_minus (n : ℕ) :
    meant (code ("-" ++ toString n)) = [.symbol '-', .word (Nat.toDigits 10 n)] := by
  obtain ⟨c, cs, hlist, hc, hcs, hdigits⟩ := digits n
  have hne : c ≠ '-' := by
    rintro rfl
    cases hc
  have hdash : start '-' = ([], .dash) := by decide
  have hscan : scan .code ('-' :: c :: cs) = ([.symbol '-'], .word (c :: cs)) := by
    simp [scan, step, hdash, hne, start_digit hc, scan_digits hcs]
  have htext : ("-" ++ toString n).toList = '-' :: c :: cs := by simp [hdigits]
  rw [meant_code, Part.tokens, htext, hscan, hdigits]
  rfl

/-! ### The condition -/

/-- A version that is asked for as it is. -/
def asIs (n : ℤ) : Value := ⟨.number n.toNat, []⟩

/-- A version that is counted from the greatest one. -/
def fromGreatest (k : ℤ) : Value :=
  ⟨.column "maxdataversion".toList, [(.plus, .number 1), (.minus, .number k.toNat)]⟩

/-- The version is one of several values. -/
def among (g : ℤ → Value) : List ℤ → List SqlText.Membership
  | [] => []
  | n :: ns => [⟨"dataversion".toList, g n, ns.map g⟩]

/-- The clause, and the condition that it is. -/
def versionsText (ps ks : List ℤ) : Text :=
  code "(" ++ positiveVersions ps ++ (if ps ≠ [] ∧ ks ≠ [] then code "OR " else []) ++
    negativeVersions ks ++ code ") "

def versionsCondition (ps ks : List ℤ) : List SqlText.Membership := among asIs ps ++ among fromGreatest ks

theorem addDataVersionQuery_eq (builder : Builder) (n : ℤ) (ns : List ℤ) :
    addDataVersionQuery builder (some (n :: ns)) =
      (((n :: ns).filter fun n => n < 0).mapM negate).map fun ks =>
        builder.where' (versionsText ((n :: ns).filter fun n => ¬ n < 0) ks) := by
  rw [addDataVersionQuery]
  · cases ((n :: ns).filter fun n => n < 0).mapM negate <;> rfl
  · exact List.cons_ne_nil n ns

theorem toString_toNat {n : ℤ} (h : 0 ≤ n) : toString n = toString n.toNat := by
  obtain ⟨k, rfl⟩ := Int.eq_ofNat_of_zero_le h
  rfl

theorem meant_toString {n : ℤ} (h : 0 ≤ n) : meant (code (toString n)) = (asIs n).tokens := by
  rw [toString_toNat h, meant_number]
  rfl

theorem meant_negated {k : ℤ} (h : 0 ≤ k) :
    meant (code "(maxdataversion +1 " ++ code ("-" ++ toString k) ++ code ")") = (fromGreatest k).tokens := by
  have hopen : meant (code "(maxdataversion +1 ") =
      [.symbol '(', .word "maxdataversion".toList, .symbol '+', .word ['1']] := by decide
  have hclose : meant (code ")") = [.symbol ')'] := by decide
  have hone : Nat.toDigits 10 1 = ['1'] := by decide
  rw [toString_toNat h, meant_append, meant_append, hopen, hclose, meant_minus]
  simp [fromGreatest, Value.tokens, Sign.token, Atom.word, hone]

theorem meant_flatMap {α : Type} (g : α → Text) (l : List α) :
    meant (l.flatMap g) = l.flatMap fun x => meant (g x) := by
  induction l with
  | nil => rfl
  | cons x l ih => rw [List.flatMap_cons, meant_append, ih, List.flatMap_cons]

section In
variable {first : Text} {t : ℤ → Text} {g : ℤ → Value} {n : ℤ} {ns : List ℤ}

/-- A text with values in it. -/
theorem meant_in (hfirst : meant first = (g n).tokens)
    (h : ∀ k ∈ ns, meant (t k) = .symbol ',' :: (g k).tokens) :
    meant (code "dataversion IN (" ++ first ++ ns.flatMap t ++ code ") ") =
      (among g (n :: ns)).flatMap Membership.tokens := by
  have hopen : meant (code "dataversion IN (") =
      [.word "dataversion".toList, .word ['I', 'N'], .symbol '('] := by decide
  have hclose : meant (code ") ") = [.symbol ')'] := by decide
  rw [meant_append, meant_append, meant_append, hopen, hclose, hfirst, meant_flatMap, List.flatMap_congr h]
  simp [among, Membership.tokens, List.flatMap_map]

theorem spans_in (hfirst : Spans 1 first 1) (h : ∀ k ∈ ns, Spans 1 (t k) 1 ∧ Begins (t k)) :
    Spans 0 (code "dataversion IN (" ++ first ++ ns.flatMap t ++ code ") ") 0 := by
  have hopen : Spans 0 ([] ++ code "dataversion IN (") 1 := spans_of_blank (by decide)
  have hclose : Spans 1 (code ") ") 0 := spans_of_blank (by decide)
  exact ((hopen.append_code (by decide) hfirst).flatMap h).append_begins hclose ⟨") ", rfl, by decide⟩

end In

theorem meant_positiveVersions {ps : List ℤ} (h : ∀ n ∈ ps, 0 ≤ n) :
    meant (positiveVersions ps) = (among asIs ps).flatMap Membership.tokens := by
  cases ps with
  | nil => rfl
  | cons n ns =>
    refine meant_in (meant_toString (h n List.mem_cons_self)) fun k hk => ?_
    have hcomma : meant (code ", ") = [.symbol ','] := by decide
    rw [meant_append, hcomma, meant_toString (h k (List.mem_cons_of_mem n hk))]
    rfl

theorem negativeVersions_cons (n : ℤ) (ns : List ℤ) : negativeVersions (n :: ns) =
    code "dataversion IN (" ++ (code "(maxdataversion +1 " ++ code ("-" ++ toString n) ++ code ")") ++
      ns.flatMap (fun n => code ", (maxdataversion +1 " ++ code ("-" ++ toString n) ++ code ")") ++
        code ") " := by
  simp only [negativeVersions, List.append_assoc]

theorem meant_negativeVersions {ks : List ℤ} (h : ∀ k ∈ ks, 0 ≤ k) :
    meant (negativeVersions ks) = (among fromGreatest ks).flatMap Membership.tokens := by
  cases ks with
  | nil => rfl
  | cons n ns =>
    rw [negativeVersions_cons]
    refine meant_in (meant_negated (h n List.mem_cons_self)) fun k hk => ?_
    have hcomma : meant (code ", (maxdataversion +1 ") = .symbol ',' :: meant (code "(maxdataversion +1 ") := by
      decide
    rw [← meant_negated (h k (List.mem_cons_of_mem n hk)), meant_append, meant_append, meant_append,
      meant_append, hcomma]
    rfl

theorem spans_positiveVersions (ps : List ℤ) : Spans 0 (positiveVersions ps) 0 := by
  cases ps with
  | nil => exact Spans.nil
  | cons n ns => exact spans_in (spans_int n 0) fun k _ =>
      ⟨Spans.append_code (a := []) (spans_of_blank (by decide)) (by decide) (spans_int k 0),
        ", ", rfl, by decide⟩

theorem spans_negated {s : String} (hs : spans 1 [.code s] 2 ∧ (scan .code s.toList).2 = .code) {k : ℤ}
    (h : 0 ≤ k) : Spans 1 (code s ++ code ("-" ++ toString k) ++ code ")") 1 := by
  obtain ⟨n, rfl⟩ := Int.eq_ofNat_of_zero_le h
  have hnumber : Spans 2 (code ("-" ++ toString n)) 2 :=
    spans_dash (s := "") (by simp) (numeric_toString n) (toString_ne_nil n) 1
  have hopen : Spans 1 ([] ++ code s) 2 := spans_of_blank hs.1
  have hclose : Spans 2 (code ")") 1 := spans_of_blank (by decide)
  exact (hopen.append_code hs.2 hnumber).append_begins hclose ⟨")", rfl, by decide⟩

theorem spans_negativeVersions {ks : List ℤ} (h : ∀ k ∈ ks, 0 ≤ k) : Spans 0 (negativeVersions ks) 0 := by
  cases ks with
  | nil => exact Spans.nil
  | cons n ns =>
    rw [negativeVersions_cons]
    refine spans_in (spans_negated (by decide) (h n List.mem_cons_self)) fun k hk => ⟨?_, _, rfl, by decide⟩
    exact spans_negated (by decide) (h k (List.mem_cons_of_mem n hk))

theorem spans_versionsText (ps : List ℤ) {ks : List ℤ} (h : ∀ k ∈ ks, 0 ≤ k) :
    Spans 0 (versionsText ps ks) 0 := by
  have hopen : Spans 0 ([] ++ code "(") 1 := spans_of_blank (by decide)
  have hclose : Spans 1 (code ") ") 0 := spans_of_blank (by decide)
  have hnegative := (spans_negativeVersions h).succ
  have hpositive := hopen.append_code (by decide) (spans_positiveVersions ps).succ
  refine Spans.append_begins ?_ hclose ⟨") ", rfl, by decide⟩
  cases ps with
  | nil => simpa [positiveVersions] using hopen.append_code (by decide) hnegative
  | cons n ns =>
    cases ks with
    | nil => simpa [negativeVersions] using hpositive
    | cons k ks =>
      have hor : Spans 1 (code "OR ") 1 := spans_of_blank (by decide)
      rw [positiveVersions, ← List.append_assoc] at hpositive
      have hmiddle := (hpositive.append_code (by decide) hor).append_code (by decide) hnegative
      simpa [positiveVersions] using hmiddle

/-- What is written is the condition. -/
theorem meant_versionsText {ps ks : List ℤ} (hps : ∀ n ∈ ps, 0 ≤ n) (hks : ∀ k ∈ ks, 0 ≤ k)
    (hne : ps ≠ [] ∨ ks ≠ []) : ∃ m ms, versionsCondition ps ks = m :: ms ∧
      meant (versionsText ps ks) = conditionTokens m ms := by
  have hopen : meant (code "(") = [.symbol '('] := by decide
  have hor : meant (code "OR ") = [.word ['O', 'R']] := by decide
  have hclose : meant (code ") ") = [.symbol ')'] := by decide
  have hnil : meant [] = [] := rfl
  rw [versionsText, meant_append, meant_append, meant_append, meant_append, hopen, hclose,
    meant_positiveVersions hps, meant_negativeVersions hks]
  cases ps with
  | nil =>
    obtain ⟨k, ks, rfl⟩ := List.exists_cons_of_ne_nil (hne.resolve_left fun h => h rfl)
    refine ⟨_, _, rfl, ?_⟩
    simp [among, conditionTokens, hnil]
  | cons n ns =>
    refine ⟨_, _, rfl, ?_⟩
    cases ks with
    | nil => simp [among, conditionTokens, hnil]
    | cons k ks => simp [among, conditionTokens, hor]

theorem named_versionsCondition (ps ks : List ℤ) : ∀ u ∈ versionsCondition ps ks, u.Named := by
  have hcolumn : isName "dataversion".toList := by decide
  have hamong : ∀ (g : ℤ → Value), (∀ n, (g n).Named) → ∀ ns, ∀ u ∈ among g ns, u.Named := by
    intro g hg ns u hu
    cases ns with
    | nil => cases hu
    | cons n ns =>
      rw [List.mem_singleton.1 hu]
      refine ⟨hcolumn, hg n, fun v hv => ?_⟩
      obtain ⟨k, -, rfl⟩ := List.mem_map.1 hv
      exact hg k
  have hgreatest : isName "maxdataversion".toList := by decide
  intro u hu
  rcases List.mem_append.1 hu with hu | hu
  · exact hamong asIs (fun n => ⟨trivial, by simp [asIs]⟩) ps u hu
  · exact hamong fromGreatest (fun k => ⟨hgreatest, by simp [fromGreatest, Atom.Named]⟩) ks u hu

theorem unquoted_code (s : String) : ∀ x ∈ code s, x.Unquoted := by
  intro x hx
  rw [List.mem_singleton.1 hx]
  trivial

theorem unquoted_flatMap {t : ℤ → Text} (ht : ∀ n, ∀ x ∈ t n, x.Unquoted) (ns : List ℤ) :
    ∀ x ∈ ns.flatMap t, x.Unquoted := by
  intro x hx
  obtain ⟨n, -, hx⟩ := List.mem_flatMap.1 hx
  exact ht n x hx

/-- No string of a user is in the clause. -/
theorem unquoted_versionsText (ps ks : List ℤ) : ∀ x ∈ versionsText ps ks, x.Unquoted := by
  have hpositive : ∀ x ∈ positiveVersions ps, x.Unquoted := by
    cases ps with
    | nil => simp [positiveVersions]
    | cons n ns =>
      simp only [positiveVersions, List.forall_mem_append]
      refine ⟨⟨⟨unquoted_code _, unquoted_code _⟩, unquoted_flatMap (fun k => ?_) ns⟩, unquoted_code _⟩
      exact List.forall_mem_append.2 ⟨unquoted_code _, unquoted_code _⟩
  have hnegative : ∀ x ∈ negativeVersions ks, x.Unquoted := by
    cases ks with
    | nil => simp [negativeVersions]
    | cons n ns =>
      simp only [negativeVersions, List.forall_mem_append]
      refine ⟨⟨⟨⟨⟨unquoted_code _, unquoted_code _⟩, unquoted_code _⟩, unquoted_code _⟩,
        unquoted_flatMap (fun k => ?_) ns⟩, unquoted_code _⟩
      simp only [List.forall_mem_append]
      exact ⟨⟨unquoted_code _, unquoted_code _⟩, unquoted_code _⟩
  have hmiddle : ∀ x ∈ (if ps ≠ [] ∧ ks ≠ [] then code "OR " else []), x.Unquoted := by
    split
    · exact unquoted_code _
    · simp
  simp only [versionsText, List.forall_mem_append]
  exact ⟨⟨⟨⟨unquoted_code _, hpositive⟩, hmiddle⟩, hnegative⟩, unquoted_code _⟩

/-- The clause is read as the condition. -/
theorem condition_versionsText {ps ks : List ℤ} (hps : ∀ n ∈ ps, 0 ≤ n) (hks : ∀ k ∈ ks, 0 ≤ k)
    (hne : ps ≠ [] ∨ ks ≠ []) :
    (tokens .code (characters (versionsText ps ks))).bind condition = some (versionsCondition ps ks) := by
  obtain ⟨m, ms, hcondition, hmeant⟩ := meant_versionsText hps hks hne
  have htokens := (tokens_characters_iff (spans_versionsText ps hks).meeting).2 (unquoted_versionsText ps ks)
  have hread := condition_tokens (hcondition ▸ named_versionsCondition ps ks)
  rw [htokens, Option.bind_some, hcondition, ← hread, ← hmeant]
  rfl

/-! ### The rows -/

/-- The columns of a row that a condition on versions is about. -/
def versionRow (dataversion maxdataversion : ℤ) (column : List Char) : Option ℤ :=
  if column = "dataversion".toList then some dataversion
  else if column = "maxdataversion".toList then some maxdataversion
  else none

section Rows
variable {d m : ℤ}

theorem versionRow_dataversion : versionRow d m "dataversion".toList = some d := if_pos rfl

theorem versionRow_maxdataversion : versionRow d m "maxdataversion".toList = some m := by
  have hne : "maxdataversion".toList ≠ "dataversion".toList := by decide
  rw [versionRow, if_neg hne, if_pos rfl]

theorem eval_number {row : List Char → Option ℤ} {n : ℤ} (hlow : 0 ≤ n) (hhigh : n < 2 ^ 31) :
    (Atom.number n.toNat).eval row = some n := by
  rw [Atom.eval, Int.toNat_of_nonneg hlow, int_eq_some (by omega) hhigh]

theorem eval_asIs {n : ℤ} (hlow : 0 ≤ n) (hhigh : n < 2 ^ 31) :
    (asIs n).eval (versionRow d m) = some n := by
  rw [Value.eval, asIs, eval_number hlow hhigh]
  rfl

theorem eval_fromGreatest {k : ℤ} (hlow : 0 ≤ k) (hhigh : k < 2 ^ 31) :
    (fromGreatest k).eval (versionRow d m) = (int (m + 1)).bind fun x => int (x - k) := by
  have hcolumn : (Atom.column "maxdataversion".toList).eval (versionRow d m) = some m :=
    versionRow_maxdataversion
  have hone : (Atom.number 1).eval (versionRow d m) = some 1 := eval_number (n := 1) (by decide) (by decide)
  rw [Value.eval, fromGreatest, hcolumn]
  simp only [Option.bind_eq_bind, Option.bind_some, List.foldlM_cons, List.foldlM_nil, hone,
    eval_number hlow hhigh, Sign.apply, Option.pure_def, Option.bind_fun_some]

/-- A version that is counted from the greatest one: the sum is an `integer` at every step. -/
structure Counted (m k : ℤ) : Prop where
  next : m + 1 < 2 ^ 31
  low : -2 ^ 31 ≤ m + 1 - k

theorem counted_iff {k : ℤ} (hm : -2 ^ 31 ≤ m ∧ m < 2 ^ 31) (hk : 0 ≤ k) :
    ((int (m + 1)).bind fun x => int (x - k)).isSome ↔ Counted m k := by
  constructor
  · intro h
    obtain ⟨y, hy⟩ := Option.isSome_iff_exists.1 h
    obtain ⟨x, hx, hy⟩ := Option.bind_eq_some_iff.1 hy
    obtain ⟨rfl, -, hnext⟩ := of_int_eq_some hx
    exact ⟨hnext, (of_int_eq_some hy).2.1⟩
  · rintro ⟨hnext, hlow⟩
    rw [int_eq_some (by omega) hnext, Option.bind_some, int_eq_some hlow (by omega)]
    rfl

theorem Counted.eval {k : ℤ} (h : Counted m k) (hm : -2 ^ 31 ≤ m) (hlow : 0 ≤ k) (hhigh : k < 2 ^ 31) :
    (fromGreatest k).eval (versionRow d m) = some (m + 1 - k) := by
  rw [eval_fromGreatest hlow hhigh, int_eq_some (by omega) h.next, Option.bind_some,
    int_eq_some h.low (by have := h.next; omega)]

theorem conditionHolds_among {g : ℤ → Value} {h : ℤ → ℤ} {ns : List ℤ}
    (hns : ∀ n ∈ ns, (g n).eval (versionRow d m) = some (h n)) :
    conditionHolds (versionRow d m) (among g ns) = some (decide (∃ n ∈ ns, h n = d)) := by
  cases ns with
  | nil => simp [among]
  | cons n ns =>
    have hvalues : ((n :: ns).map g).mapM (Value.eval (versionRow d m)) = some ((n :: ns).map h) := by
      rw [List.mapM_map]
      exact mapM_eq_pure hns
    rw [among, conditionHolds_singleton, Membership.eval_eq_some versionRow_dataversion hvalues]
    exact congrArg some (decide_eq_decide.2 List.mem_map)

/-- The condition has the value that is meant when every sum has one. -/
theorem conditionHolds_versions {ps ks : List ℤ} (hm : -2 ^ 31 ≤ m)
    (hps : ∀ n ∈ ps, 0 ≤ n ∧ n < 2 ^ 31) (hks : ∀ k ∈ ks, 0 ≤ k ∧ k < 2 ^ 31)
    (hcounted : ∀ k ∈ ks, Counted m k) :
    conditionHolds (versionRow d m) (versionsCondition ps ks) =
      some (decide ((∃ n ∈ ps, n = d) ∨ ∃ k ∈ ks, m + 1 - k = d)) := by
  have hpositive := conditionHolds_among (d := d) (g := asIs) (h := id) fun n hn =>
    eval_asIs (m := m) (hps n hn).1 (hps n hn).2
  have hnegative := conditionHolds_among (d := d) fun k hk =>
    (hcounted k hk).eval hm (hks k hk).1 (hks k hk).2
  rw [versionsCondition, conditionHolds_append hpositive hnegative, Bool.decide_or]
  rfl

/-- A call that counts from the greatest version has a result when every sum has one. -/
theorem counted_of_conditionHolds {ps ks : List ℤ} {b : Bool} (hm : -2 ^ 31 ≤ m ∧ m < 2 ^ 31)
    (hks : ∀ k ∈ ks, 0 ≤ k ∧ k < 2 ^ 31)
    (h : conditionHolds (versionRow d m) (versionsCondition ps ks) = some b) : ∀ k ∈ ks, Counted m k := by
  intro k hk
  have hmem : ∃ u ∈ among fromGreatest ks, fromGreatest k ∈ u.head :: u.others := by
    cases ks with
    | nil => cases hk
    | cons n ns => exact ⟨_, List.mem_singleton_self _, List.mem_map_of_mem (f := fromGreatest) hk⟩
  obtain ⟨u, hu, hv⟩ := hmem
  have hsome := isSome_of_conditionHolds h u (List.mem_append_right _ hu) _ hv
  rw [eval_fromGreatest (hks k hk).1 (hks k hk).2] at hsome
  exact (counted_iff hm (hks k hk).1).1 hsome

end Rows

/-! ### The call -/

theorem negate_eq_ok {n : ℤ} (hlow : -2 ^ 31 ≤ n) (hneg : n < 0) (hne : n ≠ -2 ^ 31) :
    negate n = .ok (-n) := by
  rw [negate, int_eq_some (by omega) (by omega)]
  rfl

theorem negate_least (k : ℤ) : negate (-2 ^ 31) ≠ .ok k := by
  have herror : negate (-2 ^ 31) = .error .undefined := by decide
  rw [herror]
  exact nofun

/-- The negations, when no element is the least `int`. -/
theorem mapM_negate_iff {ns ks : List ℤ} (h : ∀ n ∈ ns, -2 ^ 31 ≤ n ∧ n < 0) :
    ns.mapM negate = .ok ks ↔ (∀ n ∈ ns, n ≠ -2 ^ 31) ∧ ks = ns.map fun n => -n := by
  have hnegate : (∀ n ∈ ns, n ≠ -2 ^ 31) → ns.mapM negate = .ok (ns.map fun n => -n) := fun hne =>
    mapM_eq_pure fun n hn => negate_eq_ok (h n hn).1 (h n hn).2 (hne n hn)
  constructor
  · intro hks
    have hne : ∀ n ∈ ns, n ≠ -2 ^ 31 := by
      rintro n hn rfl
      obtain ⟨k, -, hk⟩ := (of_mapM_eq_ok hks).1 _ hn
      exact negate_least k hk
    exact ⟨hne, Except.ok.inj (hks.symm.trans (hnegate hne))⟩
  · rintro ⟨hne, rfl⟩
    exact hnegate hne

/-- A row is asked for: its version is an element, or is counted from the greatest one. -/
def Asked (versions : List Int32) (dataversion maxdataversion : Int32) : Prop :=
  ∃ n ∈ versions, (0 ≤ n.toInt ∧ n.toInt = dataversion.toInt) ∨
    (n.toInt < 0 ∧ maxdataversion.toInt + 1 - -n.toInt = dataversion.toInt)

instance (versions : List Int32) (d m : Int32) : Decidable (Asked versions d m) :=
  inferInstanceAs (Decidable (∃ n ∈ versions, _))

/-- The last version of a value. -/
theorem asked_last {d m : Int32} : Asked [-1] d m ↔ d = m := by
  have hone : (-1 : Int32).toInt = -1 := by decide
  rw [← Int32.toInt_inj]
  constructor
  · rintro ⟨n, hn, hsum⟩
    rw [List.mem_singleton.1 hn, hone] at hsum
    omega
  · intro h
    refine ⟨-1, List.mem_singleton_self _, Or.inr ?_⟩
    rw [hone]
    omega

/-- The clause that is added is a condition, and selects a row exactly when it is asked for. -/
def SelectsAsked (builder : Builder) (versions : List Int32) (d m : Int32) : Prop :=
  ∃ clause c, addDataVersionQuery builder (some (versions.map Int32.toInt)) = .ok (builder.where' clause) ∧
    (tokens .code (characters clause)).bind condition = some c ∧
    conditionHolds (versionRow d.toInt m.toInt) c = some (decide (Asked versions d m))

section Call
variable {versions : List Int32} {d m : Int32}

/-- The elements that are asked for as they are, and the others. -/
def positives (versions : List Int32) : List ℤ := (versions.map Int32.toInt).filter fun n => ¬ n < 0

def negatives (versions : List Int32) : List ℤ := (versions.map Int32.toInt).filter fun n => n < 0

theorem mem_positives {n : ℤ} : n ∈ positives versions ↔ (∃ k ∈ versions, k.toInt = n) ∧ 0 ≤ n := by
  simp [positives, List.mem_filter]

theorem mem_negatives {n : ℤ} : n ∈ negatives versions ↔ (∃ k ∈ versions, k.toInt = n) ∧ n < 0 := by
  simp [negatives, List.mem_filter]

theorem asked_iff : Asked versions d m ↔ (∃ n ∈ positives versions, n = d.toInt) ∨
    ∃ k ∈ (negatives versions).map fun n => -n, m.toInt + 1 - k = d.toInt := by
  constructor
  · rintro ⟨n, hn, ⟨hsign, hd⟩ | ⟨hsign, hd⟩⟩
    · exact Or.inl ⟨n.toInt, mem_positives.2 ⟨⟨n, hn, rfl⟩, hsign⟩, hd⟩
    · have hmem := List.mem_map_of_mem (f := fun n => -n) (mem_negatives.2 ⟨⟨n, hn, rfl⟩, hsign⟩)
      exact Or.inr ⟨-n.toInt, hmem, hd⟩
  · rintro (⟨n, hn, hd⟩ | ⟨k, hk, hd⟩)
    · obtain ⟨⟨n, hmem, rfl⟩, hsign⟩ := mem_positives.1 hn
      exact ⟨n, hmem, Or.inl ⟨hsign, hd⟩⟩
    · obtain ⟨n, hn, rfl⟩ := List.mem_map.1 hk
      obtain ⟨⟨n, hmem, rfl⟩, hsign⟩ := mem_negatives.1 hn
      exact ⟨n, hmem, Or.inr ⟨hsign, hd⟩⟩

theorem positives_range : ∀ n ∈ positives versions, 0 ≤ n ∧ n < 2 ^ 31 := by
  intro n hn
  obtain ⟨⟨k, -, rfl⟩, hsign⟩ := mem_positives.1 hn
  exact ⟨hsign, Int32.toInt_lt k⟩

theorem negatives_range : ∀ n ∈ negatives versions, -2 ^ 31 ≤ n ∧ n < 0 := by
  intro n hn
  obtain ⟨⟨k, -, rfl⟩, hsign⟩ := mem_negatives.1 hn
  exact ⟨Int32.le_toInt k, hsign⟩

theorem negated_range (hleast : ∀ n ∈ negatives versions, n ≠ -2 ^ 31) :
    ∀ k ∈ (negatives versions).map fun n => -n, 0 ≤ k ∧ k < 2 ^ 31 := by
  intro k hk
  obtain ⟨n, hn, rfl⟩ := List.mem_map.1 hk
  have hrange := negatives_range n hn
  have hne := hleast n hn
  omega

theorem positives_or_negatives (n : Int32) (ns : List Int32) :
    positives (n :: ns) ≠ [] ∨ (negatives (n :: ns)).map (fun n => -n) ≠ [] := by
  by_cases hsign : n.toInt < 0
  · right
    have hmem := mem_negatives.2 ⟨⟨n, List.mem_cons_self (l := ns), rfl⟩, hsign⟩
    exact List.ne_nil_of_mem (List.mem_map_of_mem hmem)
  · exact Or.inl (List.ne_nil_of_mem (mem_positives.2 ⟨⟨n, List.mem_cons_self (l := ns), rfl⟩, by omega⟩))

end Call

/-- A clause is a condition that selects what is asked for exactly when no element is the least `int` and
    every sum that is asked for is an `integer`. -/
theorem selectsAsked_iff (builder : Builder) (n : Int32) (ns : List Int32) (d m : Int32) :
    SelectsAsked builder (n :: ns) d m ↔
      ∀ k ∈ n :: ns, k.toInt < 0 → k.toInt ≠ -2 ^ 31 ∧ Counted m.toInt (-k.toInt) := by
  have hquery : addDataVersionQuery builder (some ((n :: ns).map Int32.toInt)) =
      ((negatives (n :: ns)).mapM negate).map fun ks =>
        builder.where' (versionsText (positives (n :: ns)) ks) :=
    addDataVersionQuery_eq builder n.toInt (ns.map Int32.toInt)
  have hne := positives_or_negatives n ns
  have hm : -2 ^ 31 ≤ m.toInt ∧ m.toInt < 2 ^ 31 := ⟨Int32.le_toInt m, Int32.toInt_lt m⟩
  have hread := fun hleast => condition_versionsText (fun k hk => (positives_range k hk).1)
    (fun k hk => (negated_range hleast k hk).1) hne
  constructor
  · rintro ⟨clause, c, hcall, hcondition, hholds⟩ k hk hsign
    have hmem : k.toInt ∈ negatives (n :: ns) := mem_negatives.2 ⟨⟨k, hk, rfl⟩, hsign⟩
    cases hks : (negatives (n :: ns)).mapM negate with
    | error e =>
      rw [hquery, hks] at hcall
      cases hcall
    | ok ks =>
      obtain ⟨hleast, rfl⟩ := (mapM_negate_iff negatives_range).1 hks
      rw [hquery, hks] at hcall
      have hclauses := congrArg Builder.where_ (Except.ok.inj hcall)
      obtain rfl := List.singleton_inj.1 (List.append_cancel_left hclauses)
      obtain rfl := Option.some.inj ((hread hleast).symm.trans hcondition)
      exact ⟨hleast _ hmem, counted_of_conditionHolds hm (negated_range hleast) hholds _
        (List.mem_map_of_mem (f := fun n => -n) hmem)⟩
  · intro h
    have hleast : ∀ k ∈ negatives (n :: ns), k ≠ -2 ^ 31 := by
      intro k hk
      obtain ⟨⟨k, hmem, rfl⟩, hsign⟩ := mem_negatives.1 hk
      exact (h k hmem hsign).1
    have hcounted : ∀ k ∈ (negatives (n :: ns)).map fun n => -n, Counted m.toInt k := by
      intro k hk
      obtain ⟨j, hj, rfl⟩ := List.mem_map.1 hk
      obtain ⟨⟨j, hmem, rfl⟩, hsign⟩ := mem_negatives.1 hj
      exact (h j hmem hsign).2
    refine ⟨_, _, ?_, hread hleast, ?_⟩
    · rw [hquery, (mapM_negate_iff negatives_range).2 ⟨hleast, rfl⟩]
      rfl
    · rw [conditionHolds_versions hm.1 positives_range (negated_range hleast) hcounted]
      exact congrArg some (decide_eq_decide.2 asked_iff.symm)

/-- There is no clause for the least `int`. -/
theorem not_selectsAsked_least : ¬ SelectsAsked {} [Int32.minValue] 0 0 := by
  rintro ⟨clause, c, hcall, -⟩
  have hundefined : addDataVersionQuery {} (some ([Int32.minValue].map Int32.toInt)) = .error .undefined := by
    decide
  rw [hundefined] at hcall
  cases hcall

end Wdb.Query
