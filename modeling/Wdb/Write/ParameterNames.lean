import Wdb.Write.Overloads
import Wdb.Write.Spelling

/-! The names of parameters: `parameter`, `parametername` and `wci.setParameterName`.

    A parameter has its canonical name in namespace 0, and at most one name that was set in any other
    namespace. A name is set in lower case and without blanks at its ends. -/

namespace Wdb.Write
open Relational SqlTypes Store

/-- A row of `parameter`. -/
structure Parameter where
  parameterid : ℤ
  cfstandardname : String
  cfsurface : Option String
  cfcomponent : Option String
  cfmedium : Option String
  cfprocess : Option String
  cfcondition : Option String
  cfmethods : Option String
  unitname : String
  deriving DecidableEq

/-- `parameter_pkey`. -/
def Parameter.clash (a b : Parameter) : Prop := a.parameterid = b.parameterid

/-- A row of `parametername`. -/
structure ParameterName where
  parameterid : ℤ
  parameternamespaceid : ℤ
  parametername : String
  deriving DecidableEq

/-- `parametername_pkey`. -/
def ParameterName.clash (a b : ParameterName) : Prop :=
  a.parameterid = b.parameterid ∧ a.parameternamespaceid = b.parameternamespaceid

instance : DecidableRel Parameter.clash := fun _ _ => inferInstanceAs (Decidable (_ = _))
instance : DecidableRel ParameterName.clash := fun _ _ => inferInstanceAs (Decidable (_ ∧ _))

/-- `getCanonicalParameterName` of the columns of a parameter. -/
def getCanonicalParameterName (p : Parameter) : String :=
  let named := p.cfcomponent.elim p.cfstandardname (· ++ " " ++ p.cfstandardname)
  let located := p.cfsurface.elim named fun cfsurface =>
    if ' ' ∈ cfsurface.toList then named ++ " at " ++ cfsurface else cfsurface ++ " " ++ named
  let inside := p.cfmedium.elim located (located ++ " in " ++ ·)
  let caused := p.cfprocess.elim inside (inside ++ " due to " ++ ·)
  let assumed := p.cfcondition.elim caused (caused ++ " assuming " ++ ·)
  lower (p.cfmethods.elim assumed (assumed ++ " [" ++ · ++ "]"))

/-- The tables of parameters, and the namespaces that they refer to. The canonical namespace holds no
    name that was set. -/
structure ParameterDb where
  parameter : Table Parameter Parameter.clash
  parametername : Table ParameterName ParameterName.clash
  namespaceIds : List ℤ
  set_elsewhere : ∀ n ∈ parametername.rows, n.parameternamespaceid ≠ 0

/-- `parameter_v`, which `parameter_mv` holds after every statement. -/
def ParameterDb.parameterMv (db : ParameterDb) : List ParameterMv :=
  (db.parameter.rows.flatMap fun v =>
    (db.parametername.rows.filter fun n => v.parameterid = n.parameterid).map fun n =>
      ⟨v.parameterid, n.parameternamespaceid, n.parametername, v.unitname⟩) ++
  db.parameter.rows.map fun v => ⟨v.parameterid, 0, getCanonicalParameterName v, v.unitname⟩

/-- What a writer sees when these are the parameters. -/
def Environment.withParameters (env : Environment) (db : ParameterDb) : Environment :=
  { env with cat := { env.cat with parameterMv := db.parameterMv } }

/-- Give a parameter another name in a namespace other than 0: `DELETE` and `INSERT`. -/
def ParameterDb.rename (db : ParameterDb) (n : ParameterName) (h : n.parameternamespaceid ≠ 0) :
    Option ParameterDb :=
  let others := db.parametername.delete fun m =>
    m.parameternamespaceid = n.parameternamespaceid && m.parameterid = n.parameterid
  match hinsert : others.insert n with
  | none => none
  | some parametername => some
    { db with
      parametername := parametername
      set_elsewhere := fun m hm => by
        rw [(Table.insert_eq_some hinsert).2, List.mem_append, List.mem_singleton] at hm
        rcases hm with hm | rfl
        · exact db.set_elsewhere m (Table.mem_delete.1 hm).1
        · exact h }

/-- `wci.setParameterName(canonicalName_, valueParameterName_)`. -/
def setParameterName (db : ParameterDb) (session : Session)
    (canonicalName_ valueParameterName_ : String) : Option ParameterDb :=
  if h : session.parameternamespaceid = 0 then none
  else do
    let p ← db.parameterMv.find? fun p =>
      p.parametername = lower canonicalName_ ∧ p.parameternamespaceid = 0
    let parametername ← varchar 255 (lower (btrim valueParameterName_))
    if session.parameternamespaceid ∈ db.namespaceIds then
      db.rename ⟨p.parameterid, session.parameternamespaceid, parametername⟩ h
    else none

/-! ### The names that parameters have -/

theorem ParameterDb.mem_parameterMv {db : ParameterDb} {p : ParameterMv} : p ∈ db.parameterMv ↔
    (∃ v ∈ db.parameter.rows, ∃ n ∈ db.parametername.rows, v.parameterid = n.parameterid ∧
      p = ⟨v.parameterid, n.parameternamespaceid, n.parametername, v.unitname⟩) ∨
    ∃ v ∈ db.parameter.rows, p = ⟨v.parameterid, 0, getCanonicalParameterName v, v.unitname⟩ := by
  unfold ParameterDb.parameterMv
  simp only [List.mem_append, List.mem_flatMap, List.mem_map, List.mem_filter, decide_eq_true_eq,
    and_assoc, eq_comm (b := p)]

/-- A parameter has one name in a namespace. -/
theorem ParameterDb.oneName (db : ParameterDb) {p q : ParameterMv} (hp : p ∈ db.parameterMv)
    (hq : q ∈ db.parameterMv) (hid : p.parameterid = q.parameterid)
    (hns : p.parameternamespaceid = q.parameternamespaceid) : p.parametername = q.parametername := by
  have hsame : ∀ {v w : Parameter}, v ∈ db.parameter.rows → w ∈ db.parameter.rows →
      v.parameterid = w.parameterid → v = w := fun hv hw h =>
    db.parameter.eq_of_clash (fun _ _ h => h.symm) hv hw h
  rcases mem_parameterMv.1 hp with ⟨v, hv, n, hn, hvn, rfl⟩ | ⟨v, hv, rfl⟩ <;>
    rcases mem_parameterMv.1 hq with ⟨w, hw, m, hm, hwm, rfl⟩ | ⟨w, hw, rfl⟩
  · have hnm : n = m := db.parametername.eq_of_clash (fun _ _ h => ⟨h.1.symm, h.2.symm⟩) hn hm
      ⟨by rw [← hvn, ← hwm]; exact hid, hns⟩
    rw [hnm]
  · exact absurd hns (db.set_elsewhere n hn)
  · exact absurd hns.symm (db.set_elsewhere m hm)
  · rw [hsame hv hw hid]

/-- A name that was set is stored in lower case, without the blanks at its ends. -/
theorem setParameterName_stores {db db' : ParameterDb} {session : Session} {canonicalName_ name : String}
    (h : setParameterName db session canonicalName_ name = some db') :
    ∃ p ∈ db'.parameterMv, p.parametername = lower (btrim name) ∧
      p.parameternamespaceid = session.parameternamespaceid := by
  unfold setParameterName at h
  split at h
  · cases h
  · next hns =>
    simp only [Option.bind_eq_bind, Option.bind_eq_some_iff] at h
    obtain ⟨p, hp, stored, hstored, h⟩ := h
    have hlast : (lower (btrim name)).toList.getLast? ≠ some ' ' := by
      rw [lower_btrim]
      exact btrim_getLast? _
    obtain rfl := varchar_eq_self hstored hlast
    split at h
    · unfold ParameterDb.rename at h
      dsimp only at h
      split at h
      · cases h
      · next t hinsert =>
        cases h
        -- the parameter that was found is the one that the name is joined with
        have hv : ∃ v ∈ db.parameter.rows, v.parameterid = p.parameterid := by
          rcases ParameterDb.mem_parameterMv.1 (List.mem_of_find?_eq_some hp) with
            ⟨v, hv, _, _, _, rfl⟩ | ⟨v, hv, rfl⟩ <;> exact ⟨v, hv, rfl⟩
        obtain ⟨v, hv, hid⟩ := hv
        have hstored : ⟨p.parameterid, session.parameternamespaceid, lower (btrim name)⟩ ∈ t.rows := by
          rw [(Table.insert_eq_some hinsert).2]
          exact List.mem_append_right _ List.mem_cons_self
        refine ⟨⟨v.parameterid, session.parameternamespaceid, lower (btrim name), v.unitname⟩, ?_,
          rfl, rfl⟩
        exact ParameterDb.mem_parameterMv.2 (Or.inl ⟨v, hv, _, hstored, hid, rfl⟩)
    · cases h

/-! ### Using a name -/

section Use
variable {env : Environment}

/-- The parameter that is found has the name and the namespace. -/
theorem getParameterId_eq_some {key : String} {id : ℤ} (h : getParameterId env (some key) = some id) :
    ∃ p ∈ env.cat.parameterMv, p.parametername = key ∧
      p.parameternamespaceid = env.session.parameternamespaceid ∧ p.parameterid = id := by
  obtain ⟨p, hp, hid⟩ := Option.map_eq_some_iff.1 h
  have hcond := List.find?_some hp
  obtain ⟨hkey, hns⟩ := of_decide_eq_true hcond
  exact ⟨p, List.mem_of_find?_eq_some hp, Option.some_inj.1 hkey, hns, hid⟩

/-- A parameter that has the name and the namespace is found, or another one that has them. -/
theorem exists_getParameterId {key : String} {p : ParameterMv} (hp : p ∈ env.cat.parameterMv)
    (hkey : p.parametername = key)
    (hns : p.parameternamespaceid = env.session.parameternamespaceid) :
    ∃ id, getParameterId env (some key) = some id := by
  refine Option.isSome_iff_exists.1 ?_
  rw [getParameterId, Option.isSome_map, List.find?_isSome]
  exact ⟨p, hp, by simp [hkey, hns]⟩

/-- A name that was set can be used as a value parameter: it finds a parameter of that name. -/
def Environment.CanUse (env : Environment) (name : String) : Prop :=
  ∃ p ∈ env.cat.parameterMv, p.parametername = lower (btrim name) ∧
    p.parameternamespaceid = env.session.parameternamespaceid ∧
    (normalize valueParameterType (some name)).bind (getParameterId env) = some p.parameterid

theorem normalize_value {v : String} (hv : v ≠ "") : normalize valueParameterType (some v) =
    some (some (String.ofList (eraseInstant (collapse false (lower v).toList)))) := by
  rw [normalize, valueParameterType, normalized, if_neg hv]
  rfl

theorem normalize_level {l : String} (hl : l ≠ "") : normalize levelParameterType (some l) =
    some (some (String.ofList (collapse false (lower l).toList))) := by
  rw [normalize, levelParameterType, normalized, if_neg hl]
  rfl

variable (env) in
/-- Which names can be used once they were set. -/
theorem canUse_iff {db db' : ParameterDb} {canonicalName_ name : String}
    (h : setParameterName db env.session canonicalName_ name = some db') :
    (env.withParameters db').CanUse name ↔ name ≠ "" ∧ btrim (lower name) = lower name ∧
      Single (lower name).toList ∧ ¬ instant <+: (lower name).toList := by
  constructor
  · rintro ⟨p, hp, hname, hns, hfound⟩
    have hne : name ≠ "" := by
      rintro rfl
      cases hfound
    rw [normalize_value hne, Option.bind_some] at hfound
    obtain ⟨q, hq, hkey, hqns, hid⟩ := getParameterId_eq_some hfound
    -- what is found has one name only
    have hsame := db'.oneName hp hq hid.symm (hns.trans hqns.symm)
    rw [hname, hkey, lower_btrim, ← String.toList_inj, String.toList_ofList] at hsame
    obtain ⟨hsingle, hinstant, hself⟩ := (normalized_eq_btrim_iff _).1 hsame.symm
    exact ⟨hne, hself, hsingle, hinstant⟩
  · rintro ⟨hne, hself, hsingle, hinstant⟩
    obtain ⟨p, hp, hname, hns⟩ := setParameterName_stores h
    have hkey : String.ofList (eraseInstant (collapse false (lower name).toList)) =
        lower (btrim name) := by
      rw [eraseInstant_collapse hsingle hinstant, String.ofList_toList, lower_btrim, hself]
    obtain ⟨id, hid⟩ := @exists_getParameterId (env.withParameters db') _ _ hp hname hns
    obtain ⟨q, hq, hqkey, hqns, rfl⟩ := getParameterId_eq_some hid
    exact ⟨q, hq, hqkey, hqns, by rw [normalize_value hne, Option.bind_some, hkey, hid]⟩

end Use

end Wdb.Write
