import Wdb.Store.Remove
import Wdb.Store.Versions

/-! `clean.clean_dataversions`: delete all but the newest version of every value.

    The function collects the versions `-2, -3, …` down to the highest version present and hands them
    to `wci.remove`. When the highest version is 0 the loop ends before its first element, the array
    stays `NULL`, and `NULL` means every version. Its variables are `int`s: the least version has no
    negation, and `wci.remove` raises when a sum is no `integer`. -/

namespace Wdb.Store
open Relational Versioned MachineInt

/-- The loop of `clean_dataversions`: the array, which may be `NULL`, or an error. -/
def versionsLoop (highest current_version : ℤ) (versions_to_delete : Option (List ℤ)) :
    Option (Option (List ℤ)) :=
  match _hnegated : int (-highest) with
  | none => none
  | some negated =>
    if current_version < negated then some versions_to_delete
    else match _hnext : int (current_version - 1) with
      | none => none
      | some next => versionsLoop highest next (some (versions_to_delete.getD [] ++ [next]))
termination_by (current_version + highest + 1).toNat
decreasing_by
  have hnegated := (of_int_eq_some _hnegated).1
  have hnext := (of_int_eq_some _hnext).1
  omega

section Clean
variable (cat : Catalog) (session : Session) (points : ValueV ℤ → Option (List ℚ))

/-- `wci.browse(NULL::wci.browsedataversion)`: the data versions that the value views show. -/
def browseDataVersions (db : Db) : List ℤ :=
  (gridvalueV cat session db).map (·.dataversion) ++ (floatvalueV cat session db).map (·.dataversion)

/-- `clean.clean_dataversions`; `none` when it raises. -/
def cleanDataversions (db : Db) : Option Db :=
  match (browseDataVersions cat session db).max? with
  | none => some db
  | some highest_dataversion =>
    (versionsLoop highest_dataversion (-1) none).bind fun versions_to_delete =>
      (remove cat session points { dataVersion := versions_to_delete.elim .null .value } db).map Prod.fst

/-- The tables after `clean.clean_dataversions`, which changes nothing when it raises. -/
def afterClean (db : Db) : Db := (cleanDataversions cat session points db).getD db

end Clean

/-- Every value that is the newest of its key is still there. -/
def KeepsNewest (db db' : Db) : Prop :=
  (∀ v ∈ db.gridvalue.rows, Newest GridValue.toKey GridValue.dataversion db.gridvalue.rows v →
    v ∈ db'.gridvalue.rows) ∧
  ∀ x ∈ db.floats, Newest floatKey (·.2.dataversion) db.floats x → x.1 ∈ db'.floatvalueitem.rows

/-! ### The loop -/

/-- The loop collects versions below -1 only, and the array is `NULL` only when the loop ends at once. -/
theorem of_versionsLoop {highest current : ℤ} {acc r : Option (List ℤ)}
    (h : versionsLoop highest current acc = some r) (hcurrent : current ≤ -1)
    (hacc : ∀ l ∈ acc, ∀ n ∈ l, n ≤ -2) :
    (∀ l ∈ r, ∀ n ∈ l, n ≤ -2) ∧ (r = none → acc = none ∧ current < -highest) := by
  fun_induction versionsLoop highest current acc with
  | case1 => cases h
  | case2 current acc negated hnegated hend =>
    obtain rfl := Option.some.inj h
    rw [(of_int_eq_some hnegated).1] at hend
    exact ⟨hacc, fun hnull => ⟨hnull, hend⟩⟩
  | case3 => cases h
  | case4 current acc negated hnegated hgo next hnext ih =>
    have hnext := (of_int_eq_some hnext).1
    have hless : ∀ l ∈ some (acc.getD [] ++ [next]), ∀ n ∈ l, n ≤ -2 := by
      intro l hl n hn
      obtain rfl := Option.some.inj hl
      rcases List.mem_append.1 hn with hn | hn
      · cases acc with
        | none => cases hn
        | some l => exact hacc l rfl n hn
      · rw [List.mem_singleton.1 hn]
        omega
    obtain ⟨hall, hnull⟩ := ih h (by omega) hless
    exact ⟨hall, fun hr => absurd (hnull hr).1 nofun⟩

/-- The loop ends at once when the highest version is not positive, and has a negation. -/
theorem versionsLoop_none {highest : ℤ} (hlow : -2 ^ 31 < highest) (h : highest ≤ 0) :
    versionsLoop highest (-1) none = some none := by
  rw [versionsLoop, int_eq_some (by omega) (by omega)]
  exact if_pos (by omega)

/-- The least `int` has no negation. -/
theorem versionsLoop_least {highest current : ℤ} {acc : Option (List ℤ)} (h : highest ≤ -2 ^ 31) :
    versionsLoop highest current acc = none := by
  rw [versionsLoop, int_eq_none_iff.2 (by omega)]

/-! ### What is deleted -/

/-- A version below -1 never means the greatest. -/
theorem version_lt_of_matches {l : List ℤ} {dataversion maxdataversion : ℤ}
    (hl : ∀ n ∈ l, n ≤ -2) (h : versionMatches l dataversion maxdataversion = some true) :
    dataversion < maxdataversion := by
  unfold versionMatches at h
  split at h
  · obtain ⟨n, hn, h⟩ := List.any_eq_true.1 (Option.some.inj h)
    have hn2 := hl n hn
    rw [if_pos (by omega), decide_eq_true_eq] at h
    omega
  · cases h

section Keep
variable {cat : Catalog} {session : Session} {points : ValueV ℤ → Option (List ℚ)} {db : Db}

/-- Removing versions below -1 keeps the newest values. -/
theorem keepsNewest_of_versions {l : List ℤ} (hgrid : db.GridMax) (hfloat : db.FloatMax)
    (hl : ∀ n ∈ l, n ≤ -2) {r : Db × RemoveStats}
    (h : remove cat session points { dataVersion := .value l } db = some r) : KeepsNewest db r.1 := by
  obtain ⟨gs, fs, hgs, hfs⟩ := reads_of_remove h
  obtain ⟨db', hdel, hremove⟩ := remove_eq points hgs hfs
  obtain rfl := Option.some.inj (hremove.symm.trans h)
  refine ⟨fun v hv hnew => ?_, fun x hx hnew => ?_⟩
  · rw [hdel.grids, List.mem_filter, decide_eq_true_eq]
    refine ⟨hv, fun hmem => ?_⟩
    obtain ⟨r, hr, hid⟩ := List.mem_map.1 hmem
    obtain ⟨hr, hmatch⟩ := mem_of_versions hgs hr
    obtain ⟨a, ha, hshown⟩ := mem_gridvalueV.1 hr
    obtain ⟨_, hvid, hver, hmax, _⟩ := shown_grid hshown
    obtain rfl := grid_eq ha hv (hvid.symm.trans hid)
    have hlt := version_lt_of_matches hl hmatch
    rw [hver, hmax, (newest_iff hgrid hv).1 hnew] at hlt
    exact lt_irrefl _ hlt
  · obtain ⟨hi, hg, hid⟩ := mem_floats.1 hx
    rw [hdel.items, List.mem_filter, decide_eq_true_eq]
    refine ⟨hi, ?_⟩
    rintro ⟨r, hr, hrid, href⟩
    obtain ⟨hr, hmatch⟩ := mem_of_versions hfs hr
    obtain ⟨j, hj, h, hh, hjh, hshown⟩ := mem_floatvalueV.1 hr
    obtain ⟨_, hjr, _, _, hvid, hver, hmax, _⟩ := shown_item hshown
    have hgh : x.2 = h := group_eq hg hh (by rw [← hid, hrid, hvid])
    have hij : x.1 = j := item_eq hi hj (by rw [hid, hgh, hjh]) (by rw [href, hjr])
    have hlt := version_lt_of_matches hl hmatch
    rw [hver, hmax, ← hgh, ← hij, (newest_iff hfloat hx).1 hnew] at hlt
    exact lt_irrefl _ hlt

variable (points) in
/-- Removing every version keeps the newest values only when nothing is shown. -/
theorem not_keepsNewest_of_all (hshown : browseDataVersions cat session db ≠ []) :
    ∃ r, remove cat session points {} db = some r ∧ ¬ KeepsNewest db r.1 := by
  obtain ⟨db', hdel, hremove⟩ := remove_eq points
    (show readGid cat session db {} .null = some _ from buildQuery_all)
    (show readFloatTable cat session db {} = some _ from buildQuery_all)
  refine ⟨_, hremove, fun hkeep => ?_⟩
  obtain ⟨n, hn⟩ := List.exists_mem_of_ne_nil _ hshown
  rcases List.mem_append.1 hn with hn | hn
  · -- a grid value is shown, and with it the newest of its key
    obtain ⟨v, hv, -⟩ := List.mem_map.1 hn
    obtain ⟨a, ha, hshown⟩ := mem_gridvalueV.1 hv
    obtain ⟨b, hb, hkey, hnew⟩ := exists_newest GridValue.toKey GridValue.dataversion ha
    have hkept := hkeep.1 b hb hnew
    rw [hdel.grids, List.mem_filter, decide_eq_true_eq] at hkept
    obtain ⟨w, hw⟩ := exists_shown_grid hshown hkey
    exact hkept.2 (List.mem_map.2 ⟨w, mem_gridvalueV.2 ⟨b, hb, hw⟩, (shown_grid hw).2.1⟩)
  · obtain ⟨v, hv, -⟩ := List.mem_map.1 hn
    obtain ⟨i, hi, g, hg, hid, hshown⟩ := mem_floatvalueV.1 hv
    have hx : (i, g) ∈ db.floats := mem_floats.2 ⟨hi, hg, hid⟩
    obtain ⟨y, hy, hkey, hnew⟩ := exists_newest floatKey (·.2.dataversion) hx
    obtain ⟨hj, hh, hjh⟩ := mem_floats.1 hy
    obtain ⟨hsame, href⟩ := floatKey_eq_iff.1 hkey
    have hkept := hkeep.2 y hy hnew
    rw [hdel.items, List.mem_filter, decide_eq_true_eq] at hkept
    obtain ⟨w, hw⟩ := exists_shown_item hshown hsame.1 href
    obtain ⟨_, hwr, _, _, hwid, _⟩ := shown_item hw
    exact hkept.2 ⟨w, mem_floatvalueV.2 ⟨y.1, hj, y.2, hh, hjh, hw⟩, hjh.trans hwid.symm,
      hwr.symm⟩

/-- On a database with correct greatest versions, the newest value of every key is still there after
    `clean_dataversions` exactly when a positive version is shown, or none above the least `int`: then
    nothing is done, or it raises. -/
theorem cleanDataversions_keeps_iff (cat : Catalog) (session : Session)
    (points : ValueV ℤ → Option (List ℚ)) (db : Db) (hgrid : db.GridMax) (hfloat : db.FloatMax) :
    KeepsNewest db (afterClean cat session points db) ↔ (∃ n ∈ browseDataVersions cat session db, 1 ≤ n) ∨
      ∀ n ∈ browseDataVersions cat session db, n ≤ -2 ^ 31 := by
  have hsame : KeepsNewest db db := ⟨fun v hv _ => hv, fun x hx _ => (mem_floats.1 hx).1⟩
  unfold afterClean cleanDataversions
  cases hmax : (browseDataVersions cat session db).max? with
  | none =>
    refine iff_of_true hsame (Or.inr fun n hn => ?_)
    rw [List.max?_eq_none_iff.1 hmax] at hn
    cases hn
  | some highest =>
    obtain ⟨hmem, hle⟩ := List.max?_eq_some_iff.1 hmax
    dsimp only
    rcases le_or_gt highest (-2 ^ 31) with hleast | hleast
    · rw [versionsLoop_least hleast]
      exact iff_of_true hsame (Or.inr fun n hn => (hle n hn).trans hleast)
    rcases le_or_gt highest 0 with hh | hh
    · -- the array stays `NULL`
      obtain ⟨r, hremove, hlost⟩ := not_keepsNewest_of_all points (List.ne_nil_of_mem hmem)
      rw [versionsLoop_none hleast hh, Option.bind_some, Option.elim_none, hremove]
      refine iff_of_false hlost ?_
      rintro (⟨n, hn, h1⟩ | h)
      · have := hle n hn
        omega
      · have := h highest hmem
        omega
    · refine iff_of_true ?_ (Or.inl ⟨highest, hmem, hh⟩)
      cases hloop : versionsLoop highest (-1) none with
      | none => exact hsame
      | some versions_to_delete =>
        obtain ⟨hall, hnull⟩ := of_versionsLoop hloop le_rfl nofun
        cases versions_to_delete with
        | none =>
          have := (hnull rfl).2
          omega
        | some l =>
          rw [Option.bind_some, Option.elim_some]
          cases hremove : remove cat session points { dataVersion := .value l } db with
          | none => exact hsame
          | some r => exact keepsNewest_of_versions hgrid hfloat (hall l rfl) hremove

end Keep

/-- The only version of a value is 0, and it is deleted. -/
theorem cleanDataversions_loses : oneFloat.GridMax ∧ oneFloat.FloatMax ∧
    ∃ db', cleanDataversions oneName oneSession (fun _ => none) oneFloat = some db' ∧
      ¬ KeepsNewest oneFloat db' := by
  have hbrowse : browseDataVersions oneName oneSession oneFloat = [0] := by decide
  obtain ⟨r, hremove, hlost⟩ := not_keepsNewest_of_all (fun _ => none)
    (show browseDataVersions oneName oneSession oneFloat ≠ [] by decide)
  refine ⟨by decide, by decide, r.1, ?_, hlost⟩
  unfold cleanDataversions
  rw [hbrowse, List.max?_singleton]
  dsimp only
  rw [versionsLoop_none (by decide) le_rfl, Option.bind_some, Option.elim_none, hremove, Option.map_some]

/-- Versions 0 and 1 of one grid value. -/
def twoGrids : Db where
  gridvalue := ⟨[⟨⟨⟨1, 1, 0, 1, 1, 0, 0, 0⟩, 0, 0, 0⟩, 1, 0, 1, 0, 1, 0⟩,
    ⟨⟨⟨1, 1, 0, 1, 1, 0, 0, 0⟩, 0, 0, 0⟩, 2, 1, 1, 0, 2, 0⟩], by decide⟩
  gridvalueSeq := 3
  floatvaluegroup := .empty
  floatvaluegroupSeq := 1
  floatvalueitem := .empty
  valueid_drawn := by decide
  valuegroupid_drawn := Db.empty.valuegroupid_drawn
  valuegroupid_refers := Db.empty.valuegroupid_refers

/-- Of versions 0 and 1 the newest is kept. -/
theorem cleanDataversions_keeps_two :
    KeepsNewest twoGrids (afterClean oneName oneSession (fun _ => none) twoGrids) :=
  (cleanDataversions_keeps_iff oneName oneSession (fun _ => none) twoGrids (by decide) (by decide)).2
    (Or.inl ⟨1, by decide, le_rfl⟩)

end Wdb.Store
