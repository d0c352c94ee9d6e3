import Wdb.Lib.Runs
import Wdb.Store.Remove
import Wdb.Store.Write

/-! `maxdataversion` of grid values over whole runs of writes and removals.

    A grid write sets the maximum of its key to the version it writes, so that the maxima stay right
    exactly when no higher version of the key is stored. A removal leaves the maxima alone, so that they
    stay right exactly when a key loses its newest row only with all its rows. A read counts from a maximum
    in `integer`s, which the greatest one does not bear. -/

namespace Wdb.Store
open Relational Versioned Runs

/-- A call that changes grid values. `floats` is what the second statement of a removal deletes,
    `none` when it raises. -/
inductive GridCall where
  | write (k : Key) (dataversion confidencecode dataId now : ℤ)
  | remove (session : Session) (p : ReadParameters) (location : Arg Location)
      (floats : Option (FloatValueItem → Bool))

/-- The tables after a call. A call that raises changes nothing but the sequence of the ids. -/
def gridStep (cat : Catalog) (db : Db) : GridCall → Db
  | .write k dataversion confidencecode dataId now =>
    (writeGrid cat db k dataversion confidencecode dataId now).getD (failedGrid db)
  | .remove session p location floats =>
    ((removeGrids cat session p location db).bind fun (db₁, _) =>
      floats.map fun q => (deleteItems db₁ q).1).getD db

/-- The condition on a call: a write has no higher version of its key before it, unless it is refused;
    a removal takes the newest grid value of a key only with all of the key, unless it raises. -/
def GridSafe (cat : Catalog) (db : Db) : GridCall → Prop
  | .write k dataversion confidencecode _ _ =>
    GridRefused cat db k dataversion confidencecode ∨
      ∀ v ∈ db.gridvalue.rows, v.toKey = k → v.dataversion ≤ dataversion
  | .remove session p location floats =>
    floats = none ∨ ∀ gs ∈ readGid cat session db p location, ∀ a ∈ db.gridvalue.rows,
      Newest GridValue.toKey GridValue.dataversion db.gridvalue.rows a →
      a.valueid ∈ gs.map (·.valueid) → ∀ b ∈ db.gridvalue.rows, b.toKey = a.toKey →
        b.valueid ∈ gs.map (·.valueid)

/-- The condition on a call for the reads: a write that is not refused stores a maximum that version -1 can
    be counted from, or a row that no session has names for. -/
def GridReadable (cat : Catalog) (db : Db) : GridCall → Prop
  | .write k dataversion confidencecode _ _ =>
    GridRefused cat db k dataversion confidencecode ∨ cat.Unnamed k.toSeries k.referencetime ∨
      Readable dataversion
  | .remove .. => True

/-- Version -1 can be counted from every maximum that a session sees. -/
def Db.GridReadable (cat : Catalog) (db : Db) : Prop :=
  ∀ a ∈ db.gridvalue.rows, cat.Unnamed a.toSeries a.referencetime ∨ Readable a.maxdataversion

/-- A read with data version -1 returns the newest grid value of every key, once for each of its
    names, and nothing else. -/
def ReadsNewest (cat : Catalog) (db : Db) : Prop :=
  ∀ session, readGid cat session db { dataVersion := .value [-1] } .null =
    some ((db.gridvalue.rows.filter fun a =>
      Newest GridValue.toKey GridValue.dataversion db.gridvalue.rows a).flatMap
        (GridValue.shown cat session))

section Steps
variable (cat : Catalog) {db : Db}

/-- One write. -/
theorem write_gridMax_iff (k : Key) (dataversion confidencecode dataId now : ℤ) (h : db.GridMax) :
    (gridStep cat db (.write k dataversion confidencecode dataId now)).GridMax ↔
      GridSafe cat db (.write k dataversion confidencecode dataId now) := by
  rw [gridStep, GridSafe]
  rcases writeGrid_cases cat db k dataversion confidencecode dataId now with
    ⟨href, hnone⟩ | ⟨hok, db', hsome, hrows⟩
  · rw [hnone, Option.getD_none]
    exact iff_of_true h (Or.inl href)
  · rw [hsome, Option.getD_some, or_iff_right hok]
    unfold Db.GridMax
    rw [hrows, setGridMax_rows]
    rw [maxCorrect_write (k := k) ?_ ?_ ?_ rfl rfl h]
    · exact ⟨fun h => h.2.2, fun h => ⟨Or.inl rfl, le_rfl, h⟩⟩
    all_goals
      intro a
      split <;> rfl

/-- Two grid values of one key and version are one value. -/
theorem grid_eq_of_version {a b : GridValue} (ha : a ∈ db.gridvalue.rows)
    (hb : b ∈ db.gridvalue.rows) (hkey : a.toKey = b.toKey) (hver : a.dataversion = b.dataversion) :
    a = b :=
  db.gridvalue.eq_of_clash GridValue.clash_symm ha hb (Or.inr ⟨hkey, hver⟩)

/-- One removal. -/
theorem remove_gridMax_iff (session : Session) (p : ReadParameters) (location : Arg Location)
    (floats : Option (FloatValueItem → Bool)) (h : db.GridMax) :
    (gridStep cat db (.remove session p location floats)).GridMax ↔
      GridSafe cat db (.remove session p location floats) := by
  rw [gridStep, GridSafe]
  cases hgs : readGid cat session db p location with
  | none =>
    unfold removeGrids
    rw [hgs]
    exact iff_of_true h (Or.inr fun gs hgs => nomatch hgs)
  | some gs =>
    cases floats with
    | none =>
      unfold removeGrids
      rw [hgs]
      exact iff_of_true h (Or.inl rfl)
    | some q =>
      have hrows : ((removeGrids cat session p location db).bind fun (db₁, _) =>
          (some q).map fun q => (deleteItems db₁ q).1).getD db =
            (deleteItems (deleteGrids db fun v => v.valueid ∈ gs.map (·.valueid)).1 q).1 := by
        unfold removeGrids
        rw [hgs]
        rfl
      rw [hrows]
      unfold Db.GridMax
      rw [or_iff_right (by simp)]
      change MaxCorrect _ _ _ (db.gridvalue.rows.filter
        fun a => !decide (a.valueid ∈ gs.map (·.valueid))) ↔ _
      rw [maxCorrect_filter (fun a ha b hb => grid_eq_of_version ha hb) _ h]
      simp only [Option.mem_some_iff, forall_eq', Bool.not_eq_false', decide_eq_true_eq]

/-- What a removal leaves was there. -/
theorem mem_of_gridStep_remove {session : Session} {p : ReadParameters} {location : Arg Location}
    {floats : Option (FloatValueItem → Bool)} {a : GridValue}
    (h : a ∈ (gridStep cat db (.remove session p location floats)).gridvalue.rows) :
    a ∈ db.gridvalue.rows := by
  rw [gridStep, removeGrids] at h
  cases hgs : readGid cat session db p location with
  | none =>
    rw [hgs] at h
    exact h
  | some gs =>
    rw [hgs] at h
    cases floats with
    | none => exact h
    | some q => exact (List.mem_filter.1 h).1

/-- A removal without a location is the call whose second statement deletes what `readFloat` returns. -/
theorem gridStep_remove {session : Session} {points : ValueV ℤ → Option (List ℚ)}
    {p : ReadParameters} {db₁ : Db} {n : ℤ}
    (h : removeGrids cat session p .null db = some (db₁, n)) :
    gridStep cat db (.remove session p .null ((readFloat cat session points p db₁).map fun q v =>
        q.any fun r => v.valuegroupid = r.valueid ∧ v.referencetime = r.referencetime)) =
      ((remove cat session points p db).map Prod.fst).getD db := by
  rw [gridStep, remove, h, Option.bind_some, Option.bind_some]
  simp only
  cases readFloat cat session points p db₁ <;> rfl

/-- A call keeps the maxima right exactly when it is safe. -/
theorem gridStep_iff (call : GridCall) (h : db.GridMax) :
    (gridStep cat db call).GridMax ↔ GridSafe cat db call := by
  cases call with
  | write k dataversion confidencecode dataId now =>
    exact write_gridMax_iff cat k dataversion confidencecode dataId now h
  | remove session p location floats => exact remove_gridMax_iff cat session p location floats h

/-- With right maxima, version -1 means the newest wherever it can be counted. -/
theorem readsNewest_iff (h : db.GridMax) : ReadsNewest cat db ↔ db.GridReadable cat := by
  have hread : ∀ session, (readGid cat session db { dataVersion := .value [-1] } .null =
      some ((db.gridvalue.rows.filter fun a =>
        Newest GridValue.toKey GridValue.dataversion db.gridvalue.rows a).flatMap
          (GridValue.shown cat session)) ↔
      ∀ a ∈ db.gridvalue.rows, ∀ v ∈ a.shown cat session, Readable v.maxdataversion) := by
    intro session
    refine buildQuery_newest fun a ha v hv => ?_
    obtain ⟨_, _, hver, hmax, _⟩ := shown_grid hv
    rw [hver, hmax, decide_eq_decide, newest_iff h ha]
  rw [ReadsNewest, forall_congr' hread, Db.GridReadable]
  simp only [← forall_shown_grid (P := Readable)]
  exact ⟨fun hall a ha session => hall session a ha, fun hall session a ha => hall a ha session⟩

/-- A call keeps the maxima countable exactly when a write stores one that is. -/
theorem gridReadable_step (call : GridCall) (h : db.GridReadable cat) :
    (gridStep cat db call).GridReadable cat ↔ GridReadable cat db call := by
  cases call with
  | write k dataversion confidencecode dataId now =>
    rw [gridStep, GridReadable]
    rcases writeGrid_cases cat db k dataversion confidencecode dataId now with
      ⟨href, hnone⟩ | ⟨hok, db', hsome, hrows⟩
    · rw [hnone, Option.getD_none]
      exact iff_of_true h (Or.inl href)
    · rw [hsome, Option.getD_some, or_iff_right hok, Db.GridReadable, hrows]
      constructor
      · intro hall
        exact hall (newGrid db k dataversion confidencecode dataId now) (by simp)
      · intro hnew a ha
        rcases List.mem_append.1 ha with ha | ha
        · obtain ⟨b, hb, rfl⟩ := mem_setGridMax.1 ha
          split
          · next hkey =>
            rw [← hkey] at hnew
            exact hnew
          · exact h b hb
        · rw [List.mem_singleton.1 ha]
          exact hnew
  | remove session p location floats =>
    refine iff_of_true (fun a ha => h a ?_) trivial
    exact mem_of_gridStep_remove cat ha

/-- A call keeps the reads right, with the maxima, exactly when it is safe and what it stores can be read. -/
theorem gridStep_reads_iff (call : GridCall) (h : db.GridMax ∧ ReadsNewest cat db) :
    ((gridStep cat db call).GridMax ∧ ReadsNewest cat (gridStep cat db call)) ↔
      GridSafe cat db call ∧ GridReadable cat db call := by
  have hread := (readsNewest_iff cat h.1).1 h.2
  rw [← gridStep_iff cat call h.1, ← gridReadable_step cat call hread]
  exact and_congr_right fun hmax => readsNewest_iff cat hmax

end Steps

/-- Version 0 of a grid value written after version 1. -/
def lateGrids : List GridCall :=
  let k : Key := ⟨⟨1, 1, 0, 1, 1, 0, 0, 0⟩, 0, 0, 0⟩
  [.write k 1 0 1 0, .write k 0 0 2 0]

end Wdb.Store
