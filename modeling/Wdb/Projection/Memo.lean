import Wdb.Projection.GridGeometry

/-! `GridGeometry` objects, which keep their corners and their text once they are computed.

    A change of the fields does not forget what has been kept, and an assignment leaves `srid_` as it is.
    The objects are compared with fields alone: operations that change the fields as they should, and
    objects that are constructed from them. -/

namespace Wdb.Projection
open MachineInt

/-- An object; `corners_` and `geometry_` are what it has kept. -/
structure GridGeometry extends Fields where
  geometry_ : String
  corners_ : List (Corner × Located)
  deriving DecidableEq

/-- An object that has just been constructed. -/
def fresh (f : Fields) : GridGeometry := ⟨f, "", []⟩

namespace GridGeometry
variable (pj : Proj)

/-- `point`: the result, and the object after it. -/
def point (g : GridGeometry) (c : Corner) : Except String Located × GridGeometry :=
  match g.corners_.lookup c with
  | some lonlat => (.ok lonlat, g)
  | none =>
    match g.cornerPoint pj c with
    | .error e => (.error e, g)
    | .ok lonlat => (.ok lonlat, { g with corners_ := (c, lonlat) :: g.corners_ })

/-- Several points, until one fails. -/
def points (g : GridGeometry) : List Corner → Except String (List Located) × GridGeometry
  | [] => (.ok [], g)
  | c :: cs =>
    match g.point pj c with
    | (.error e, g) => (.error e, g)
    | (.ok p, g) =>
      match points g cs with
      | (.error e, g) => (.error e, g)
      | (.ok ps, g) => (.ok (p :: ps), g)

def wktRepresentation (g : GridGeometry) : Except String String × GridGeometry :=
  if g.geometry_ = "" then
    match g.points pj outlineCorners with
    | (.error e, g) => (.error e, g)
    | (.ok ps, g) => (.ok (showRing ps), { g with geometry_ := showRing ps })
  else (.ok g.geometry_, g)

def setOrientation (g : GridGeometry) (o : Orientation) : GridGeometry :=
  { g with toFields := g.toFields.setOrientation o }

/-- `operator=` with another object. -/
def assign (g cpy : GridGeometry) : GridGeometry :=
  { g with toFields := { cpy.toFields with srid_ := g.srid_ } }

/-- The copy constructor: an assignment to an object without values. -/
def copy (cpy : GridGeometry) : GridGeometry :=
  assign ⟨⟨0, 0, 0, 0, 0, 0, none, "", .leftUpperHorizontal⟩, "", []⟩ cpy

end GridGeometry

/-! ### Operations -/

inductive Operation where
  | point (i : ℕ) (c : Corner)
  | wktRepresentation (i : ℕ)
  | setOrientation (i : ℕ) (o : Orientation)
  | copy (i : ℕ)
  | assign (i j : ℕ)
  deriving DecidableEq

section Step
variable (pj : Proj)

/-- The objects after an operation. An object that is assigned to itself copies from memory that it has
    freed. -/
def step (objects : List GridGeometry) : Operation → Option (List GridGeometry)
  | .point i c => objects[i]?.map fun g => objects.set i (g.point pj c).2
  | .wktRepresentation i => objects[i]?.map fun g => objects.set i (g.wktRepresentation pj).2
  | .setOrientation i o => objects[i]?.map fun g => objects.set i (g.setOrientation o)
  | .copy i => objects[i]?.map fun g => objects ++ [g.copy]
  | .assign i j =>
    if i = j then none
    else objects[i]?.bind fun g => objects[j]?.map fun cpy => objects.set i (g.assign cpy)

/-- What the operation means for the fields. -/
def intended (fields : List Fields) : Operation → Option (List Fields)
  | .point i _ => fields[i]?.map fun _ => fields
  | .wktRepresentation i => fields[i]?.map fun _ => fields
  | .setOrientation i o => fields[i]?.map fun f => fields.set i (f.setOrientation o)
  | .copy i => fields[i]?.map fun f => fields ++ [f]
  | .assign i j => fields[i]?.bind fun _ => fields[j]?.map fun f => fields.set i f

def run (objects : List GridGeometry) (ops : List Operation) : Option (List GridGeometry) :=
  ops.foldlM (step pj) objects

def intendedRun (fields : List Fields) (ops : List Operation) : Option (List Fields) :=
  ops.foldlM intended fields

/-- An object has given fields, and shows what a new object with these fields shows. -/
structure Faithful (g : GridGeometry) (f : Fields) : Prop where
  fields : g.toFields = f
  point : ∀ c, (g.point pj c).1 = ((fresh f).point pj c).1
  wktRepresentation : (g.wktRepresentation pj).1 = ((fresh f).wktRepresentation pj).1

/-- After the operations every object is faithful to the fields that it is meant to have. -/
def FaithfulAfter (fields : List Fields) (ops : List Operation) : Prop :=
  ∃ objects fields', run pj (fields.map fresh) ops = some objects ∧
    intendedRun fields ops = some fields' ∧ List.Forall₂ (Faithful pj) objects fields'

/-! ### What has been kept -/

/-- What an object has kept is what it would compute. -/
structure Sound (g : GridGeometry) (f : Fields) : Prop where
  fields : g.toFields = f
  corners : ∀ c p, g.corners_.lookup c = some p → f.cornerPoint pj c = .ok p
  geometry : g.geometry_ ≠ "" → f.outline pj = .ok g.geometry_

end Step

section Kept
variable {pj : Proj} {g : GridGeometry} {f : Fields}

theorem sound_fresh (f : Fields) : Sound pj (fresh f) f :=
  ⟨rfl, fun _ _ h => absurd h (by simp [fresh]), fun h => absurd rfl h⟩

theorem Sound.point (h : Sound pj g f) (c : Corner) :
    (g.point pj c).1 = f.cornerPoint pj c ∧ Sound pj (g.point pj c).2 f := by
  obtain rfl := h.fields
  unfold GridGeometry.point
  cases hlookup : g.corners_.lookup c with
  | some p => exact ⟨(h.corners c p hlookup).symm, h⟩
  | none =>
    cases hpoint : g.cornerPoint pj c with
    | error e => exact ⟨rfl, h⟩
    | ok p =>
      refine ⟨rfl, rfl, fun c' p' hp' => ?_, h.geometry⟩
      change List.lookup c' ((c, p) :: g.corners_) = some p' at hp'
      rw [List.lookup_cons] at hp'
      split at hp'
      · next heq =>
        obtain rfl := Option.some.inj hp'
        rw [eq_of_beq heq, hpoint]
      · exact h.corners c' p' hp'

theorem Sound.points (h : Sound pj g f) (cs : List Corner) :
    (g.points pj cs).1 = cs.mapM (f.cornerPoint pj) ∧ Sound pj (g.points pj cs).2 f := by
  induction cs generalizing g with
  | nil => exact ⟨rfl, h⟩
  | cons c cs ih =>
    obtain ⟨hpoint, hkept⟩ := h.point c
    rw [GridGeometry.points, List.mapM_cons, ← hpoint]
    generalize g.point pj c = x at hkept ⊢
    obtain ⟨_ | p, g'⟩ := x
    · exact ⟨rfl, hkept⟩
    · obtain ⟨hpoints, hkept'⟩ := ih hkept
      simp only [← hpoints]
      generalize g'.points pj cs = x at hkept' ⊢
      obtain ⟨_ | ps, g''⟩ := x
      · exact ⟨rfl, hkept'⟩
      · exact ⟨rfl, hkept'⟩

theorem Sound.wktRepresentation (h : Sound pj g f) :
    (g.wktRepresentation pj).1 = f.outline pj ∧ Sound pj (g.wktRepresentation pj).2 f := by
  unfold GridGeometry.wktRepresentation
  split
  · obtain ⟨hpoints, hkept⟩ := h.points outlineCorners
    rw [Fields.outline, ← hpoints]
    have houtline : ∀ ps, (g.points pj outlineCorners).1 = .ok ps → f.outline pj = .ok (showRing ps) := by
      intro ps hps
      rw [Fields.outline, ← hpoints, hps]
      rfl
    generalize g.points pj outlineCorners = x at hkept houtline ⊢
    obtain ⟨_ | ps, g'⟩ := x
    · exact ⟨rfl, hkept⟩
    · exact ⟨rfl, hkept.fields, hkept.corners, fun _ => houtline ps rfl⟩
  · next hne => exact ⟨(h.geometry hne).symm, h⟩

/-- What an object has kept does not show. -/
theorem Sound.faithful (h : Sound pj g f) : Faithful pj g f :=
  ⟨h.fields, fun c => (h.point c).1.trans ((sound_fresh f).point c).1.symm,
    h.wktRepresentation.1.trans (sound_fresh f).wktRepresentation.1.symm⟩

/-- Nothing has been kept. -/
def GridGeometry.Unkept (g : GridGeometry) : Prop := g.geometry_ = "" ∧ g.corners_ = []

theorem sound_of_unkept (h : g.Unkept) (hfields : g.toFields = f) : Sound pj g f := by
  refine ⟨hfields, fun c p hp => ?_, fun hne => absurd h.1 hne⟩
  rw [h.2] at hp
  cases hp

/-- The corners have the same locations. -/
theorem Sound.of_cornerPoint (h : Sound pj g f) {g' : GridGeometry} {f' : Fields}
    (hfields : g'.toFields = f') (hgeometry : g'.geometry_ = g.geometry_)
    (hcorners : g'.corners_ = g.corners_) (hsame : ∀ c, f'.cornerPoint pj c = f.cornerPoint pj c) :
    Sound pj g' f' := by
  have houtline : f'.outline pj = f.outline pj := by
    rw [Fields.outline, Fields.outline, funext hsame]
  refine ⟨hfields, fun c p hp => ?_, fun hne => ?_⟩
  · rw [hcorners] at hp
    rw [hsame, h.corners c p hp]
  · rw [hgeometry] at hne ⊢
    rw [houtline, h.geometry hne]

end Kept

/-! ### Changes that the corners do not see -/

section Corners
variable {pj : Proj} {f : Fields}

theorem cornerPoint_orientation (f : Fields) (o : Orientation) (c : Corner) :
    Fields.cornerPoint pj { f with orientation_ := o } c = f.cornerPoint pj c := by
  cases c <;> rfl

theorem last_row (h : f.yNumber_ = 1) : (f.yNumber_ - 1).toNat = 0 := by
  rw [h]
  rfl

/-- With one row all corners are in it. -/
theorem yFromIndex_getIndex (h : f.yNumber_ = 1) (c : Corner) :
    yFromIndex (ofUnsigned (f.getIndex c)) f.place = 0 := by
  have hzero : unsigned 0 = 0 := rfl
  have hrow : ofUnsigned (f.yNumber_ - 1).toNat = 0 := by rw [last_row h, ofUnsigned_eq] <;> simp
  have hlast : ((f.xNumber_ - 1).toNat : ℤ) / f.xNumber_.toNat = 0 := by
    by_cases hx : f.xNumber_.toNat = 0
    · rw [hx, Nat.cast_zero, Int.ediv_zero]
    · rw [toNat_sub_one (by omega)]
      exact Int.ediv_eq_zero_of_lt (by omega) (by omega)
  have hfits : unsigned (f.xNumber_ - 1).toNat = (f.xNumber_ - 1).toNat :=
    unsigned_eq (by omega) (by have := (f.xNumber_ - 1).toNat_lt; omega)
  have hfirst : yFromIndex (ofUnsigned (size (indexFromXy 0 0 f.place))) f.place = 0 := by
    simp only [yFromIndex, indexFromXy, unsigned_ofUnsigned, unsigned_size, hzero, zero_mul,
      add_zero, Int.zero_ediv]
    rfl
  have hend : yFromIndex (ofUnsigned (size (indexFromXy (ofUnsigned (f.xNumber_ - 1).toNat) 0 f.place)))
      f.place = 0 := by
    simp only [yFromIndex, indexFromXy, unsigned_ofUnsigned, unsigned_size, hzero, zero_mul,
      zero_add, hfits, Fields.place, hlast]
    rfl
  cases c with
  | upperLeft => rw [Fields.getIndex, hrow, hfirst]
  | upperRight => rw [Fields.getIndex, hrow, hend]
  | lowerLeft => rw [Fields.getIndex, hfirst]
  | lowerRight => rw [Fields.getIndex, hend]

/-- Two grids with the same numbers have the same indices. -/
theorem cornerPoint_eq {f' : Fields} (hx : f'.xNumber_ = f.xNumber_) (hy : f'.yNumber_ = f.yNumber_)
    (c : Corner) : f'.cornerPoint pj c = f'.lonLatFromIndex pj
      (size (xFromIndex (ofUnsigned (f.getIndex c)) f.place))
      (size (yFromIndex (ofUnsigned (f.getIndex c)) f.place)) := by
  have hindex : f'.getIndex c = f.getIndex c := by
    cases c <;> simp [Fields.getIndex, indexFromXy, Fields.place, hx, hy]
  simp only [Fields.cornerPoint, hindex, xFromIndex, yFromIndex, Fields.place, hx]

/-- A change of the orientation moves no corner when the rows are one, or all at one place. -/
theorem cornerPoint_setOrientation (h : f.yIncrement_ = 0 ∨ f.yNumber_ = 1) (o : Orientation) (c : Corner) :
    (f.setOrientation o).cornerPoint pj c = f.cornerPoint pj c := by
  obtain ⟨hxNumber, hyNumber⟩ := numbers_setOrientation f o
  rw [cornerPoint_eq hxNumber hyNumber, @cornerPoint_eq pj f f rfl rfl]
  have hnode : ∀ x : ℤ, (f.setOrientation o).node x ↑(size (yFromIndex (ofUnsigned (f.getIndex c)) f.place)) =
      f.node x ↑(size (yFromIndex (ofUnsigned (f.getIndex c)) f.place)) := by
    intro x
    unfold Fields.setOrientation
    split
    · rfl
    rcases h with h | h
    · simp [Fields.node, h]
    · have hsize : size 0 = 0 := rfl
      simp [Fields.node, last_row h, yFromIndex_getIndex h c, hsize]
  have hprojection : (f.setOrientation o).projDefinition_ = f.projDefinition_ := by
    unfold Fields.setOrientation
    split <;> rfl
  simp only [Fields.lonLatFromIndex, Fields.project_, Fields.unprojectedLonLat_, hnode, hprojection]

end Corners

/-! ### Runs -/

/-- The state before an operation is one in which it does no harm. -/
def Careful (objects : List GridGeometry) : Operation → Prop
  | .point i _ => i < objects.length
  | .wktRepresentation i => i < objects.length
  | .setOrientation i o => ∃ g, objects[i]? = some g ∧
      (o = g.orientation_ ∨ g.Unkept ∨ g.yIncrement_ = 0 ∨ g.yNumber_ = 1)
  | .copy i => ∃ g, objects[i]? = some g ∧ g.srid_ = none
  | .assign i j => i ≠ j ∧ ∃ g cpy, objects[i]? = some g ∧ objects[j]? = some cpy ∧ g.srid_ = cpy.srid_ ∧
      (g.Unkept ∨ { g.toFields with orientation_ := cpy.orientation_ } = cpy.toFields)

section Runs
variable {pj : Proj} {objects : List GridGeometry} {fields : List Fields}

theorem forall₂_getElem? {i : ℕ} {g : GridGeometry} (h : List.Forall₂ (Sound pj) objects fields)
    (hg : objects[i]? = some g) : ∃ f, fields[i]? = some f ∧ Sound pj g f := by
  induction h generalizing i with
  | nil => cases hg
  | cons hab _ ih =>
    cases i with
    | zero =>
      obtain rfl := Option.some.inj hg
      exact ⟨_, rfl, hab⟩
    | succ i => exact ih hg

theorem forall₂_set {g : GridGeometry} {f : Fields} (h : List.Forall₂ (Sound pj) objects fields)
    (hgf : Sound pj g f) (i : ℕ) : List.Forall₂ (Sound pj) (objects.set i g) (fields.set i f) := by
  induction h generalizing i with
  | nil => exact List.Forall₂.nil
  | cons hab htail ih =>
    cases i with
    | zero => exact List.Forall₂.cons hgf htail
    | succ i => exact List.Forall₂.cons hab (ih i)

/-- The fields themselves are set to what they are. -/
theorem set_getElem? {i : ℕ} {f : Fields} (h : fields[i]? = some f) : fields.set i f = fields := by
  obtain ⟨hi, rfl⟩ := List.getElem?_eq_some_iff.1 h
  exact List.set_getElem_self hi

/-- A careful step keeps the objects sound. -/
theorem sound_step {op : Operation} (h : List.Forall₂ (Sound pj) objects fields)
    (hcareful : Careful objects op) : ∃ objects' fields', step pj objects op = some objects' ∧
      intended fields op = some fields' ∧ List.Forall₂ (Sound pj) objects' fields' := by
  cases op with
  | point i c =>
    obtain ⟨g, hg⟩ : ∃ g, objects[i]? = some g := ⟨_, List.getElem?_eq_getElem hcareful⟩
    obtain ⟨f, hf, hsound⟩ := forall₂_getElem? h hg
    have hset := forall₂_set h (hsound.point c).2 i
    rw [set_getElem? hf] at hset
    exact ⟨_, fields, by rw [step, hg, Option.map_some], by rw [intended, hf, Option.map_some], hset⟩
  | wktRepresentation i =>
    obtain ⟨g, hg⟩ : ∃ g, objects[i]? = some g := ⟨_, List.getElem?_eq_getElem hcareful⟩
    obtain ⟨f, hf, hsound⟩ := forall₂_getElem? h hg
    have hset := forall₂_set h hsound.wktRepresentation.2 i
    rw [set_getElem? hf] at hset
    exact ⟨_, fields, by rw [step, hg, Option.map_some], by rw [intended, hf, Option.map_some], hset⟩
  | setOrientation i o =>
    obtain ⟨g, hg, hharmless⟩ := hcareful
    obtain ⟨f, hf, hsound⟩ := forall₂_getElem? h hg
    refine ⟨_, _, by rw [step, hg, Option.map_some], by rw [intended, hf, Option.map_some],
      forall₂_set h ?_ i⟩
    obtain rfl := hsound.fields
    rcases hharmless with ho | hunkept | hplace
    · have hsame : g.toFields.setOrientation o = g.toFields := if_pos ho
      exact hsound.of_cornerPoint rfl rfl rfl fun c => by rw [hsame]
    · exact sound_of_unkept hunkept rfl
    · exact hsound.of_cornerPoint rfl rfl rfl (cornerPoint_setOrientation hplace o)
  | copy i =>
    obtain ⟨g, hg, hsrid⟩ := hcareful
    obtain ⟨f, hf, hsound⟩ := forall₂_getElem? h hg
    refine ⟨_, _, by rw [step, hg, Option.map_some], by rw [intended, hf, Option.map_some],
      List.rel_append h (List.Forall₂.cons (sound_of_unkept ⟨rfl, rfl⟩ ?_) List.Forall₂.nil)⟩
    obtain rfl := hsound.fields
    change { g.toFields with srid_ := none } = g.toFields
    rw [← hsrid]
  | assign i j =>
    obtain ⟨hne, g, cpy, hg, hcpy, hsrid, hharmless⟩ := hcareful
    obtain ⟨f, hf, hsound⟩ := forall₂_getElem? h hg
    obtain ⟨f', hf', hsound'⟩ := forall₂_getElem? h hcpy
    refine ⟨_, _, by rw [step, if_neg hne, hg, Option.bind_some, hcpy, Option.map_some],
      by rw [intended, hf, Option.bind_some, hf', Option.map_some], forall₂_set h ?_ i⟩
    obtain rfl := hsound.fields
    obtain rfl := hsound'.fields
    have hfields : (g.assign cpy).toFields = cpy.toFields := by
      change { cpy.toFields with srid_ := g.srid_ } = cpy.toFields
      rw [hsrid]
    rcases hharmless with hunkept | hsame
    · exact sound_of_unkept hunkept hfields
    · exact hsound.of_cornerPoint hfields rfl rfl fun c => by
        rw [← hsame, cornerPoint_orientation]

/-- Every step of a run is careful. -/
def CarefulRun (pj : Proj) (objects : List GridGeometry) : List Operation → Prop
  | [] => True
  | op :: ops => Careful objects op ∧ ∀ objects', step pj objects op = some objects' →
      CarefulRun pj objects' ops

theorem sound_run {ops : List Operation} (h : List.Forall₂ (Sound pj) objects fields)
    (hcareful : CarefulRun pj objects ops) : ∃ objects' fields', run pj objects ops = some objects' ∧
      intendedRun fields ops = some fields' ∧ List.Forall₂ (Sound pj) objects' fields' := by
  induction ops generalizing objects fields with
  | nil => exact ⟨objects, fields, rfl, rfl, h⟩
  | cons op ops ih =>
    obtain ⟨objects₁, fields₁, hstep, hintended, hsound⟩ := sound_step h hcareful.1
    obtain ⟨objects', fields', hrun, hintendedRun, hsound'⟩ := ih hsound (hcareful.2 objects₁ hstep)
    refine ⟨objects', fields', ?_, ?_, hsound'⟩
    · rw [run, List.foldlM_cons, hstep]
      exact hrun
    · rw [intendedRun, List.foldlM_cons, hintended]
      exact hintendedRun

theorem CarefulRun.take {ops : List Operation} (h : CarefulRun pj objects ops) (k : ℕ) :
    CarefulRun pj objects (ops.take k) := by
  induction ops generalizing objects k with
  | nil => rwa [List.take_nil]
  | cons op ops ih =>
    cases k with
    | zero => trivial
    | succ k => exact ⟨h.1, fun objects' hstep => ih (h.2 objects' hstep) k⟩

/-- In every run whose steps are careful, every object shows in every state what a new object with the
    fields that it is meant to have shows: no object is assigned to itself, `srid_` is the same on both sides of
    an assignment and has never been set where an object is copied, and fields are changed only while
    nothing has been kept, or where the corners do not see it. -/
theorem faithfulAfter_of_careful (pj : Proj) (fields : List Fields) (ops : List Operation)
    (h : CarefulRun pj (fields.map fresh) ops) (k : ℕ) : FaithfulAfter pj fields (ops.take k) := by
  have hfresh : List.Forall₂ (Sound pj) (fields.map fresh) fields := by
    rw [List.forall₂_map_left_iff]
    exact List.forall₂_same.2 fun f _ => sound_fresh f
  obtain ⟨objects, fields', hrun, hintended, hsound⟩ := sound_run hfresh (h.take k)
  exact ⟨objects, fields', hrun, hintended, hsound.imp fun _ _ hgf => hgf.faithful⟩

/-- A change of the orientation before anything is asked for. -/
theorem faithfulAfter_setOrientation : FaithfulAfter Proj.longlat
    [⟨10, 60, 1, 2, 1, 1, some 4030, "+proj=longlat +ellps=WGS84", .leftLowerHorizontal⟩]
    [.setOrientation 0 .leftUpperHorizontal, .point 0 .lowerLeft] :=
  faithfulAfter_of_careful Proj.longlat
    [⟨10, 60, 1, 2, 1, 1, some 4030, "+proj=longlat +ellps=WGS84", .leftLowerHorizontal⟩]
    [.setOrientation 0 .leftUpperHorizontal, .point 0 .lowerLeft]
    ⟨⟨_, rfl, Or.inr (Or.inl ⟨rfl, rfl⟩)⟩, fun objects' hstep => by
      obtain rfl := Option.some.inj hstep
      exact ⟨Nat.zero_lt_one, fun _ _ => trivial⟩⟩ 2

/-- A corner that was asked for before the change stays where it was, a copy has no `srid_`, and an object
    that is assigned to itself reads its text after it is freed. -/
theorem not_faithfulAfter :
    ¬ FaithfulAfter Proj.longlat
        [⟨10, 60, 1, 2, 1, 1, some 4030, "+proj=longlat +ellps=WGS84", .leftLowerHorizontal⟩]
        [.point 0 .lowerLeft, .setOrientation 0 .leftUpperHorizontal] ∧
      ¬ FaithfulAfter Proj.longlat
        [⟨10, 60, 1, 2, 1, 1, some 4030, "+proj=longlat +ellps=WGS84", .leftLowerHorizontal⟩] [.copy 0] ∧
      ¬ FaithfulAfter Proj.longlat
        [⟨10, 60, 1, 2, 1, 1, some 4030, "+proj=longlat +ellps=WGS84", .leftLowerHorizontal⟩]
        [.assign 0 0] := by
  refine ⟨?_, ?_, ?_⟩
  · rintro ⟨objects, fields', hrun, hintended, hfaithful⟩
    obtain rfl := Option.some.inj hrun
    obtain rfl := Option.some.inj hintended
    have hpoint := (List.forall₂_cons.1 hfaithful).1.point .lowerLeft
    exact absurd hpoint (by decide +kernel)
  · rintro ⟨objects, fields', hrun, hintended, hfaithful⟩
    obtain rfl := Option.some.inj hrun
    obtain rfl := Option.some.inj hintended
    have hfields := (List.forall₂_cons.1 (List.forall₂_cons.1 hfaithful).2).1.fields
    exact absurd hfields (by decide +kernel)
  · rintro ⟨objects, fields', hrun, _, _⟩
    cases hrun

end Runs

end Wdb.Projection
