import Wdb.Blob.WriteFile
import Wdb.Lib.InputStream
import Wdb.Lib.MachineInt

/-! Reading a file back.

    A file is read whole, or with a size that has to be its own, or one float at a time. The size of the
    file is not looked up: the readers tell from the state of the stream whether there was enough to read.
    A position is multiplied as a size and used as an offset. What is read is what the last call that
    returned has left: a write that could not empty its buffer leaves less than it was given. -/

namespace Wdb.Blob
open Relational MachineInt

/-! ### The readers -/

/-- What a reader throws. Only the end of the file is told from the other errors. -/
inductive ReadError where
  | endOfFile (what : String)
  | runtimeError (what : String)
  deriving DecidableEq

/-- `getBStream`. A file that is opened `ate` is at its end. -/
def getBStream (d : Directory) (id : ℤ) (ate : Bool) : Except ReadError InputStream :=
  match d.content id with
  | some data => .ok (.openAt data (if ate then data.length else 0))
  | none => .error (.runtimeError "File does not exist")

/-- `readFile` to a buffer of a size. -/
def readFileSized (d : Directory) (id readSize : ℤ) : Except ReadError (List UInt8) := do
  let f ← getBStream d id false
  let (out, f) := f.read readSize
  if f.eofbit then .error (.runtimeError "File was too small")
  else if !f.good then .error (.runtimeError "Error when reading file")
  else if !(f.read 1).2.eofbit then .error (.runtimeError "File was too big")
  else .ok out

/-- `readFile` to a vector, which is as long as the file when it is opened. -/
def readFileWhole (d : Directory) (id : ℤ) : Except ReadError (List UInt8) := do
  let f ← getBStream d id true
  let size := f.tellg
  let (out, _) := (f.seekg 0).read size
  .ok (out ++ List.replicate (size.toNat - out.length) 0)

section Float
variable {α : Type} (float : List UInt8 → α)

/-- `readFloat_` at the stream's position. A float is what its four bytes are in memory. -/
def readNextFloat (s : InputStream) : Except ReadError α :=
  let (ret, s) := s.read 4
  if s.eofbit then .error (.endOfFile "File was too small to read the given index")
  else if !s.good then .error (.runtimeError "Error when reading file")
  else .ok (float ret)

/-- `readFloat_` at a position. -/
def readFloat_ (s : InputStream) (position : ℤ) : Except ReadError α :=
  match readNextFloat float (s.seekg (offset (size (size position * 4)))) with
  | .error (.endOfFile _) =>
    .error (.endOfFile s!"File index {position} is out of range for file.")
  | result => result

def readFloatFromFile (d : Directory) (id position : ℤ) : Except ReadError α := do
  let f ← getBStream d id false
  readFloat_ float f position

end Float

/-! ### Runs -/

/-- A call that writes or drops a file, with what the system does in it: a drop may fail to look for the
    file or to remove it. -/
inductive FileCall where
  | writeFile (sys : System) (id : ℤ) (data : List UInt8) (now : ℤ)
  | dropFile (finds removes : Bool) (id : ℤ)
  deriving DecidableEq

def FileCall.id : FileCall → ℤ
  | .writeFile _ id _ _ => id
  | .dropFile _ _ id => id

/-- `dropFile`: the directory, and the warning when there is no such file; `none` when it throws. -/
def Directory.dropFile (d : Directory) (finds removes : Bool) (id : ℤ) : Option (Directory × Option String) :=
  if finds then
    if (d.content id).isSome then if removes then some (FileStep.apply d (.remove id), none) else none
    else some (d, some s!"File with id <{id}> does not exist")
  else none

/-- The directory after a call that returns; `none` when it throws. -/
def FileCall.perform (d : Directory) : FileCall → Option Directory
  | .writeFile sys id data now =>
    let w := Writing.after sys id data now d 6
    if w.point = .returned then some w.directory else none
  | .dropFile finds removes id => (d.dropFile finds removes id).map Prod.fst

/-- The directory after several calls that all return, from an empty one. -/
def afterCalls (calls : List FileCall) : Option Directory := calls.foldlM FileCall.perform Table.empty

/-- What a call was to leave of its file. -/
def FileCall.given : FileCall → Option (List UInt8)
  | .writeFile _ _ data _ => some data
  | .dropFile _ _ _ => none

/-- What it leaves when it returns. -/
def FileCall.left : FileCall → Option (List UInt8)
  | .writeFile sys _ data _ => some (data.take (sys.written + sys.closes))
  | .dropFile _ _ _ => none

/-- All data has been written when the stream is closed. -/
def FileCall.Complete : FileCall → Prop
  | .writeFile sys _ data _ => data.length ≤ sys.written + sys.closes
  | .dropFile _ _ _ => True

instance : DecidablePred FileCall.Complete
  | .writeFile _ _ _ _ => inferInstanceAs (Decidable (_ ≤ _))
  | .dropFile _ _ _ => isTrue trivial

/-- The last call for an id. -/
def lastCall (calls : List FileCall) (id : ℤ) : Option FileCall := (calls.filter fun c => c.id = id).getLast?

/-- The bytes that the last call for an id was to leave of its file. -/
def lastWritten (calls : List FileCall) (id : ℤ) : Option (List UInt8) :=
  (lastCall calls id).bind FileCall.given

section Runs
variable {d : Directory} {id : ℤ}

theorem content_remove_of_ne {id' : ℤ} (h : id' ≠ id) :
    Directory.content (FileStep.apply d (.remove id)) id' = d.content id' := by
  rw [Directory.content, FileStep.apply, Directory.remove, Table.delete_rows, List.find?_filter]
  refine congrArg _ (List.find?_congr fun f _ => ?_)
  by_cases hf : f.id = id'
  · simp [hf, h]
  · simp [hf]

theorem content_create_of_ne {f : File} (h : id ≠ f.id) :
    Directory.content (FileStep.apply d (.create f)) id = d.content id := by
  rw [← content_remove_of_ne (d := d) h, Directory.content, Directory.content]
  simp [FileStep.apply, List.find?_append, h.symm]

theorem content_congr {d' : Directory} (h : d.rows = d'.rows) (id : ℤ) : d.content id = d'.content id := by
  rw [Directory.content, Directory.content, h]

/-- A write that returns, as the steps of `writeFile`. -/
theorem rows_perform {sys : System} {data : List UInt8} {now : ℤ} {d' : Directory}
    (h : FileCall.perform d (.writeFile sys id data now) = some d') :
    d'.rows = (applyAll d (writeFile id (data.take (sys.written + sys.closes)) now)).rows := by
  simp only [FileCall.perform] at h
  split at h
  · next hreturned =>
    obtain rfl := Option.some.inj h
    exact writing_refines hreturned
  · cases h

/-- A call that returns leaves its own file as it says. -/
theorem content_perform {c : FileCall} {d' : Directory} (h : c.perform d = some d') :
    d'.content c.id = c.left := by
  cases c with
  | writeFile sys id data now =>
    have hcontent := content_congr (rows_perform h) id
    exact hcontent.trans (content_create _ ⟨id, _, now⟩)
  | dropFile finds removes id =>
    obtain ⟨⟨d'', warning⟩, hdrop, rfl⟩ := Option.map_eq_some_iff.1 h
    simp only [Directory.dropFile] at hdrop
    split at hdrop
    · split at hdrop
      · split at hdrop
        · obtain ⟨rfl, -⟩ := Prod.mk.inj (Option.some.inj hdrop)
          exact content_remove d id
        · cases hdrop
      · next hnone =>
        obtain ⟨rfl, -⟩ := Prod.mk.inj (Option.some.inj hdrop)
        exact Option.not_isSome_iff_eq_none.1 hnone
    · cases hdrop

/-- It leaves the others alone. -/
theorem content_perform_of_ne {c : FileCall} {d' : Directory} (h : c.perform d = some d') (hid : id ≠ c.id) :
    d'.content id = d.content id := by
  cases c with
  | writeFile sys i data now =>
    have hcontent := content_congr (rows_perform h) id
    have hcreate : (applyAll d (Blob.writeFile i (data.take (sys.written + sys.closes)) now)).content id =
        Directory.content (FileStep.apply d (.remove i)) id := content_create_of_ne hid
    exact hcontent.trans (hcreate.trans (content_remove_of_ne hid))
  | dropFile finds removes i =>
    obtain ⟨⟨d'', warning⟩, hdrop, rfl⟩ := Option.map_eq_some_iff.1 h
    simp only [Directory.dropFile] at hdrop
    split at hdrop
    · split at hdrop
      · split at hdrop
        · obtain ⟨rfl, -⟩ := Prod.mk.inj (Option.some.inj hdrop)
          exact content_remove_of_ne hid
        · cases hdrop
      · obtain ⟨rfl, -⟩ := Prod.mk.inj (Option.some.inj hdrop)
        rfl
    · cases hdrop

/-- After any calls that return, the file of an id is what the last call for it has left. -/
theorem content_afterCalls {calls : List FileCall} (h : afterCalls calls = some d) (id : ℤ) :
    d.content id = (lastCall calls id).bind FileCall.left := by
  induction calls using List.reverseRecOn generalizing d with
  | nil =>
    obtain rfl := Option.some.inj h
    rfl
  | append_singleton calls c ih =>
    rw [afterCalls, List.foldlM_append] at h
    obtain ⟨d', hd', hone⟩ := Option.bind_eq_some_iff.1 h
    rw [List.foldlM_cons] at hone
    obtain ⟨d'', hc, hlast⟩ := Option.bind_eq_some_iff.1 hone
    obtain rfl := Option.some.inj hlast
    rw [lastCall, List.filter_append]
    by_cases hid : c.id = id
    · subst hid
      rw [content_perform hc]
      simp
    · rw [content_perform_of_ne hc (Ne.symm hid), ih hd', lastCall]
      rw [List.filter_cons_of_neg (by simpa using hid), List.filter_nil, List.append_nil]

/-- A call leaves what it was to leave exactly when it is complete. -/
theorem FileCall.left_eq_given_iff (c : FileCall) : c.left = c.given ↔ c.Complete := by
  cases c with
  | writeFile sys id data now => simp [FileCall.left, FileCall.given, FileCall.Complete, List.take_eq_self_iff]
  | dropFile finds removes id => exact iff_of_true rfl trivial

end Runs

/-! ### What is read -/

section Readers
variable {d : Directory} {id : ℤ} {data : List UInt8}

theorem getBStream_eq (ate : Bool) : getBStream d id ate =
    match d.content id with
    | some data => .ok (.openAt data (if ate then data.length else 0))
    | none => .error (.runtimeError "File does not exist") := rfl

/-- A vector takes the file. -/
theorem readFileWhole_of_content (h : d.content id = some data) : readFileWhole d id = .ok data := by
  have hseek : (InputStream.openAt data data.length).seekg 0 = .openAt data 0 :=
    InputStream.seekg_of_nonneg le_rfl
  have hread : (InputStream.openAt data 0).read data.length = (data, .openAt data data.length) := by
    rw [InputStream.read_of_le (Int.natCast_nonneg _) (by simp)]
    simp
  simp only [readFileWhole, getBStream_eq, h, if_true, bind, Except.bind, InputStream.tellg_openAt, hseek,
    hread]
  simp

/-- A buffer takes the file when its size is the file's. -/
theorem readFileSized_of_content (h : d.content id = some data) (n : ℤ) :
    (n = data.length → readFileSized d id n = .ok data) ∧
      (n ≠ data.length → ∃ e, readFileSized d id n = .error e) := by
  simp only [readFileSized, getBStream_eq, h, bind, Except.bind, Bool.false_eq_true, if_false]
  by_cases hn : 0 ≤ n ∧ n ≤ data.length
  · -- there is enough to read, and then a byte more or not
    rw [InputStream.read_of_le hn.1 (by simpa using hn.2), List.drop_zero, zero_add]
    constructor
    · rintro rfl
      simp [InputStream.eofbit_read_of_not_le]
    · intro hne
      have hmore : ((InputStream.openAt data n.toNat).read 1).2.eofbit = false := by
        rw [InputStream.read_of_le zero_le_one (by rw [List.length_drop]; omega),
          InputStream.eofbit_openAt]
      simp [hmore]
  · refine ⟨fun heq => absurd ⟨by omega, by omega⟩ hn, fun _ => ?_⟩
    have heof : ((InputStream.openAt data 0).read n).2.eofbit = true :=
      InputStream.eofbit_read_of_not_le (by simpa using hn)
    rw [heof, if_pos rfl]
    exact ⟨_, rfl⟩

section Float
variable {α : Type} (float : List UInt8 → α)

/-- A float is read at an `int` position when its four bytes are in the file. -/
theorem readFloatFromFile_of_content (h : d.content id = some data) {position : ℤ}
    (hint : -2 ^ 31 ≤ position ∧ position < 2 ^ 31) :
    (0 ≤ position ∧ 4 * position + 4 ≤ data.length → readFloatFromFile float d id position =
        .ok (float ((data.drop (4 * position).toNat).take 4))) ∧
      (¬ (0 ≤ position ∧ 4 * position + 4 ≤ data.length) →
        ∃ e, readFloatFromFile float d id position = .error e) := by
  have hoffset : offset (size (size position * 4)) = 4 * position := by
    rw [offset_size_mul (by omega) (by omega), mul_comm]
  simp only [readFloatFromFile, getBStream_eq, h, bind, Except.bind, Bool.false_eq_true, if_false,
    readFloat_, hoffset]
  by_cases hneg : 0 ≤ position
  · rw [InputStream.seekg_of_nonneg (by omega)]
    by_cases hend : 4 * position + 4 ≤ data.length
    · refine ⟨fun _ => ?_, fun hnot => absurd ⟨hneg, hend⟩ hnot⟩
      rw [readNextFloat, InputStream.read_of_le (by decide) (by simp; omega)]
      simp
    · refine ⟨fun hin => absurd hin.2 hend, fun _ => ?_⟩
      have heof : ((InputStream.openAt data (4 * position).toNat).read 4).2.eofbit = true :=
        InputStream.eofbit_read_of_not_le (by simp; omega)
      simp only [readNextFloat, heof, if_true]
      exact ⟨_, rfl⟩
  · -- the stream fails at the seek, and has not met the end
    refine ⟨fun hin => absurd hin.1 hneg, fun _ => ⟨.runtimeError "Error when reading file", ?_⟩⟩
    rw [readNextFloat, InputStream.read_seekg_of_neg (by omega)]
    rfl

/-- The readers find a file of given bytes. -/
structure ReadsAs (d : Directory) (id : ℤ) (data : List UInt8) : Prop where
  whole : readFileWhole d id = .ok data
  sized : ∀ n, (∃ out, readFileSized d id n = .ok out) ↔ n = data.length
  sized_value : ∀ n out, readFileSized d id n = .ok out → out = data
  float : ∀ position : ℤ, -2 ^ 31 ≤ position → position < 2 ^ 31 →
    if 0 ≤ position ∧ 4 * position + 4 ≤ data.length then
      readFloatFromFile float d id position = .ok (float ((data.drop (4 * position).toNat).take 4))
    else ∃ e, readFloatFromFile float d id position = .error e

/-- They all throw. -/
structure ReadsNothing (d : Directory) (id : ℤ) : Prop where
  whole : ∃ e, readFileWhole d id = .error e
  sized : ∀ n, ∃ e, readFileSized d id n = .error e
  float : ∀ position, ∃ e, readFloatFromFile float d id position = .error e

/-- A file of given bytes is found. -/
theorem readsAs_of_content (h : d.content id = some data) : ReadsAs float d id data := by
  have hsized := readFileSized_of_content h
  have hsize : ∀ {n out}, readFileSized d id n = .ok out → n = data.length := by
    intro n out hout
    by_contra hne
    obtain ⟨e, he⟩ := (hsized n).2 hne
    rw [he] at hout
    cases hout
  refine ⟨readFileWhole_of_content h, fun n => ⟨fun ⟨_, hout⟩ => hsize hout,
    fun h => ⟨_, (hsized n).1 h⟩⟩, fun n out hout => ?_, fun position hlow hhigh => ?_⟩
  · rw [(hsized n).1 (hsize hout)] at hout
    exact (Except.ok.inj hout).symm
  · have hfloat := readFloatFromFile_of_content float h ⟨hlow, hhigh⟩
    split
    · next hin => exact hfloat.1 hin
    · next hout => exact hfloat.2 hout

/-- No file is found. -/
theorem readsNothing_of_content (h : d.content id = none) : ReadsNothing float d id := by
  have hstream : ∀ ate, getBStream d id ate = .error (.runtimeError "File does not exist") := by
    intro ate
    rw [getBStream_eq, h]
  exact ⟨⟨_, by rw [readFileWhole, hstream]; rfl⟩, fun n => ⟨_, by rw [readFileSized, hstream]; rfl⟩,
    fun position => ⟨_, by rw [readFloatFromFile, hstream]; rfl⟩⟩

/-- After any calls that write and drop files and return, whatever the system does in them: the readers find
    under an id what the last call for it was given, and throw when there was no such call or it dropped the
    file, exactly when that call has written all its data when its stream is closed. -/
theorem reads_afterCalls_iff {calls : List FileCall} (h : afterCalls calls = some d) (id : ℤ) :
    (match lastWritten calls id with
      | some data => ReadsAs float d id data
      | none => ReadsNothing float d id) ↔ ∀ c ∈ lastCall calls id, c.Complete := by
  have hcontent := content_afterCalls h id
  rw [lastWritten]
  cases hlast : lastCall calls id with
  | none =>
    rw [hlast] at hcontent
    exact iff_of_true (readsNothing_of_content float hcontent) nofun
  | some c =>
    rw [hlast, Option.bind_some] at hcontent
    simp only [Option.bind_some, Option.mem_some_iff, forall_eq']
    rw [← c.left_eq_given_iff]
    cases c with
    | dropFile finds removes i => exact iff_of_true (readsNothing_of_content float hcontent) rfl
    | writeFile sys i data now =>
      constructor
      · intro hreads
        have hread := (readFileWhole_of_content hcontent).symm.trans hreads.whole
        exact congrArg some (Except.ok.inj hread)
      · intro hleft
        exact readsAs_of_content float (hcontent.trans hleft)

end Float

end Readers

/-- The bytes stay in the buffer, and the disk is full when the stream is closed. -/
def fullSystem : System := ⟨true, true, true, 0, true, true, 0⟩

theorem reads_afterCalls_iff_twice :
    ∃ d, afterCalls [.writeFile bufferingSystem 1 [0, 0, 128, 63] 0, .dropFile true true 2] = some d ∧
      ReadsAs id d 1 [0, 0, 128, 63] ∧ ReadsNothing id d 2 := by
  obtain ⟨d, hd⟩ := Option.isSome_iff_exists.1 (by decide :
    (afterCalls [.writeFile bufferingSystem 1 [0, 0, 128, 63] 0, .dropFile true true 2]).isSome)
  exact ⟨d, hd, (reads_afterCalls_iff id hd 1).2 (by decide), (reads_afterCalls_iff id hd 2).2 (by decide)⟩

/-- The call returns, and the file is empty. -/
theorem reads_afterCalls_short :
    ∃ d, afterCalls [.writeFile fullSystem 1 [0, 1] 0] = some d ∧ readFileWhole d 1 = .ok [] ∧
      ¬ ReadsAs id d 1 [0, 1] := by
  obtain ⟨d, hd⟩ := Option.isSome_iff_exists.1 (by decide :
    (afterCalls [.writeFile fullSystem 1 [0, 1] 0]).isSome)
  have hread : readFileWhole d 1 = .ok [] := readFileWhole_of_content (content_afterCalls hd 1)
  refine ⟨d, hd, hread, fun h => ?_⟩
  have hsame := h.whole
  rw [hread] at hsame
  cases hsame

end Wdb.Blob
