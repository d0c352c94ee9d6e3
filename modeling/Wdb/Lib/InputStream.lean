import Mathlib

/-! Input streams over the bytes of a file.

    A stream is where it is in the file and two state bits. Reading past the end sets both, seeking before
    the start sets the second, and a stream with a bit set does nothing but fail. -/

/-- A stream that is open for input. -/
structure InputStream where
  data : List UInt8
  pos : ℕ
  eofbit : Bool
  failbit : Bool
  deriving DecidableEq

namespace InputStream

/-- A stream that has just been opened, at a position. -/
def openAt (data : List UInt8) (pos : ℕ) : InputStream := ⟨data, pos, false, false⟩

def good (s : InputStream) : Bool := !s.eofbit && !s.failbit

/-- What is left to read. -/
def rest (s : InputStream) : List UInt8 := s.data.drop s.pos

/-- Reading that many bytes. When there are fewer, these are read and the end has been met. -/
def read (s : InputStream) (n : ℤ) : List UInt8 × InputStream :=
  if s.good then
    let got := s.rest.take n.toNat
    if got.length = n then (got, { s with pos := s.pos + got.length })
    else (got, { s with pos := s.pos + got.length, eofbit := true, failbit := true })
  else ([], { s with failbit := true })

/-- Moving to an offset from the start of the file. -/
def seekg (s : InputStream) (offset : ℤ) : InputStream :=
  if s.failbit then s
  else if offset < 0 then { s with failbit := true }
  else { s with pos := offset.toNat }

def tellg (s : InputStream) : ℤ := if s.failbit then -1 else s.pos

section Lemmas
variable {data : List UInt8} {pos : ℕ} {n offset : ℤ}

@[simp] theorem good_openAt : (openAt data pos).good := rfl

@[simp] theorem eofbit_openAt : (openAt data pos).eofbit = false := rfl

@[simp] theorem tellg_openAt : (openAt data pos).tellg = pos := rfl

/-- A stream without its bits set reads what is asked for when that much is left. -/
theorem read_of_le (h₀ : 0 ≤ n) (hn : n ≤ (data.drop pos).length) :
    (openAt data pos).read n = ((data.drop pos).take n.toNat, openAt data (pos + n.toNat)) := by
  have hlen : ((data.drop pos).take n.toNat).length = n.toNat := by
    rw [List.length_take]
    omega
  rw [read, if_pos good_openAt]
  simp only [rest, openAt, hlen, Int.toNat_of_nonneg h₀, if_true]

/-- Otherwise it meets the end. -/
theorem eofbit_read_of_not_le (hn : ¬ (0 ≤ n ∧ n ≤ (data.drop pos).length)) :
    ((openAt data pos).read n).2.eofbit = true := by
  have hlen : (((data.drop pos).take n.toNat).length : ℤ) ≠ n := by
    rw [List.length_take]
    omega
  rw [read, if_pos good_openAt]
  simp only [rest, openAt, hlen, if_false]

theorem seekg_of_nonneg (h : 0 ≤ offset) : (openAt data pos).seekg offset = openAt data offset.toNat := by
  simp [seekg, openAt, not_lt.2 h]

/-- Before the start there is nothing to move to, and nothing is read then. -/
theorem read_seekg_of_neg (h : offset < 0) :
    ((openAt data pos).seekg offset).read n = ([], ⟨data, pos, false, true⟩) := by
  simp [seekg, openAt, read, good, h]

end Lemmas

end InputStream
