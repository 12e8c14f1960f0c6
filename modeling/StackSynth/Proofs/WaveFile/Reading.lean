import Mathlib.Algebra.Ring.Nat
import StackSynth.WaveFile.Writer

/-!
# What readers of bytes read

A reader `Reads` some bytes as a value if it takes exactly these bytes and gives the value, whatever
follows them. Readers in sequence read bytes in sequence (`Reads.bind`), so what a reader makes of a
file follows from what its parts make of the parts of the file.

A number that is written with the least significant byte first is read back modulo what so many
bytes can write (`reads_number`).
-/

namespace StackSynth.WaveFile

variable {α β : Type}

/-- A reader takes some bytes, and no more, as a value. -/
def Reads (r : ByteReader α) (bytes : List UInt8) (a : α) : Prop :=
  ∀ rest, r (bytes ++ rest) = .ok (a, rest)

theorem bind_apply (r : ByteReader α) (next : α → ByteReader β) (bytes : List UInt8) :
    (r >>= next) bytes = (r bytes).bind fun (a, rest) ↦ next a rest := rfl

namespace Reads

variable {r : ByteReader α} {next : α → ByteReader β} {bytes bytes' : List UInt8} {a : α} {b : β}

theorem pure (a : α) : Reads (Pure.pure a) [] a := fun _ ↦ rfl

/-- Behind what a reader has read, the next reader goes on. -/
theorem bind_append (h : Reads r bytes a) (rest : List UInt8) :
    (r >>= next) (bytes ++ rest) = next a rest := by
  rw [bind_apply, h rest]
  rfl

theorem bind (h : Reads r bytes a) (h' : Reads (next a) bytes' b) :
    Reads (r >>= next) (bytes ++ bytes') b := by
  intro rest
  rw [List.append_assoc, h.bind_append, h' rest]

/-- What is done behind the last bytes takes none. -/
theorem bind_last (h : Reads r bytes a) (h' : Reads (next a) [] b) :
    Reads (r >>= next) bytes b := by
  rw [← List.append_nil bytes]
  exact h.bind h'

end Reads

theorem reads_take {n : Nat} {bytes : List UInt8} (h : bytes.length = n) :
    Reads (take n) bytes bytes := by
  intro rest
  rw [take, List.take_left' h, List.drop_left' h]
  simp [h]

theorem reads_skip {n : Nat} {bytes : List UInt8} (h : bytes.length = n) :
    Reads (skip n) bytes () :=
  (reads_take h).bind_last (.pure ())

/-- A condition that holds takes no bytes. -/
theorem require_of_true {ok : Bool} (h : ok = true) (flaw : WaveFlaw) :
    require ok flaw = pure () := by
  rw [require, if_pos h]

theorem require_bind_of_false {ok : Bool} (h : ok = false) (flaw : WaveFlaw)
    (next : Unit → ByteReader β) (bytes : List UInt8) :
    (require ok flaw >>= next) bytes = .error (.illFormed flaw) := by
  rw [h]
  rfl

/-! ## Numbers -/

@[simp] theorem length_littleEndian (count n : Nat) : (littleEndian count n).length = count := by
  induction count generalizing n with
  | zero => rfl
  | succ count ih => rw [littleEndian, List.length_cons, ih]

theorem ofLittleEndian_littleEndian (count n : Nat) :
    ofLittleEndian (littleEndian count n) = n % 256 ^ count := by
  induction count generalizing n with
  | zero => rw [Nat.pow_zero, Nat.mod_one]; rfl
  | succ count ih =>
    have hbyte : (n % 256).toUInt8.toNat = n % 256 := by simp
    rw [littleEndian, ofLittleEndian, List.foldr_cons, ← ofLittleEndian, ih, hbyte, Nat.pow_succ',
      Nat.mod_mul]

theorem reads_number (count n : Nat) :
    Reads (number count) (littleEndian count n) (n % 256 ^ count) := by
  rw [← ofLittleEndian_littleEndian]
  exact (reads_take (length_littleEndian count n)).bind_last (.pure _)

end StackSynth.WaveFile
