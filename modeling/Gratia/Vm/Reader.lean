import Gratia.Vm.Values

/-!
# Vm — Reader

The cursor of `gratia-vm/src/interpreter.rs` over a byte string, with its LEB128 readers.  What a
read does depends on the bytes at the cursor only, and the lemmas are stated that way: `rest` is
what lies ahead.
-/

namespace Gratia

open Support (Bytes)

structure Reader where
  data : Bytes
  pos : ℕ
deriving DecidableEq

abbrev Read := EStateM InterpError Reader

namespace Reader

def remaining (r : Reader) : ℕ := r.data.length - r.pos

def rest (r : Reader) : Bytes := r.data.drop r.pos

def advance (r : Reader) (n : ℕ) : Reader := { r with pos := r.pos + n }

@[simp] theorem advance_advance (r : Reader) (m n : ℕ) :
    (r.advance m).advance n = r.advance (m + n) := by
  simp only [advance, Nat.add_assoc]

@[simp] theorem rest_advance (r : Reader) (n : ℕ) : (r.advance n).rest = r.rest.drop n := by
  simp only [rest, advance, List.drop_drop]

def readByte : Read UInt8 := fun r =>
  match r.data[r.pos]? with
  | none => .error (.invalidBytecode "unexpected end of data") r
  | some b => .ok b (r.advance 1)

def readBytes (n : ℕ) : Read Bytes := fun r =>
  if r.pos + n > r.data.length then .error (.invalidBytecode "unexpected end of data") r
  else .ok ((r.data.drop r.pos).take n) (r.advance n)

/-- The loop of the LEB128 readers on words of `w` bits.  `bytes` is how many bytes may still come:
the source bounds `shift` instead.  A shift past the word wraps around, as `<<` does without
overflow checks. -/
def readLeb128 (w : ℕ) (signed : Bool) : ℕ → ℕ → BitVec w → Read (BitVec w)
  | 0, _, _ => throw (.invalidBytecode "LEB128 too long")
  | bytes + 1, shift, acc => do
    let byte ← readByte
    let result := acc ||| (BitVec.ofNat w (byte &&& 0x7F).toNat <<< (shift % w))
    if byte &&& 0x80 = 0 then
      if signed && shift + 7 < w && byte &&& 0x40 != 0 then
        return result ||| (BitVec.allOnes w <<< (shift + 7))
      else return result
    else readLeb128 w signed bytes (shift + 7) result

/-- `read_u32_leb128`: `shift` ends at 35, after six bytes. -/
def readU32Leb128 : Read UInt32 := UInt32.ofBitVec <$> readLeb128 32 false 6 0 0

def readI32Leb128 : Read Int32 := Int32.ofBitVec <$> readLeb128 32 true 6 0 0

/-- `read_i64_leb128`: `shift` ends at 70, after eleven bytes. -/
def readI64Leb128 : Read Int64 := Int64.ofBitVec <$> readLeb128 64 true 11 0 0

def readF32 : Read UInt32 := fromLeBytes32 <$> readBytes 4

def readF64 : Read UInt64 := fromLeBytes64 <$> readBytes 8

def fromUtf8 (bs : Bytes) : Option String := String.fromUTF8? ⟨⟨bs⟩⟩

def readString : Read String := do
  let len ← readU32Leb128
  let bytes ← readBytes len.toNat
  match fromUtf8 bytes with
  | some s => return s
  | none => throw (.invalidBytecode "invalid UTF-8 in string")

end Reader

end Gratia
