import Gratia.Vm.Reader

/-!
# Vm — Leb128

What the LEB128 readers of `gratia-vm/src/interpreter.rs` make of a byte string.  The integer that
the bytes denote is defined apart from the readers.

The bits of the last byte that do not fit the word are dropped, and one byte more than the word
needs is still read (`leb128_exact_iff`).
-/

namespace Gratia

open Support (Bytes)
open Reader

namespace Leb128

/-- The encoding at the front of a byte string: up to the first byte without the top bit. -/
def split : Bytes → Option Bytes
  | [] => none
  | b :: bs => if b &&& 0x80 = 0 then some [b] else (split bs).map (b :: ·)

/-- The integer that an encoding denotes. -/
def denote (signed : Bool) : Bytes → ℤ
  | [] => 0
  | [b] =>
    if signed && b &&& 0x40 != 0 then (b &&& 0x7F).toNat + 128 * -1 else (b &&& 0x7F).toNat
  | b :: bs => (b &&& 0x7F).toNat + 128 * denote signed bs

/-- A reader succeeds just where an encoding of at most `n` bytes lies ahead that denotes a value of
its type; it then returns that value and stops behind the encoding. -/
def Exact {α : Type} (read : Read α) (val : α → ℤ) (signed : Bool) (n : ℕ) (r : Reader) : Prop :=
  ∀ a r', read r = .ok a r' ↔ ∃ bs, split r.rest = some bs ∧ bs.length ≤ n ∧
    val a = denote signed bs ∧ r' = r.advance bs.length

/-- The encoding ahead has at most `n` bytes and denotes a value of the type, or has more than
`n + 1`. -/
def Fits {α : Type} (val : α → ℤ) (signed : Bool) (n : ℕ) (r : Reader) : Prop :=
  ∀ bs, split r.rest = some bs → bs.length ≤ n + 1 →
    bs.length ≤ n ∧ ∃ a, val a = denote signed bs

/-! ### Words -/

section Words

variable {w : ℕ}

/-- What is shifted behind the bits that are there is added to them. -/
theorem or_shiftLeft {a s : ℕ} (ha : a < 2 ^ s) (c : ℤ) :
    BitVec.ofNat w a ||| BitVec.ofInt w c <<< s = BitVec.ofInt w (a + 2 ^ s * c) := by
  have hpow : BitVec.ofInt w (2 ^ s) = BitVec.twoPow w s := by
    rw [← Nat.cast_ofNat, ← Nat.cast_pow, BitVec.ofInt_natCast]
    exact BitVec.eq_of_toNat_eq (by rw [BitVec.toNat_ofNat, BitVec.toNat_twoPow])
  rw [← BitVec.add_eq_or_of_and_eq_zero, BitVec.shiftLeft_eq_mul_twoPow, BitVec.ofInt_add,
    BitVec.ofInt_natCast, BitVec.ofInt_mul, hpow, BitVec.mul_comm]
  refine BitVec.eq_of_getLsbD_eq fun i hi => ?_
  rw [BitVec.getLsbD_and, BitVec.getLsbD_shiftLeft, BitVec.getLsbD_ofNat]
  by_cases h : i < s
  · simp [h]
  · have := Nat.testBit_lt_two_pow (ha.trans_le (Nat.pow_le_pow_right (by decide) (not_lt.mp h)))
    simp [this]

theorem ofInt_add_of_le {s : ℕ} (hs : w ≤ s) (a c : ℤ) :
    BitVec.ofInt w (a + 2 ^ s * c) = BitVec.ofInt w a := by
  refine BitVec.eq_of_toInt_eq ?_
  obtain ⟨d, rfl⟩ := Nat.exists_eq_add_of_le hs
  rw [BitVec.toInt_ofInt, BitVec.toInt_ofInt, pow_add, mul_assoc]
  exact_mod_cast Int.add_mul_bmod_self_left a (2 ^ w) (2 ^ d * c)

variable {a s : ℕ} (b : UInt8)

theorem add_byte_lt (ha : a < 2 ^ s) : a + 2 ^ s * (b &&& 0x7F).toNat < 2 ^ (s + 7) := by
  have hb : (b &&& 0x7F).toNat < 2 ^ 7 := by
    rw [UInt8.toNat_and]
    exact Nat.and_lt_two_pow _ (by decide)
  rw [pow_add]
  nlinarith

theorem or_byte (ha : a < 2 ^ s) (hs : s < w) :
    BitVec.ofNat w a ||| BitVec.ofNat w (b &&& 0x7F).toNat <<< (s % w) =
      BitVec.ofNat w (a + 2 ^ s * (b &&& 0x7F).toNat) := by
  rw [Nat.mod_eq_of_lt hs, ← BitVec.ofInt_natCast w (b &&& 0x7F).toNat, or_shiftLeft ha,
    ← BitVec.ofInt_natCast]
  push_cast
  rfl

/-- The sign that is filled in behind the last byte; behind a full word there is no room for it. -/
theorem or_sign (signed : Bool) (ha : a < 2 ^ s) :
    (if signed && s + 7 < w && b &&& 0x40 != 0 then
        BitVec.ofNat w (a + 2 ^ s * (b &&& 0x7F).toNat) ||| BitVec.allOnes w <<< (s + 7)
      else BitVec.ofNat w (a + 2 ^ s * (b &&& 0x7F).toNat)) =
      BitVec.ofInt w (a + 2 ^ s * denote signed [b]) := by
  have hones : BitVec.allOnes w = BitVec.ofInt w (-1) := by
    rw [BitVec.ofInt_neg, ← BitVec.neg_one_eq_allOnes]
    rfl
  have hneg : (a : ℤ) + 2 ^ s * ((b &&& 0x7F).toNat + 128 * -1) =
      ((a + 2 ^ s * (b &&& 0x7F).toNat : ℕ) : ℤ) + 2 ^ (s + 7) * -1 := by
    push_cast
    ring
  have hpos : (a : ℤ) + 2 ^ s * (b &&& 0x7F).toNat = (a + 2 ^ s * (b &&& 0x7F).toNat : ℕ) := by
    push_cast
    rfl
  rw [denote, hones, or_shiftLeft (add_byte_lt b ha), ← BitVec.ofInt_natCast]
  by_cases hs : s + 7 < w
  · simp only [hs, decide_true, Bool.and_true]
    split
    · rw [hneg]
    · rw [hpos]
  · rw [if_neg (by simp [hs])]
    split
    · rw [hneg, ofInt_add_of_le (not_lt.mp hs)]
    · rw [hpos]

end Words

/-! ### Runs of the reader -/

section Runs

variable {w : ℕ} {signed : Bool} {r : Reader} {b : UInt8} {bs : Bytes}

theorem rest_tail (h : r.rest = b :: bs) : (r.advance 1).rest = bs := by
  rw [rest_advance, h, List.drop_one, List.tail_cons]

theorem readLeb128_of_rest (h : r.rest = b :: bs) (k shift : ℕ) (acc : BitVec w) :
    readLeb128 w signed (k + 1) shift acc r =
      if b &&& 0x80 = 0 then
        .ok (if signed && shift + 7 < w && b &&& 0x40 != 0 then
          acc ||| BitVec.ofNat w (b &&& 0x7F).toNat <<< (shift % w) |||
            BitVec.allOnes w <<< (shift + 7)
          else acc ||| BitVec.ofNat w (b &&& 0x7F).toNat <<< (shift % w)) (r.advance 1)
      else readLeb128 w signed k (shift + 7)
        (acc ||| BitVec.ofNat w (b &&& 0x7F).toNat <<< (shift % w)) (r.advance 1) := by
  have hb : readByte r = .ok b (r.advance 1) := by
    have : r.data[r.pos]? = some b := by rw [← List.head?_drop, ← rest, h, List.head?_cons]
    rw [readByte, this]
  change EStateM.bind readByte _ r = _
  rw [EStateM.bind, hb]
  by_cases hlast : b &&& 0x80 = 0
  · simp only [if_pos hlast]
    split
    · rfl
    · rfl
  · simp only [if_neg hlast]

theorem readLeb128_nil (h : r.rest = []) (k shift : ℕ) (acc : BitVec w) :
    ∃ e r', readLeb128 w signed k shift acc r = .error e r' := by
  cases k with
  | zero => exact ⟨_, _, rfl⟩
  | succ k =>
    have hb : readByte r = .error (.invalidBytecode "unexpected end of data") r := by
      have : r.data[r.pos]? = none := by rw [← List.head?_drop, ← rest, h, List.head?_nil]
      rw [readByte, this]
    refine ⟨.invalidBytecode "unexpected end of data", r, ?_⟩
    change EStateM.bind readByte _ r = _
    rw [EStateM.bind, hb]

theorem split_ne_nil {enc : Bytes} (h : split bs = some enc) : enc ≠ [] := by
  rintro rfl
  cases bs with
  | nil => cases h
  | cons b bs =>
    rw [split] at h
    split at h
    · cases h
    · obtain ⟨_, _, h⟩ := Option.map_eq_some_iff.mp h
      cases h

theorem readLeb128_cases (h : r.rest = bs) (k shift : ℕ) (acc : BitVec w) :
    (∃ enc v, split bs = some enc ∧ enc.length ≤ k ∧
      readLeb128 w signed k shift acc r = .ok v (r.advance enc.length)) ∨
    (∀ enc, split bs = some enc → k < enc.length) ∧
      ∃ e r', readLeb128 w signed k shift acc r = .error e r' := by
  induction bs generalizing r k shift acc with
  | nil => exact .inr ⟨nofun, readLeb128_nil h k shift acc⟩
  | cons b bs ih =>
    cases k with
    | zero =>
      exact .inr ⟨fun enc henc => List.length_pos_iff.mpr (split_ne_nil henc), _, _, rfl⟩
    | succ k =>
      rw [readLeb128_of_rest h, split]
      split
      · exact .inl ⟨[b], _, rfl, Nat.le_add_left 1 k, rfl⟩
      · obtain ⟨enc, v, henc, hlen, hread⟩ | ⟨hlong, hread⟩ := ih (rest_tail h) k (shift + 7) _
        · refine .inl ⟨b :: enc, v, by rw [henc, Option.map_some], Nat.succ_le_succ hlen, ?_⟩
          rw [hread, advance_advance, List.length_cons, Nat.add_comm]
        · refine .inr ⟨fun enc henc => ?_, hread⟩
          obtain ⟨enc', henc', rfl⟩ := Option.map_eq_some_iff.mp henc
          exact Nat.succ_lt_succ (hlong _ henc')

theorem readLeb128_eq {bs : Bytes} (h : r.rest = bs) {enc : Bytes} (henc : split bs = some enc)
    {k shift a : ℕ} (hk : enc.length ≤ k) (hw : shift + 7 * enc.length < w + 7)
    (ha : a < 2 ^ shift) :
    readLeb128 w signed k shift (BitVec.ofNat w a) r =
      .ok (BitVec.ofInt w (a + 2 ^ shift * denote signed enc)) (r.advance enc.length) := by
  induction bs generalizing r k shift a enc with
  | nil => cases henc
  | cons b bs ih =>
    have hpos := List.length_pos_iff.mpr (split_ne_nil henc)
    obtain ⟨k, rfl⟩ := Nat.exists_eq_succ_of_ne_zero (hpos.trans_le hk).ne'
    rw [readLeb128_of_rest h, or_byte b ha (by omega)]
    rw [split] at henc
    by_cases hlast : b &&& 0x80 = 0
    · rw [if_pos hlast] at henc ⊢
      cases henc
      rw [or_sign b signed ha]
      rfl
    · rw [if_neg hlast] at henc ⊢
      obtain ⟨enc', henc', rfl⟩ := Option.map_eq_some_iff.mp henc
      rw [List.length_cons] at hk hw
      rw [ih (rest_tail h) henc' (by omega) (by omega) (add_byte_lt b ha), advance_advance]
      obtain ⟨c, cs, rfl⟩ := List.exists_cons_of_ne_nil (split_ne_nil henc')
      have hcons : denote signed (b :: c :: cs) =
          (b &&& 0x7F).toNat + 128 * denote signed (c :: cs) := rfl
      rw [hcons, pow_add, List.length_cons (a := b), Nat.add_comm 1]
      push_cast
      congr 2
      ring

end Runs

/-- A reader of words of `w` bits, as the values of a type. -/
theorem exact_iff {α : Type} {w n : ℕ} {signed : Bool} (conv : BitVec w → α) {val : α → ℤ}
    (hconv : ∀ a, conv (BitVec.ofInt w (val a)) = a) (hn : 7 * n < w + 7) (r : Reader) :
    Exact (conv <$> readLeb128 w signed (n + 1) 0 0) val signed n r ↔ Fits val signed n r := by
  have hmap : (conv <$> readLeb128 w signed (n + 1) 0 0) r =
      EStateM.map conv (readLeb128 w signed (n + 1) 0 0) r := rfl
  rw [Fits, Exact, hmap, EStateM.map]
  obtain ⟨enc, v, henc, hlen, hread⟩ | ⟨hlong, e, r', hread⟩ :=
    readLeb128_cases rfl (n + 1) 0 (0 : BitVec w)
  · rw [hread, henc]
    constructor
    · rintro h _ ⟨⟩ -
      obtain ⟨_, ⟨⟩, hle, hval, -⟩ := (h _ _).mp rfl
      exact ⟨hle, _, hval⟩
    · intro h a r'
      obtain ⟨hle, a', ha'⟩ := h enc rfl hlen
      have hv : readLeb128 w signed (n + 1) 0 0 r =
          .ok (BitVec.ofInt w (val a')) (r.advance enc.length) := by
        have hw : 0 + 7 * enc.length < w + 7 := by omega
        simpa [ha'] using readLeb128_eq (a := 0) rfl henc hlen hw (by decide)
      cases hread.symm.trans hv
      simp only [hconv]
      constructor
      · rintro ⟨⟩
        exact ⟨enc, rfl, hle, ha', rfl⟩
      · rintro ⟨_, ⟨⟩, -, hval, rfl⟩
        rw [← hconv a, hval, ← ha', hconv]
  · rw [hread]
    refine ⟨fun _ bs hbs hle => absurd hle (not_le.mpr (hlong bs hbs)), fun _ a r' => ⟨nofun, ?_⟩⟩
    rintro ⟨bs, hbs, hle, -, -⟩
    have := hlong bs hbs
    omega

end Leb128

open Leb128 in
/-- **LEB128 reads are exact** where the encoding has not just one byte more than the word needs and
denotes a value of the word. -/
theorem leb128_exact_iff (r : Reader) :
    (Exact readU32Leb128 (fun a => (a.toNat : ℤ)) false 5 r ↔
      Fits (fun a : UInt32 => (a.toNat : ℤ)) false 5 r) ∧
    (Exact readI32Leb128 Int32.toInt true 5 r ↔ Fits Int32.toInt true 5 r) ∧
    (Exact readI64Leb128 Int64.toInt true 10 r ↔ Fits Int64.toInt true 10 r) := by
  refine ⟨exact_iff _ (fun a => ?_) (by decide) r, exact_iff _ (fun a => ?_) (by decide) r,
    exact_iff _ (fun a => ?_) (by decide) r⟩
  · rw [BitVec.ofInt_natCast]
    exact congrArg UInt32.ofBitVec (BitVec.ofNat_toNat 32 a.toBitVec)
  · exact congrArg Int32.ofBitVec (BitVec.ofInt_toInt)
  · exact congrArg Int64.ofBitVec (BitVec.ofInt_toInt)

/-- The encoding of `2 ^ 32` is read as zero. -/
theorem two_pow_32_reads_zero :
    readU32Leb128 ⟨[0x00], 0⟩ = .ok 0 ⟨[0x00], 1⟩ ∧
    readU32Leb128 ⟨[0x80, 0x80, 0x80, 0x80, 0x10], 0⟩ =
      .ok 0 ⟨[0x80, 0x80, 0x80, 0x80, 0x10], 5⟩ ∧
    ¬ Leb128.Exact readU32Leb128 (fun a => (a.toNat : ℤ)) false 5
      ⟨[0x80, 0x80, 0x80, 0x80, 0x10], 0⟩ := by
  refine ⟨rfl, rfl, fun h => ?_⟩
  obtain ⟨_, ⟨⟩, -, hval, -⟩ := (h 0 _).mp rfl
  exact absurd hval (by decide)

end Gratia
