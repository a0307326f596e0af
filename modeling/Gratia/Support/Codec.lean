import Mathlib.Tactic

/-!
# Support — Codec

Self-delimiting byte codecs: a value is written in front of whatever follows it and read back with
exactly that remainder.  A codec carries its round-trip law, so a format that loses information is
not a `Codec`.

The combinators build codecs for products, sums, options and lists out of those for bytes and
fixed-width words.  Lists are written with a continuation byte before every element, so the law
needs no bound on their length.
-/

namespace Support

abbrev Bytes := List UInt8

/-! ### Fixed-width words -/

def leBytes : ℕ → ℕ → Bytes
  | 0, _ => []
  | w + 1, n => UInt8.ofNat n :: leBytes w (n / 256)

/-- The number a little-endian byte string denotes. -/
def ofLeBytes : Bytes → ℕ
  | [] => 0
  | b :: bs => b.toNat + 256 * ofLeBytes bs

@[simp] theorem length_leBytes : ∀ w n, (leBytes w n).length = w
  | 0, _ => rfl
  | w + 1, n => by simp [leBytes, length_leBytes w]

theorem ofLeBytes_leBytes : ∀ w n, ofLeBytes (leBytes w n) = n % 256 ^ w
  | 0, n => by simp [leBytes, ofLeBytes, Nat.mod_one]
  | w + 1, n => by
    simp only [leBytes, ofLeBytes, ofLeBytes_leBytes w, UInt8.toNat_ofNat']
    rw [pow_succ' 256 w, Nat.mod_mul]

/-! ### Codecs -/

/-- A self-delimiting format for `α`. -/
structure Codec (α : Type) where
  put : α → Bytes
  take : Bytes → Option (α × Bytes)
  take_put : ∀ a rest, take (put a ++ rest) = some (a, rest)

namespace Codec

variable {α β : Type}

theorem take_put_self (c : Codec α) (a : α) : c.take (c.put a) = some (a, []) := by
  simpa using c.take_put a []

theorem put_injective (c : Codec α) : Function.Injective c.put := by
  intro a b h
  have ha := c.take_put_self a
  rw [h, c.take_put_self] at ha
  exact (Prod.mk.inj (Option.some.inj ha)).1.symm

/-- A codec for `α` from one for a type `α` embeds in. -/
def embed (c : Codec β) (f : α → β) (g : β → Option α) (hg : ∀ a, g (f a) = some a) : Codec α where
  put a := c.put (f a)
  take bs := (c.take bs).bind fun p => (g p.1).map fun a => (a, p.2)
  take_put a rest := by simp [c.take_put, hg]

def byte : Codec UInt8 where
  put b := [b]
  take
    | [] => none
    | b :: bs => some (b, bs)
  take_put _ _ := rfl

def unit : Codec Unit where
  put _ := []
  take bs := some ((), bs)
  take_put _ _ := rfl

def exact (w : ℕ) : Codec {bs : Bytes // bs.length = w} where
  put bs := bs.1
  take bs := if h : w ≤ bs.length then
      some (⟨bs.take w, List.length_take_of_le h⟩, bs.drop w) else none
  take_put := by
    rintro ⟨bs, rfl⟩ rest
    simp

def word (w : ℕ) : Codec (Fin (256 ^ w)) :=
  (exact w).embed (fun n => ⟨leBytes w n, length_leBytes w n⟩)
    (fun bs => some (Fin.ofNat (256 ^ w) (ofLeBytes bs.1))) fun n => by
      simp [ofLeBytes_leBytes, Nat.mod_eq_of_lt n.2]

def u64 : Codec UInt64 :=
  (word 8).embed (fun n => ⟨n.toNat, n.toNat_lt⟩) (fun n => some (UInt64.ofNat n.1))
    fun n => by simp

def u32 : Codec UInt32 :=
  (word 4).embed (fun n => ⟨n.toNat, n.toNat_lt⟩) (fun n => some (UInt32.ofNat n.1))
    fun n => by simp

def u16 : Codec UInt16 :=
  (word 2).embed (fun n => ⟨n.toNat, n.toNat_lt⟩) (fun n => some (UInt16.ofNat n.1))
    fun n => by simp

def pair (c : Codec α) (d : Codec β) : Codec (α × β) where
  put p := c.put p.1 ++ d.put p.2
  take bs := (c.take bs).bind fun p => (d.take p.2).map fun q => ((p.1, q.1), q.2)
  take_put p rest := by simp [c.take_put, d.take_put]

/-- A tag byte, then the chosen side. -/
def sum (c : Codec α) (d : Codec β) : Codec (α ⊕ β) where
  put
    | .inl a => 0 :: c.put a
    | .inr b => 1 :: d.put b
  take
    | 0 :: bs => (c.take bs).map fun p => (.inl p.1, p.2)
    | 1 :: bs => (d.take bs).map fun p => (.inr p.1, p.2)
    | _ => none
  take_put
    | .inl a, rest => by simp [c.take_put]
    | .inr b, rest => by simp [d.take_put]

def bool : Codec Bool :=
  byte.embed (fun b => if b then 1 else 0) (fun n => some (n == 1)) fun b => by cases b <;> rfl

def option (c : Codec α) : Codec (Option α) :=
  (sum unit c).embed (fun o => o.elim (.inl ()) .inr) (fun s => some (s.elim (fun _ => none) some))
    fun o => by cases o <;> rfl

/-- The elements of a list, each behind a `1`, closed by a `0`. -/
def putList (c : Codec α) : List α → Bytes
  | [] => [0]
  | a :: as => 1 :: (c.put a ++ c.putList as)

/-- Reads at most `fuel` elements. -/
def takeList (c : Codec α) : ℕ → Bytes → Option (List α × Bytes)
  | 0, _ => none
  | fuel + 1, bs =>
    match bs with
    | 0 :: bs => some ([], bs)
    | 1 :: bs => (c.take bs).bind fun p =>
      (c.takeList fuel p.2).map fun q => (p.1 :: q.1, q.2)
    | _ => none

theorem takeList_putList (c : Codec α) (rest : Bytes) :
    ∀ (as : List α) (fuel : ℕ), as.length < fuel →
      c.takeList fuel (c.putList as ++ rest) = some (as, rest) := by
  intro as
  induction as with
  | nil =>
    intro fuel h
    obtain ⟨fuel, rfl⟩ : ∃ k, fuel = k + 1 := ⟨fuel - 1, by omega⟩
    simp [putList, takeList]
  | cons a as ih =>
    intro fuel h
    simp only [List.length_cons] at h
    obtain ⟨fuel, rfl⟩ : ∃ k, fuel = k + 1 := ⟨fuel - 1, by omega⟩
    simp [putList, takeList, c.take_put, ih fuel (by omega)]

theorem length_lt_putList (c : Codec α) : ∀ as : List α, as.length < (c.putList as).length
  | [] => by simp [putList]
  | a :: as => by
    have := c.length_lt_putList as
    simp only [putList, List.length_cons, List.length_append]
    omega

/-- A list of any length; the input's own length is fuel enough. -/
def list (c : Codec α) : Codec (List α) where
  put := c.putList
  take bs := c.takeList bs.length bs
  take_put as rest := by
    refine c.takeList_putList rest as _ ?_
    have := c.length_lt_putList as
    simp only [List.length_append]
    omega

end Codec

end Support
