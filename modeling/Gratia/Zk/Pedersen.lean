import Gratia.Consensus.Vrf

/-!
# Zk — Pedersen

`gratia-zk/src/pedersen.rs`, over the third-party crates it is built on: the generators and the
range proofs of `bulletproofs`, and the transcripts of `merlin` that bind a proof to its context.
-/

namespace Gratia

open Support (Bytes)

/-! ### The crates -/

/-- `merlin::Transcript`: its label, and the messages appended so far with their labels. -/
structure Transcript where
  label : Bytes
  messages : List (Bytes × Bytes) := []
deriving DecidableEq

def Transcript.appendMessage (t : Transcript) (label message : Bytes) : Transcript :=
  { t with messages := t.messages ++ [(label, message)] }

/-- `BulletproofGens::new(gens_capacity, party_capacity)`. -/
structure BulletproofGens where
  gensCapacity : ℕ
  partyCapacity : ℕ
deriving DecidableEq

structure Bulletproofs (P : Platform) where
  /-- `PedersenGens::default().B`. -/
  base : P.ristretto.Point
  /-- `PedersenGens::default().B_blinding`. -/
  baseBlinding : P.ristretto.Point
  /-- `RangeProof::from_bytes` accepts these bytes. -/
  isRangeProof : Bytes → Bool
  /-- `RangeProof::prove_multiple`, on its randomness, the values, their blinding factors and a number
  of bits: the bytes of the proof and the commitments, or the `Debug` text of an error. -/
  proveMultiple : Bytes → BulletproofGens → Transcript → List UInt64 → List P.Scalar → ℕ →
    Except String (Bytes × List Bytes32)
  /-- `RangeProof::verify_multiple`, on the bytes of a proof, the commitments and a number of bits. -/
  verifyMultiple : Bytes → BulletproofGens → Transcript → List Bytes32 → ℕ → Bool

def scalarFrom (P : Platform) (n : UInt64) : P.Scalar := (n.toNat : P.Scalar)

theorem RistrettoGroup.compress_inj (G : RistrettoGroup) {x y : G.Point} :
    G.compress x = G.compress y ↔ x = y := by
  refine ⟨fun h => ?_, congrArg G.compress⟩
  have hx := G.decompress_compress x
  rw [h, G.decompress_compress] at hx
  exact (Option.some.inj hx).symm

variable {P : Platform} (bp : Bulletproofs P)

def Bulletproofs.commit (value blinding : P.Scalar) : P.ristretto.Point :=
  value • bp.base + blinding • bp.baseBlinding

theorem Bulletproofs.commit_add (v r w s : P.Scalar) :
    bp.commit v r + bp.commit w s = bp.commit (v + w) (r + s) := by
  simp only [Bulletproofs.commit, add_smul]
  abel

/-! ### Commitments -/

structure PedersenCommitment where
  point : Bytes32
deriving DecidableEq

structure PedersenOpening (P : Platform) where
  value : UInt64
  blinding : P.Scalar

namespace Pedersen

/-- The point that an opening commits to. -/
def pointOf (opening : PedersenOpening P) : P.ristretto.Point :=
  bp.commit (scalarFrom P opening.value) opening.blinding

def commitWithBlinding (value : UInt64) (blinding : P.Scalar) :
    PedersenCommitment × PedersenOpening P :=
  (⟨P.ristretto.compress (pointOf bp ⟨value, blinding⟩)⟩, ⟨value, blinding⟩)

/-- `verify`.  Any 32 bytes make a `CompressedRistretto`. -/
def verify (commitment : PedersenCommitment) (opening : PedersenOpening P) :
    Except GratiaError Unit :=
  if P.ristretto.compress (pointOf bp opening) = commitment.point then .ok ()
  else .error (.invalidZkProof "commitment verification failed: value/blinding mismatch")

def decompress (P : Platform) (commitment : PedersenCommitment) :
    Except GratiaError P.ristretto.Point :=
  match P.ristretto.decompress commitment.point with
  | some point => .ok point
  | none => .error (.invalidZkProof "commitment point decompression failed")

theorem verify_commitWithBlinding (value : UInt64) (blinding : P.Scalar) :
    verify bp (commitWithBlinding bp value blinding).1 (commitWithBlinding bp value blinding).2 =
      .ok () :=
  if_pos rfl

theorem decompress_of_verify {bp : Bulletproofs P} {c : PedersenCommitment} {o : PedersenOpening P}
    (h : verify bp c o = .ok ()) : decompress P c = .ok (pointOf bp o) := by
  unfold verify at h
  split at h
  next hpoint =>
    unfold decompress
    rw [← hpoint, P.ristretto.decompress_compress]
  next => cases h

end Pedersen

end Gratia
