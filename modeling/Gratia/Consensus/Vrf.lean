import Gratia.Core.Crypto

/-!
# Consensus — VRF

`gratia-consensus/src/vrf.rs`: the verifiable random function of the block producers, a Schnorr-like
proof over the Ristretto group that one secret scalar underlies the public key and the output point.
-/

namespace Gratia

open Support

/-! ### Keys and proofs -/

/-- `VrfPublicKey`: a compressed Ristretto point. -/
structure VrfPublicKey where
  bytes : Bytes32
deriving DecidableEq

/-- `VrfSecretKey`: the canonical bytes of its scalar. -/
structure VrfSecretKey where
  scalar : Bytes32
deriving DecidableEq

structure VrfProof where
  output : Bytes32
  proofBytes : Bytes
deriving DecidableEq

def vrfProofSize : ℕ := 96

/-- The bytes of `VRF_HASH_TO_POINT_DOMAIN`, `b"gratia-vrf-h2c-v1"`. -/
def vrfHashToPointDomain : Bytes :=
  [103, 114, 97, 116, 105, 97, 45, 118, 114, 102, 45, 104, 50, 99, 45, 118, 49]

/-- The bytes of `VRF_CHALLENGE_DOMAIN`, `b"gratia-vrf-challenge-v1"`. -/
def vrfChallengeDomain : Bytes :=
  [103, 114, 97, 116, 105, 97, 45, 118, 114, 102, 45, 99, 104, 97, 108, 108, 101, 110, 103, 101, 45,
   118, 49]

/-- The bytes of `VRF_OUTPUT_DOMAIN`, `b"gratia-vrf-output-v1"`. -/
def vrfOutputDomain : Bytes :=
  [103, 114, 97, 116, 105, 97, 45, 118, 114, 102, 45, 111, 117, 116, 112, 117, 116, 45, 118, 49]

/-- The bytes of `b"gratia-vrf-keygen-v1:"`. -/
def vrfKeygenDomain : Bytes :=
  [103, 114, 97, 116, 105, 97, 45, 118, 114, 102, 45, 107, 101, 121, 103, 101, 110, 45, 118, 49, 58]

/-- The bytes of `b"gratia-vrf-nonce-v1:"`. -/
def vrfNonceDomain : Bytes :=
  [103, 114, 97, 116, 105, 97, 45, 118, 114, 102, 45, 110, 111, 110, 99, 101, 45, 118, 49, 58]

variable (P : Platform)

/-! ### Scalars -/

abbrev Platform.Scalar : Type := ZMod P.ristretto.order

instance : Fact P.ristretto.order.Prime := ⟨P.ristretto.prime⟩

/-- `Scalar::from_bytes_mod_order_wide`, of a SHA-512 hash. -/
def scalarFromWide (hash : Bytes32 × Bytes32) : P.Scalar :=
  (ofLeBytes (hash.1.bytes ++ hash.2.bytes) : ℕ)

def scalarBytes (x : P.Scalar) : Bytes32 := ⟨leBytes 32 x.val, length_leBytes _ _⟩

def scalarFromCanonicalBytes (bytes : Bytes) : Option P.Scalar :=
  if ofLeBytes bytes < P.ristretto.order then some (ofLeBytes bytes : ℕ) else none

def VrfSecretKey.toScalar (key : VrfSecretKey) : P.Scalar := (ofLeBytes key.scalar.bytes : ℕ)

def VrfSecretKey.fromEd25519Bytes (signingKeyBytes : Bytes32) : VrfSecretKey :=
  ⟨scalarBytes P (scalarFromWide P (P.sha512 (vrfKeygenDomain ++ signingKeyBytes.bytes)))⟩

def VrfSecretKey.publicKey (key : VrfSecretKey) : VrfPublicKey :=
  ⟨P.ristretto.compress (key.toScalar P • P.ristretto.basepoint)⟩

/-! ### Proving and verifying -/

def hashToPoint (input : Bytes) : P.ristretto.Point :=
  let hash := P.sha512 (vrfHashToPointDomain ++ input)
  P.ristretto.fromUniformBytes (hash.1.bytes ++ hash.2.bytes)

def computeChallenge (publicKey h gamma u v : P.ristretto.Point) : P.Scalar :=
  scalarFromWide P (P.sha512 (vrfChallengeDomain ++ (P.ristretto.compress publicKey).bytes ++
    (P.ristretto.compress h).bytes ++ (P.ristretto.compress gamma).bytes ++
    (P.ristretto.compress u).bytes ++ (P.ristretto.compress v).bytes))

def gammaToOutput (gamma : P.ristretto.Point) : Bytes32 :=
  (P.sha512 (vrfOutputDomain ++ (P.ristretto.compress gamma).bytes)).1

def generateVrfProof (secretKey : VrfSecretKey) (input : Bytes) : VrfProof :=
  let x := secretKey.toScalar P
  let h := hashToPoint P input
  let gamma := x • h
  let k := scalarFromWide P (P.sha512 (vrfNonceDomain ++ secretKey.scalar.bytes ++ input))
  let u := k • P.ristretto.basepoint
  let v := k • h
  let c := computeChallenge P (x • P.ristretto.basepoint) h gamma u v
  let s := k - c * x
  ⟨gammaToOutput P gamma,
    (P.ristretto.compress gamma).bytes ++ (scalarBytes P c).bytes ++ (scalarBytes P s).bytes⟩

/-- `CompressedRistretto::from_slice`, then `decompress`. -/
def decompressSlice (bytes : Bytes) : Option P.ristretto.Point :=
  if h : bytes.length = 32 then P.ristretto.decompress ⟨bytes, h⟩ else none

def orInvalidVrfProof {α : Type} : Option α → Except GratiaError α
  | some a => .ok a
  | none => .error .invalidVrfProof

def verifyVrfProof (publicKey : VrfPublicKey) (input : Bytes) (proof : VrfProof) :
    Except GratiaError Bytes32 := do
  if proof.proofBytes.length ≠ vrfProofSize then throw .invalidVrfProof
  let gamma ← orInvalidVrfProof (decompressSlice P (proof.proofBytes.take 32))
  let c ← orInvalidVrfProof (scalarFromCanonicalBytes P ((proof.proofBytes.drop 32).take 32))
  let s ← orInvalidVrfProof (scalarFromCanonicalBytes P ((proof.proofBytes.drop 64).take 32))
  let publicKeyPoint ← orInvalidVrfProof (P.ristretto.decompress publicKey.bytes)
  let h := hashToPoint P input
  let u := s • P.ristretto.basepoint + c • publicKeyPoint
  let v := s • h + c • gamma
  if c ≠ computeChallenge P publicKeyPoint h gamma u v then throw .invalidVrfProof
  let expectedOutput := gammaToOutput P gamma
  if proof.output ≠ expectedOutput then throw .invalidVrfProof
  return expectedOutput

/-! ### Using the output -/

def vrfOutputToSelection (output : Bytes32) (presenceScore : UInt8) : UInt64 :=
  UInt64.ofNat (ofLeBytes (output.bytes.take 8)) / (min (max presenceScore 40) 100).toUInt64

def buildVrfInput (previousBlockHash : Bytes32) (slotNumber : UInt64) : Bytes :=
  previousBlockHash.bytes ++ toBeBytes slotNumber

end Gratia
