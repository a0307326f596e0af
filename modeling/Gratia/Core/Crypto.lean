import Gratia.Core.Types

/-!
# Core — Crypto

`gratia-core/src/crypto.rs`, over a `Platform`: the third-party functions the protocol is built on.
SHA-2, Ed25519 and the Ristretto group are what `sha2`, `ed25519-dalek` and `curve25519-dalek`
compute; a `Codec` for each stored or hashed type is what `bincode` writes and reads.
`bincode::serialize` into a growing buffer fails only on a size limit or on a type that refuses to
be serialized, and neither occurs here, so writing is total; reading fails on bytes that are no
encoding.
-/

namespace Gratia

open Support

/-! ### The platform -/

/-- The Ristretto group of `curve25519-dalek`: a group of prime order, over the integers modulo that
order as its scalars, in which every point has one encoding. -/
structure RistrettoGroup where
  order : ℕ
  prime : order.Prime
  order_lt : order < 2 ^ 256
  Point : Type
  [group : AddCommGroup Point]
  [module : Module (ZMod order) Point]
  basepoint : Point
  compress : Point → Bytes32
  decompress : Bytes32 → Option Point
  decompress_compress : ∀ x, decompress (compress x) = some x
  compress_of_decompress : ∀ b x, decompress b = some x → compress x = b
  /-- `RistrettoPoint::from_uniform_bytes`. -/
  fromUniformBytes : Bytes → Point

attribute [instance] RistrettoGroup.group RistrettoGroup.module

/-- What the protocol computes with but does not define. -/
structure Platform where
  /-- `sha2::Sha256`. -/
  sha256 : Bytes → Bytes32
  /-- `VerifyingKey::from_bytes` accepts these 32 bytes. -/
  isVerifyingKey : Bytes → Bool
  /-- `VerifyingKey::verify`, on a key, a message and the 64 bytes of a signature. -/
  verify : Bytes → Bytes → Bytes → Bool
  /-- `sha2::Sha512`, its 64 bytes in two halves. -/
  sha512 : Bytes → Bytes32 × Bytes32
  ristretto : RistrettoGroup
  header : Codec BlockHeader
  block : Codec Block
  transaction : Codec Transaction
  payload : Codec TransactionPayload
  attestation : Codec ProofOfLifeAttestation
  account : Codec AccountState

variable (P : Platform)

/-! ### Integers as bytes -/

def toLeBytes (n : UInt64) : Bytes := leBytes 8 n.toNat

def toBeBytes (n : UInt64) : Bytes := (leBytes 8 n.toNat).reverse

def fromBeBytes (bs : Bytes) : UInt64 := UInt64.ofNat (ofLeBytes bs.reverse)

@[simp] theorem length_toBeBytes (n : UInt64) : (toBeBytes n).length = 8 := by
  simp [toBeBytes]

@[simp] theorem fromBeBytes_toBeBytes (n : UInt64) : fromBeBytes (toBeBytes n) = n := by
  simp [fromBeBytes, toBeBytes, ofLeBytes_leBytes]

/-! ### Signatures and hashes -/

/-- `verify_signature`: the key must be 32 bytes naming a curve point, the signature 64 bytes. -/
def verifySignature (publicKeyBytes message signatureBytes : Bytes) : Except GratiaError Unit :=
  if publicKeyBytes.length = 32 ∧ P.isVerifyingKey publicKeyBytes ∧ signatureBytes.length = 64 ∧
      P.verify publicKeyBytes message signatureBytes then
    .ok ()
  else
    .error .invalidSignature

def sha256Multi (segments : List Bytes) : Bytes32 := P.sha256 segments.flatten

/-- One level of the tree: adjacent pairs are hashed together, an odd last node with itself. -/
def merkleLevel : List Bytes32 → List Bytes32
  | a :: b :: rest => sha256Multi P [a.bytes, b.bytes] :: merkleLevel rest
  | [a] => [sha256Multi P [a.bytes, a.bytes]]
  | [] => []

theorem length_merkleLevel : ∀ l, (merkleLevel P l).length = (l.length + 1) / 2
  | [] => by simp [merkleLevel]
  | [_] => by simp [merkleLevel]
  | a :: b :: rest => by
    simp only [merkleLevel, List.length_cons, length_merkleLevel rest]
    omega

/-- The `while current_level.len() > 1` loop, for at most `fuel` rounds. -/
def merkleLoop : ℕ → List Bytes32 → List Bytes32
  | 0, level => level
  | fuel + 1, level => if level.length > 1 then merkleLoop fuel (merkleLevel P level) else level

theorem length_merkleLoop : ∀ (fuel : ℕ) (level : List Bytes32), 0 < level.length →
    level.length ≤ fuel + 1 → (merkleLoop P fuel level).length = 1
  | 0, level, h₀, h => by simp only [merkleLoop]; omega
  | fuel + 1, level, h₀, h => by
    simp only [merkleLoop]
    split
    · refine length_merkleLoop fuel _ ?_ ?_ <;> rw [length_merkleLevel] <;> omega
    · omega

def merkleRoot (hashes : List Bytes32) : Bytes32 :=
  if hashes = [] then .zero else (merkleLoop P hashes.length hashes).headD .zero

@[simp] theorem merkleRoot_singleton (h : Bytes32) : merkleRoot P [h] = h := rfl

def BlockHeader.hash (header : BlockHeader) : BlockHash := ⟨P.sha256 (P.header.put header)⟩

/-- The bytes of `b"gratia-address-v1:"`. -/
def addressDomain : Bytes :=
  [103, 114, 97, 116, 105, 97, 45, 97, 100, 100, 114, 101, 115, 115, 45, 118, 49, 58]

/-- `address_from_pubkey` of `gratia-state/src/lib.rs`, with `Address::from_public_key`. -/
def addressFromPubkey (pubkeyBytes : Bytes) : Except GratiaError Address :=
  if pubkeyBytes.length ≠ 32 then .error .invalidSignature
  else if P.isVerifyingKey pubkeyBytes then .ok ⟨P.sha256 (addressDomain ++ pubkeyBytes)⟩
  else .error .invalidSignature

/-- `payload_bytes || nonce || chain_id || fee || timestamp_millis`, what a transaction signs. -/
def Transaction.signable (tx : Transaction) : Bytes :=
  P.payload.put tx.payload ++ toLeBytes tx.nonce ++ leBytes 4 tx.chainId.toNat ++
    toLeBytes tx.fee ++ toLeBytes tx.timestamp.timestampMillis.toUInt64

/-- The hash a transaction's contents have: `SHA256(sender_pubkey || signable || signature)`, as
the wallet computes it and `validate_transaction` recomputes it. -/
def Transaction.contentHash (tx : Transaction) : Bytes32 :=
  P.sha256 (tx.senderPubkey ++ tx.signable P ++ tx.signature)

/-- The hash of an attestation, as the block producer computes it. -/
def ProofOfLifeAttestation.leaf (a : ProofOfLifeAttestation) : Bytes32 :=
  P.sha256 (P.attestation.put a)

end Gratia
