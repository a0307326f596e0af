import Gratia.Core.Crypto
import Gratia.Support.Runs

/-!
# Wallet — Transactions

`gratia-wallet/src/transactions.rs`, and the keystores of `keystore.rs` it signs with.
-/

namespace Gratia

open Support

/-! ### Keystores -/

/-- `ed25519_dalek::SigningKey`, on the 32 bytes of a secret key. -/
structure SigningKeys (P : Platform) where
  /-- `verifying_key().as_bytes()`. -/
  verifyingKey : Bytes32 → Bytes
  /-- `sign(message).to_bytes()`. -/
  sign : Bytes32 → Bytes → Bytes
  /-- A key's signatures verify. -/
  verifies : ∀ secret message,
    verifySignature P (verifyingKey secret) message (sign secret message) = .ok ()

/-- `Keystore`, the methods that a transaction is signed with. -/
structure Keystore where
  sign : Bytes → Except GratiaError Bytes
  publicKeyBytes : Except GratiaError Bytes

/-- What a keystore signs verifies under the key it shows. -/
def Keystore.Honest (P : Platform) (keystore : Keystore) : Prop :=
  ∀ pubkey message signature, keystore.publicKeyBytes = .ok pubkey →
    keystore.sign message = .ok signature → verifySignature P pubkey message signature = .ok ()

structure SoftwareKeystore where
  signingKey : Option Bytes32 := none

/-- `impl Keystore for SoftwareKeystore`. -/
def SoftwareKeystore.toKeystore {P : Platform} (keys : SigningKeys P) (store : SoftwareKeystore) :
    Keystore where
  sign message :=
    match store.signingKey with
    | some key => .ok (keys.sign key message)
    | none => .error .walletLocked
  publicKeyBytes :=
    match store.signingKey with
    | some key => .ok (keys.verifyingKey key)
    | none => .error .walletLocked

theorem SoftwareKeystore.honest {P : Platform} (keys : SigningKeys P) (store : SoftwareKeystore) :
    (store.toKeystore keys).Honest P := by
  intro pubkey message signature hkey hsig
  unfold toKeystore at hkey hsig
  cases hs : store.signingKey with
  | none => simp [hs] at hkey
  | some secret =>
    simp only [hs, Except.ok.injEq] at hkey hsig
    rw [← hkey, ← hsig]
    exact keys.verifies secret message

/-! ### Building and checking -/

variable (P : Platform)

def signableBytes (payload : TransactionPayload) (nonce : UInt64) (chainId : UInt32) (fee : Lux)
    (timestamp : DateTime) : Bytes :=
  P.payload.put payload ++ toLeBytes nonce ++ leBytes 4 chainId.toNat ++ toLeBytes fee ++
    toLeBytes timestamp.timestampMillis.toUInt64

def computeTxHash (senderPubkey signable signature : Bytes) : TxHash :=
  ⟨P.sha256 (senderPubkey ++ signable ++ signature)⟩

/-- `TransactionBuilder`; its default chain is the testnet. -/
structure TransactionBuilder where
  keystore : Keystore
  nonce : UInt64
  fee : Lux
  chainId : UInt32 := 2

namespace TransactionBuilder

def buildAndSign (b : TransactionBuilder) (now : DateTime) (payload : TransactionPayload) :
    Except GratiaError Transaction := do
  let senderPubkey ← b.keystore.publicKeyBytes
  let signable := signableBytes P payload b.nonce b.chainId b.fee now
  let signature ← b.keystore.sign signable
  .ok
    { hash := computeTxHash P senderPubkey signable signature, payload := payload,
      senderPubkey := senderPubkey, signature := signature, nonce := b.nonce,
      chainId := b.chainId, fee := b.fee, timestamp := now }

variable {P} in
/-- What is built has the payload, the builder's fields and its keystore's signature. -/
theorem buildAndSign_ok {b : TransactionBuilder} {now : DateTime} {payload : TransactionPayload}
    {tx : Transaction} (h : b.buildAndSign P now payload = .ok tx) :
    b.keystore.publicKeyBytes = .ok tx.senderPubkey ∧
      b.keystore.sign (signableBytes P payload b.nonce b.chainId b.fee now) = .ok tx.signature ∧
      tx = { hash := computeTxHash P tx.senderPubkey
               (signableBytes P payload b.nonce b.chainId b.fee now) tx.signature,
             payload := payload, senderPubkey := tx.senderPubkey, signature := tx.signature,
             nonce := b.nonce, chainId := b.chainId, fee := b.fee, timestamp := now } := by
  obtain ⟨senderPubkey, hkey, h⟩ := except_bind_ok.mp h
  obtain ⟨signature, hsig, h⟩ := except_bind_ok.mp h
  cases h
  exact ⟨hkey, hsig, rfl⟩

end TransactionBuilder

def verifyTransaction (tx : Transaction) : Except GratiaError Unit := do
  let signable := signableBytes P tx.payload tx.nonce tx.chainId tx.fee tx.timestamp
  verifySignature P tx.senderPubkey signable tx.signature
  if tx.hash ≠ computeTxHash P tx.senderPubkey signable tx.signature then
    .error (.blockValidationFailed "transaction hash mismatch")
  else .ok ()

end Gratia
