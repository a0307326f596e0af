import Gratia.Consensus.Validation
import Gratia.Core.Mempool
import Gratia.Wallet.Transactions

/-!
# Wallet — the signing format

Four places write down the bytes that a transaction signs: the wallet that builds it, the mempool,
`validate_transaction` and `process_incoming_block`.
-/

namespace Gratia

open Support (Bytes Codec)

/-! ### The format -/

def Transaction.signedContent (tx : Transaction) :
    TransactionPayload × UInt64 × UInt32 × Lux × Int64 :=
  (tx.payload, tx.nonce, tx.chainId, tx.fee, tx.timestamp.timestampMillis)

variable (P : Platform)

def Transaction.walletBytes (tx : Transaction) : Bytes :=
  signableBytes P tx.payload tx.nonce tx.chainId tx.fee tx.timestamp

def signableCodec : Codec (TransactionPayload × UInt64 × UInt32 × UInt64 × UInt64) :=
  P.payload.pair (Codec.u64.pair (Codec.u32.pair (Codec.u64.pair Codec.u64)))

variable {P}

theorem signableBytes_eq_put (payload : TransactionPayload) (nonce : UInt64) (chainId : UInt32)
    (fee : Lux) (timestamp : DateTime) :
    signableBytes P payload nonce chainId fee timestamp =
      (signableCodec P).put
        (payload, nonce, chainId, fee, timestamp.timestampMillis.toUInt64) := by
  unfold signableBytes
  simp only [List.append_assoc]
  rfl

variable {tx : Transaction}

theorem walletBytes_eq_iff {tx' : Transaction} :
    tx.walletBytes P = tx'.walletBytes P ↔ tx.signedContent = tx'.signedContent := by
  unfold Transaction.walletBytes Transaction.signedContent
  rw [signableBytes_eq_put, signableBytes_eq_put, (signableCodec P).put_injective.eq_iff]
  have hinj : Function.Injective Int64.toUInt64 :=
    Function.LeftInverse.injective (g := UInt64.toInt64) fun n => by simp
  simp only [Prod.mk.injEq, hinj.eq_iff]

/-! ### The four places -/

/-- Every place rebuilds the bytes that the wallet signed. -/
def OneFormat (P : Platform) (tx : Transaction) : Prop :=
  ValidatedMempool.computeSignableBytes P tx = tx.walletBytes P ∧
    validateTransaction.signable P tx = tx.walletBytes P ∧ tx.signable P = tx.walletBytes P

/-- The signature and the hash hold up everywhere: a place refuses the transaction only for what
else it looks at. -/
def PassesEverywhere (P : Platform) (tx : Transaction) : Prop :=
  verifyTransaction P tx = .ok () ∧
    (∀ pool : ValidatedMempool, tx.hash.bytes ∉ pool.seenHashes →
      pool.pending.length < pool.maxSize → (pool.addTransaction P tx).1 = .ok ()) ∧
    (∀ minFee ≤ tx.fee, validatePayload tx.payload = .ok () →
      validateTransaction P tx minFee = .ok ()) ∧
    ∀ i, ConsensusEngine.checkTransaction P (tx, i) = .ok ()

/-- No place accepts the transaction. -/
def RefusedEverywhere (P : Platform) (tx : Transaction) : Prop :=
  verifyTransaction P tx ≠ .ok () ∧
    (∀ pool : ValidatedMempool, (pool.addTransaction P tx).1 ≠ .ok ()) ∧
    (∀ minFee, validateTransaction P tx minFee ≠ .ok ()) ∧
    ∀ i, ConsensusEngine.checkTransaction P (tx, i) ≠ .ok ()

def Transaction.Signed (P : Platform) (tx : Transaction) : Prop :=
  verifySignature P tx.senderPubkey (tx.walletBytes P) tx.signature = .ok ()

theorem verifyTransaction_ok : verifyTransaction P tx = .ok () ↔
    tx.Signed P ∧ tx.hash = computeTxHash P tx.senderPubkey (tx.walletBytes P) tx.signature := by
  unfold verifyTransaction Transaction.Signed
  show (verifySignature P tx.senderPubkey (tx.walletBytes P) tx.signature >>= fun _ =>
    if tx.hash ≠ computeTxHash P tx.senderPubkey (tx.walletBytes P) tx.signature then _ else _) = _
      ↔ _
  cases verifySignature P tx.senderPubkey (tx.walletBytes P) tx.signature with
  | error e | ok u => simp

theorem addTransaction_ok {pool : ValidatedMempool} :
    (pool.addTransaction P tx).1 = .ok () ↔
      tx.hash.bytes ∉ pool.seenHashes ∧ pool.pending.length < pool.maxSize ∧
      tx.hash = computeTxHash P tx.senderPubkey (tx.walletBytes P) tx.signature ∧ tx.Signed P := by
  rw [ValidatedMempool.addTransaction_ok_iff]
  -- The pool writes down the format and the hash once more, in the same words.
  exact ⟨fun ha => ⟨ha.unseen, ha.room, ha.hash, ha.signature⟩,
    fun h => ⟨h.1, h.2.1, h.2.2.1, h.2.2.2⟩⟩

theorem passesEverywhere_of_signed (hsig : tx.Signed P)
    (hhash : tx.hash = computeTxHash P tx.senderPubkey (tx.walletBytes P) tx.signature) :
    PassesEverywhere P tx := by
  refine ⟨verifyTransaction_ok.mpr ⟨hsig, hhash⟩, ?_, ?_, ?_⟩
  · exact fun pool hnew hroom => addTransaction_ok.mpr ⟨hnew, hroom, hhash, hsig⟩
  · exact fun minFee hfee hpay => validateTransaction_ok.mpr
      ⟨hsig, congrArg TxHash.bytes hhash, hfee, hpay⟩
  · exact fun i => ConsensusEngine.checkTransaction_ok.mpr hsig

theorem refusedEverywhere_of_not_signed (hsig : ¬ tx.Signed P) : RefusedEverywhere P tx := by
  refine ⟨fun h => ?_, fun pool h => ?_, fun minFee h => ?_, fun i h => ?_⟩
  · exact hsig (verifyTransaction_ok.mp h).1
  · exact hsig (addTransaction_ok.mp h).2.2.2
  · exact hsig (validateTransaction_ok.mp h).1
  · exact hsig (ConsensusEngine.checkTransaction_ok.mp h)

/-! ### The wallet -/

/-- No signature verifies under this key for two of these messages. -/
def Unforgeable (P : Platform) (key : Bytes) (messages : Set Bytes) : Prop :=
  ∀ signature, ∀ m ∈ messages, ∀ m' ∈ messages, verifySignature P key m signature = .ok () →
    verifySignature P key m' signature = .ok () → m = m'

/-- **One signing format everywhere.** -/
theorem signing_format (P : Platform) :
    (∀ tx, OneFormat P tx) ∧
    (∀ tx tx' : Transaction,
      tx.walletBytes P = tx'.walletBytes P ↔ tx.signedContent = tx'.signedContent) ∧
    (∀ (b : TransactionBuilder) now payload tx, b.keystore.Honest P →
      b.buildAndSign P now payload = .ok tx →
        tx.signedContent = (payload, b.nonce, b.chainId, b.fee, now.timestampMillis) ∧
        b.keystore.sign (tx.walletBytes P) = .ok tx.signature ∧ PassesEverywhere P tx) ∧
    ∀ messages (tx tx' : Transaction), Unforgeable P tx.senderPubkey messages →
      tx.walletBytes P ∈ messages → tx'.walletBytes P ∈ messages → tx.Signed P →
      tx'.senderPubkey = tx.senderPubkey → tx'.signature = tx.signature →
      tx'.signedContent ≠ tx.signedContent → RefusedEverywhere P tx' := by
  refine ⟨fun tx => ⟨rfl, rfl, rfl⟩, fun tx tx' => walletBytes_eq_iff, ?_, ?_⟩
  · intro b now payload tx hhonest hbuild
    obtain ⟨hkey, hsig, htx⟩ := TransactionBuilder.buildAndSign_ok hbuild
    -- the bytes that are signed are those of the transaction
    have hcontent : tx.signedContent =
        (payload, b.nonce, b.chainId, b.fee, now.timestampMillis) := by
      rw [htx]
      rfl
    have hbytes : tx.walletBytes P = signableBytes P payload b.nonce b.chainId b.fee now := by
      rw [htx]
      rfl
    have hhash : tx.hash = computeTxHash P tx.senderPubkey (tx.walletBytes P) tx.signature := by
      rw [hbytes]
      exact congrArg Transaction.hash htx
    rw [← hbytes] at hsig
    exact ⟨hcontent, hsig, passesEverywhere_of_signed (hhonest _ _ _ hkey hsig) hhash⟩
  · intro messages tx tx' hunf hmem hmem' hsigned hkey hsig hne
    refine refusedEverywhere_of_not_signed fun hsigned' => hne ?_
    unfold Transaction.Signed at hsigned hsigned'
    rw [hkey, hsig] at hsigned'
    exact walletBytes_eq_iff.mp (hunf _ _ hmem' _ hmem hsigned' hsigned)

/-! ### A transfer -/

namespace Reference

def signingKeys : SigningKeys reference where
  verifyingKey secret := secret.bytes
  sign secret message := sign secret.bytes message
  verifies secret message := by
    simp [verifySignature, secret.length_eq, reference, sign]

theorem eq_sign_of_verifySignature {key message signature : Bytes}
    (h : verifySignature reference key message signature = .ok ()) :
    signature = sign key message := by
  unfold verifySignature at h
  split at h
  · next hv => exact eq_of_beq hv.2.2.2
  · cases h

theorem unforgeable_pair {key m m' : Bytes} (h : sign key m ≠ sign key m') :
    Unforgeable reference key {m, m'} := by
  rintro signature x (rfl | rfl) y (rfl | rfl) hx hy
  · rfl
  · exact absurd ((eq_sign_of_verifySignature hx).symm.trans (eq_sign_of_verifySignature hy)) h
  · exact absurd ((eq_sign_of_verifySignature hy).symm.trans (eq_sign_of_verifySignature hx)) h
  · rfl

def builder : TransactionBuilder :=
  { keystore := SoftwareKeystore.toKeystore signingKeys ⟨some (.splat 1)⟩, nonce := 0, fee := 1000 }

def transferTx : Transaction := signedTx (key 1) (.transfer (addressOf (key 2)) 5) 0 1000

end Reference

open Reference in
/-- A transfer passes everywhere, and nowhere with a lower fee. -/
theorem signing_format_transfer :
    builder.buildAndSign reference ⟨0, 0⟩ (.transfer (addressOf (key 2)) 5) = .ok transferTx ∧
      PassesEverywhere reference transferTx ∧
      RefusedEverywhere reference { transferTx with fee := 1 } := by
  have hbuild : builder.buildAndSign reference ⟨0, 0⟩ (.transfer (addressOf (key 2)) 5) =
      .ok transferTx := rfl
  obtain ⟨-, -, hpass, hrefuse⟩ := signing_format reference
  have hhonest : builder.keystore.Honest reference := SoftwareKeystore.honest _ _
  refine ⟨hbuild, (hpass builder _ _ _ hhonest hbuild).2.2, ?_⟩
  refine hrefuse {transferTx.walletBytes reference,
    ({ transferTx with fee := 1 } : Transaction).walletBytes reference} transferTx _
    (unforgeable_pair (by decide +kernel)) (.inl rfl) (.inr rfl) ?_ rfl rfl (by decide +kernel)
  unfold Transaction.Signed
  decide +kernel

end Gratia
