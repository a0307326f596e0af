import Gratia.Core.Crypto

/-!
# Core — Reference

A platform to compute with.  The protocol is stated over any `Platform`; `reference` is one whose
functions are a few lines each, so that a run of the protocol on concrete blocks is evaluated by the
kernel.  Its hash is a polynomial in the bytes, taken modulo `2 ^ 256`; a signature is determined by
the key and the message; its codecs are assembled from those of `Codec`, field by field in
the order the source declares them.
-/

namespace Gratia

open Support

namespace Reference

/-! ### Hash and signatures -/

def digest (bs : Bytes) : ℕ := bs.foldl (fun h b => (h * 257 + b.toNat + 1) % 2 ^ 256) 0

def sha256 (bs : Bytes) : Bytes32 := ⟨leBytes 32 (digest bs), length_leBytes _ _⟩

def sign (key message : Bytes) : Bytes := leBytes 64 (digest (key ++ message))

/-- The integers modulo 251, a point being encoded by its residue 32 times over. -/
def ristretto : RistrettoGroup where
  order := 251
  prime := by norm_num
  order_lt := by norm_num
  Point := ZMod 251
  basepoint := 1
  compress x := .splat (UInt8.ofNat x.val)
  decompress b :=
    let n := (b.bytes.headD 0).toNat
    if n < 251 ∧ b = .splat (b.bytes.headD 0) then some (n : ZMod 251) else none
  decompress_compress x := by
    have hx : x.val < 251 := ZMod.val_lt x
    have hn : (UInt8.ofNat x.val).toNat = x.val :=
      UInt8.toNat_ofNat_of_lt' (Nat.lt_trans hx (by decide))
    have hhead : (Bytes32.splat (UInt8.ofNat x.val)).bytes.headD 0 = UInt8.ofNat x.val := rfl
    simp only [hhead, hn, hx, and_self, if_true, ZMod.natCast_val, ZMod.cast_id', id]
  compress_of_decompress b x h := by
    simp only at h
    split at h
    · next hb =>
        cases h
        rw [ZMod.val_natCast_of_lt hb.1, UInt8.ofNat_toNat]
        exact hb.2.symm
    · cases h
  fromUniformBytes bs := (digest bs : ZMod 251)

/-! ### Codecs -/

def bytes : Codec Bytes := Codec.byte.list

def bytes32 : Codec Bytes32 :=
  (Codec.exact 32).embed (fun b => ⟨b.bytes, b.length_eq⟩) (fun b => some ⟨b.1, b.2⟩) fun _ => rfl

def nodeId : Codec NodeId := bytes32.embed NodeId.bytes (fun b => some ⟨b⟩) fun _ => rfl

def address : Codec Address := bytes32.embed Address.bytes (fun b => some ⟨b⟩) fun _ => rfl

def blockHash : Codec BlockHash := bytes32.embed BlockHash.bytes (fun b => some ⟨b⟩) fun _ => rfl

def txHash : Codec TxHash := bytes32.embed TxHash.bytes (fun b => some ⟨b⟩) fun _ => rfl

def text : Codec String :=
  Codec.u32.list.embed (fun s => s.toList.map fun c => c.val)
    (fun l => some (String.ofList (l.map fun n => Char.ofNat n.toNat))) fun s => by
      simp [Function.comp_def]

def i64 : Codec Int64 :=
  Codec.u64.embed Int64.toUInt64 (fun n => some n.toInt64) fun n => by simp

def i32 : Codec Int32 :=
  Codec.u32.embed Int32.toUInt32 (fun n => some n.toInt32) fun n => by simp

def u8 : Codec UInt8 := Codec.byte

def dateTime : Codec DateTime :=
  (i64.pair Codec.u32).embed (fun t => (t.secs, t.nanos)) (fun t => some ⟨t.1, t.2⟩) fun _ => rfl

def vote : Codec Vote :=
  Codec.byte.embed (fun | .yes => 0 | .no => 1 | .abstain => 2)
    (fun | 0 => some .yes | 1 => some .no | 2 => some .abstain | _ => none)
    fun v => by cases v <;> rfl

def geographicFilter : Codec GeographicFilter :=
  (Codec.u64.pair (Codec.u64.pair Codec.u64)).embed (fun g => (g.lat, g.lon, g.radiusKm))
    (fun g => some ⟨g.1, g.2.1, g.2.2⟩) fun _ => rfl

def payload : Codec TransactionPayload :=
  ((address.pair Codec.u64).sum <| (bytes.pair (bytes.pair bytes)).sum <| Codec.u64.sum <|
    Codec.u64.sum <| (bytes.pair bytes).sum <|
    (address.pair (text.pair (bytes.pair Codec.u64))).sum <| (text.pair (text.pair bytes)).sum <|
    (bytes32.pair vote).sum <|
    (text.pair (text.list.pair (Codec.u64.pair geographicFilter.option))).sum
      (bytes32.pair Codec.u32)).embed
  (fun
    | .transfer recipient amount => .inl (recipient, amount)
    | .shieldedTransfer a b c => .inr (.inl (a, b, c))
    | .stake amount => .inr (.inr (.inl amount))
    | .unstake amount => .inr (.inr (.inr (.inl amount)))
    | .deployContract a b => .inr (.inr (.inr (.inr (.inl (a, b)))))
    | .callContract a b c d => .inr (.inr (.inr (.inr (.inr (.inl (a, b, c, d))))))
    | .governanceProposal a b c => .inr (.inr (.inr (.inr (.inr (.inr (.inl (a, b, c)))))))
    | .governanceVote a b => .inr (.inr (.inr (.inr (.inr (.inr (.inr (.inl (a, b))))))))
    | .createPoll a b c d =>
      .inr (.inr (.inr (.inr (.inr (.inr (.inr (.inr (.inl (a, b, c, d)))))))))
    | .pollVote a b => .inr (.inr (.inr (.inr (.inr (.inr (.inr (.inr (.inr (a, b))))))))))
  (fun
    | .inl (recipient, amount) => some (.transfer recipient amount)
    | .inr (.inl (a, b, c)) => some (.shieldedTransfer a b c)
    | .inr (.inr (.inl amount)) => some (.stake amount)
    | .inr (.inr (.inr (.inl amount))) => some (.unstake amount)
    | .inr (.inr (.inr (.inr (.inl (a, b))))) => some (.deployContract a b)
    | .inr (.inr (.inr (.inr (.inr (.inl (a, b, c, d)))))) => some (.callContract a b c d)
    | .inr (.inr (.inr (.inr (.inr (.inr (.inl (a, b, c))))))) => some (.governanceProposal a b c)
    | .inr (.inr (.inr (.inr (.inr (.inr (.inr (.inl (a, b)))))))) => some (.governanceVote a b)
    | .inr (.inr (.inr (.inr (.inr (.inr (.inr (.inr (.inl (a, b, c, d))))))))) =>
      some (.createPoll a b c d)
    | .inr (.inr (.inr (.inr (.inr (.inr (.inr (.inr (.inr (a, b))))))))) => some (.pollVote a b))
  fun p => by cases p <;> rfl

def transaction : Codec Transaction :=
  (txHash.pair (payload.pair (bytes.pair (bytes.pair (Codec.u64.pair (Codec.u32.pair
    (Codec.u64.pair dateTime))))))).embed
  (fun t =>
    (t.hash, t.payload, t.senderPubkey, t.signature, t.nonce, t.chainId, t.fee, t.timestamp))
  (fun (a, b, c, d, e, f, g, h) => some ⟨a, b, c, d, e, f, g, h⟩) fun _ => rfl

def sensorFlags : Codec SensorFlags :=
  (Codec.bool.pair (Codec.bool.pair (Codec.bool.pair (Codec.bool.pair (Codec.bool.pair
    (Codec.bool.pair (Codec.bool.pair (Codec.bool.pair (Codec.bool.pair (Codec.bool.pair
    (Codec.bool.pair (Codec.bool.pair (Codec.bool.pair Codec.bool))))))))))))).embed
  (fun f => (f.gps, f.accelerometer, f.wifi, f.bluetooth, f.gyroscope, f.ambientLight, f.cellular,
    f.barometer, f.magnetometer, f.nfc, f.secureEnclave, f.biometric, f.cameraHash,
    f.microphoneHash))
  (fun (a, b, c, d, e, f, g, h, i, j, k, l, m, n) =>
    some ⟨a, b, c, d, e, f, g, h, i, j, k, l, m, n⟩)
  fun _ => rfl

def attestation : Codec ProofOfLifeAttestation :=
  (bytes32.pair (bytes32.pair (bytes.pair (bytes.list.option.pair (Codec.u32.pair (u8.pair
    (sensorFlags.pair bytes))))))).embed
  (fun a => (a.blindedId, a.nullifier, a.zkProof, a.zkCommitments, a.epochDay, a.presenceScore,
    a.sensorFlags, a.signature))
  (fun (a, b, c, d, e, f, g, h) => some ⟨a, b, c, d, e, f, g, h⟩) fun _ => rfl

def header : Codec BlockHeader :=
  (Codec.u64.pair (dateTime.pair (blockHash.pair (bytes32.pair (bytes32.pair (bytes32.pair
    (nodeId.pair (bytes.pair (Codec.u64.pair (Codec.u16.pair bytes)))))))))).embed
  (fun h => (h.height, h.timestamp, h.parentHash, h.transactionsRoot, h.stateRoot,
    h.attestationsRoot, h.producer, h.vrfProof, h.activeMiners, h.geographicDiversity,
    h.producerPubkey))
  (fun (a, b, c, d, e, f, g, h, i, j, k) => some ⟨a, b, c, d, e, f, g, h, i, j, k⟩) fun _ => rfl

def validatorSignature : Codec ValidatorSignature :=
  (nodeId.pair bytes).embed (fun v => (v.validator, v.signature)) (fun (a, b) => some ⟨a, b⟩)
    fun _ => rfl

def block : Codec Block :=
  (header.pair (transaction.list.pair (attestation.list.pair validatorSignature.list))).embed
  (fun b => (b.header, b.transactions, b.attestations, b.validatorSignatures))
  (fun (a, b, c, d) => some ⟨a, b, c, d⟩) fun _ => rfl

def account : Codec AccountState :=
  (Codec.u64.pair (Codec.u64.pair (Codec.u64.pair (Codec.u64.pair (Codec.bool.pair (Codec.u64.pair
    (i32.option.pair nodeId.option))))))).embed
  (fun a => (a.balance, a.nonce, a.staked, a.overflowStake, a.polValid, a.polConsecutiveDays,
    a.lastPolDate, a.nodeId))
  (fun (a, b, c, d, e, f, g, h) => some ⟨a, b, c, d, e, f, g, h⟩) fun _ => rfl

end Reference

/-! ### The platform -/

def reference : Platform where
  sha256 := Reference.sha256
  isVerifyingKey _ := true
  verify key message signature := signature == Reference.sign key message
  sha512 bs := (Reference.sha256 bs, Reference.sha256 (0 :: bs))
  ristretto := Reference.ristretto
  header := Reference.header
  block := Reference.block
  transaction := Reference.transaction
  payload := Reference.payload
  attestation := Reference.attestation
  account := Reference.account

/-! ### Pieces of concrete runs -/

namespace Reference

def key (n : UInt8) : Bytes := List.replicate 32 n

def addressOf (key : Bytes) : Address := ⟨sha256 (addressDomain ++ key)⟩

def node (n : UInt8) : NodeId := ⟨.splat n⟩

def signedTx (sender : Bytes) (payload : TransactionPayload) (nonce : UInt64) (fee : Lux) :
    Transaction :=
  let tx : Transaction :=
    { hash := ⟨.zero⟩, payload := payload, senderPubkey := sender, signature := [], nonce := nonce,
      chainId := 2, fee := fee, timestamp := ⟨0, 0⟩ }
  let tx := { tx with signature := sign sender (tx.signable reference) }
  { tx with hash := ⟨tx.contentHash reference⟩ }

def headerAt (height : UInt64) (parentHash : BlockHash) (producer : NodeId) : BlockHeader :=
  { height := height, timestamp := ⟨0, 0⟩, parentHash := parentHash, transactionsRoot := .zero,
    stateRoot := .zero, attestationsRoot := .zero, producer := producer, vrfProof := [],
    activeMiners := 1, geographicDiversity := 0, producerPubkey := [] }

def blockOf (header : BlockHeader) (transactions : List Transaction) : Block :=
  { header := header, transactions := transactions, attestations := [], validatorSignatures := [] }

end Reference

end Gratia
