import Gratia.Support.Codec
import Gratia.Support.Maps

/-!
# Core — Types

The protocol types of `gratia-core/src/types.rs`, the errors of `error.rs` and the account record of
`gratia-state/src/db.rs`.  `[u8; 32]` is `Bytes32`, a byte string that carries its length; `u64`,
`u32`, `u16` and `u8` are Lean's wrapping words, which is how the release profile of the workspace
(`[profile.release]`, without `overflow-checks`) computes.  A `chrono::DateTime<Utc>` is its
timestamp in seconds with the nanoseconds of the second; an `f64` is its bit pattern, which is all
that serialization sees of it.
-/

namespace Gratia

open Support Std

structure Bytes32 where
  bytes : Bytes
  length_eq : bytes.length = 32
deriving DecidableEq

namespace Bytes32

def splat (b : UInt8) : Bytes32 := ⟨List.replicate 32 b, List.length_replicate⟩

def zero : Bytes32 := splat 0

theorem bytes_injective : Function.Injective Bytes32.bytes := by
  rintro ⟨a, ha⟩ ⟨b, hb⟩ h
  simpa using h

instance : Ord Bytes32 := ordOn bytes
instance : TransOrd Bytes32 := transOrd_on bytes
instance : LawfulEqOrd Bytes32 := lawfulEqOrd_on bytes bytes_injective

def hexEncode (b : Bytes32) : String :=
  String.ofList
    (b.bytes.flatMap fun x => [Nat.digitChar (x.toNat / 16), Nat.digitChar (x.toNat % 16)])

end Bytes32

/-! ### Identities and hashes -/

structure NodeId where
  bytes : Bytes32
deriving DecidableEq

structure Address where
  bytes : Bytes32
deriving DecidableEq

/-- `BlockHash`; its `Default` is the zero hash. -/
structure BlockHash where
  bytes : Bytes32 := .zero
deriving DecidableEq

theorem BlockHash.bytes_injective : Function.Injective BlockHash.bytes := by
  rintro ⟨a⟩ ⟨b⟩ h
  exact congrArg _ h

structure TxHash where
  bytes : Bytes32
deriving DecidableEq

theorem NodeId.bytes_injective : Function.Injective NodeId.bytes := by
  rintro ⟨a⟩ ⟨b⟩ h
  exact congrArg _ h

def NodeId.toText (n : NodeId) : String := n.bytes.hexEncode

instance : Ord NodeId := ordOn NodeId.bytes
instance : TransOrd NodeId := transOrd_on NodeId.bytes
instance : LawfulEqOrd NodeId := lawfulEqOrd_on NodeId.bytes NodeId.bytes_injective

abbrev Lux := UInt64

structure DateTime where
  secs : Int64
  nanos : UInt32
deriving DecidableEq

def DateTime.timestampMillis (t : DateTime) : Int64 :=
  t.secs * 1000 + (t.nanos / 1000000).toUInt64.toInt64

def DateTime.toNanos (t : DateTime) : ℤ := t.secs.toInt * 1_000_000_000 + t.nanos.toNat

/-- `(self - earlier).num_seconds().max(0) as u64`: whole seconds, none if `earlier` is later.  For
an operand within a leap second (`10 ^ 9` nanoseconds or more) `chrono` adjusts the difference; here
it is the plain one. -/
def DateTime.secsSince (t earlier : DateTime) : UInt64 :=
  UInt64.ofNat ((t.toNanos - earlier.toNanos).tdiv 1_000_000_000).toNat

/-! ### Times

The order and the arithmetic of `chrono::DateTime<Utc>`.  Times compare by their second, then by the
nanoseconds in it; a leap second is a second with more than `10 ^ 9` of them.  A sum outside the
range of the type is a panic, here `none`.
-/

namespace DateTime

theorem secs_nanos_injective :
    Function.Injective fun t : DateTime => toLex (t.secs.toInt, t.nanos.toNat) := by
  rintro ⟨s, n⟩ ⟨s', n'⟩ h
  obtain ⟨hs, hn⟩ := Prod.mk.inj (toLex.injective h)
  exact congrArg₂ DateTime.mk (Int64.toInt_inj.mp hs) (UInt32.toNat_inj.mp hn)

instance : LinearOrder DateTime := LinearOrder.lift' _ secs_nanos_injective

/-- The first second of `DateTime::<Utc>::MIN_UTC`. -/
def minSecs : ℤ := -8334601228800

/-- The last second of `DateTime::<Utc>::MAX_UTC`. -/
def maxSecs : ℤ := 8210266876799

/-- The largest number of seconds of a `Duration`, `i64::MAX / 1000`. -/
def maxDurationSecs : ℤ := 9223372036854775

/-- `self + Duration::seconds(seconds)`.  A sum that leaves a leap second counts from its end when
it goes back, and from its start when it goes on. -/
def addSeconds (t : DateTime) (seconds : Int64) : Option DateTime :=
  let d := seconds.toInt
  let leavesLeapSecond := t.nanos ≥ 1_000_000_000 ∧ d ≠ 0
  let secs := t.secs.toInt + d + if leavesLeapSecond ∧ d < 0 then 1 else 0
  if |d| ≤ maxDurationSecs ∧ minSecs ≤ secs ∧ secs ≤ maxSecs then
    some ⟨Int64.ofInt secs, if leavesLeapSecond then t.nanos - 1_000_000_000 else t.nanos⟩
  else none

example : addSeconds ⟨59, 1_500_000_000⟩ 1 = some ⟨60, 500_000_000⟩ := by decide +kernel

end DateTime

/-! ### Errors -/

/-- The errors of `GratiaError` that the modelled functions return. -/
inductive GratiaError where
  | insufficientStake (amount required : Lux)
  | insufficientBalance (available required : Lux)
  | invalidSignature
  | nonceMismatch (expected got : UInt64)
  | invalidZkProof (reason : String)
  | blockValidationFailed (reason : String)
  | invalidVrfProof
  | insufficientSignatures (count required : ℕ)
  | walletLocked
  | recoveryClaimPending
  | storageError (message : String)
  | serializationError (message : String)
  | other (message : String)
deriving DecidableEq

def GratiaError.toText : GratiaError → String
  | insufficientStake amount required =>
    s!"Insufficient stake: {amount} Lux (minimum: {required} Lux)"
  | insufficientBalance available required =>
    s!"Insufficient balance: {available} Lux (required: {required} Lux)"
  | invalidSignature => "Invalid transaction signature"
  | nonceMismatch expected got =>
    s!"Transaction nonce mismatch: expected {expected}, got {got}"
  | invalidZkProof reason => "Invalid ZK proof: " ++ reason
  | blockValidationFailed reason => "Block validation failed: " ++ reason
  | invalidVrfProof => "Invalid VRF proof"
  | insufficientSignatures count required =>
    s!"Insufficient validator signatures: {count}/{required}"
  | walletLocked => "Wallet locked: biometric authentication required"
  | recoveryClaimPending => "Recovery claim pending on this wallet"
  | storageError message => "State database error: " ++ message
  | serializationError message => "Serialization error: " ++ message
  | other message => message

/-! ### Transactions -/

inductive Vote where
  | yes | no | abstain
deriving DecidableEq

/-- `GeographicFilter`, with its `f64` fields as bit patterns. -/
structure GeographicFilter where
  lat : UInt64
  lon : UInt64
  radiusKm : UInt64
deriving DecidableEq

/-- `GeoLocation`, with its `f32` fields as bit patterns. -/
structure GeoLocation where
  lat : UInt32
  lon : UInt32
deriving DecidableEq

inductive TransactionPayload where
  | transfer (recipient : Address) (amount : Lux)
  | shieldedTransfer (commitment rangeProof encryptedRecipient : Bytes)
  | stake (amount : Lux)
  | unstake (amount : Lux)
  | deployContract (bytecode initArgs : Bytes)
  | callContract (contract : Address) (function : String) (args : Bytes) (gasLimit : Lux)
  | governanceProposal (title description : String) (proposalData : Bytes)
  | governanceVote (proposalId : Bytes32) (vote : Vote)
  | createPoll (question : String) (options : List String) (durationSecs : UInt64)
      (geographicFilter : Option GeographicFilter)
  | pollVote (pollId : Bytes32) (optionIndex : UInt32)
deriving DecidableEq

structure Transaction where
  hash : TxHash
  payload : TransactionPayload
  senderPubkey : Bytes
  signature : Bytes
  nonce : UInt64
  chainId : UInt32
  fee : Lux
  timestamp : DateTime
deriving DecidableEq

/-! ### Proof of Life -/

structure SensorFlags where
  gps : Bool
  accelerometer : Bool
  wifi : Bool
  bluetooth : Bool
  gyroscope : Bool
  ambientLight : Bool
  cellular : Bool
  barometer : Bool
  magnetometer : Bool
  nfc : Bool
  secureEnclave : Bool
  biometric : Bool
  cameraHash : Bool
  microphoneHash : Bool
deriving DecidableEq

structure ProofOfLifeAttestation where
  blindedId : Bytes32
  nullifier : Bytes32
  zkProof : Bytes
  zkCommitments : Option (List Bytes)
  epochDay : UInt32
  presenceScore : UInt8
  sensorFlags : SensorFlags
  signature : Bytes
deriving DecidableEq

/-! ### Blocks -/

structure BlockHeader where
  height : UInt64
  timestamp : DateTime
  parentHash : BlockHash
  transactionsRoot : Bytes32
  stateRoot : Bytes32
  attestationsRoot : Bytes32
  producer : NodeId
  vrfProof : Bytes
  activeMiners : UInt64
  geographicDiversity : UInt16
  producerPubkey : Bytes
deriving DecidableEq

structure ValidatorSignature where
  validator : NodeId
  signature : Bytes
deriving DecidableEq

structure Block where
  header : BlockHeader
  transactions : List Transaction
  attestations : List ProofOfLifeAttestation
  validatorSignatures : List ValidatorSignature
deriving DecidableEq

/-! ### Accounts -/

/-- `AccountState`; its `Default` is the empty account.  A `NaiveDate` is its day number. -/
structure AccountState where
  balance : Lux := 0
  nonce : UInt64 := 0
  staked : Lux := 0
  overflowStake : Lux := 0
  polValid : Bool := false
  polConsecutiveDays : UInt64 := 0
  lastPolDate : Option Int32 := none
  nodeId : Option NodeId := none
deriving DecidableEq

end Gratia
