import Gratia.Core.Crypto

/-!
# Network — Gossip

`gratia-network/src/gossip.rs`: the messages that nodes gossip, the checks an incoming one must
pass, and the caches that drop what has been seen.  A message is recognised by an identifier made of
part of it (`GossipMessage.messageId`), and each kind of message has a cache of its own, of bounded
size, that forgets the oldest quarter of its identifiers when it is full.
-/

namespace Gratia

open Support (Bytes)
open Std

/-! ### Messages -/

structure NodeAnnouncement where
  nodeId : NodeId
  vrfPubkeyBytes : Bytes32
  presenceScore : UInt8
  polDays : UInt64
  timestamp : DateTime
  ed25519Pubkey : Bytes32
  signature : Bytes
  height : UInt64
deriving DecidableEq

structure ValidatorSignatureMessage where
  blockHash : Bytes32
  height : UInt64
  signature : ValidatorSignature
  validatorPubkey : Bytes32
deriving DecidableEq

structure Attachment where
  hash : String
  contentType : String
  sizeBytes : UInt64
  altText : Option String
deriving DecidableEq

structure LuxPost where
  hash : String
  author : String
  signature : Bytes
  timestamp : DateTime
  contentType : String
  content : String
  attachments : List Attachment
  replyTo : Option String
  repostOf : Option String
  metadata : ExtTreeMap String String

inductive GossipMessage where
  | newBlock (block : Block)
  | newTransaction (tx : Transaction)
  | newAttestation (att : ProofOfLifeAttestation)
  | nodeAnnouncement (ann : NodeAnnouncement)
  | newLuxPost (post : LuxPost)
  | validatorSignatureMsg (msg : ValidatorSignatureMessage)

inductive GossipTopic where
  | blocks | transactions | attestations | nodeAnnounce | luxPosts | validatorSigs
deriving DecidableEq

def GossipTopic.name : GossipTopic → String
  | blocks => "gratia/blocks/1"
  | transactions => "gratia/transactions/1"
  | attestations => "gratia/attestations/1"
  | nodeAnnounce => "gratia/nodes/1"
  | luxPosts => "gratia/lux/posts/1"
  | validatorSigs => "gratia/validator-sigs/1"

/-- `u8` strings that start an identifier: `b"block:"`, `b"tx:"`, `b"att:"`, `b"node:"`, `b"lux:"`
and `b"vsig:"`. -/
def GossipTopic.tag : GossipTopic → Bytes
  | blocks => [98, 108, 111, 99, 107, 58]
  | transactions => [116, 120, 58]
  | attestations => [97, 116, 116, 58]
  | nodeAnnounce => [110, 111, 100, 101, 58]
  | luxPosts => [108, 117, 120, 58]
  | validatorSigs => [118, 115, 105, 103, 58]

namespace GossipMessage

def kind : GossipMessage → GossipTopic
  | newBlock _ => .blocks
  | newTransaction _ => .transactions
  | newAttestation _ => .attestations
  | nodeAnnouncement _ => .nodeAnnounce
  | newLuxPost _ => .luxPosts
  | validatorSignatureMsg _ => .validatorSigs

def topic (m : GossipMessage) : String := m.kind.name

/-- What `message_id` takes from a message.  A header can always be serialized, so a block never
falls back on its height. -/
def idBytes (P : Platform) : GossipMessage → Bytes
  | newBlock block => (block.header.hash P).bytes.bytes
  | newTransaction tx => tx.hash.bytes.bytes
  | newAttestation att => att.nullifier.bytes
  | nodeAnnouncement ann => ann.nodeId.bytes.bytes ++ toBeBytes ann.timestamp.secs.toUInt64
  | newLuxPost post => post.hash.toUTF8.data.toList
  | validatorSignatureMsg msg => msg.blockHash.bytes ++ msg.signature.validator.bytes.bytes

def messageId (P : Platform) (m : GossipMessage) : Bytes := m.kind.tag ++ m.idBytes P

end GossipMessage

/-! ### Validation -/

/-- `NetworkError`, the errors of incoming messages. -/
inductive NetworkError where
  | messageTooLarge (size max : ℕ)
  | invalidMessage (reason : String)
  | serialization (message : String)
deriving DecidableEq

/-- What gossip computes with beyond the platform. -/
structure GossipCrates where
  /-- `bincode::deserialize` of a message, or the `Display` text of its error. -/
  fromBytes : Bytes → Except String GossipMessage
  /-- `VerifyingKey::verify_strict`, on a key, a message and the 64 bytes of a signature. -/
  verifyStrict : Bytes → Bytes → Bytes → Bool
  /-- The `Display` text of `ed25519_dalek`'s `SignatureError`. -/
  signatureErrorText : String

def maxMessageSize : ℕ := 300 * 1024

def nodeIdDomain : Bytes :=
  [103, 114, 97, 116, 105, 97, 45, 110, 111, 100, 101, 45, 105, 100, 45, 118, 49, 58]

def nodeAnnouncementSigningPayload (ann : NodeAnnouncement) : Bytes :=
  ann.nodeId.bytes.bytes ++ ann.vrfPubkeyBytes.bytes ++ [ann.presenceScore] ++
    toBeBytes ann.polDays ++ toBeBytes ann.timestamp.secs.toUInt64 ++ toBeBytes ann.height

variable (P : Platform) (G : GossipCrates)

def nodeIdFromPubkey (pubkeyBytes : Bytes32) : NodeId :=
  ⟨P.sha256 (nodeIdDomain ++ pubkeyBytes.bytes)⟩

def verifyEd25519 (pubkeyBytes : Bytes32) (message sigBytes : Bytes) : Except String Unit :=
  if !P.isVerifyingKey pubkeyBytes.bytes then
    .error s!"Invalid Ed25519 public key: {G.signatureErrorText}"
  else if sigBytes.length ≠ 64 then
    .error s!"Invalid signature length: {sigBytes.length} (expected 64)"
  else if G.verifyStrict pubkeyBytes.bytes message sigBytes then .ok ()
  else .error s!"Signature verification failed: {G.signatureErrorText}"

/-- `(self - earlier).num_seconds()` of two times read from the clock: whole seconds, towards
zero. -/
def DateTime.secondsSince (t earlier : DateTime) : ℤ :=
  (t.toNanos - earlier.toNanos).tdiv 1_000_000_000

/-- The checks of a block.  The check of the first signature under `producer_pubkey` only logs. -/
def validateBlockMessage (block : Block) : Except NetworkError Unit :=
  if block.transactions.length > 10000 then
    .error (.invalidMessage "Block contains too many transactions")
  else if block.header.height > 0 then
    match block.validatorSignatures.find? fun vs => vs.validator == block.header.producer with
    | none => .error (.invalidMessage "Block has no signature from its claimed producer")
    | some vs =>
      if vs.signature.length ≠ 64 then
        .error (.invalidMessage
          s!"Block producer signature length invalid: {vs.signature.length} (expected 64)")
      else .ok ()
  else .ok ()

def validateTransactionMessage (tx : Transaction) : Except NetworkError Unit :=
  if tx.signature.isEmpty then .error (.invalidMessage "Transaction has empty signature")
  else if tx.signature.length ≠ 64 then
    .error (.invalidMessage s!"Invalid signature length: {tx.signature.length} (expected 64)")
  else if tx.senderPubkey.length ≠ 32 then
    .error (.invalidMessage s!"Invalid pubkey length: {tx.senderPubkey.length} (expected 32)")
  else .ok ()

def validateAttestationMessage (att : ProofOfLifeAttestation) : Except NetworkError Unit :=
  if att.zkProof.isEmpty then .error (.invalidMessage "Attestation has empty ZK proof")
  else if att.presenceScore < 40 ∨ att.presenceScore > 100 then
    .error (.invalidMessage s!"Invalid presence score: {att.presenceScore} (must be 40-100)")
  else .ok ()

def validateAnnouncementMessage (now : DateTime) (ann : NodeAnnouncement) :
    Except NetworkError Unit :=
  if ann.presenceScore < 40 ∨ ann.presenceScore > 100 then
    .error (.invalidMessage
      s!"Invalid announcement presence score: {ann.presenceScore} (must be 40-100)")
  else if ann.signature.isEmpty then
    .error (.invalidMessage
      "NodeAnnouncement has empty signature — unsigned announcements are rejected")
  else if nodeIdFromPubkey P ann.ed25519Pubkey ≠ ann.nodeId then
    .error (.invalidMessage "NodeAnnouncement pubkey does not match node_id")
  else
    match verifyEd25519 P G ann.ed25519Pubkey (nodeAnnouncementSigningPayload ann)
        ann.signature with
    | .error e => .error (.invalidMessage s!"NodeAnnouncement signature invalid: {e}")
    | .ok () =>
      let age := now.secondsSince ann.timestamp
      if age > 300 then
        .error (.invalidMessage s!"NodeAnnouncement timestamp too old: {age}s (max 300s)")
      else if age < -60 then
        .error (.invalidMessage s!"NodeAnnouncement timestamp in future: {-age}s")
      else .ok ()

def validateLuxPostMessage (post : LuxPost) : Except NetworkError Unit :=
  if post.content.isEmpty ∧ post.attachments.isEmpty then
    .error (.invalidMessage "Lux post has no content and no attachments")
  else if post.signature.isEmpty then .error (.invalidMessage "Lux post has empty signature")
  else if post.hash.isEmpty then .error (.invalidMessage "Lux post has empty hash")
  else .ok ()

def validateValidatorSignatureMessage (msg : ValidatorSignatureMessage) :
    Except NetworkError Unit :=
  if msg.signature.signature.length ≠ 64 then
    .error (.invalidMessage
      s!"Invalid validator signature length: {msg.signature.signature.length} (expected 64)")
  else if msg.blockHash = .zero then
    .error (.invalidMessage "Validator signature has zero block hash")
  else if msg.validatorPubkey = .zero then
    .error (.invalidMessage
      "ValidatorSignatureMsg has zero pubkey — unauthenticated signatures are rejected")
  else if nodeIdFromPubkey P msg.validatorPubkey ≠ msg.signature.validator then
    .error (.invalidMessage "Validator pubkey does not match validator NodeId")
  else
    match verifyEd25519 P G msg.validatorPubkey msg.blockHash.bytes msg.signature.signature with
    | .error e =>
      .error (.invalidMessage s!"Validator signature cryptographically invalid: {e}")
    | .ok () => .ok ()

def validateMessage (now : DateTime) : GossipMessage → Except NetworkError Unit
  | .newBlock block => validateBlockMessage block
  | .newTransaction tx => validateTransactionMessage tx
  | .newAttestation att => validateAttestationMessage att
  | .nodeAnnouncement ann => validateAnnouncementMessage P G now ann
  | .newLuxPost post => validateLuxPostMessage post
  | .validatorSignatureMsg msg => validateValidatorSignatureMessage P G msg

def validateIncomingMessage (now : DateTime) (data : Bytes) : Except NetworkError GossipMessage :=
  if data.length > maxMessageSize then .error (.messageTooLarge data.length maxMessageSize)
  else
    match G.fromBytes data with
    | .error e => .error (.serialization e)
    | .ok msg => (validateMessage P G now msg).map fun _ => msg

/-! ### The caches -/

structure DeduplicationCache where
  seenSet : ExtTreeSet Bytes := ∅
  seenOrder : List Bytes := []
  maxEntries : ℕ

namespace DeduplicationCache

def new (maxEntries : ℕ) : DeduplicationCache := { maxEntries := maxEntries }

/-- The eviction loop: the oldest identifiers go, as many as there are rounds. -/
def evict : ℕ → DeduplicationCache → DeduplicationCache
  | 0, c => c
  | rounds + 1, c =>
    match c.seenOrder with
    | old :: rest => evict rounds { c with seenSet := c.seenSet.erase old, seenOrder := rest }
    | [] => evict rounds c

/-- Room for one more: a quarter is evicted when the cache is full. -/
def makeRoom (c : DeduplicationCache) : DeduplicationCache :=
  if c.seenSet.size ≥ c.maxEntries then c.evict (c.maxEntries / 4) else c

/-- `check_and_insert`: whether the identifier is new, and the cache that has it. -/
def checkAndInsert (c : DeduplicationCache) (messageId : Bytes) : Bool × DeduplicationCache :=
  if c.seenSet.contains messageId then (false, c)
  else
    let c := c.makeRoom
    (true, { c with seenSet := c.seenSet.insert messageId,
                    seenOrder := c.seenOrder ++ [messageId] })

variable {c : DeduplicationCache} {id id' : Bytes}

theorem mem_evict (rounds : ℕ) (h : id ∈ (c.evict rounds).seenSet) : id ∈ c.seenSet := by
  induction rounds generalizing c with
  | zero => exact h
  | succ rounds ih =>
    rw [evict] at h
    split at h
    · exact ExtTreeSet.mem_of_mem_erase (ih h)
    · exact ih h

theorem mem_makeRoom (h : id ∈ c.makeRoom.seenSet) : id ∈ c.seenSet := by
  unfold makeRoom at h
  split at h
  · exact mem_evict _ h
  · exact h

theorem checkAndInsert_fst : (c.checkAndInsert id).1 = false ↔ id ∈ c.seenSet := by
  unfold checkAndInsert
  split
  · next h => exact iff_of_true rfl (ExtTreeSet.contains_iff_mem.mp h)
  · next h => exact iff_of_false nofun fun hm => h (ExtTreeSet.contains_iff_mem.mpr hm)

/-- **A cache knows what it knew, and what it is asked about.** -/
theorem mem_checkAndInsert (h : id' ∈ (c.checkAndInsert id).2.seenSet) :
    id' ∈ c.seenSet ∨ id' = id := by
  unfold checkAndInsert at h
  split at h
  · exact .inl h
  · rcases ExtTreeSet.mem_insert.mp h with heq | hmem
    · exact .inr (LawfulEqCmp.eq_of_compare heq).symm
    · exact .inl (mem_makeRoom hmem)

theorem self_mem_checkAndInsert : id ∈ (c.checkAndInsert id).2.seenSet := by
  unfold checkAndInsert
  split
  · next h => exact ExtTreeSet.contains_iff_mem.mp h
  · exact ExtTreeSet.mem_insert_self

end DeduplicationCache

structure GossipHandler where
  blockCache : DeduplicationCache
  txCache : DeduplicationCache
  attestationCache : DeduplicationCache
  announceCache : DeduplicationCache
  luxCache : DeduplicationCache
  sigCache : DeduplicationCache

namespace GossipHandler

def new : GossipHandler where
  blockCache := .new 1000
  txCache := .new 10000
  attestationCache := .new 5000
  announceCache := .new 500
  luxCache := .new 5000
  sigCache := .new 2000

/-- The deduplication check: each kind of message has its own cache. -/
def checkNew (h : GossipHandler) (msg : GossipMessage) (msgId : Bytes) : Bool × GossipHandler :=
  match msg with
  | .newBlock _ =>
    let r := h.blockCache.checkAndInsert msgId
    (r.1, { h with blockCache := r.2 })
  | .newTransaction _ =>
    let r := h.txCache.checkAndInsert msgId
    (r.1, { h with txCache := r.2 })
  | .newAttestation _ =>
    let r := h.attestationCache.checkAndInsert msgId
    (r.1, { h with attestationCache := r.2 })
  | .nodeAnnouncement _ =>
    let r := h.announceCache.checkAndInsert msgId
    (r.1, { h with announceCache := r.2 })
  | .newLuxPost _ =>
    let r := h.luxCache.checkAndInsert msgId
    (r.1, { h with luxCache := r.2 })
  | .validatorSignatureMsg _ =>
    let r := h.sigCache.checkAndInsert msgId
    (r.1, { h with sigCache := r.2 })

def cache (h : GossipHandler) : GossipTopic → DeduplicationCache
  | .blocks => h.blockCache
  | .transactions => h.txCache
  | .attestations => h.attestationCache
  | .nodeAnnounce => h.announceCache
  | .luxPosts => h.luxCache
  | .validatorSigs => h.sigCache

theorem checkNew_fst (h : GossipHandler) (msg : GossipMessage) (msgId : Bytes) :
    (h.checkNew msg msgId).1 = ((h.cache msg.kind).checkAndInsert msgId).1 := by
  cases msg <;> rfl

theorem cache_checkNew (h : GossipHandler) (msg : GossipMessage) (msgId : Bytes) (k : GossipTopic) :
    (h.checkNew msg msgId).2.cache k =
      if k = msg.kind then ((h.cache msg.kind).checkAndInsert msgId).2 else h.cache k := by
  cases msg <;> cases k <;> rfl

@[simp] theorem seenSet_cache_new (k : GossipTopic) : (new.cache k).seenSet = ∅ := by
  cases k <;> rfl

def processIncoming (h : GossipHandler) (now : DateTime) (topic : String) (data : Bytes) :
    Except NetworkError (Option GossipMessage) × GossipHandler :=
  match validateIncomingMessage P G now data with
  | .error e => (.error e, h)
  | .ok msg =>
    if msg.topic ≠ topic then
      (.error (.invalidMessage
        (s!"Message type does not match topic: expected '{msg.topic}', " ++
          s!"received on '{topic}'")), h)
    else
      let r := h.checkNew msg (msg.messageId P)
      (.ok (if r.1 then some msg else none), r.2)

end GossipHandler

structure Incoming where
  now : DateTime
  topic : String
  data : Bytes

def Incoming.Carries (i : Incoming) (msg : GossipMessage) : Prop :=
  validateIncomingMessage P G i.now i.data = .ok msg ∧ msg.topic = i.topic

variable {P G} in
theorem Incoming.carries_iff {i : Incoming} {msg : GossipMessage} :
    i.Carries P G msg ↔ i.data.length ≤ maxMessageSize ∧ G.fromBytes i.data = .ok msg ∧
      validateMessage P G i.now msg = .ok () ∧ msg.topic = i.topic := by
  unfold Incoming.Carries validateIncomingMessage
  by_cases hsize : i.data.length ≤ maxMessageSize
  · rw [if_neg (Nat.not_lt.mpr hsize)]
    cases G.fromBytes i.data with
    | error e => simp
    | ok m =>
      cases hv : validateMessage P G i.now m with
      | error e =>
        simp only [hv, Except.map, reduceCtorEq, false_and, false_iff]
        rintro ⟨-, hm, hok, -⟩
        cases hm
        rw [hv] at hok
        cases hok
      | ok u =>
        simp only [hv, Except.map, Except.ok.injEq, hsize, true_and]
        constructor
        · rintro ⟨rfl, ht⟩
          exact ⟨rfl, hv, ht⟩
        · rintro ⟨rfl, -, ht⟩
          exact ⟨rfl, ht⟩
  · rw [if_pos (Nat.lt_of_not_le hsize)]
    simp [hsize]

namespace GossipHandler

def process (h : GossipHandler) (i : Incoming) :
    Except NetworkError (Option GossipMessage) × GossipHandler :=
  h.processIncoming P G i.now i.topic i.data

variable {P G}

/-- **What becomes of a message**: it is refused and nothing changes, or it is looked up in the
cache of its kind. -/
theorem process_cases (h : GossipHandler) (i : Incoming) :
    (∃ e, h.process P G i = (.error e, h) ∧ ∀ msg, ¬ i.Carries P G msg) ∨
      ∃ msg, i.Carries P G msg ∧
        h.process P G i =
          (.ok (if (h.checkNew msg (msg.messageId P)).1 then some msg else none),
            (h.checkNew msg (msg.messageId P)).2) := by
  unfold process processIncoming Incoming.Carries
  cases hv : validateIncomingMessage P G i.now i.data with
  | error e => exact .inl ⟨e, rfl, fun _ h => nomatch h.1⟩
  | ok msg =>
    by_cases ht : msg.topic = i.topic
    · exact .inr ⟨msg, ⟨rfl, ht⟩, by simp [ht]⟩
    · refine .inl ⟨_, by simp [ht]; rfl, ?_⟩
      rintro _ ⟨hm, ht'⟩
      cases hm
      exact ht ht'

end GossipHandler

end Gratia
