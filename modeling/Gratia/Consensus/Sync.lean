import Gratia.Core.Chains
import Gratia.Core.Reference
import Gratia.Support.Runs

/-!
# Consensus — Sync

`gratia-consensus/src/sync.rs`: how a node that has fallen behind asks for blocks and takes in the
answers.  Two heights move during a run, the node's own and the best one heard of, and the target of
a session is fixed in between; the answers come from anybody.  The `f64` progress of the display is
left out, and so are the log lines.
-/

namespace Gratia

open Support

/-! ### State and messages -/

def syncBatchSize : UInt64 := 50

def syncThreshold : UInt64 := 5

def maxBufferSize : ℕ := 200

inductive SyncState where
  | idle
  | requesting
  | downloading (targetHeight current : UInt64)
  | applying
  | synced
deriving DecidableEq

structure SyncRequest where
  fromHeight : UInt64
  toHeight : UInt64
  requester : NodeId
deriving DecidableEq

structure SyncResponse where
  blocks : List Block
  fromHeight : UInt64
  hasMore : Bool
deriving DecidableEq

inductive SyncError where
  | unexpectedHeight (expected got : UInt64)
  | nonContiguousBlocks (expected got : UInt64)
  | invalidBlock (height : UInt64) (reason : String)
  | bufferFull (current incoming max : ℕ)
deriving DecidableEq

structure SyncProtocol where
  state : SyncState
  nodeId : NodeId
  ourHeight : UInt64
  networkHeight : UInt64
  syncTarget : UInt64
  blocksReceived : List Block
deriving DecidableEq

namespace SyncProtocol

/-! ### Methods -/

def new (nodeId : NodeId) (initialHeight : UInt64) : SyncProtocol :=
  { state := .idle, nodeId := nodeId, ourHeight := initialHeight, networkHeight := 0,
    syncTarget := 0, blocksReceived := [] }

def needsSync (ourHeight networkHeight : UInt64) : Bool :=
  networkHeight > ourHeight && networkHeight - ourHeight ≥ syncThreshold

def createSyncRequest (s : SyncProtocol) : Option SyncRequest × SyncProtocol :=
  if needsSync s.ourHeight s.networkHeight then
    let target := if s.syncTarget ≤ s.ourHeight then s.networkHeight else s.syncTarget
    let fromHeight := s.ourHeight + 1
    let toHeight := min (fromHeight + syncBatchSize - 1) target
    (some ⟨fromHeight, toHeight, s.nodeId⟩, { s with syncTarget := target, state := .requesting })
  else (none, { s with state := .synced })

def checkContiguous (w : Block × Block) : Except SyncError Unit :=
  if w.2.header.height ≠ w.1.header.height + 1 then
    .error (.nonContiguousBlocks (w.1.header.height + 1) w.2.header.height)
  else .ok ()

def checkParent (P : Platform) (w : Block × Block) : Except SyncError Unit :=
  if w.2.header.parentHash ≠ w.1.header.hash P then
    .error (.invalidBlock w.2.header.height
      (s!"Parent hash mismatch: expected {(w.1.header.hash P).bytes.hexEncode}, " ++
        s!"got {w.2.header.parentHash.bytes.hexEncode}"))
  else .ok ()

/-- What `process_sync_response` checks of a response that is not empty, in this order. -/
def checkBlocks (P : Platform) (s : SyncProtocol) (first : Block) (rest : List Block) :
    Except SyncError Unit := do
  if first.header.height ≠ s.ourHeight + 1 then
    throw (.unexpectedHeight (s.ourHeight + 1) first.header.height)
  forM (windows (first :: rest)) checkContiguous
  forM (windows (first :: rest)) (checkParent P)
  if s.blocksReceived.length + (first :: rest).length > maxBufferSize then
    throw (.bufferFull s.blocksReceived.length (first :: rest).length maxBufferSize)

def processSyncResponse (P : Platform) (s : SyncProtocol) (response : SyncResponse) :
    Except SyncError (List Block) × SyncProtocol :=
  match response.blocks with
  | [] => (.ok [], { s with state := if s.ourHeight ≥ s.syncTarget then .synced else .idle })
  | first :: rest =>
    match s.checkBlocks P first rest with
    | .error e => (.error e, s)
    | .ok () =>
      (.ok (first :: rest),
        { s with
          blocksReceived := s.blocksReceived ++ first :: rest
          state := .downloading s.syncTarget ((first :: rest).getLast (by simp)).header.height })

def onBlockReceived (s : SyncProtocol) (height : UInt64) : SyncProtocol :=
  let networkHeight := if height > s.networkHeight then height else s.networkHeight
  let waiting := s.state = .idle ∨ s.state = .synced
  { s with
    networkHeight := networkHeight
    state := if waiting ∧ needsSync s.ourHeight networkHeight then .idle else s.state }

def markBlocksApplied (s : SyncProtocol) (newHeight : UInt64) : SyncProtocol :=
  let s := { s with
    ourHeight := newHeight
    blocksReceived := s.blocksReceived.filter fun b => b.header.height > newHeight }
  if s.ourHeight ≥ s.syncTarget then
    if needsSync s.ourHeight s.networkHeight then
      { s with syncTarget := s.networkHeight, state := .idle }
    else { s with state := .synced }
  else { s with state := .downloading s.syncTarget s.ourHeight }

def reset (s : SyncProtocol) (height : UInt64) : SyncProtocol :=
  { s with
    ourHeight := height, networkHeight := 0, syncTarget := 0, blocksReceived := [], state := .idle }

end SyncProtocol

/-! ### Calls -/

inductive SyncCall where
  | onBlockReceived (height : UInt64)
  | createSyncRequest
  | processSyncResponse (response : SyncResponse)
  | markBlocksApplied (newHeight : UInt64)
  | reset (height : UInt64)
deriving DecidableEq

inductive SyncAnswer where
  | done
  | request (request : Option SyncRequest)
  | batch (blocks : Except SyncError (List Block))
deriving DecidableEq

/-- A height the node is told to be its own is below `2 ^ 63`. -/
def SyncCall.OwnHeightLow : SyncCall → Prop
  | .markBlocksApplied newHeight => newHeight.toNat < 2 ^ 63
  | .reset height => height.toNat < 2 ^ 63
  | .onBlockReceived _ | .createSyncRequest | .processSyncResponse _ => True

namespace SyncProtocol

variable (P : Platform)

def call (s : SyncProtocol) : SyncCall → SyncAnswer × SyncProtocol
  | .onBlockReceived height => (.done, s.onBlockReceived height)
  | .createSyncRequest => let (request, s) := s.createSyncRequest; (.request request, s)
  | .processSyncResponse response =>
    let (blocks, s) := s.processSyncResponse P response
    (.batch blocks, s)
  | .markBlocksApplied newHeight => (.done, s.markBlocksApplied newHeight)
  | .reset height => (.done, s.reset height)

/-! ### What one call does -/

variable {P} {s : SyncProtocol}

theorem needsSync_iff {ours network : UInt64} :
    needsSync ours network = true ↔ ours.toNat + 5 ≤ network.toNat := by
  simp only [needsSync, syncThreshold, gt_iff_lt, ge_iff_le, Bool.and_eq_true, decide_eq_true_eq,
    UInt64.lt_iff_toNat_lt, UInt64.le_iff_toNat_le, UInt64.reduceToNat]
  constructor
  · rintro ⟨hlt, hge⟩
    rw [toNat_sub_of_toNat_le hlt.le] at hge
    omega
  · intro h
    have hlt : ours.toNat < network.toNat := by omega
    refine ⟨hlt, ?_⟩
    rw [toNat_sub_of_toNat_le hlt.le]
    omega

/-- The request continues the node's chain by one batch at most and stays within the network's. -/
def RequestFits (s : SyncProtocol) (r : SyncRequest) : Prop :=
  r.fromHeight.toNat = s.ourHeight.toNat + 1 ∧ r.fromHeight ≤ r.toHeight ∧
    r.toHeight.toNat ≤ s.ourHeight.toNat + 50 ∧ r.toHeight ≤ s.networkHeight

/-- The target is no higher than the network; the buffer is bounded, and what is in it is above the
node's height. -/
structure InOrder (s : SyncProtocol) : Prop where
  low : s.ourHeight.toNat < 2 ^ 63
  target : s.syncTarget ≤ s.networkHeight
  bounded : s.blocksReceived.length ≤ maxBufferSize
  above : ∀ b ∈ s.blocksReceived, s.ourHeight < b.header.height

theorem inOrder_new (nodeId : NodeId) {initialHeight : UInt64} (h : initialHeight.toNat < 2 ^ 63) :
    InOrder (new nodeId initialHeight) :=
  ⟨h, UInt64.le_refl _, Nat.zero_le _, by simp [new]⟩

def sessionTarget (s : SyncProtocol) : UInt64 :=
  if s.syncTarget ≤ s.ourHeight then s.networkHeight else s.syncTarget

theorem createSyncRequest_some {r : SyncRequest} (h : s.createSyncRequest.1 = some r) :
    s.ourHeight.toNat + 5 ≤ s.networkHeight.toNat ∧
      r = ⟨s.ourHeight + 1, min (s.ourHeight + 1 + syncBatchSize - 1) s.sessionTarget, s.nodeId⟩ := by
  unfold createSyncRequest at h
  split at h
  next hn => exact ⟨needsSync_iff.mp hn, (Option.some.inj h).symm⟩
  next => cases h

/-- **Requests fit.** -/
theorem InOrder.request (hs : InOrder s) {r : SyncRequest} (h : s.createSyncRequest.1 = some r) :
    RequestFits s r := by
  obtain ⟨hbehind, rfl⟩ := createSyncRequest_some h
  have hlow := hs.low
  have htarget := UInt64.le_iff_toNat_le.mp hs.target
  have hfrom : (s.ourHeight + 1).toNat = s.ourHeight.toNat + 1 := by
    rw [toNat_add_of_lt] <;> simp only [UInt64.reduceToNat]
    omega
  have hto : (s.ourHeight + 1 + syncBatchSize - 1).toNat = s.ourHeight.toNat + 50 := by
    have hsum : (s.ourHeight + 1 + syncBatchSize).toNat = s.ourHeight.toNat + 51 := by
      rw [toNat_add_of_lt] <;> simp only [hfrom, syncBatchSize, UInt64.reduceToNat]
      omega
    rw [toNat_sub_of_toNat_le] <;> simp only [hsum, UInt64.reduceToNat] <;> omega
  have hsession : s.ourHeight.toNat < s.sessionTarget.toNat ∧
      s.sessionTarget.toNat ≤ s.networkHeight.toNat := by
    unfold sessionTarget
    split
    next => omega
    next hgt =>
      rw [UInt64.le_iff_toNat_le] at hgt
      omega
  refine ⟨hfrom, ?_⟩
  simp only [UInt64.le_iff_toNat_le, toNat_min, hfrom, hto]
  omega

/-- What the checks have found out about a batch that passes. -/
theorem checkBlocks_ok {first : Block} {rest : List Block} :
    s.checkBlocks P first rest = .ok () ↔
      first.header.height = s.ourHeight + 1 ∧
      ((first :: rest).IsChain fun b b' => b'.header.height = b.header.height + 1) ∧
      (first :: rest).IsChain (ChildOf P) ∧
      s.blocksReceived.length + (first :: rest).length ≤ maxBufferSize := by
  have hcontiguous : forM (windows (first :: rest)) checkContiguous = .ok () ↔
      (first :: rest).IsChain fun b b' => b'.header.height = b.header.height + 1 := by
    rw [forM_checks_ok, ← forall_mem_windows]
    simp [checkContiguous]
  have hparents : forM (windows (first :: rest)) (checkParent P) = .ok () ↔
      (first :: rest).IsChain (ChildOf P) := by
    rw [forM_checks_ok, ← forall_mem_windows]
    simp [checkParent, ChildOf]
  have hbuffer : ∀ e : SyncError, (if s.blocksReceived.length + (first :: rest).length >
      maxBufferSize then throw e else pure () : Except SyncError Unit) = .ok () ↔
      s.blocksReceived.length + (first :: rest).length ≤ maxBufferSize := by
    intro e
    split
    next hgt => exact iff_of_false (by rintro ⟨⟩) (Nat.not_le.mpr hgt)
    next hle => exact iff_of_true rfl (Nat.not_lt.mp hle)
  unfold checkBlocks
  rw [except_guard_ok, not_not]
  simp only [except_bind_ok, exists_const, hcontiguous, hparents, hbuffer]

theorem processSyncResponse_cases (P : Platform) (s : SyncProtocol) (response : SyncResponse) :
    (∃ state, s.processSyncResponse P response = (.ok [], { s with state := state })) ∨
    (∃ e, s.processSyncResponse P response = (.error e, s)) ∨
    ∃ first rest state, s.checkBlocks P first rest = .ok () ∧
      s.processSyncResponse P response = (.ok (first :: rest),
        { s with blocksReceived := s.blocksReceived ++ first :: rest, state := state }) := by
  unfold processSyncResponse
  cases response.blocks with
  | nil => exact .inl ⟨_, rfl⟩
  | cons first rest =>
    cases hc : s.checkBlocks P first rest with
    | error e => exact .inr (.inl ⟨e, by simp only [hc]⟩)
    | ok u => exact .inr (.inr ⟨first, rest, _, hc, by simp only [hc]; rfl⟩)

theorem InOrder.stretch (hs : InOrder s) {first : Block} {rest : List Block}
    (h : s.checkBlocks P first rest = .ok ()) :
    Stretch P (s.ourHeight.toNat + 1) (first :: rest) := by
  obtain ⟨hfirst, hup, hlinks, hlen⟩ := checkBlocks_ok.mp h
  have hlow := hs.low
  have hstart : first.header.height.toNat = s.ourHeight.toNat + 1 := by
    rw [hfirst, toNat_add_of_lt] <;> simp only [UInt64.reduceToNat]
    omega
  rw [← hstart]
  refine Stretch.of_links hup hlinks ?_
  simp only [maxBufferSize, List.length_cons] at hlen
  omega

theorem InOrder.batch (hs : InOrder s) {response : SyncResponse} {blocks : List Block}
    (h : (s.processSyncResponse P response).1 = .ok blocks) :
    Stretch P (s.ourHeight.toNat + 1) blocks := by
  rcases processSyncResponse_cases P s response with ⟨state, he⟩ | ⟨e, he⟩ |
    ⟨first, rest, state, hc, he⟩
  · rw [he] at h
    cases h
    exact stretch_nil _
  · rw [he] at h
    cases h
  · rw [he] at h
    cases h
    exact hs.stretch hc

/-! ### The order is kept -/

theorem InOrder.createSyncRequest (hs : InOrder s) : InOrder s.createSyncRequest.2 := by
  obtain ⟨hlow, htarget, hbounded, habove⟩ := hs
  unfold SyncProtocol.createSyncRequest
  split
  · refine ⟨hlow, ?_, hbounded, habove⟩
    dsimp only
    split
    · exact UInt64.le_refl _
    · exact htarget
  · exact ⟨hlow, htarget, hbounded, habove⟩

theorem InOrder.processSyncResponse (hs : InOrder s) (response : SyncResponse) :
    InOrder (s.processSyncResponse P response).2 := by
  rcases processSyncResponse_cases P s response with ⟨state, he⟩ | ⟨e, he⟩ |
    ⟨first, rest, state, hc, he⟩
  · rw [he]
    exact ⟨hs.low, hs.target, hs.bounded, hs.above⟩
  · rw [he]
    exact hs
  · rw [he]
    obtain ⟨-, -, -, hlen⟩ := checkBlocks_ok.mp hc
    refine ⟨hs.low, hs.target, ?_, fun b hb => ?_⟩
    · rw [List.length_append]
      exact hlen
    · rcases List.mem_append.mp hb with hb | hb
      · exact hs.above b hb
      · have hmem := List.mem_map_of_mem (f := fun b : Block => b.header.height.toNat) hb
        rw [(hs.stretch hc).heights] at hmem
        exact UInt64.lt_iff_toNat_lt.mpr (List.mem_range'_1.mp hmem).1

theorem InOrder.onBlockReceived (hs : InOrder s) (height : UInt64) :
    InOrder (s.onBlockReceived height) := by
  refine ⟨hs.low, ?_, hs.bounded, hs.above⟩
  unfold SyncProtocol.onBlockReceived
  dsimp only
  split
  next hgt => exact UInt64.le_trans hs.target (UInt64.le_of_lt hgt)
  next => exact hs.target

theorem InOrder.markBlocksApplied (hs : InOrder s) {newHeight : UInt64}
    (hnew : newHeight.toNat < 2 ^ 63) : InOrder (s.markBlocksApplied newHeight) := by
  have hbounded : (s.blocksReceived.filter fun b => b.header.height > newHeight).length ≤
      maxBufferSize :=
    (List.length_filter_le _ _).trans hs.bounded
  have habove : ∀ b ∈ s.blocksReceived.filter (fun b => b.header.height > newHeight),
      newHeight < b.header.height :=
    fun b hb => of_decide_eq_true (List.mem_filter.mp hb).2
  unfold SyncProtocol.markBlocksApplied
  dsimp only
  split
  · split
    · exact ⟨hnew, UInt64.le_refl _, hbounded, habove⟩
    · exact ⟨hnew, hs.target, hbounded, habove⟩
  · exact ⟨hnew, hs.target, hbounded, habove⟩

/-- **Every call keeps the order**, if it is told heights below `2 ^ 63`. -/
theorem InOrder.call (hs : InOrder s) {c : SyncCall} (hc : c.OwnHeightLow) :
    InOrder (s.call P c).2 := by
  cases c with
  | onBlockReceived height => exact hs.onBlockReceived height
  | createSyncRequest => exact hs.createSyncRequest
  | processSyncResponse response => exact hs.processSyncResponse response
  | markBlocksApplied newHeight => exact hs.markBlocksApplied hc
  | reset height => exact ⟨hc, UInt64.le_refl _, Nat.zero_le _, by simp [SyncProtocol.call, reset]⟩

/-! ### Progress -/

/-- What is asked of a call: a request fits, a returned batch continues the node's chain, an error
leaves the state alone, and the buffer is bounded and above the node's height afterwards. -/
structure Progresses (P : Platform) (s : SyncProtocol) (c : SyncCall) : Prop where
  requests : ∀ r, (s.call P c).1 = .request (some r) → RequestFits s r
  batches : ∀ blocks, (s.call P c).1 = .batch (.ok blocks) →
    Stretch P (s.ourHeight.toNat + 1) blocks
  errors : ∀ e, (s.call P c).1 = .batch (.error e) → (s.call P c).2 = s
  buffer : (s.call P c).2.blocksReceived.length ≤ maxBufferSize ∧
    ∀ b ∈ (s.call P c).2.blocksReceived, (s.call P c).2.ourHeight < b.header.height

theorem InOrder.progresses (hs : InOrder s) {c : SyncCall} (hc : c.OwnHeightLow) :
    Progresses P s c := by
  have hnext := hs.call (P := P) hc
  refine ⟨fun r hr => ?_, fun blocks hb => ?_, fun e he => ?_, hnext.bounded, hnext.above⟩
  · cases c with
    | createSyncRequest => exact hs.request (SyncAnswer.request.inj hr)
    | _ => cases hr
  · cases c with
    | processSyncResponse response => exact hs.batch (SyncAnswer.batch.inj hb)
    | _ => cases hb
  · cases c with
    | processSyncResponse response =>
      rcases processSyncResponse_cases P s response with ⟨state, hcase⟩ | ⟨e', hcase⟩ |
        ⟨first, rest, state, -, hcase⟩
      · rw [SyncProtocol.call, hcase] at he
        cases he
      · rw [SyncProtocol.call, hcase]
      · rw [SyncProtocol.call, hcase] at he
        cases he
    | _ => cases he

/-- **Sync progresses contiguously.**  Along every run of calls from a new protocol state, with any
responses and any heights heard of, every call does what is asked of it. -/
theorem sync_contiguous (P : Platform) (nodeId : NodeId) {initialHeight : UInt64}
    (hinitial : initialHeight.toNat < 2 ^ 63) {calls : List SyncCall}
    (hcalls : ∀ c ∈ calls, c.OwnHeightLow) :
    AllSteps (call P) (Progresses P) (new nodeId initialHeight) calls :=
  AllSteps.of_invariant InOrder (fun _ _ hc hs => hs.call hc)
    (fun _ _ hc hs => hs.progresses hc) (allSteps_of_forall _ fun c hmem _ => hcalls c hmem)
    (inOrder_new nodeId hinitial)

open Reference

def firstBlocks : List Block :=
  let b₁ := blockOf (headerAt 1 {} (node 1)) []
  [b₁, blockOf (headerAt 2 (b₁.header.hash reference) (node 1)) []]

def catchUp : List SyncCall :=
  [.onBlockReceived 7, .createSyncRequest, .processSyncResponse ⟨firstBlocks, 1, true⟩,
    .markBlocksApplied 2]

/-- The request is for the blocks 1 to 7, the two blocks are returned, and all is in order. -/
theorem sync_contiguous_catchUp :
    (trace (call reference) (fun s => s.ourHeight) (new (node 1) 0) catchUp) =
      [(.done, 0), (.request (some ⟨1, 7, node 1⟩), 0), (.batch (.ok firstBlocks), 0),
        (.done, 2)] ∧
    AllSteps (call reference) (Progresses reference) (new (node 1) 0)
      catchUp := by
  refine ⟨by decide +kernel, sync_contiguous reference (node 1) (by decide) ?_⟩
  simp [catchUp, SyncCall.OwnHeightLow]

end SyncProtocol

end Gratia
