import Gratia.Consensus.Sharding
import Gratia.Support.Runs
import Mathlib.Data.List.DropRight

/-!
# Consensus — Receipts

The cross-shard receipts of `gratia-consensus/src/sharded_consensus.rs`: a coordinator verifies a
receipt if it has an engine for the destination, queues it, and hands out the queue when asked.
Routing by location is left out; it does not touch the queue.
-/

namespace Gratia

open Support Std

instance : Ord ShardId := ordOn ShardId.id
instance : TransOrd ShardId := transOrd_on ShardId.id
instance : LawfulEqOrd ShardId := lawfulEqOrd_on ShardId.id fun a b h => by
  cases a
  cases b
  exact congrArg ShardId.mk h

/-! ### Receipts -/

structure CrossShardReceipt where
  txHash : Bytes32
  sourceShard : ShardId
  destShard : ShardId
  inclusionProof : Bytes
  sourceBlockHeight : UInt64
deriving DecidableEq

/-- What makes two receipts one transaction of one shard. -/
def CrossShardReceipt.key (receipt : CrossShardReceipt) : ShardId × Bytes32 :=
  (receipt.sourceShard, receipt.txHash)

variable (P : Platform)

def proofEntrySize : ℕ := 33

def proofEntries (proofBytes : Bytes) : List Bytes :=
  (List.range (proofBytes.length / proofEntrySize)).map fun i =>
    (proofBytes.drop (proofEntrySize * i)).take proofEntrySize

def verifyMerkleInclusion (leafHash : Bytes32) (proofBytes : Bytes) (expectedRoot : Bytes32) :
    Bool :=
  if proofBytes.length % proofEntrySize ≠ 0 then false
  else if proofBytes.isEmpty then leafHash == expectedRoot
  else
    let root := (proofEntries proofBytes).foldl (fun current chunk =>
      let isRight := chunk.headD 0 ≠ 0
      let sibling := chunk.drop 1
      if isRight then P.sha256 (current.bytes ++ sibling)
      else P.sha256 (sibling ++ current.bytes)) leafHash
    root == expectedRoot

def ShardedConsensus.verifyCrossShardReceipt (engine : ShardedConsensus)
    (receipt : CrossShardReceipt) (sourceStateRoot : Bytes32) : Except GratiaError Bool :=
  if receipt.destShard ≠ engine.config.shardId then
    .error (.blockValidationFailed
      (s!"Cross-shard receipt destination {receipt.destShard.id} does not match " ++
        s!"this shard {engine.config.shardId.id}"))
  else if !verifyMerkleInclusion P receipt.txHash receipt.inclusionProof sourceStateRoot then
    let hex := String.ofList ((receipt.txHash.bytes.take 8).flatMap fun x =>
      [Nat.digitChar (x.toNat / 16), Nat.digitChar (x.toNat % 16)])
    .error (.blockValidationFailed s!"Invalid Merkle proof for cross-shard receipt (tx {hex})")
  else .ok true

/-! ### The coordinator -/

structure ShardCoordinator where
  primaryShard : ShardId
  shardEngines : ExtTreeMap ShardId ShardedConsensus := ∅
  crossShardQueue : List CrossShardReceipt := []
  activeShardCount : UInt16

def minValidatorsPerShard : UInt64 := 5

namespace ShardCoordinator

def new (primaryShard : ShardId) (activeShardCount : UInt16) : ShardCoordinator :=
  { primaryShard := primaryShard, activeShardCount := activeShardCount }

/-- `neighbor_shards`: the shards before and after, in a ring. -/
def neighborShards (c : ShardCoordinator) (shardId : ShardId) : List ShardId :=
  if c.activeShardCount ≤ 1 then []
  else
    let id := shardId.id
    let count := c.activeShardCount
    let prev := if id = 0 then count - 1 else id - 1
    let next := if id = count - 1 then 0 else id + 1
    if prev = next then [⟨prev⟩] else [⟨prev⟩, ⟨next⟩]

/-- `initialize_shards`: engines for the primary shard and for the neighbours that have enough
validators. -/
def initializeShards (c : ShardCoordinator) (allValidators : List ValidatorInfo)
    (vrfSeed : Bytes32) : ShardCoordinator :=
  let shardAssignments : ExtTreeMap NodeId ShardId :=
    allValidators.foldl (fun m v => m.insert v.nodeId v.shardId) ∅
  let shardCount := fun shard => UInt64.ofNat (allValidators.countP fun v => v.shardId = shard)
  let engine := fun shard =>
    ({ config := .forShard shard (shardCount shard) : ShardedConsensus }).selectCommittee P
      allValidators shardAssignments (c.neighborShards shard) vrfSeed
  let neighbors := (c.neighborShards c.primaryShard).filter fun neighborId =>
    ¬ shardCount neighborId < minValidatorsPerShard
  { c with
    shardEngines := neighbors.foldl (fun m neighborId => m.insert neighborId (engine neighborId))
      (c.shardEngines.insert c.primaryShard (engine c.primaryShard)) }

def handleCrossShardTx (c : ShardCoordinator) (receipt : CrossShardReceipt)
    (sourceStateRoot : Bytes32) : Except GratiaError Unit × ShardCoordinator :=
  let queued := { c with crossShardQueue := c.crossShardQueue ++ [receipt] }
  match c.shardEngines[receipt.destShard]? with
  | some engine =>
    match engine.verifyCrossShardReceipt P receipt sourceStateRoot with
    | .ok _ => (.ok (), queued)
    | .error err => (.error err, c)
  -- A receipt for a shard without an engine is queued unseen.
  | none => (.ok (), queued)

def drainCrossShardQueue (c : ShardCoordinator) : List CrossShardReceipt × ShardCoordinator :=
  (c.crossShardQueue, { c with crossShardQueue := [] })

end ShardCoordinator

/-! ### Runs -/

inductive CoordinatorCall where
  | handleCrossShardTx (receipt : CrossShardReceipt) (sourceStateRoot : Bytes32)
  | drainCrossShardQueue
deriving DecidableEq

inductive CoordinatorAnswer where
  | handled (result : Except GratiaError Unit)
  | drained (receipts : List CrossShardReceipt)

def CoordinatorAnswer.receipts : CoordinatorAnswer → List CrossShardReceipt
  | .handled _ => []
  | .drained receipts => receipts

namespace ShardCoordinator

def call (c : ShardCoordinator) : CoordinatorCall → CoordinatorAnswer × ShardCoordinator
  | .handleCrossShardTx receipt sourceStateRoot =>
    let (result, c) := c.handleCrossShardTx P receipt sourceStateRoot
    (.handled result, c)
  | .drainCrossShardQueue =>
    let (receipts, c) := c.drainCrossShardQueue
    (.drained receipts, c)

def drainedBy (c : ShardCoordinator) (calls : List CoordinatorCall) : List CrossShardReceipt :=
  (trace (call P) (fun _ => ()) c calls).flatMap fun answer => answer.1.receipts

/-- The receipt passes: there is no engine for its destination, or the engine verifies it. -/
def admits (c : ShardCoordinator) (receipt : CrossShardReceipt) (sourceStateRoot : Bytes32) :
    Bool :=
  (c.shardEngines[receipt.destShard]?).all fun engine =>
    (engine.verifyCrossShardReceipt P receipt sourceStateRoot).isOk

def submission (c : ShardCoordinator) : CoordinatorCall → Option CrossShardReceipt
  | .handleCrossShardTx receipt root => if c.admits P receipt root then some receipt else none
  | .drainCrossShardQueue => none

def admitted (c : ShardCoordinator) (calls : List CoordinatorCall) : List CrossShardReceipt :=
  calls.filterMap (c.submission P)

variable {P} {c : ShardCoordinator}

theorem admitted_congr {c' : ShardCoordinator} (h : c'.shardEngines = c.shardEngines)
    (calls : List CoordinatorCall) : c'.admitted P calls = c.admitted P calls := by
  have hadmits : c'.admits P = c.admits P := by
    unfold admits
    rw [h]
  have hsame : c'.submission P = c.submission P := by
    funext x
    cases x with
    | handleCrossShardTx receipt root => rw [submission, hadmits, submission]
    | drainCrossShardQueue => rfl
  rw [admitted, hsame, admitted]

theorem admitted_append (calls later : List CoordinatorCall) :
    c.admitted P (calls ++ later) = c.admitted P calls ++ c.admitted P later :=
  List.filterMap_append

theorem handleCrossShardTx_eq (receipt : CrossShardReceipt) (sourceStateRoot : Bytes32) :
    (c.handleCrossShardTx P receipt sourceStateRoot).2 =
      { c with crossShardQueue := c.crossShardQueue ++
          if c.admits P receipt sourceStateRoot then [receipt] else [] } := by
  unfold handleCrossShardTx admits
  cases c.shardEngines[receipt.destShard]? with
  | none => simp
  | some engine =>
    cases hv : engine.verifyCrossShardReceipt P receipt sourceStateRoot with
    | ok verified => simp [hv, Except.isOk, Except.toBool]
    | error err => simp [hv, Except.isOk, Except.toBool]

/-! ### What is handed out -/

/-- **One call**: what it hands out and what is then queued is what was queued, with the receipt it
admits. -/
theorem call_accounts (c : ShardCoordinator) (x : CoordinatorCall) :
    (c.call P x).2.shardEngines = c.shardEngines ∧
      (c.call P x).1.receipts ++ (c.call P x).2.crossShardQueue =
        c.crossShardQueue ++ c.admitted P [x] := by
  cases x with
  | drainCrossShardQueue =>
    exact ⟨rfl, rfl⟩
  | handleCrossShardTx receipt root =>
    have hstate := handleCrossShardTx_eq (P := P) (c := c) receipt root
    change ((c.handleCrossShardTx P receipt root).2).shardEngines = _ ∧
      [] ++ ((c.handleCrossShardTx P receipt root).2).crossShardQueue = _
    rw [hstate]
    refine ⟨rfl, congrArg (c.crossShardQueue ++ ·) ?_⟩
    by_cases hadmits : c.admits P receipt root = true
    · simp [admitted, submission, hadmits]
    · simp [admitted, submission, hadmits]

theorem drainedBy_append_queue (c : ShardCoordinator) (calls : List CoordinatorCall) :
    c.drainedBy P calls ++ (run (call P) c calls).crossShardQueue =
      c.crossShardQueue ++ c.admitted P calls := by
  induction calls generalizing c with
  | nil => simp [drainedBy, trace, run, admitted]
  | cons x calls ih =>
    obtain ⟨hengines, hstep⟩ := c.call_accounts (P := P) x
    have hrest := ih (c.call P x).2
    rw [admitted_congr hengines] at hrest
    calc c.drainedBy P (x :: calls) ++ (run (call P) c (x :: calls)).crossShardQueue
        = (c.call P x).1.receipts ++ ((c.call P x).2.drainedBy P calls ++
            (run (call P) (c.call P x).2 calls).crossShardQueue) :=
          List.append_assoc _ _ _
      _ = (c.call P x).1.receipts ++ (c.call P x).2.crossShardQueue ++ c.admitted P calls := by
          rw [hrest, List.append_assoc]
      _ = c.crossShardQueue ++ c.admitted P (x :: calls) := by
          rw [hstep, List.append_assoc, ← admitted_append, List.singleton_append]

theorem drainedBy_concat (c : ShardCoordinator) (calls : List CoordinatorCall)
    (x : CoordinatorCall) :
    c.drainedBy P (calls ++ [x]) =
      c.drainedBy P calls ++ ((run (call P) c calls).call P x).1.receipts := by
  simp [drainedBy, trace_append, trace]

theorem drainedBy_eq (hqueue : c.crossShardQueue = []) (calls : List CoordinatorCall) :
    c.drainedBy P calls =
      c.admitted P (calls.rdropWhile fun x => x ≠ .drainCrossShardQueue) := by
  induction calls using List.reverseRecOn with
  | nil => rfl
  | append_singleton calls x ih =>
    rw [drainedBy_concat]
    cases x with
    | handleCrossShardTx receipt root =>
      rw [List.rdropWhile_concat_pos _ _ _ (by simp), ← ih]
      exact List.append_nil _
    | drainCrossShardQueue =>
      have hall := drainedBy_append_queue (P := P) c calls
      rw [hqueue, List.nil_append] at hall
      rw [List.rdropWhile_concat_neg _ _ _ (by simp), admitted_append, ← hall]
      exact (List.append_nil _).symm

theorem verifyCrossShardReceipt_ok {engine : ShardedConsensus} {receipt : CrossShardReceipt}
    {root : Bytes32} (h : (engine.verifyCrossShardReceipt P receipt root).isOk = true) :
    engine.verifyCrossShardReceipt P receipt root = .ok true := by
  unfold ShardedConsensus.verifyCrossShardReceipt at h ⊢
  split at h
  · cases h
  · split at h
    · cases h
    · simp_all

/-- **When receipts are relayed once.**  In a run that begins with an empty queue, no two receipts
handed out are of one transaction of one shard exactly if no two of those admitted before the last
time are; and a receipt handed out for a shard with an engine was verified by the engine against a
root it was submitted with. -/
theorem receipts_relayed_once_iff (hqueue : c.crossShardQueue = []) (calls : List CoordinatorCall) :
    (((c.drainedBy P calls).map CrossShardReceipt.key).Nodup ↔
      ((c.admitted P (calls.rdropWhile fun x => x ≠ .drainCrossShardQueue)).map
        CrossShardReceipt.key).Nodup) ∧
    ∀ receipt ∈ c.drainedBy P calls, ∀ engine, c.shardEngines[receipt.destShard]? = some engine →
      ∃ root, .handleCrossShardTx receipt root ∈ calls ∧
        engine.verifyCrossShardReceipt P receipt root = .ok true := by
  rw [drainedBy_eq hqueue]
  refine ⟨Iff.rfl, fun receipt hreceipt engine hengine => ?_⟩
  obtain ⟨x, hx, hsubmission⟩ := List.mem_filterMap.mp hreceipt
  have hcall : x ∈ calls := (List.rdropWhile_prefix _ _).subset hx
  cases x with
  | drainCrossShardQueue => cases hsubmission
  | handleCrossShardTx receipt' root =>
    simp only [submission, Option.ite_none_right_eq_some, Option.some.injEq] at hsubmission
    obtain ⟨hadmits, rfl⟩ := hsubmission
    rw [admits, hengine, Option.all_some] at hadmits
    exact ⟨root, hcall, verifyCrossShardReceipt_ok hadmits⟩

/-! ### A receipt submitted twice -/

def twoShards : ShardCoordinator :=
  (new ⟨0⟩ 2).initializeShards reference ShardedConsensus.Example.validators .zero

def lonelyReceipt (txHash : Bytes32) : CrossShardReceipt :=
  { txHash := txHash, sourceShard := ⟨1⟩, destShard := ⟨0⟩, inclusionProof := [],
    sourceBlockHeight := 1 }

def relay (txHash : Bytes32) : List CoordinatorCall :=
  [.handleCrossShardTx (lonelyReceipt txHash) txHash, .drainCrossShardQueue]

/-- **Relayed twice.**  A verified receipt is submitted again after the queue has been handed out,
and is handed out again. -/
theorem receipt_relayed_twice :
    twoShards.shardEngines.contains ⟨0⟩ = true ∧
      twoShards.drainedBy reference (relay (.splat 1) ++ relay (.splat 1)) =
        [lonelyReceipt (.splat 1), lonelyReceipt (.splat 1)] := by
  decide +kernel

/-- Two receipts of two transactions. -/
theorem receipts_relayed_once_twoTransactions :
    ((twoShards.drainedBy reference (relay (.splat 1) ++ relay (.splat 2))).map
      CrossShardReceipt.key).Nodup := by
  refine (receipts_relayed_once_iff rfl _).1.mpr ?_
  decide +kernel

end ShardCoordinator

end Gratia
