import Gratia.State.Db

/-!
# State — Pruning

`gratia-state/src/pruning.rs`, the policy-driven cycle that `apply_block` runs when the store has
outgrown its size target.  It deletes block bodies, transactions and attestations.
-/

namespace Gratia

open Support (Bytes Codec)
open Std

/-- `PruningPolicy`, without the warning threshold, which no modelled function reads. -/
structure PruningPolicy where
  maxDbSizeBytes : UInt64 := 3 * 1024 * 1024 * 1024
  blockRetentionCount : UInt64 := 100000
  transactionRetentionCount : UInt64 := 50000
  attestationRetentionDays : UInt32 := 30
deriving DecidableEq

structure PruningResult where
  blocksPruned : UInt64
  transactionsPruned : UInt64
  attestationsPruned : UInt64
  bytesFreed : UInt64
deriving DecidableEq

namespace Pruning

variable (P : Platform)

def shouldPrune (policy : PruningPolicy) (s : InMemoryStore) : Bool :=
  s.estimateSizeBytes > policy.maxDbSizeBytes

/-- One height of `prune_old_blocks`: the body goes, the height index stays. -/
def pruneHeight (acc : UInt64 × InMemoryStore) (height : ℕ) : UInt64 × InMemoryStore :=
  match acc.2.get .blocks (toBeBytes (UInt64.ofNat height)) with
  | some hashBytes =>
    if hashBytes.length = 32 then (acc.1 + 1, acc.2.delete .blocks hashBytes) else acc
  | none => acc

def pruneOldBlocks (policy : PruningPolicy) (currentHeight : UInt64) (s : InMemoryStore) :
    UInt64 × InMemoryStore :=
  if currentHeight ≤ policy.blockRetentionCount then (0, s)
  else (List.range (currentHeight - policy.blockRetentionCount).toNat).foldl pruneHeight (0, s)

def deleteAll (cf : ColumnFamily) (keys : List Bytes) (s : InMemoryStore) : InMemoryStore :=
  keys.foldl (fun s k => s.delete cf k) s

/-- The order `sort_by_key` uses on timestamps. -/
def timestampLe (a b : Bytes × DateTime) : Bool :=
  a.2.secs < b.2.secs || a.2.secs == b.2.secs && a.2.nanos ≤ b.2.nanos

/-- The transactions that decode, with their timestamps. -/
def timestamped (s : InMemoryStore) : List (Bytes × DateTime) :=
  (s.iterCf .transactions).filterMap fun e =>
    (P.transaction.take e.2).map fun tx => (e.1, tx.1.timestamp)

/-- `prune_old_transactions`: the oldest in excess of a thousand per retained block. -/
def pruneOldTransactions (policy : PruningPolicy) (currentHeight : UInt64) (s : InMemoryStore) :
    UInt64 × InMemoryStore :=
  let count := s.countKeys .transactions
  let maxExpectedTxs := policy.transactionRetentionCount * 1000
  if currentHeight ≤ policy.transactionRetentionCount then (0, s)
  else if count ≤ maxExpectedTxs then (0, s)
  else
    -- `count` is of all keys, also of those that do not decode and are never in the batch.
    let sorted := (timestamped P s).mergeSort timestampLe
    let batch := (sorted.take (count - maxExpectedTxs).toNat).map Prod.fst
    (UInt64.ofNat batch.length, deleteAll .transactions batch s)

def maxRetained (policy : PruningPolicy) : UInt64 :=
  policy.attestationRetentionDays.toUInt64 * 10000

/-- `prune_old_attestations`: the first keys in excess of the retained number. -/
def pruneOldAttestations (policy : PruningPolicy) (s : InMemoryStore) : UInt64 × InMemoryStore :=
  let count := s.countKeys .attestations
  if count ≤ maxRetained policy then (0, s)
  else
    -- In key order: the store does not know how old an attestation is.
    let batch := ((s.iterCf .attestations).take (count - maxRetained policy).toNat).map Prod.fst
    (UInt64.ofNat batch.length, deleteAll .attestations batch s)

def saturatingSub (a b : UInt64) : UInt64 := if a < b then 0 else a - b

def runPruningCycle (policy : PruningPolicy) (currentHeight : UInt64) (s : InMemoryStore) :
    PruningResult × InMemoryStore :=
  let b := pruneOldBlocks policy currentHeight s
  let t := pruneOldTransactions P policy currentHeight b.2
  let a := pruneOldAttestations policy t.2
  (⟨b.1, t.1, a.1, saturatingSub s.estimateSizeBytes a.2.estimateSizeBytes⟩, a.2)

/-! ### What pruning does not touch -/

variable {cf : ColumnFamily}

theorem deleteAll_data {cf' : ColumnFamily} (h : cf' ≠ cf) (keys : List Bytes) (s : InMemoryStore) :
    (deleteAll cf keys s).data cf' = s.data cf' := by
  induction keys generalizing s with
  | nil => rfl
  | cons k keys ih => exact (ih _).trans (s.delete_data_ne h k)

theorem pruneHeight_data (h : cf ≠ .blocks) (acc : UInt64 × InMemoryStore) (height : ℕ) :
    (pruneHeight acc height).2.data cf = acc.2.data cf := by
  unfold pruneHeight
  split
  · split
    · exact acc.2.delete_data_ne h _
    · rfl
  · rfl

theorem pruneOldBlocks_data (h : cf ≠ .blocks) (policy : PruningPolicy) (currentHeight : UInt64)
    (s : InMemoryStore) : (pruneOldBlocks policy currentHeight s).2.data cf = s.data cf := by
  have hfold : ∀ (l : List ℕ) (acc : UInt64 × InMemoryStore),
      (l.foldl pruneHeight acc).2.data cf = acc.2.data cf := by
    intro l
    induction l with
    | nil => intro acc; rfl
    | cons n l ih => intro acc; exact (ih _).trans (pruneHeight_data h acc n)
  unfold pruneOldBlocks
  split
  · rfl
  · exact hfold _ _

theorem pruneOldTransactions_data (h : cf ≠ .transactions) (policy : PruningPolicy)
    (currentHeight : UInt64) (s : InMemoryStore) :
    (pruneOldTransactions P policy currentHeight s).2.data cf = s.data cf := by
  unfold pruneOldTransactions
  dsimp only
  split
  · rfl
  · split
    · rfl
    · exact deleteAll_data h _ _

theorem pruneOldAttestations_data (h : cf ≠ .attestations) (policy : PruningPolicy)
    (s : InMemoryStore) : (pruneOldAttestations policy s).2.data cf = s.data cf := by
  unfold pruneOldAttestations
  dsimp only
  split
  · rfl
  · exact deleteAll_data h _ _

/-! ### Which blocks are pruned -/

theorem get_pruneHeight (acc : UInt64 × InMemoryStore) (height : ℕ) (k : Bytes) :
    (pruneHeight acc height).2.get .blocks k =
      if k.length = 32 ∧ acc.2.get .blocks (toBeBytes (UInt64.ofNat height)) = some k then none
      else acc.2.get .blocks k := by
  unfold pruneHeight
  cases hi : acc.2.get .blocks (toBeBytes (UInt64.ofNat height)) with
  | none => simp
  | some hashBytes =>
    by_cases hk : hashBytes = k
    · subst hk
      by_cases hlen : hashBytes.length = 32 <;> simp [hlen]
    · have hne : ¬ (k.length = 32 ∧ some hashBytes = some k) :=
        fun h => hk (Option.some.inj h.2)
      rw [if_neg hne]
      dsimp only
      split
      · exact acc.2.get_delete_ne _ hk
      · rfl

theorem get_pruneHeight_index (acc : UInt64 × InMemoryStore) (height : ℕ) (index : UInt64) :
    (pruneHeight acc height).2.get .blocks (toBeBytes index) =
      acc.2.get .blocks (toBeBytes index) := by
  rw [get_pruneHeight, if_neg fun h => absurd h.1 (by simp)]

theorem get_pruneHeights (heights : List ℕ) (acc : UInt64 × InMemoryStore) (k : Bytes) :
    (heights.foldl pruneHeight acc).2.get .blocks k =
      if k.length = 32 ∧
          ∃ n ∈ heights, acc.2.get .blocks (toBeBytes (UInt64.ofNat n)) = some k then none
      else acc.2.get .blocks k := by
  induction heights generalizing acc with
  | nil => simp
  | cons n heights ih =>
    rw [List.foldl_cons, ih, get_pruneHeight]
    simp only [get_pruneHeight_index, List.mem_cons, exists_eq_or_imp]
    by_cases hlen : k.length = 32
    · by_cases hn : acc.2.get .blocks (toBeBytes (UInt64.ofNat n)) = some k <;> simp [hlen, hn]
    · simp [hlen]

/-- **What a pruning cycle does to the blocks**: the bodies that the index names below the cutoff
are deleted, everything else stays. -/
theorem get_runPruningCycle_blocks (policy : PruningPolicy) (currentHeight : UInt64)
    (s : InMemoryStore) (k : Bytes) :
    (runPruningCycle P policy currentHeight s).2.get .blocks k =
      if k.length = 32 ∧ ∃ n < currentHeight.toNat - policy.blockRetentionCount.toNat,
          s.get .blocks (toBeBytes (UInt64.ofNat n)) = some k then none
      else s.get .blocks k := by
  have hcycle : (runPruningCycle P policy currentHeight s).2.get .blocks k =
      (pruneOldBlocks policy currentHeight s).2.get .blocks k := by
    simp only [InMemoryStore.get, runPruningCycle]
    rw [pruneOldAttestations_data (by decide), pruneOldTransactions_data P (by decide)]
  rw [hcycle, pruneOldBlocks]
  split
  next hle =>
    rw [UInt64.le_iff_toNat_le] at hle
    simp [Nat.sub_eq_zero_of_le hle]
  next hgt =>
    rw [UInt64.le_iff_toNat_le, Nat.not_le] at hgt
    rw [get_pruneHeights, UInt64.toNat_sub_of_le _ _ (UInt64.le_iff_toNat_le.mpr hgt.le)]
    simp only [List.mem_range]

theorem runPruningCycle_blocks (policy : PruningPolicy) (currentHeight : UInt64) (s : InMemoryStore)
    (k : Bytes) : (runPruningCycle P policy currentHeight s).2.get .blocks k = none ∨
      (runPruningCycle P policy currentHeight s).2.get .blocks k = s.get .blocks k := by
  rw [get_runPruningCycle_blocks]
  split
  · exact .inl rfl
  · exact .inr rfl

/-- **Pruning keeps the accounts and the chain state.** -/
theorem runPruningCycle_data (hb : cf ≠ .blocks) (ht : cf ≠ .transactions) (ha : cf ≠ .attestations)
    (policy : PruningPolicy) (currentHeight : UInt64) (s : InMemoryStore) :
    (runPruningCycle P policy currentHeight s).2.data cf = s.data cf :=
  (pruneOldAttestations_data ha policy _).trans
    ((pruneOldTransactions_data P ht policy currentHeight _).trans
      (pruneOldBlocks_data hb policy currentHeight s))

theorem pruneOldAttestations_of_le {policy : PruningPolicy} {s : InMemoryStore}
    (h : s.countKeys .attestations ≤ maxRetained policy) :
    (pruneOldAttestations policy s).2 = s := by
  simp only [pruneOldAttestations, if_pos h]

theorem runPruningCycle_attestations {policy : PruningPolicy} {s : InMemoryStore}
    (h : s.countKeys .attestations ≤ maxRetained policy) (currentHeight : UInt64) :
    (runPruningCycle P policy currentHeight s).2.data .attestations = s.data .attestations := by
  have hdata : (pruneOldTransactions P policy currentHeight
      (pruneOldBlocks policy currentHeight s).2).2.data .attestations = s.data .attestations := by
    rw [pruneOldTransactions_data P (by decide), pruneOldBlocks_data (by decide)]
  show (pruneOldAttestations policy _).2.data .attestations = _
  rw [pruneOldAttestations_of_le, hdata]
  rwa [InMemoryStore.countKeys, hdata]

end Pruning

end Gratia
