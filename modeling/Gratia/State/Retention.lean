import Gratia.State.ChainStore
import Gratia.State.Nullifiers

/-!
# State — Retention

What a pruning cycle promises and what it keeps.  The policy speaks of blocks: headers are kept for
all of them, transactions for the last so many, and of the attestations the older ones go first.
`run_pruning_cycle` has none of these notions.  A block whose body goes takes its header along; the
transactions are counted against a thousand per retained block, and those in excess go by the
timestamp their senders wrote; the attestations in excess go in the order of their nullifiers, which
are hashes.

Which entries go is a matter of their ranks (`transactionRank`, `nullifierRank`), and
`keepsPromise_iff` says in terms of them when a cycle keeps what the policy promises.
-/

namespace Gratia

open InMemoryStore (iterCf countKeys mem_iterCf)
open Support StateDb Std

namespace Pruning

/-! ### Which transactions and attestations are pruned -/

/-- The number of stored transactions in excess of a thousand per retained block. -/
def excessTransactions (policy : PruningPolicy) (currentHeight : UInt64) (s : InMemoryStore) : ℕ :=
  if currentHeight ≤ policy.transactionRetentionCount then 0
  else (s.countKeys .transactions).toNat - (policy.transactionRetentionCount * 1000).toNat

/-- The number of stored attestations in excess of the retained number. -/
def excessAttestations (policy : PruningPolicy) (s : InMemoryStore) : ℕ :=
  (s.countKeys .attestations).toNat - (maxRetained policy).toNat

/-- The order in which transactions are pruned: by timestamp, and by key where the timestamps are
the same. -/
def PrunedBefore (a b : Bytes × DateTime) : Prop :=
  timestampLe a b = true ∧ (timestampLe b a = true → compare a.1 b.1 = .lt)

instance : DecidableRel PrunedBefore :=
  fun a b => inferInstanceAs (Decidable (timestampLe a b = true ∧
    (timestampLe b a = true → compare a.1 b.1 = .lt)))

/-- How many of the stored transactions are pruned before the one under a key. -/
def transactionRank (P : Platform) (s : InMemoryStore) (hash : TxHash) (tx : Transaction) : ℕ :=
  (timestamped P s).countP fun e => PrunedBefore e (hash.bytes.bytes, tx.timestamp)

/-- How many of the stored nullifiers are smaller than this one. -/
def nullifierRank (s : InMemoryStore) (nullifier : Bytes32) : ℕ :=
  (s.iterCf .attestations).countP fun e => compare e.1 nullifier.bytes = .lt

section Ranks

variable {P : Platform} {policy : PruningPolicy} {currentHeight : UInt64} {s : InMemoryStore}

theorem get_deleteAll {cf : ColumnFamily} (keys : List Bytes) (k : Bytes) :
    (deleteAll cf keys s).get cf k = if k ∈ keys then none else s.get cf k := by
  induction keys generalizing s with
  | nil => rfl
  | cons k₀ keys ih =>
    refine (ih (s := s.delete cf k₀)).trans ?_
    by_cases hk : k₀ = k
    · subst hk
      simp [InMemoryStore.get_delete_self]
    · simp [InMemoryStore.get_delete_ne _ _ hk, Ne.symm hk]

theorem toNat_sub_eq {a b : UInt64} (h : ¬ a ≤ b) : (a - b).toNat = a.toNat - b.toNat := by
  rw [UInt64.le_iff_toNat_le, Nat.not_le] at h
  exact UInt64.toNat_sub_of_le _ _ (UInt64.le_iff_toNat_le.mpr h.le)

theorem timestampLe_iff {a b : Bytes × DateTime} : timestampLe a b = true ↔
    a.2.secs.toInt < b.2.secs.toInt ∨
      a.2.secs.toInt = b.2.secs.toInt ∧ a.2.nanos.toNat ≤ b.2.nanos.toNat := by
  simp [timestampLe, Int64.lt_iff_toInt_lt, UInt32.le_iff_toNat_le, Int64.toInt_inj]

theorem timestampLe_trans (a b c : Bytes × DateTime) (hab : timestampLe a b = true)
    (hbc : timestampLe b c = true) : timestampLe a c = true := by
  simp only [timestampLe_iff] at *
  omega

theorem timestampLe_total (a b : Bytes × DateTime) :
    (timestampLe a b || timestampLe b a) = true := by
  simp only [Bool.or_eq_true, timestampLe_iff]
  omega

theorem pairwise_sorted (s : InMemoryStore) :
    ((timestamped P s).mergeSort timestampLe).Pairwise PrunedBefore := by
  have hkeys : (timestamped P s).Pairwise fun a b => compare a.1 b.1 = .lt := by
    refine List.Pairwise.filterMap _ ?_ (ExtTreeMap.ordered_keys_toList (t := s.data .transactions))
    intro e e' hlt x hx y hy
    obtain ⟨_, -, rfl⟩ := Option.map_eq_some_iff.mp hx
    obtain ⟨_, -, rfl⟩ := Option.map_eq_some_iff.mp hy
    exact hlt
  exact pairwise_mergeSort_stable timestampLe_trans timestampLe_total
    (fun a h => absurd (h.symm.trans ReflOrd.compare_self) (by decide)) hkeys

theorem prunedBefore_asymm (a b : Bytes × DateTime) (hab : PrunedBefore a b) :
    ¬ PrunedBefore b a := by
  intro hba
  have hlt := hab.2 hba.1
  have hgt := hba.2 hab.1
  rw [OrientedOrd.eq_swap, hgt] at hlt
  cases hlt

theorem get_pruneOldTransactions (s : InMemoryStore) (k : Bytes) :
    (pruneOldTransactions P policy currentHeight s).2.get .transactions k =
      if k ∈ (((timestamped P s).mergeSort timestampLe).take
          (excessTransactions policy currentHeight s)).map Prod.fst then none
      else s.get .transactions k := by
  rw [pruneOldTransactions, excessTransactions]
  dsimp only
  split
  · simp
  · split
    next hle =>
      rw [Nat.sub_eq_zero_of_le (UInt64.le_iff_toNat_le.mp hle)]
      simp
    next hgt => rw [get_deleteAll, toNat_sub_eq hgt]

theorem get_runPruningCycle_transactions (P : Platform) (policy : PruningPolicy)
    (currentHeight : UInt64) (s : InMemoryStore) (k : Bytes) :
    (runPruningCycle P policy currentHeight s).2.get .transactions k =
      if k ∈ (((timestamped P s).mergeSort timestampLe).take
          (excessTransactions policy currentHeight s)).map Prod.fst then none
      else s.get .transactions k := by
  have hdata : (pruneOldBlocks policy currentHeight s).2.data .transactions =
      s.data .transactions := pruneOldBlocks_data (by decide) policy currentHeight s
  have hcycle : (runPruningCycle P policy currentHeight s).2.get .transactions k =
      (pruneOldTransactions P policy currentHeight (pruneOldBlocks policy currentHeight s).2).2.get
        .transactions k := by
    simp only [InMemoryStore.get, runPruningCycle]
    rw [pruneOldAttestations_data (by decide)]
  have hlist : timestamped P (pruneOldBlocks policy currentHeight s).2 = timestamped P s := by
    simp only [timestamped, iterCf, hdata]
  have hexcess : excessTransactions policy currentHeight (pruneOldBlocks policy currentHeight s).2 =
      excessTransactions policy currentHeight s := by
    simp only [excessTransactions, countKeys, hdata]
  rw [hcycle, get_pruneOldTransactions, hlist, hexcess]
  simp only [InMemoryStore.get, hdata]

variable {hash : TxHash} {tx : Transaction}

/-- A transaction that is found is in the list that the batch is cut off, once. -/
theorem mem_timestamped (h : getTransaction P hash s = .ok (some tx)) {d : DateTime} :
    (hash.bytes.bytes, d) ∈ timestamped P s ↔ d = tx.timestamp := by
  unfold getTransaction at h
  cases hget : s.get .transactions hash.bytes.bytes with
  | none => simp [hget] at h
  | some data =>
    simp only [hget, deserialize] at h
    cases htake : P.transaction.take data with
    | none => simp [htake, Except.map] at h
    | some r =>
      obtain ⟨tx', rest⟩ := r
      obtain rfl : tx' = tx := by simpa [htake, Except.map] using h
      simp only [timestamped, List.mem_filterMap, Prod.exists, mem_iterCf]
      constructor
      · rintro ⟨k, v, hkv, hmap⟩
        obtain ⟨r, hr, he⟩ := Option.map_eq_some_iff.mp hmap
        obtain ⟨rfl, rfl⟩ := Prod.mk.inj he
        rw [hget] at hkv
        cases hkv
        rw [htake] at hr
        cases hr
        rfl
      · rintro rfl
        exact ⟨_, _, hget, by simp [htake]⟩

theorem mem_batch_iff (h : getTransaction P hash s = .ok (some tx)) (n : ℕ) :
    hash.bytes.bytes ∈ (((timestamped P s).mergeSort timestampLe).take n).map Prod.fst ↔
      transactionRank P s hash tx < n := by
  have hmem : (hash.bytes.bytes, tx.timestamp) ∈ (timestamped P s).mergeSort timestampLe :=
    List.mem_mergeSort.mpr ((mem_timestamped h).mpr rfl)
  rw [transactionRank, ← (List.mergeSort_perm (timestamped P s) timestampLe).countP_eq,
    ← mem_take_iff_rank_lt prunedBefore_asymm (pairwise_sorted s) hmem]
  refine fst_mem_take_iff (fun d hd => ?_) n
  exact (mem_timestamped h).mp (List.mem_mergeSort.mp hd)

/-- **Which transactions are pruned**: those whose rank is below the excess. -/
theorem getTransaction_runPruningCycle :
    getTransaction P hash (runPruningCycle P policy currentHeight s).2 = .ok (some tx) ↔
      getTransaction P hash s = .ok (some tx) ∧
        excessTransactions policy currentHeight s ≤ transactionRank P s hash tx := by
  have hkept := get_runPruningCycle_transactions P policy currentHeight s hash.bytes.bytes
  rw [← Nat.not_lt]
  constructor
  · intro hafter
    split at hkept
    next => simp [getTransaction, hkept] at hafter
    next hout =>
      have hbefore : getTransaction P hash s = .ok (some tx) := by
        rw [← hafter, getTransaction, getTransaction, hkept]
      exact ⟨hbefore, fun hlt => hout ((mem_batch_iff hbefore _).mpr hlt)⟩
  · rintro ⟨hbefore, hrank⟩
    rw [if_neg fun hin => hrank ((mem_batch_iff hbefore _).mp hin)] at hkept
    rw [← hbefore, getTransaction, getTransaction, hkept]

theorem get_pruneOldAttestations (policy : PruningPolicy) (s : InMemoryStore) (k : Bytes) :
    (pruneOldAttestations policy s).2.get .attestations k =
      if k ∈ ((s.iterCf .attestations).take (excessAttestations policy s)).map Prod.fst then none
      else s.get .attestations k := by
  rw [pruneOldAttestations, excessAttestations]
  dsimp only
  split
  next hle =>
    rw [Nat.sub_eq_zero_of_le (UInt64.le_iff_toNat_le.mp hle)]
    simp
  next hgt => rw [get_deleteAll, toNat_sub_eq hgt]

theorem hasNullifier_pruneOldAttestations (policy : PruningPolicy) (s : InMemoryStore)
    (nullifier : Bytes32) :
    hasNullifier nullifier (pruneOldAttestations policy s).2 = true ↔
      hasNullifier nullifier s = true ∧
        excessAttestations policy s ≤ nullifierRank s nullifier := by
  have hget := get_pruneOldAttestations policy s nullifier.bytes
  cases hs : s.get .attestations nullifier.bytes with
  | none => simp [hasNullifier, hget, hs]
  | some data =>
    have hmem : (nullifier.bytes, data) ∈ s.iterCf .attestations :=
      mem_iterCf.mpr hs
    have hvalue : ∀ v, (nullifier.bytes, v) ∈ s.iterCf .attestations → v = data := by
      intro v hv
      rw [mem_iterCf, hs] at hv
      exact (Option.some.inj hv).symm
    have hasymm : ∀ a b : Bytes × Bytes, compare a.1 b.1 = .lt → ¬ compare b.1 a.1 = .lt := by
      intro a b hab hba
      rw [OrientedOrd.eq_swap, hba] at hab
      cases hab
    have hrank : nullifier.bytes ∈
        ((s.iterCf .attestations).take (excessAttestations policy s)).map Prod.fst ↔
          nullifierRank s nullifier < excessAttestations policy s :=
      (fst_mem_take_iff hvalue _).trans
        (mem_take_iff_rank_lt hasymm ExtTreeMap.ordered_keys_toList hmem _)
    rw [← Nat.not_lt, ← hrank, hasNullifier, hasNullifier, hget, hs]
    split
    next hin => exact iff_of_false (by simp) fun hkept => hkept.2 hin
    next hout => exact iff_of_true rfl ⟨rfl, hout⟩

/-- **Which attestations are pruned**: those whose nullifiers rank below the excess. -/
theorem hasNullifier_runPruningCycle (nullifier : Bytes32) :
    hasNullifier nullifier (runPruningCycle P policy currentHeight s).2 = true ↔
      hasNullifier nullifier s = true ∧
        excessAttestations policy s ≤ nullifierRank s nullifier := by
  have hdata : (pruneOldTransactions P policy currentHeight
      (pruneOldBlocks policy currentHeight s).2).2.data .attestations = s.data .attestations := by
    rw [pruneOldTransactions_data P (by decide), pruneOldBlocks_data (by decide)]
  refine (hasNullifier_pruneOldAttestations policy _ nullifier).trans ?_
  simp only [hasNullifier, excessAttestations, nullifierRank, iterCf,
    countKeys, InMemoryStore.get, hdata]

end Ranks

end Pruning

namespace StateManager

open Pruning

variable {P : Platform} {m : StateManager} {policy : PruningPolicy} {blocks : List Block}
  {h : ChainHistory} {height : UInt64} {s s' : InMemoryStore}

/-! ### Stores built by blocks -/

theorem ChainHistory.run_applied (hr : (forM blocks (applyBlock P m)).run h.store = .ok () s') :
    ∃ highest, h.run P m (blocks.map .apply) = ⟨s', blocks.reverse ++ h.chain, highest⟩ := by
  induction blocks generalizing h with
  | nil =>
    cases hr
    exact ⟨h.highest, rfl⟩
  | cons b blocks ih =>
    obtain ⟨s₁, h₁, h₂⟩ := forM_cons_ok.mp hr
    have hcall : (h.call P m (.apply b)).2 =
        ⟨s₁, b :: h.chain, max h.highest b.header.height.toNat⟩ := by
      simp only [ChainHistory.call, h₁]
    obtain ⟨highest, hrun⟩ := ih (h := (h.call P m (.apply b)).2) (by rw [hcall]; exact h₂)
    refine ⟨highest, hrun.trans ?_⟩
    rw [hcall]
    simp

theorem stored_applied (hs : NoChain s) (hapart : HashesApart P blocks)
    (hroom : blocks.length < 2 ^ 64) (hr : (forM blocks (applyBlock P m)).run s = .ok () s') :
    ∃ highest, Stored P m blocks ⟨s', blocks.reverse, highest⟩ := by
  have hoffered : offered (blocks.map .apply) = blocks := by
    simp [offered, List.filterMap_map]
  obtain ⟨highest, hrun⟩ := ChainHistory.run_applied (h := ⟨s, [], 0⟩) hr
  have hst : Stored P m blocks (ChainHistory.run P m ⟨s, [], 0⟩ (blocks.map .apply)) :=
    (stored_start hs blocks).run hapart (by rw [hoffered]; exact fun _ hb => hb)
      (by rw [hoffered]; simpa using hroom)
  rw [hrun, List.append_nil] at hst
  exact ⟨highest, hst⟩

/-! ### Headers -/

/-- A header is retrieved under its hash or under its height. -/
def HeaderFound (P : Platform) (header : BlockHeader) (s : InMemoryStore) : Prop :=
  ∃ b, (getBlock P (header.hash P) s = .ok (some b) ∨
    getBlockByHeight P header.height s = .ok (some b)) ∧ b.header = header

theorem headerFound_iff {b : Block}
    (hi : s.get .blocks (toBeBytes b.header.height) = some (bodyKey P b)) :
    HeaderFound P b.header s ↔
      ∃ b', getBlock P (b.header.hash P) s = .ok (some b') ∧ b'.header = b.header := by
  simp only [HeaderFound, getBlockByHeight_of_index hi, or_self]

/-- Which headers a cycle leaves: those at the cutoff or above it. -/
theorem headerFound_runPruningCycle (hapart : HashesApart P blocks) (hst : Stored P m blocks h)
    {b : Block} (hb : b ∈ h.chain) :
    HeaderFound P b.header (runPruningCycle P policy height h.store).2 ↔
      HeaderFound P b.header h.store ∧
        height.toNat - policy.blockRetentionCount.toNat ≤ b.header.height.toNat := by
  have hsmall := height.toNat_lt
  have hindex : (runPruningCycle P policy height h.store).2.get .blocks
      (toBeBytes b.header.height) = some (bodyKey P b) := by
    rw [get_runPruningCycle_blocks, if_neg fun hk => absurd hk.1 (by simp), hst.index b hb]
  have hlen : (bodyKey P b).length = 32 := (b.header.hash P).bytes.length_eq
  have hnamed := hst.named_iff hapart hb
    (show height.toNat - policy.blockRetentionCount.toNat ≤ 2 ^ 64 by omega)
  rw [headerFound_iff hindex, headerFound_iff (hst.index b hb), ← Nat.not_lt]
  by_cases hlow : b.header.height.toNat < height.toNat - policy.blockRetentionCount.toNat
  · have hgone : (runPruningCycle P policy height h.store).2.get .blocks (bodyKey P b) = none := by
      rw [get_runPruningCycle_blocks, if_pos ⟨hlen, hnamed.mpr hlow⟩]
    unfold bodyKey at hgone
    simp [getBlock, hgone, hlow]
  · have hkept : (runPruningCycle P policy height h.store).2.get .blocks (bodyKey P b) =
        h.store.get .blocks (bodyKey P b) := by
      rw [get_runPruningCycle_blocks, if_neg fun hk => hlow (hnamed.mp hk.2)]
    unfold bodyKey at hkept
    simp [getBlock, hkept, hlow]

theorem headers_kept_iff (policy : PruningPolicy) (hapart : HashesApart P blocks)
    (hst : Stored P m blocks h) (hheight : getBlockHeight h.store = .ok height) :
    (∀ b ∈ h.chain, HeaderFound P b.header (runPruningCycle P policy height h.store).2) ↔
      (∀ b ∈ h.chain, HeaderFound P b.header h.store) ∧
        height.toNat ≤ policy.blockRetentionCount.toNat + 1 := by
  have hlen := hst.height_eq hheight
  constructor
  · intro hkept
    refine ⟨fun b hb => ((headerFound_runPruningCycle hapart hst hb).mp (hkept b hb)).1, ?_⟩
    by_contra hlong
    -- the first block is below the cutoff
    obtain ⟨b, hb, hfirst⟩ := hst.linked.exists_height Nat.one_pos (by omega)
    have := ((headerFound_runPruningCycle hapart hst hb).mp (hkept b hb)).2
    omega
  · rintro ⟨hfound, hshort⟩ b hb
    have hpos := (hst.linked.height_le hb).1
    exact (headerFound_runPruningCycle hapart hst hb).mpr ⟨hfound b hb, by omega⟩

/-! ### The promise -/

/-- Of two nullifiers on the chain, which has its newest block first, the first is older: from some
block on the chain contains the second and no longer the first. -/
def OlderIn (chain : List Block) (n n' : Bytes32) : Prop :=
  ∃ newer older, chain = newer ++ older ∧ n' ∈ newer.flatMap nullifiers ∧
    n ∉ newer.flatMap nullifiers

/-- The cycle that led from `s` to `s'` kept what the policy promises. -/
structure KeepsPromise (P : Platform) (policy : PruningPolicy) (chain : List Block)
    (s s' : InMemoryStore) : Prop where
  headers : ∀ b ∈ chain, HeaderFound P b.header s'
  transactions : ∀ b ∈ chain.take policy.transactionRetentionCount.toNat, ∀ tx ∈ b.transactions,
    getTransaction P tx.hash s' = .ok (some tx)
  attestations : ∀ n n', hasNullifier n s = true → hasNullifier n s' = false →
    hasNullifier n' s' = true → OlderIn chain n n'

/-- The store is one that the cycle prunes as the policy says: no header is below the cutoff, the
transactions of the blocks to retain are there and not among the oldest in excess, and the
nullifiers in excess are smaller than the others only if they are older. -/
structure PrunedAsPromised (P : Platform) (policy : PruningPolicy) (height : UInt64)
    (chain : List Block) (s : InMemoryStore) : Prop where
  headers : (∀ b ∈ chain, HeaderFound P b.header s) ∧
    height.toNat ≤ policy.blockRetentionCount.toNat + 1
  transactions : ∀ b ∈ chain.take policy.transactionRetentionCount.toNat, ∀ tx ∈ b.transactions,
    getTransaction P tx.hash s = .ok (some tx) ∧
      excessTransactions policy height s ≤ transactionRank P s tx.hash tx
  attestations : ∀ n n', hasNullifier n s = true → hasNullifier n' s = true →
    nullifierRank s n < excessAttestations policy s →
    excessAttestations policy s ≤ nullifierRank s n' → OlderIn chain n n'

/-- **When a cycle keeps the promise, exactly**: for every chain that is built by blocks that are
all applied, and every policy. -/
theorem keepsPromise_iff (hs : NoChain s) (hapart : HashesApart P blocks)
    (hroom : blocks.length < 2 ^ 64) (hr : (forM blocks (applyBlock P m)).run s = .ok () s')
    (hheight : getBlockHeight s' = .ok height) (policy : PruningPolicy) :
    KeepsPromise P policy blocks.reverse s' (runPruningCycle P policy height s').2 ↔
      PrunedAsPromised P policy height blocks.reverse s' := by
  obtain ⟨highest, hst⟩ := stored_applied hs hapart hroom hr
  have hheaders := headers_kept_iff policy hapart hst hheight
  constructor
  · intro hkeeps
    refine ⟨hheaders.mp hkeeps.headers, fun b hb tx htx => ?_, fun n n' hn hn' hlow hhigh => ?_⟩
    · exact getTransaction_runPruningCycle.mp (hkeeps.transactions b hb tx htx)
    · refine hkeeps.attestations n n' hn ?_ ((hasNullifier_runPruningCycle n').mpr ⟨hn', hhigh⟩)
      rw [← Bool.not_eq_true, hasNullifier_runPruningCycle]
      exact fun hkept => absurd hlow (Nat.not_lt.mpr hkept.2)
  · intro hpruned
    refine ⟨hheaders.mpr hpruned.headers, fun b hb tx htx => ?_, fun n n' hn hgone hkept => ?_⟩
    · exact getTransaction_runPruningCycle.mpr (hpruned.transactions b hb tx htx)
    · obtain ⟨hn', hhigh⟩ := (hasNullifier_runPruningCycle n').mp hkept
      refine hpruned.attestations n n' hn hn' ?_ hhigh
      rw [← Bool.not_eq_true, hasNullifier_runPruningCycle] at hgone
      exact Nat.not_le.mp fun hle => hgone ⟨hn, hle⟩

/-! ### A payment and what follows it -/

def retainOne : PruningPolicy := { blockRetentionCount := 1 }

def afterPayment : ℕ → List Block
  | 0 => [payment 0]
  | n + 1 => afterPayment n ++ [childOfBlock ((afterPayment n).getLastD (payment 0)) 1]

def afterPaymentStore (n : ℕ) : InMemoryStore :=
  finalState ((forM (afterPayment n) (applyBlock reference {})).run fundedStore)

/-- With one block on top of the payment, nothing is below the cutoff. -/
theorem keepsPromise_afterPayment :
    KeepsPromise reference retainOne (afterPayment 1).reverse (afterPaymentStore 1)
      (runPruningCycle reference retainOne 2 (afterPaymentStore 1)).2 := by
  have hfacts :
      failure ((forM (afterPayment 1) (applyBlock reference {})).run fundedStore) = none ∧
      getBlockHeight (afterPaymentStore 1) = .ok 2 ∧
      (∀ b ∈ (afterPayment 1).reverse,
        getBlock reference (b.header.hash reference) (afterPaymentStore 1) = .ok (some b)) ∧
      (∀ b ∈ (afterPayment 1).reverse, ∀ tx ∈ b.transactions,
        getTransaction reference tx.hash (afterPaymentStore 1) = .ok (some tx)) ∧
      excessTransactions retainOne 2 (afterPaymentStore 1) = 0 ∧
      excessAttestations retainOne (afterPaymentStore 1) = 0 ∧
      HashesApart reference (afterPayment 1) := by
    decide +kernel
  obtain ⟨happlied, hheight, hblocks, htxs, hnoTxs, hnoAtts, hapart⟩ := hfacts
  refine (keepsPromise_iff ⟨rfl, rfl⟩ hapart (by decide) (eq_ok_of_failure happlied) hheight
    retainOne).mpr ⟨⟨fun b hb => ⟨b, .inl (hblocks b hb), rfl⟩, by decide⟩,
      fun b hb tx htx => ⟨htxs b (List.mem_of_mem_take hb) tx htx, ?_⟩, fun n n' _ _ hlow => ?_⟩
  · exact hnoTxs.le.trans (Nat.zero_le _)
  · exact absurd (hlow.trans_eq hnoAtts) (Nat.not_lt_zero _)

abbrev prunedPayment : InMemoryStore :=
  (runPruningCycle reference retainOne 3 (afterPaymentStore 2)).2

/-- With two blocks on top of it, the payment's block is below the cutoff, and its header goes with
its body. -/
theorem pruned_header_not_found :
    (failure ((forM (afterPayment 2) (applyBlock reference {})).run fundedStore) = none ∧
      getBlockHeight (afterPaymentStore 2) = .ok 3 ∧
      getBlock reference ((payment 0).header.hash reference) prunedPayment = .ok none ∧
      getBlockByHeight reference 1 prunedPayment = .ok none) ∧
    ¬ KeepsPromise reference retainOne (afterPayment 2).reverse (afterPaymentStore 2)
      prunedPayment := by
  refine and_of_imp (by decide +kernel) fun ⟨_, _, hhash, hindex⟩ hkeeps => ?_
  obtain ⟨b, hfound | hfound, -⟩ := hkeeps.headers (payment 0) (by simp [afterPayment])
  · cases hhash.symm.trans hfound
  · cases hindex.symm.trans hfound

end StateManager

end Gratia
