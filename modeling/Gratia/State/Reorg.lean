import Gratia.Core.Mempool
import Gratia.State.Revert

/-!
# State — Reorg

What becomes of a transaction whose block is reverted.  `revert_to_height` hands the transactions of
the reverted blocks out so that they can go back into the mempool.  The mempool has handed them out
itself, for the block, and remembers the hashes of all it ever took: `drain_for_block` leaves them
in `seen_hashes`, and nothing removes them.

The two components are run together: calls on the pool, blocks made of what the pool has handed
out, and deep reverts, in any order.  The invariant (`Tracked`) is that every body in the store is a
block of drained transactions, so that only drained transactions come back out of it.
-/

namespace Gratia

open Support
open StateDb StateManager

/-! ### What a deep revert hands out -/

namespace StateManager

variable {P : Platform} {m : StateManager} {s t : InMemoryStore} {D : Transaction → Prop}

/-- Every body in the store is a block whose transactions satisfy `D`. -/
def BodiesOf (P : Platform) (D : Transaction → Prop) (s : InMemoryStore) : Prop :=
  ∀ (k : Bytes32) data, s.get .blocks k.bytes = some data →
    ∃ b, data = P.block.put b ∧ ∀ tx ∈ b.transactions, D tx

theorem BodiesOf.remove (hs : BodiesOf P D s)
    (h : ∀ k, t.get .blocks k = none ∨ t.get .blocks k = s.get .blocks k) : BodiesOf P D t := by
  intro k data hdata
  rcases h k.bytes with hnone | hsame
  · rw [hnone] at hdata
    cases hdata
  · exact hs k data (hsame ▸ hdata)

theorem BodiesOf.congr (hs : BodiesOf P D s) (h : t.data .blocks = s.data .blocks) :
    BodiesOf P D t :=
  hs.remove fun k => .inr (by simp only [InMemoryStore.get, h])

theorem BodiesOf.putBlock {block : Block} (hs : BodiesOf P D s)
    (hblock : ∀ tx ∈ block.transactions, D tx) : BodiesOf P D (putBlock P block s) := by
  intro k data hdata
  by_cases hk : block.header.hash P = ⟨k⟩
  · obtain rfl : (block.header.hash P).bytes = k := congrArg BlockHash.bytes hk
    rw [get_putBlock_self] at hdata
    exact ⟨block, (Option.some.inj hdata).symm, hblock⟩
  · have hbefore : s.get .blocks k.bytes = some data := (get_putBlock_ne P hk).symm.trans hdata
    exact hs k data hbefore

theorem BodiesOf.read {hash : BlockHash} {b : Block} (hs : BodiesOf P D s)
    (hb : getBlock P hash s = .ok (some b)) : ∀ tx ∈ b.transactions, D tx := by
  unfold getBlock at hb
  split at hb
  next data hdata =>
    obtain ⟨c, rfl, hc⟩ := hs hash.bytes data hdata
    obtain rfl : c = b := by simpa [Except.map] using hb
    exact hc
  next => cases hb

theorem BodiesOf.applyBlock {block : Block} (hs : BodiesOf P D s)
    (hblock : ∀ tx ∈ block.transactions, D tx) :
    BodiesOf P D (finalState ((StateManager.applyBlock P m block).run s)) := by
  cases hr : (StateManager.applyBlock P m block).run s with
  | ok u s' =>
    obtain ⟨-, s₁, htxs, rfl⟩ := applyBlock_ok.mp hr
    have hblocks : s₁.data .blocks = s.data .blocks := applyTransactions_data (by decide) htxs
    have hs₁ := hs.congr hblocks
    exact (hs₁.putBlock hblock).remove (finishBlock_blocks P m block s₁)
  | error e s' =>
    rcases applyBlock_error.mp hr with ⟨-, rfl⟩ | ⟨-, htxs⟩
    · exact hs
    · exact hs.congr ((Keeps.forM (keeps_applyTransaction (by decide)) _).of_error htxs)

theorem BodiesOf.revertBlock (hs : BodiesOf P D s) :
    BodiesOf P D (finalState ((StateManager.revertBlock P).run s)) := by
  rcases revertBlock_cases P s with
    ⟨e, t, hr, hrest⟩ | ⟨height, tip, block, t, -, -, -, -, -, hrest, hr⟩
  · rw [hr]
    exact hs.congr (hrest .blocks (by decide))
  · rw [hr]
    exact (hs.congr (hrest .blocks (by decide))).remove fun k => unrecordBlock_blocks _ _ k

theorem BodiesOf.collected (hs : BodiesOf P D s) (tip : Option BlockHash) :
    ∀ tx ∈ (tip.bind fun hash => (getBlock P hash s).toOption.join).elim []
      fun b => b.transactions, D tx := by
  intro tx htx
  cases hb : tip.bind fun hash => (getBlock P hash s).toOption.join with
  | none =>
    rw [hb] at htx
    cases htx
  | some b =>
    rw [hb] at htx
    obtain ⟨hash, -, hread⟩ := Option.bind_eq_some_iff.mp hb
    exact hs.read (toOption_eq_some.mp (Option.join_eq_some_iff.mp hread)) tx htx

theorem BodiesOf.revertBlocks (n : ℕ) (orphanedTxs : List Transaction) (hs : BodiesOf P D s)
    (horphaned : ∀ tx ∈ orphanedTxs, D tx) :
    BodiesOf P D (finalState ((StateManager.revertBlocks P n orphanedTxs).run s)) ∧
      ∀ txs t, (StateManager.revertBlocks P n orphanedTxs).run s = .ok txs t →
        ∀ tx ∈ txs, D tx := by
  induction n generalizing s orphanedTxs with
  | zero =>
    refine ⟨hs, fun txs t hr => ?_⟩
    cases hr
    exact horphaned
  | succ n ih =>
    rw [StateManager.revertBlocks]
    cases htip : getChainTip s with
    | error e =>
      rw [Db.read_bind_error htip]
      exact ⟨hs, by simp⟩
    | ok tip =>
      rw [Db.read_bind _ htip,
        Db.read_bind (tip.bind fun hash => (getBlock P hash s).toOption.join) rfl]
      have hs₁ := hs.revertBlock
      cases hr : (StateManager.revertBlock P).run s with
      | error e t =>
        rw [bind_of_error hr]
        rw [hr] at hs₁
        exact ⟨hs₁, by simp⟩
      | ok u t =>
        rw [bind_of_ok hr]
        rw [hr] at hs₁
        refine ih _ hs₁ fun tx htx => ?_
        rcases List.mem_append.mp htx with htx | htx
        · exact horphaned tx htx
        · exact hs.collected tip tx htx

theorem BodiesOf.revertToHeight (target : UInt64) (hs : BodiesOf P D s) :
    BodiesOf P D (finalState ((StateManager.revertToHeight P target).run s)) ∧
      ∀ txs t, (StateManager.revertToHeight P target).run s = .ok txs t → ∀ tx ∈ txs, D tx := by
  rw [StateManager.revertToHeight]
  cases hh : getBlockHeight s with
  | error e =>
    rw [Db.read_bind_error hh]
    exact ⟨hs, by simp⟩
  | ok current =>
    rw [Db.read_bind _ hh]
    split
    next =>
      refine ⟨hs, fun txs t hr => ?_⟩
      cases hr
      simp
    next => exact hs.revertBlocks _ [] (by simp)

theorem BodiesOf.mono {D' : Transaction → Prop} (hs : BodiesOf P D s) (hD : ∀ tx, D tx → D' tx) :
    BodiesOf P D' s := by
  intro k data hdata
  obtain ⟨b, rfl, hb⟩ := hs k data hdata
  exact ⟨b, rfl, fun tx htx => hD tx (hb tx htx)⟩

end StateManager

/-! ### The pool and the ledger together -/

inductive ReorgCall where
  | mempool (c : MempoolCall)
  | applyBlock (block : Block)
  | revertToHeight (target : UInt64)

/-- The pool with its history, the store, and what deep reverts have handed out. -/
structure ReorgHistory where
  mempool : MempoolHistory
  store : InMemoryStore
  orphaned : List Transaction := []

namespace ReorgHistory

open MempoolHistory (Kept kept_start hashes)

def start (maxSize : ℕ) (s : InMemoryStore) : ReorgHistory := ⟨.start maxSize, s, []⟩

def call (P : Platform) (m : StateManager) (h : ReorgHistory) :
    ReorgCall → List Transaction × ReorgHistory
  | .mempool c => ([], { h with mempool := (h.mempool.call P c).2 })
  | .applyBlock block =>
    ([], { h with store := finalState ((applyBlock P m block).run h.store) })
  | .revertToHeight target =>
    match (revertToHeight P target).run h.store with
    | .ok txs s => (txs, { h with store := s, orphaned := h.orphaned ++ txs })
    | .error _ s => ([], { h with store := s })

def run (P : Platform) (m : StateManager) (h : ReorgHistory) (calls : List ReorgCall) :
    ReorgHistory :=
  Support.run (call P m) h calls

/-- A block that is offered is made of transactions that the pool has handed out. -/
def FromPool (h : ReorgHistory) : ReorgCall → Prop
  | .applyBlock block => ∀ tx ∈ block.transactions, tx ∈ h.mempool.drained
  | _ => True

/-- What the pool and the store have in common. -/
structure Tracked (P : Platform) (maxSize : ℕ) (h : ReorgHistory) : Prop where
  kept : Kept P maxSize h.mempool
  bodies : BodiesOf P (fun tx => tx ∈ h.mempool.drained) h.store
  orphaned : ∀ tx ∈ h.orphaned, tx ∈ h.mempool.drained

variable {P : Platform} {m : StateManager} {maxSize : ℕ} {h : ReorgHistory}

theorem tracked_start {s : InMemoryStore} (hs : s.data .blocks = ∅) :
    Tracked P maxSize (start maxSize s) := by
  refine ⟨kept_start P maxSize, fun k data hdata => ?_, by simp [start]⟩
  rw [start, InMemoryStore.get, hs, Std.ExtTreeMap.getElem?_empty] at hdata
  cases hdata

theorem drained_call (h : MempoolHistory) (c : MempoolCall) {tx : Transaction}
    (htx : tx ∈ h.drained) : tx ∈ (h.call P c).2.drained := by
  cases c with
  | addTransaction tx' =>
    simp only [MempoolHistory.call]
    split <;> exact htx
  | drainForBlock maxTxs => exact List.mem_append_left _ htx
  | removeConfirmed confirmed => exact htx

/-- **One call keeps track.** -/
theorem Tracked.call (ht : Tracked P maxSize h) {c : ReorgCall} (hc : FromPool h c) :
    Tracked P maxSize (h.call P m c).2 := by
  cases c with
  | mempool c =>
    exact ⟨ht.kept.call c, ht.bodies.mono fun tx => drained_call _ c,
      fun tx htx => drained_call _ c (ht.orphaned tx htx)⟩
  | applyBlock block => exact ⟨ht.kept, ht.bodies.applyBlock hc, ht.orphaned⟩
  | revertToHeight target =>
    obtain ⟨hbodies, hout⟩ := ht.bodies.revertToHeight target
    simp only [ReorgHistory.call]
    cases hr : (revertToHeight P target).run h.store with
    | ok txs s =>
      rw [hr] at hbodies
      refine ⟨ht.kept, hbodies, fun tx htx => ?_⟩
      rcases List.mem_append.mp htx with htx | htx
      · exact ht.orphaned tx htx
      · exact hout txs s hr tx htx
    | error e s =>
      rw [hr] at hbodies
      exact ⟨ht.kept, hbodies, ht.orphaned⟩

theorem Tracked.seen (ht : Tracked P maxSize h) {tx : Transaction}
    (htx : tx ∈ h.mempool.drained) : tx.hash.bytes ∈ h.mempool.pool.seenHashes := by
  rw [ht.kept.seen]
  exact List.mem_map_of_mem (ht.kept.order.subset (List.mem_append_left _ htx))

/-- **An orphaned transaction is never taken again.**  Whatever calls are made on the pool and the
ledger, with blocks of transactions that the pool has handed out, the pool refuses every transaction
that a deep revert has handed out, also while it has room. -/
theorem orphaned_refused {s : InMemoryStore} (hs : s.data .blocks = ∅) {calls : List ReorgCall}
    (hcalls : Support.AllSteps (call P m) FromPool (start maxSize s) calls) :
    ∀ tx ∈ ((start maxSize s).run P m calls).orphaned,
      ((start maxSize s).run P m calls).mempool.pool.addTransaction P tx =
        (.error .duplicateTransaction, ((start maxSize s).run P m calls).mempool.pool) := by
  intro tx htx
  have ht : Tracked P maxSize ((start maxSize s).run P m calls) :=
    Support.run_induction_of_allSteps (Tracked P maxSize) (fun _ _ hc ht => ht.call hc) calls _
      hcalls (tracked_start hs)
  exact ValidatedMempool.addTransaction_seen (ht.seen (ht.orphaned tx htx))

def paymentTx : Transaction :=
  Reference.signedTx (Reference.key 7) (.transfer ⟨.splat 9⟩ 100) 0 10

def paymentOrphaned : List ReorgCall :=
  [.mempool (.addTransaction paymentTx), .mempool (.drainForBlock 1), .applyBlock (payment 0),
    .revertToHeight 0]

/-- The payment has come back out of the ledger, and by the theorem the pool does not take it. -/
theorem orphaned_refused_payment :
    (((start 10 fundedStore).run reference {} paymentOrphaned).mempool.pool.addTransaction
      reference paymentTx).1 = .error .duplicateTransaction := by
  have hfacts : (∀ tx ∈ (payment 0).transactions, tx ∈ (Support.run (call reference {})
        (start 10 fundedStore) (paymentOrphaned.take 2)).mempool.drained) ∧
      paymentTx ∈ ((start 10 fundedStore).run reference {} paymentOrphaned).orphaned := by
    decide +kernel
  have hcalls : Support.AllSteps (call reference {}) FromPool (start 10 fundedStore)
      paymentOrphaned := ⟨trivial, trivial, hfacts.1, trivial, trivial⟩
  exact congrArg Prod.fst (orphaned_refused (s := fundedStore) rfl hcalls paymentTx hfacts.2)

/-- The payment is all that came back, the pool is empty, and it refuses the payment. -/
theorem orphaned_payment_lost :
    ((start 10 fundedStore).run reference {} paymentOrphaned).orphaned = [paymentTx] ∧
    ((start 10 fundedStore).run reference {} paymentOrphaned).mempool.pool.pending = [] ∧
    (((start 10 fundedStore).run reference {} paymentOrphaned).mempool.pool.addTransaction
      reference paymentTx).1 = .error .duplicateTransaction := by
  decide +kernel

end ReorgHistory

end Gratia
