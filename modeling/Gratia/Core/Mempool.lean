import Gratia.Core.Reference
import Gratia.Support.Runs

/-!
# Core — Mempool

`gratia-core/src/mempool.rs`: the pool that checks a transaction before it keeps it, hands
transactions out in the order it took them, and forgets those a block has confirmed.

The guard against replays is the set of hashes seen.  It grows when a transaction is accepted, and
only then: `remove_confirmed` takes transactions out of the pending list but does not enter their
hashes, so a hash that is confirmed before it is first seen is not known afterwards.
-/

namespace Gratia

open Support Std

inductive MempoolError where
  | invalidSignature
  | invalidHash
  | duplicateTransaction
  | mempoolFull
deriving DecidableEq

structure ValidatedMempool where
  pending : List Transaction
  seenHashes : ExtTreeSet Bytes32
  maxSize : ℕ

namespace ValidatedMempool

variable (P : Platform)

def new (maxSize : ℕ) : ValidatedMempool := ⟨[], ∅, maxSize⟩

def computeSignableBytes (tx : Transaction) : Bytes :=
  P.payload.put tx.payload ++ toLeBytes tx.nonce ++ leBytes 4 tx.chainId.toNat ++
    toLeBytes tx.fee ++ toLeBytes tx.timestamp.timestampMillis.toUInt64

def computeTxHash (senderPubkey signable signature : Bytes) : TxHash :=
  ⟨P.sha256 (senderPubkey ++ signable ++ signature)⟩

/-- `add_transaction`; a refused transaction leaves the pool as it was. -/
def addTransaction (pool : ValidatedMempool) (tx : Transaction) :
    Except MempoolError Unit × ValidatedMempool :=
  if tx.hash.bytes ∈ pool.seenHashes then (.error .duplicateTransaction, pool)
  else if pool.pending.length ≥ pool.maxSize then (.error .mempoolFull, pool)
  else
    let signable := computeSignableBytes P tx
    if tx.hash ≠ computeTxHash P tx.senderPubkey signable tx.signature then
      (.error .invalidHash, pool)
    else
      match verifySignature P tx.senderPubkey signable tx.signature with
      | .error _ => (.error .invalidSignature, pool)
      | .ok () =>
        (.ok (), { pool with
          seenHashes := pool.seenHashes.insert tx.hash.bytes, pending := pool.pending ++ [tx] })

def drainForBlock (pool : ValidatedMempool) (maxTxs : ℕ) : List Transaction × ValidatedMempool :=
  let drainCount := min pool.pending.length maxTxs
  (pool.pending.take drainCount, { pool with pending := pool.pending.drop drainCount })

def removeConfirmed (pool : ValidatedMempool) (hashes : List Bytes32) : ValidatedMempool :=
  if hashes = [] then pool
  else { pool with pending := pool.pending.filter fun tx => tx.hash.bytes ∉ hashes }

/-! ### What one call does -/

variable {P} {pool : ValidatedMempool} {tx : Transaction}

def SignatureValid (P : Platform) (tx : Transaction) : Prop :=
  verifySignature P tx.senderPubkey (computeSignableBytes P tx) tx.signature = .ok ()

structure Admissible (P : Platform) (pool : ValidatedMempool) (tx : Transaction) : Prop where
  unseen : tx.hash.bytes ∉ pool.seenHashes
  room : pool.pending.length < pool.maxSize
  hash : tx.hash = computeTxHash P tx.senderPubkey (computeSignableBytes P tx) tx.signature
  signature : SignatureValid P tx

def accept (pool : ValidatedMempool) (tx : Transaction) : ValidatedMempool :=
  { pool with
    seenHashes := pool.seenHashes.insert tx.hash.bytes, pending := pool.pending ++ [tx] }

theorem addTransaction_accepted (h : Admissible P pool tx) :
    pool.addTransaction P tx = (.ok (), pool.accept tx) := by
  have hsig := h.signature
  unfold SignatureValid at hsig
  unfold addTransaction
  rw [if_neg h.unseen, if_neg (Nat.not_le.mpr h.room)]
  dsimp only
  rw [if_neg (not_not.mpr h.hash), hsig]
  rfl

theorem addTransaction_refused (h : ¬ Admissible P pool tx) :
    ∃ e, pool.addTransaction P tx = (.error e, pool) := by
  unfold addTransaction
  split_ifs with hseen hfull
  · exact ⟨_, rfl⟩
  · exact ⟨_, rfl⟩
  · dsimp only
    split_ifs with hhash
    · exact ⟨_, rfl⟩
    · cases hsig : verifySignature P tx.senderPubkey (computeSignableBytes P tx) tx.signature with
      | error e => exact ⟨_, rfl⟩
      | ok u => exact absurd ⟨hseen, Nat.not_le.mp hfull, not_not.mp hhash, hsig⟩ h

theorem addTransaction_ok_iff : (pool.addTransaction P tx).1 = .ok () ↔ Admissible P pool tx := by
  by_cases h : Admissible P pool tx
  · exact iff_of_true (by rw [addTransaction_accepted h]) h
  · obtain ⟨e, he⟩ := addTransaction_refused h
    exact iff_of_false (by rw [he]; rintro ⟨⟩) h

theorem addTransaction_seen (h : tx.hash.bytes ∈ pool.seenHashes) :
    pool.addTransaction P tx = (.error .duplicateTransaction, pool) :=
  if_pos h

theorem removeConfirmed_pending (hashes : List Bytes32) :
    (pool.removeConfirmed hashes).pending =
      pool.pending.filter fun tx => tx.hash.bytes ∉ hashes := by
  unfold removeConfirmed
  split
  next hnil => simp [hnil]
  next => rfl

@[simp] theorem removeConfirmed_seenHashes (hashes : List Bytes32) :
    (pool.removeConfirmed hashes).seenHashes = pool.seenHashes := by
  unfold removeConfirmed
  split <;> rfl

@[simp] theorem removeConfirmed_maxSize (hashes : List Bytes32) :
    (pool.removeConfirmed hashes).maxSize = pool.maxSize := by
  unfold removeConfirmed
  split <;> rfl

end ValidatedMempool

/-! ### Calls -/

inductive MempoolCall where
  | addTransaction (tx : Transaction)
  | drainForBlock (maxTxs : ℕ)
  | removeConfirmed (hashes : List Bytes32)
deriving DecidableEq

inductive MempoolAnswer where
  | added (result : Except MempoolError Unit)
  | drained (txs : List Transaction)
  | done
deriving DecidableEq

/-- The pool, and what a run has done so far: the transactions accepted and those handed out, in
order, and the hashes reported as confirmed. -/
structure MempoolHistory where
  pool : ValidatedMempool
  accepted : List Transaction := []
  drained : List Transaction := []
  confirmed : List Bytes32 := []

namespace MempoolHistory

open ValidatedMempool

def start (maxSize : ℕ) : MempoolHistory := { pool := ValidatedMempool.new maxSize }

variable (P : Platform)

def call (h : MempoolHistory) : MempoolCall → MempoolAnswer × MempoolHistory
  | .addTransaction tx =>
    match h.pool.addTransaction P tx with
    | (.ok (), pool) => (.added (.ok ()), { h with pool := pool, accepted := h.accepted ++ [tx] })
    | (.error e, pool) => (.added (.error e), { h with pool := pool })
  | .drainForBlock maxTxs =>
    let (txs, pool) := h.pool.drainForBlock maxTxs
    (.drained txs, { h with pool := pool, drained := h.drained ++ txs })
  | .removeConfirmed hashes =>
    (.done, { h with
      pool := h.pool.removeConfirmed hashes, confirmed := h.confirmed ++ hashes })

def run (h : MempoolHistory) (calls : List MempoolCall) : MempoolHistory :=
  Support.run (call P) h calls

variable {P} {h : MempoolHistory} {tx : Transaction}

theorem call_accepted (ha : Admissible P h.pool tx) :
    h.call P (.addTransaction tx) = (.added (.ok ()),
      { h with pool := h.pool.accept tx, accepted := h.accepted ++ [tx] }) := by
  simp only [call, addTransaction_accepted ha]

theorem call_refused (ha : ¬ Admissible P h.pool tx) :
    ∃ e, h.call P (.addTransaction tx) = (.added (.error e), h) := by
  obtain ⟨e, he⟩ := addTransaction_refused ha
  exact ⟨e, by simp only [call, he]⟩

/-! ### The invariant of every run -/

def hashes (txs : List Transaction) : List Bytes32 := txs.map fun tx => tx.hash.bytes

/-- What the pool keeps, whatever it is called with. -/
structure Kept (P : Platform) (maxSize : ℕ) (h : MempoolHistory) : Prop where
  size : h.pool.maxSize = maxSize
  bounded : h.pool.pending.length ≤ maxSize
  seen : ∀ x, x ∈ h.pool.seenHashes ↔ x ∈ hashes h.accepted
  distinct : (hashes h.accepted).Nodup
  signed : ∀ tx ∈ h.accepted, SignatureValid P tx
  order : (h.drained ++ h.pool.pending).Sublist h.accepted

theorem kept_start (P : Platform) (maxSize : ℕ) : Kept P maxSize (start maxSize) where
  size := rfl
  bounded := Nat.zero_le _
  seen x := by simp [start, ValidatedMempool.new, hashes]
  distinct := List.nodup_nil
  signed tx hmem := absurd hmem (by simp [start])
  order := List.Sublist.refl _

variable {maxSize : ℕ}

theorem Kept.accepted (hk : Kept P maxSize h) (ha : Admissible P h.pool tx) :
    Kept P maxSize { h with pool := h.pool.accept tx, accepted := h.accepted ++ [tx] } where
  size := hk.size
  bounded := by
    have hroom := ha.room
    rw [hk.size] at hroom
    simpa [accept] using hroom
  seen x := by
    simp only [accept, Std.ExtTreeSet.mem_insert, Std.compare_eq_iff_eq, hk.seen x, hashes,
      List.map_append, List.map_cons, List.map_nil, List.mem_append, List.mem_singleton]
    exact ⟨fun hx => hx.symm.imp_right Eq.symm, fun hx => hx.symm.imp_left Eq.symm⟩
  distinct := by
    have hnew : tx.hash.bytes ∉ hashes h.accepted := fun hmem => ha.unseen ((hk.seen _).mpr hmem)
    simpa [hashes] using hk.distinct.concat hnew
  signed tx' hmem := by
    rcases List.mem_append.mp hmem with hmem | hmem
    · exact hk.signed tx' hmem
    · rw [List.mem_singleton.mp hmem]
      exact ha.signature
  order := by
    simp only [accept, ← List.append_assoc]
    exact hk.order.append (List.Sublist.refl _)

/-- **One call keeps it.** -/
theorem Kept.call (hk : Kept P maxSize h) (c : MempoolCall) : Kept P maxSize (h.call P c).2 := by
  cases c with
  | addTransaction tx =>
    by_cases ha : Admissible P h.pool tx
    · rw [call_accepted ha]
      exact hk.accepted ha
    · obtain ⟨e, he⟩ := call_refused ha
      rw [he]
      exact hk
  | drainForBlock maxTxs =>
    refine ⟨hk.size, ?_, hk.seen, hk.distinct, hk.signed, ?_⟩
    · exact (List.drop_sublist _ _).length_le.trans hk.bounded
    · simpa [MempoolHistory.call, drainForBlock] using hk.order
  | removeConfirmed confirmed =>
    refine ⟨?_, ?_, ?_, hk.distinct, hk.signed, ?_⟩
    · simpa [MempoolHistory.call] using hk.size
    · simp only [MempoolHistory.call, removeConfirmed_pending]
      exact (List.length_filter_le _ _).trans hk.bounded
    · simpa [MempoolHistory.call] using hk.seen
    · simp only [MempoolHistory.call, removeConfirmed_pending]
      exact ((List.Sublist.refl _).append List.filter_sublist).trans hk.order

theorem Kept.run (hk : Kept P maxSize h) (calls : List MempoolCall) :
    Kept P maxSize (h.run P calls) :=
  run_induction (Kept P maxSize) (fun _ => True) (fun _ c _ hk => hk.call c) calls h
    (fun _ _ => trivial) hk

/-! ### Offered once -/

/-- No transaction whose hash has been confirmed is accepted or handed out by the call. -/
structure NotAgain (P : Platform) (h : MempoolHistory) (c : MempoolCall) : Prop where
  accepted : ∀ tx, c = .addTransaction tx → (h.call P c).1 = .added (.ok ()) →
    tx.hash.bytes ∉ h.confirmed
  drained : ∀ txs, (h.call P c).1 = .drained txs → ∀ tx ∈ txs, tx.hash.bytes ∉ h.confirmed

/-- What the pool promises along a run: the transactions handed out have distinct hashes and valid
signatures and leave in the order they were accepted, ahead of those still pending; the pool stays
within its capacity; and nothing is accepted or handed out after its confirmation. -/
structure OffersOnce (P : Platform) (maxSize : ℕ) (calls : List MempoolCall) : Prop where
  distinct : (hashes ((start maxSize).run P calls).drained).Nodup
  signed : ∀ tx ∈ ((start maxSize).run P calls).drained, SignatureValid P tx
  order : (((start maxSize).run P calls).drained ++
    ((start maxSize).run P calls).pool.pending).Sublist ((start maxSize).run P calls).accepted
  bounded : AllSteps (call P) (fun h c => (h.call P c).2.pool.pending.length ≤ maxSize)
    (start maxSize) calls
  notAgain : AllSteps (call P) (NotAgain P) (start maxSize) calls

/-- A transaction that was confirmed before the pool first saw it arrives, is in order, and finds
room. -/
def Forgotten (P : Platform) (h : MempoolHistory) (c : MempoolCall) : Prop :=
  ∃ tx, c = .addTransaction tx ∧ tx.hash.bytes ∈ h.confirmed ∧ Admissible P h.pool tx

def PendingOpen (h : MempoolHistory) : Prop :=
  ∀ tx ∈ h.pool.pending, tx.hash.bytes ∉ h.confirmed

theorem PendingOpen.call {c : MempoolCall} (hc : ¬ Forgotten P h c) (ho : PendingOpen h) :
    PendingOpen (h.call P c).2 := by
  cases c with
  | addTransaction tx =>
    by_cases ha : Admissible P h.pool tx
    · rw [call_accepted ha]
      intro tx' hmem
      rcases List.mem_append.mp hmem with hmem | hmem
      · exact ho tx' hmem
      · rw [List.mem_singleton.mp hmem]
        exact fun hconf => hc ⟨tx, rfl, hconf, ha⟩
    · obtain ⟨e, he⟩ := call_refused ha
      rw [he]
      exact ho
  | drainForBlock maxTxs => exact fun tx hmem => ho tx (List.mem_of_mem_drop hmem)
  | removeConfirmed confirmed =>
    intro tx hmem
    simp only [MempoolHistory.call, removeConfirmed_pending, List.mem_filter,
      decide_eq_true_eq] at hmem ⊢
    rw [List.mem_append, not_or]
    exact ⟨ho tx hmem.1, hmem.2⟩

theorem PendingOpen.notAgain {c : MempoolCall} (hc : ¬ Forgotten P h c) (ho : PendingOpen h) :
    NotAgain P h c := by
  constructor
  · rintro tx rfl hok hconf
    by_cases ha : Admissible P h.pool tx
    · exact hc ⟨tx, rfl, hconf, ha⟩
    · obtain ⟨e, he⟩ := call_refused ha
      rw [he] at hok
      cases hok
  · intro txs hdrained tx hmem
    cases c with
    | drainForBlock maxTxs =>
      cases hdrained
      exact ho tx (List.mem_of_mem_take hmem)
    | addTransaction tx' =>
      by_cases ha : Admissible P h.pool tx'
      · rw [call_accepted ha] at hdrained
        cases hdrained
      · obtain ⟨e, he⟩ := call_refused ha
        rw [he] at hdrained
        cases hdrained
    | removeConfirmed confirmed => cases hdrained

theorem NotAgain.not_forgotten {c : MempoolCall} (hn : NotAgain P h c) : ¬ Forgotten P h c := by
  rintro ⟨tx, rfl, hconf, ha⟩
  exact hn.accepted tx rfl (by rw [call_accepted ha]) hconf

/-- **Offered once, exactly.**  Along every run the transactions handed out are distinct, signed and
in order, and the pool stays within its capacity; none is accepted or handed out after its
confirmation if and only if no transaction that was confirmed before it was first seen is put in. -/
theorem offersOnce_iff (P : Platform) (maxSize : ℕ) (calls : List MempoolCall) :
    OffersOnce P maxSize calls ↔
      Support.AllSteps (call P) (fun h c => ¬ Forgotten P h c) (start maxSize) calls := by
  constructor
  · exact fun ho => ho.notAgain.imp fun _ _ hn => hn.not_forgotten
  · intro hall
    have hk := (kept_start P maxSize).run calls
    have hdrained := (List.sublist_append_left _ _).trans hk.order
    refine ⟨hk.distinct.sublist (hdrained.map _),
      fun tx hmem => hk.signed tx (hdrained.subset hmem), hk.order, ?_, ?_⟩
    · exact (Support.allSteps_of_forall (P := fun _ _ => True) _ (by simp)).of_invariant
        (Kept P maxSize) (fun _ c _ hk => hk.call c) (fun _ c _ hk => (hk.call c).bounded)
        (kept_start P maxSize)
    · exact hall.of_invariant PendingOpen (fun _ _ hc ho => ho.call hc)
        (fun _ _ hc ho => ho.notAgain hc) (by simp [PendingOpen, start, ValidatedMempool.new])

def confirmedFirst (tx : Transaction) : List MempoolCall :=
  [.removeConfirmed [tx.hash.bytes], .addTransaction tx, .drainForBlock 1]

theorem not_offersOnce_confirmedFirst (ha : Admissible P (ValidatedMempool.new maxSize) tx) :
    ¬ OffersOnce P maxSize (confirmedFirst tx) := by
  intro ho
  obtain ⟨-, hadd, -⟩ := ho.notAgain
  have hpool : ((start maxSize).call P (.removeConfirmed [tx.hash.bytes])).2.pool =
      ValidatedMempool.new maxSize := rfl
  rw [← hpool] at ha
  exact hadd.accepted tx rfl (by rw [call_accepted ha]) (by simp [call])

open Reference

/-- A payment that is confirmed, and then accepted and handed out. -/
theorem confirmed_payment_offered :
    let tx := signedTx (key 7) (.transfer ⟨.splat 9⟩ 100) 0 10
    (Support.trace (call reference) (fun h => h.pool.pending.length) (start 10)
      (confirmedFirst tx)).map Prod.fst = [.done, .added (.ok ()), .drained [tx]] ∧
    ¬ OffersOnce reference 10 (confirmedFirst tx) := by
  have haccepted : ((ValidatedMempool.new 10).addTransaction reference
      (signedTx (key 7) (.transfer ⟨.splat 9⟩ 100) 0 10)).1 = .ok () := by
    decide +kernel
  exact ⟨by decide +kernel, not_offersOnce_confirmedFirst (addTransaction_ok_iff.mp haccepted)⟩

end MempoolHistory

end Gratia
