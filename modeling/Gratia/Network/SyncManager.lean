import Gratia.Core.Chains
import Gratia.Core.Reference
import Gratia.Support.Runs

/-!
# Network — Sync manager

`gratia-network/src/sync.rs`: which blocks a node asks its peers for, and which answers it takes.
Times are in nanoseconds.  The peer that a request is sent to is the first that a hash map yields,
so any choice among those that have the blocks is allowed for.

The next range begins above the highest one that is pending.  Whether a lower one has been given up
meanwhile, or the node has come further by itself, is not looked at (`sync_requests_of_orderly`); and
an answer is not compared with the last height that was asked for (`answers_requested_iff`).
-/

namespace Gratia

open Support
open Std (ExtTreeMap)

abbrev PeerId := Bytes

structure PeerChainState where
  height : UInt64
  lastUpdated : ℤ

/-- An entry of `pending_requests`. -/
structure PendingRequest where
  fromHeight : UInt64
  toHeight : UInt64
  requestedAt : ℤ

def maxBlocksPerRequest : UInt64 := 50
def minPeersForSyncDecision : ℕ := 1
def syncRequestTimeoutSecs : ℤ := 30
def peerStaleTimeoutSecs : ℤ := 300
def maxConcurrentSyncRequests : ℕ := 3

/-- `SyncManager`; nothing that is modelled reads its state, its tip or its count of failures. -/
structure SyncManager where
  localHeight : UInt64
  peerStates : ExtTreeMap PeerId PeerChainState := ∅
  pendingRequests : ExtTreeMap PeerId PendingRequest := ∅

namespace SyncManager

/-- `best_network_height`: the middle one of the reported heights, sorted. -/
def bestNetworkHeight (m : SyncManager) : Option UInt64 :=
  if m.peerStates.size < minPeersForSyncDecision then none
  else
    let heights := (m.peerStates.toList.map fun e => e.2.height).insertionSort (· ≤ ·)
    heights[heights.length / 2]?

/-- The highest height that is requested, or the local one. -/
def highestRequested (m : SyncManager) : UInt64 :=
  (m.pendingRequests.toList.map fun e => e.2.toHeight).max?.getD m.localHeight

/-- The range that `next_sync_request` asks for. -/
def nextRange (m : SyncManager) : Option (UInt64 × UInt64) :=
  if m.pendingRequests.size ≥ maxConcurrentSyncRequests then none
  else do
    let networkHeight ← m.bestNetworkHeight
    if m.localHeight ≥ networkHeight then none
    else
      let fromHeight ← checkedAdd m.highestRequested 1
      if fromHeight > networkHeight then none
      else
        let toHeight := (checkedAdd fromHeight (maxBlocksPerRequest - 1)).getD networkHeight
        some (fromHeight, min toHeight networkHeight)

/-- The peers that have the blocks and no pending request. -/
def candidates (m : SyncManager) (toHeight : UInt64) : List PeerId :=
  (m.peerStates.toList.filter fun e =>
    toHeight ≤ e.2.height ∧ ¬ m.pendingRequests.contains e.1).map Prod.fst

/-- What is asked for: a peer, the first and the last height. -/
abbrev Request := PeerId × UInt64 × UInt64

variable (pick : ∀ peers : List PeerId, Option { p // p ∈ peers })

def nextRequest (m : SyncManager) : Option Request := do
  let (fromHeight, toHeight) ← m.nextRange
  let peer ← pick (m.candidates toHeight)
  return (peer, fromHeight, toHeight)

def nextSyncRequest (m : SyncManager) (now : ℤ) : Option Request × SyncManager :=
  match m.nextRequest pick with
  | none => (none, m)
  | some (peer, fromHeight, toHeight) => (some (peer, fromHeight, toHeight),
      { m with pendingRequests := m.pendingRequests.insert peer ⟨fromHeight, toHeight, now⟩ })

/-- The checks of `handle_blocks_response`, with the text of the `SyncError`. -/
def checkResponse (P : Platform) (fromHeight : UInt64) (blocks : List Block) :
    Except String Unit := do
  forM blocks.head?.toList fun first =>
    if first.header.height ≠ fromHeight then
      .error s!"Expected blocks starting at height {fromHeight}, got {first.header.height}"
    else .ok ()
  forM (windows blocks) fun w =>
    if w.2.header.height ≠ w.1.header.height + 1 then .error "Received non-contiguous blocks"
    else .ok ()
  forM (windows blocks) fun w =>
    if w.2.header.parentHash ≠ w.1.header.hash P then
      .error s!"Hash chain broken at height {w.2.header.height}: parent_hash mismatch"
    else .ok ()

def handleBlocksResponse (P : Platform) (m : SyncManager) (peer : PeerId) (blocks : List Block) :
    Except String (List Block) × SyncManager :=
  let answer := match m.pendingRequests[peer]? with
    | some request => (checkResponse P request.fromHeight blocks).map fun _ => blocks
    | none => .ok blocks
  (answer, { m with pendingRequests := m.pendingRequests.erase peer })

def updatePeerState (m : SyncManager) (peer : PeerId) (height : UInt64) (now : ℤ) : SyncManager :=
  { m with peerStates := m.peerStates.insert peer ⟨height, now⟩ }

def isStale (m : SyncManager) (peer : PeerId) (now : ℤ) : Bool :=
  m.peerStates[peer]?.any fun s => now - s.lastUpdated > peerStaleTimeoutSecs * 1_000_000_000

/-- A call of one of the methods. -/
inductive Call where
  | updateLocalState (height : UInt64)
  | updatePeerState (peer : PeerId) (height : UInt64) (now : ℤ)
  | removePeer (peer : PeerId)
  | evictStalePeers (now : ℤ)
  | cancelTimedOutRequests (now : ℤ)
  | nextSyncRequest (now : ℤ)
  | handleBlocksResponse (peer : PeerId) (blocks : List Block)

/-- The request that a call issues, if it does, and the manager after it. -/
def call (P : Platform) (m : SyncManager) : Call → Option Request × SyncManager
  | .updateLocalState height => (none, { m with localHeight := height })
  | .updatePeerState peer height now => (none, m.updatePeerState peer height now)
  | .removePeer peer => (none, { m with
      peerStates := m.peerStates.erase peer, pendingRequests := m.pendingRequests.erase peer })
  | .evictStalePeers now => (none, { m with
      peerStates := m.peerStates.filter fun peer _ => !m.isStale peer now
      pendingRequests := m.pendingRequests.filter fun peer _ => !m.isStale peer now })
  | .cancelTimedOutRequests now => (none, { m with
      pendingRequests := m.pendingRequests.filter fun _ r =>
        ¬ now - r.requestedAt > syncRequestTimeoutSecs * 1_000_000_000 })
  | .nextSyncRequest now => m.nextSyncRequest pick now
  | .handleBlocksResponse peer blocks => (none, (m.handleBlocksResponse P peer blocks).2)

/-! ### The network height -/

section Height

variable {m : SyncManager} {best : UInt64}

/-- A property of low heights holds of the middle one if it holds of more than half. -/
theorem bestNetworkHeight_iff (h : m.bestNetworkHeight = some best) {p : UInt64 → Bool}
    (hp : ∀ a b, a ≤ b → p b = true → p a = true) :
    p best = true ↔ m.peerStates.size / 2 < m.peerStates.toList.countP fun e => p e.2.height := by
  unfold bestNetworkHeight at h
  split at h
  · cases h
  · have hperm := List.perm_insertionSort (· ≤ ·) (m.peerStates.toList.map fun e => e.2.height)
    rw [true_iff_lt_countP hp (List.pairwise_insertionSort _ _) h, hperm.countP_eq, hperm.length_eq,
      List.countP_map, List.length_map, ExtTreeMap.length_toList]
    rfl

theorem exists_bestNetworkHeight (h : minPeersForSyncDecision ≤ m.peerStates.size) :
    ∃ best, m.bestNetworkHeight = some best := by
  refine ⟨_, (if_neg (not_lt.mpr h)).trans (List.getElem?_eq_getElem ?_)⟩
  rw [List.length_insertionSort, List.length_map, ExtTreeMap.length_toList]
  exact Nat.div_lt_self h (by decide)

theorem exists_honest {dishonest : PeerId → Bool} {q : UInt64 → Bool}
    (h : m.peerStates.toList.countP (fun e => dishonest e.1) <
      m.peerStates.toList.countP fun e => q e.2.height) :
    ∃ peer s, m.peerStates[peer]? = some s ∧ dishonest peer = false ∧ q s.height = true := by
  by_contra hnone
  refine absurd h (not_lt.mpr (List.countP_mono_left fun e he hq => ?_))
  rw [ExtTreeMap.mem_toList_iff_getElem?_eq_some] at he
  by_contra hhonest
  exact hnone ⟨e.1, e.2, he, Bool.not_eq_true _ ▸ hhonest, hq⟩

theorem honest_bounds (h : m.bestNetworkHeight = some best) {dishonest : PeerId → Bool}
    (hfew : 2 * m.peerStates.toList.countP (fun e => dishonest e.1) < m.peerStates.size) :
    (∃ peer s, m.peerStates[peer]? = some s ∧ dishonest peer = false ∧ s.height ≤ best) ∧
      ∃ peer s, m.peerStates[peer]? = some s ∧ dishonest peer = false ∧ best ≤ s.height := by
  have hlow := bestNetworkHeight_iff (p := fun a => a ≤ best) h fun a b hab hb =>
    decide_eq_true (UInt64.le_trans hab (of_decide_eq_true hb))
  have hhigh := bestNetworkHeight_iff (p := fun a => a < best) h fun a b hab hb =>
    decide_eq_true (UInt64.lt_of_le_of_lt hab (of_decide_eq_true hb))
  have hsum := m.peerStates.toList.length_eq_countP_add_countP fun e => e.2.height < best
  simp only [UInt64.le_refl, UInt64.lt_irrefl, decide_true, decide_false, true_iff, false_iff,
    Bool.false_eq_true] at hlow hhigh
  simp only [ExtTreeMap.length_toList, decide_eq_true_eq, UInt64.not_lt] at hsum
  constructor
  · simpa using exists_honest (q := fun a => a ≤ best) (by omega)
  · simpa using exists_honest (q := fun a => best ≤ a) (by omega)

theorem countP_updatePeerState {p : UInt64 → Bool} (hp : ∀ a b, a ≤ b → p b = true → p a = true)
    {peer : PeerId} {s : PeerChainState} (hs : m.peerStates[peer]? = some s) {height : UInt64}
    (hle : s.height ≤ height) (now : ℤ) :
    ((m.updatePeerState peer height now).peerStates.toList.countP fun e => p e.2.height) ≤
      m.peerStates.toList.countP fun e => p e.2.height := by
  have hnew := toList_perm_of_getElem? (getElem?_insert_self' m.peerStates peer ⟨height, now⟩)
  rw [erase_insert_self] at hnew
  rw [updatePeerState, hnew.countP_eq, (toList_perm_of_getElem? hs).countP_eq, List.countP_cons,
    List.countP_cons]
  have := hp s.height height hle
  grind

/-- **The network height tolerates a dishonest minority**, and it does not go down when a peer
raises its report. -/
theorem network_height_robust (m : SyncManager)
    (hpeers : minPeersForSyncDecision ≤ m.peerStates.size) :
    ∃ best, m.bestNetworkHeight = some best ∧
      (∀ dishonest : PeerId → Bool,
        2 * m.peerStates.toList.countP (fun e => dishonest e.1) < m.peerStates.size →
        (∃ peer s, m.peerStates[peer]? = some s ∧ dishonest peer = false ∧ s.height ≤ best) ∧
          ∃ peer s, m.peerStates[peer]? = some s ∧ dishonest peer = false ∧ best ≤ s.height) ∧
      ∀ (peer : PeerId) s height now, m.peerStates[peer]? = some s → s.height ≤ height →
        ∃ best', (m.updatePeerState peer height now).bestNetworkHeight = some best' ∧
          best ≤ best' := by
  obtain ⟨best, hbest⟩ := exists_bestNetworkHeight hpeers
  refine ⟨best, hbest, fun _ => honest_bounds hbest, fun peer s height now hs hle => ?_⟩
  have hsize : (m.updatePeerState peer height now).peerStates.size = m.peerStates.size := by
    simp [updatePeerState, ExtTreeMap.size_insert, mem_of_getElem? hs]
  obtain ⟨best', hbest'⟩ := exists_bestNetworkHeight (hsize ▸ hpeers)
  refine ⟨best', hbest', UInt64.not_lt.mp fun hlt => ?_⟩
  -- more than half are below `best` now, and were not before
  have hp : ∀ a b : UInt64, a ≤ b → decide (b < best) = true → decide (a < best) = true :=
    fun a b hab hb => decide_eq_true (UInt64.lt_of_le_of_lt hab (of_decide_eq_true hb))
  have hnow := (bestNetworkHeight_iff hbest' hp).mp (decide_eq_true hlt)
  have hbefore := (bestNetworkHeight_iff hbest hp).mpr
    (hsize ▸ hnow.trans_le (countP_updatePeerState hp hs hle now))
  exact UInt64.lt_irrefl best (of_decide_eq_true hbefore)

/-- Two peers report 10 and 12, and a third one far too much. -/
def threeReports : SyncManager :=
  (((⟨0, ∅, ∅⟩ : SyncManager).updatePeerState [0] 10 0).updatePeerState [1] 12 0).updatePeerState
    [2] 999999 0

theorem network_height_robust_three :
    ∃ best, threeReports.bestNetworkHeight = some best ∧
      ∃ (peer : PeerId) (s : PeerChainState), threeReports.peerStates[peer]? = some s ∧
        (peer == [2]) = false ∧ best ≤ s.height := by
  obtain ⟨best, hbest, hhonest, -⟩ := network_height_robust threeReports (by decide +kernel)
  exact ⟨best, hbest, (hhonest (· == [2]) (by decide +kernel)).2⟩

end Height

/-! ### Requests -/

/-- A pending request asks for this height. -/
def Pending (m : SyncManager) (height : UInt64) : Prop :=
  ∃ e ∈ m.pendingRequests.toList, e.2.fromHeight ≤ height ∧ height ≤ e.2.toHeight

instance (m : SyncManager) (height : UInt64) : Decidable (m.Pending height) :=
  inferInstanceAs (Decidable (∃ e ∈ _, _))

/-- What is asked of a request: new heights that the network has, not too many and asked for nowhere
else, of a peer that has them; and what lies below is pending. -/
structure Fits (m : SyncManager) (req : Request) : Prop where
  nonempty : req.2.1 ≤ req.2.2
  short : req.2.2.toNat < req.2.1.toNat + maxBlocksPerRequest.toNat
  above : m.localHeight < req.2.1
  exists_best : ∃ best, m.bestNetworkHeight = some best ∧ req.2.2 ≤ best
  disjoint : ∀ height, req.2.1 ≤ height → height ≤ req.2.2 → ¬ m.Pending height
  reported : ∃ s, m.peerStates[req.1]? = some s ∧ req.2.2 ≤ s.height
  covered : ∀ height, m.localHeight < height → height < req.2.1 → m.Pending height

/-- Whether a call ends a pending request. -/
def ends (m : SyncManager) : Call → PeerId → PendingRequest → Bool
  | .removePeer peer, p, _ => p == peer
  | .handleBlocksResponse peer _, p, _ => p == peer
  | .evictStalePeers now, p, _ => m.isStale p now
  | .cancelTimedOutRequests now, _, r => now - r.requestedAt > syncRequestTimeoutSecs * 1_000_000_000
  | _, _, _ => false

/-- The requests that a call leaves pending. -/
def kept (m : SyncManager) (c : Call) : List (PeerId × PendingRequest) :=
  m.pendingRequests.toList.filter fun e => !m.ends c e.1 e.2

def localAfter (m : SyncManager) : Call → UInt64
  | .updateLocalState height => height
  | _ => m.localHeight

/-- A manager, and the last heights of the requests that ended while a higher one stayed pending.
They are forgotten when nothing is pending. -/
structure Watched where
  manager : SyncManager
  skipped : List UInt64 := []

/-- A call, with a note of the requests that it ends below one that stays. -/
def Watched.call (P : Platform) (w : Watched) (c : Call) : Option Request × Watched :=
  let (request, m) := SyncManager.call pick P w.manager c
  let pending := m.pendingRequests.toList
  let ended := w.manager.pendingRequests.toList.filter fun e =>
    w.manager.ends c e.1 e.2 ∧ ∃ e' ∈ pending, e.2.fromHeight ≤ e'.2.toHeight
  (request, ⟨m, if pending = [] then [] else w.skipped ++ ended.map (·.2.toHeight)⟩)

/-- A call in order.  If it leaves requests pending, it does not lower the local height, nor raise it
past all of them, nor end the last one that reaches it; and when the next request is made, the
blocks of every request that ended below a pending one are there. -/
def Watched.Orderly (w : Watched) (c : Call) : Prop :=
  match c with
  | .nextSyncRequest _ => ∀ last ∈ w.skipped, last ≤ w.manager.localHeight
  | .updatePeerState _ _ _ => True
  | c => w.manager.kept c = [] ∨ w.manager.localHeight ≤ w.manager.localAfter c ∧
      ∃ e ∈ w.manager.kept c, w.manager.localAfter c ≤ e.2.toHeight

instance Watched.decidableOrderly (w : Watched) : ∀ c, Decidable (w.Orderly c)
  | .nextSyncRequest _ => List.decidableBAll _ w.skipped
  | .updatePeerState .. => .isTrue trivial
  | .updateLocalState _ | .removePeer _ | .evictStalePeers _ | .cancelTimedOutRequests _
  | .handleBlocksResponse .. => inferInstanceAs (Decidable (_ = [] ∨ _))

/-- What calls in order keep: the requests reach the local height, and what they leave out above it
has been noted. -/
structure Watched.Covers (w : Watched) : Prop where
  reaches : w.manager.pendingRequests.toList = [] ∨
    ∃ e ∈ w.manager.pendingRequests.toList, w.manager.localHeight ≤ e.2.toHeight
  covered : ∀ e ∈ w.manager.pendingRequests.toList, ∀ height, w.manager.localHeight < height →
    height ≤ e.2.toHeight → w.manager.Pending height ∨ ∃ last ∈ w.skipped, height ≤ last

instance : Std.LawfulOrderMax UInt64 where
  max_le_iff a b c := by
    change (if a ≤ b then b else a) ≤ c ↔ _
    grind
  max_eq_or a b := by
    change (if a ≤ b then b else a) = a ∨ (if a ≤ b then b else a) = b
    grind

section Requests

variable {P : Platform} {m : SyncManager} {fromHeight toHeight height : UInt64} {pick}

/-- The highest requested height is the end of a pending request and none ends above it, or it is
the local one. -/
theorem highestRequested_cases (m : SyncManager) :
    m.pendingRequests.toList = [] ∧ m.highestRequested = m.localHeight ∨
      (∃ e ∈ m.pendingRequests.toList, e.2.toHeight = m.highestRequested) ∧
        ∀ e ∈ m.pendingRequests.toList, e.2.toHeight ≤ m.highestRequested := by
  unfold highestRequested
  cases hmax : (m.pendingRequests.toList.map fun e => e.2.toHeight).max? with
  | none => exact .inl ⟨List.map_eq_nil_iff.mp (List.max?_eq_none_iff.mp hmax), rfl⟩
  | some top =>
    obtain ⟨hmem, hle⟩ := List.max?_eq_some_iff.mp hmax
    refine .inr ⟨List.mem_map.mp hmem, fun e he => ?_⟩
    exact hle _ (List.mem_map_of_mem (f := fun e => e.2.toHeight) he)

theorem toNat_last (first best : UInt64) :
    (min ((checkedAdd first (maxBlocksPerRequest - 1)).getD best) best).toNat =
      min (first.toNat + 49) best.toNat := by
  have hmax := best.toNat_lt
  change (if _ ≤ best then _ else best).toNat = _
  rw [show maxBlocksPerRequest - 1 = 49 from rfl, checkedAdd]
  split
  next hlt =>
    simp only [Option.getD_some, apply_ite UInt64.toNat, UInt64.le_iff_toNat_le,
      toNat_add_of_lt hlt, UInt64.reduceToNat]
    grind
  next hge =>
    simp only [UInt64.reduceToNat, not_lt] at hge
    simp only [Option.getD_none, ite_self]
    omega

theorem nextRange_some (h : m.nextRange = some (fromHeight, toHeight)) :
    (∀ height, height < fromHeight ↔ height ≤ m.highestRequested) ∧ fromHeight ≤ toHeight ∧
      toHeight.toNat < fromHeight.toNat + maxBlocksPerRequest.toNat ∧
      ∃ best, m.bestNetworkHeight = some best ∧ toHeight ≤ best := by
  unfold nextRange at h
  split at h
  · cases h
  obtain ⟨best, hbest, h⟩ := Option.bind_eq_some_iff.mp h
  split at h
  · cases h
  obtain ⟨first, hfirst, h⟩ := Option.bind_eq_some_iff.mp h
  split at h
  · cases h
  next hle =>
    cases h
    have hle := UInt64.not_lt.mp hle
    have hlast := toNat_last fromHeight best
    have hfrom := toNat_of_checkedAdd hfirst
    rw [UInt64.le_iff_toNat_le] at hle
    simp only [UInt64.le_iff_toNat_le, UInt64.lt_iff_toNat_lt, hlast, hfrom,
      show maxBlocksPerRequest.toNat = 50 from rfl]
    exact ⟨fun _ => Nat.lt_succ_iff, by omega, by omega, best, hbest, by omega⟩

theorem nextRequest_some {req : Request} (h : m.nextRequest pick = some req) :
    m.nextRange = some req.2 ∧ m.pendingRequests[req.1]? = none ∧
      ∃ s, m.peerStates[req.1]? = some s ∧ req.2.2 ≤ s.height := by
  obtain ⟨⟨fromHeight, toHeight⟩, hrange, h⟩ := Option.bind_eq_some_iff.mp h
  obtain ⟨⟨peer, hpeer⟩, -, h⟩ := Option.bind_eq_some_iff.mp h
  cases h
  obtain ⟨⟨peer, s⟩, he, rfl⟩ := List.mem_map.mp hpeer
  obtain ⟨hmem, hs⟩ := List.mem_filter.mp he
  rw [decide_eq_true_eq] at hs
  refine ⟨hrange, ?_, s, ExtTreeMap.mem_toList_iff_getElem?_eq_some.mp hmem, hs.1⟩
  simpa using hs.2

theorem call_eq_some {c : Call} {req : Request} (h : (call pick P m c).1 = some req) :
    m.nextRequest pick = some req ∧ ∃ now, c = .nextSyncRequest now := by
  cases c with
  | nextSyncRequest now =>
    rw [call, nextSyncRequest] at h
    split at h
    · cases h
    next hreq => exact ⟨hreq.trans h, now, rfl⟩
  | _ => cases h

theorem mem_kept {c : Call} {e : PeerId × PendingRequest} :
    e ∈ m.kept c ↔ e ∈ m.pendingRequests.toList ∧ m.ends c e.1 e.2 = false := by
  rw [kept, List.mem_filter, Bool.not_eq_true']

/-- A call that issues no request leaves those pending that it does not end. -/
theorem mem_pending_call {c : Call} (h : (call pick P m c).1 = none) (e : PeerId × PendingRequest) :
    e ∈ (call pick P m c).2.pendingRequests.toList ↔ e ∈ m.kept c := by
  obtain ⟨p, r⟩ := e
  rw [mem_kept]
  simp only [ExtTreeMap.mem_toList_iff_getElem?_eq_some]
  have herase : ∀ peer, (m.pendingRequests.erase peer)[p]? = some r ↔
      m.pendingRequests[p]? = some r ∧ (p == peer) = false := by
    intro peer
    by_cases hp : p = peer
    · subst hp
      simp
    · rw [getElem?_erase_ne _ (Ne.symm hp)]
      simp [hp]
  cases c with
  | updateLocalState | updatePeerState => simp [call, ends, updatePeerState]
  | removePeer peer | handleBlocksResponse peer => exact herase peer
  | evictStalePeers now | cancelTimedOutRequests now =>
    simp [call, ends, Option.filter_eq_some_iff]
  | nextSyncRequest now =>
    rw [call, nextSyncRequest] at h ⊢
    split at h
    · simp [ends]
    · cases h

theorem localHeight_call (c : Call) : (call pick P m c).2.localHeight = m.localAfter c := by
  cases c with
  | nextSyncRequest now =>
    rw [call, nextSyncRequest]
    split <;> rfl
  | _ => rfl

namespace Watched

variable {w : Watched}

/-- The range that is requested next begins above the local height, and what lies between has been
asked for. -/
theorem Covers.next (hw : w.Covers) {first last : UInt64}
    (h : w.manager.nextRange = some (first, last)) :
    w.manager.localHeight < first ∧ ∀ height, w.manager.localHeight < height → height < first →
      w.manager.Pending height ∨ ∃ last ∈ w.skipped, height ≤ last := by
  obtain ⟨hlt, -⟩ := nextRange_some h
  simp only [hlt]
  rcases w.manager.highestRequested_cases with ⟨-, hlocal⟩ | ⟨⟨e, he, hend⟩, hle⟩
  · rw [hlocal]
    exact ⟨UInt64.le_refl _, fun _ hl hh => absurd (UInt64.lt_of_lt_of_le hl hh) (UInt64.lt_irrefl _)⟩
  · refine ⟨?_, fun height hl hh => hw.covered e he height hl (hend ▸ hh)⟩
    rcases hw.reaches with hnil | ⟨e', he', hr⟩
    · exact absurd he (hnil ▸ List.not_mem_nil)
    · exact UInt64.le_trans hr (hle e' he')

/-- A request that is made in order fits. -/
theorem Covers.fits (hw : w.Covers) {c : Call} (ho : w.Orderly c) {req : Request}
    (h : (SyncManager.call pick P w.manager c).1 = some req) : w.manager.Fits req := by
  obtain ⟨hreq, now, rfl⟩ := call_eq_some h
  obtain ⟨hrange, -, hreported⟩ := nextRequest_some hreq
  obtain ⟨hlt, hle, hshort, hbest⟩ := nextRange_some hrange
  obtain ⟨habove, hbelow⟩ := hw.next hrange
  refine ⟨hle, hshort, habove, hbest, ?_, hreported, fun height hl hh => ?_⟩
  · rintro height hge - ⟨e, he, -, hend⟩
    rcases w.manager.highestRequested_cases with ⟨hnil, -⟩ | ⟨-, htop⟩
    · exact absurd he (hnil ▸ List.not_mem_nil)
    · exact UInt64.not_lt.mpr hge ((hlt _).mpr (UInt64.le_trans hend (htop e he)))
  · rcases hbelow height hl hh with hp | ⟨last, hlast, hle⟩
    · exact hp
    · exact absurd (UInt64.le_trans hle (ho last hlast)) (UInt64.not_le.mpr hl)

/-- A new request goes on where the pending ones end. -/
theorem Covers.issued (hw : w.Covers) {c : Call} {req : Request}
    (h : (SyncManager.call pick P w.manager c).1 = some req) : (w.call pick P c).2.Covers := by
  obtain ⟨hreq, now, rfl⟩ := call_eq_some h
  obtain ⟨hrange, hfree, -⟩ := nextRequest_some hreq
  obtain ⟨habove, hbelow⟩ := hw.next hrange
  have hle := (nextRange_some hrange).2.1
  obtain ⟨peer, first, last⟩ := req
  let pending := w.manager.pendingRequests.insert peer ⟨first, last, now⟩
  have hcall : (w.call pick P (.nextSyncRequest now)).2 =
      ⟨{ w.manager with pendingRequests := pending }, w.skipped⟩ := by
    simp [Watched.call, SyncManager.call, nextSyncRequest, hreq, ends, pending]
  have hmem : ∀ e, e ∈ pending.toList ↔
      e = (peer, ⟨first, last, now⟩) ∨ e ∈ w.manager.pendingRequests.toList := by
    rintro ⟨p, r⟩
    simp only [ExtTreeMap.mem_toList_iff_getElem?_eq_some, pending]
    by_cases hp : peer = p
    · subst hp
      rw [getElem?_insert_self', hfree]
      simp [eq_comm]
    · rw [getElem?_insert_ne _ _ hp]
      simp [Ne.symm hp]
  have hold : ∀ height, w.manager.Pending height →
      ({ w.manager with pendingRequests := pending } : SyncManager).Pending height :=
    fun _ ⟨e, he, hin⟩ => ⟨e, (hmem e).mpr (.inr he), hin⟩
  rw [hcall]
  refine ⟨.inr ⟨_, (hmem _).mpr (.inl rfl), UInt64.le_trans (UInt64.le_of_lt habove) hle⟩, ?_⟩
  intro e he height hl hh
  rcases (hmem e).mp he with rfl | he
  · by_cases hf : height < first
    · exact (hbelow height hl hf).imp_left (hold height)
    · exact .inl ⟨_, (hmem _).mpr (.inl rfl), UInt64.not_lt.mp hf, hh⟩
  · exact (hw.covered e he height hl hh).imp_left (hold height)

/-- What ended requests leave out is noted. -/
theorem Covers.ended (hw : w.Covers) {c : Call} (ho : w.Orderly c)
    (h : (SyncManager.call pick P w.manager c).1 = none) : (w.call pick P c).2.Covers := by
  have hmem := mem_pending_call h
  have hreach : w.manager.kept c = [] ∨ w.manager.localHeight ≤ w.manager.localAfter c ∧
      ∃ e ∈ w.manager.kept c, w.manager.localAfter c ≤ e.2.toHeight := by
    cases c with
    | updatePeerState | nextSyncRequest =>
      refine hw.reaches.imp (fun hnil => by rw [kept, hnil]; rfl) ?_
      exact fun ⟨e, he, hle⟩ => ⟨UInt64.le_refl _, e, mem_kept.mpr ⟨he, rfl⟩, hle⟩
    | _ => exact ho
  have hlocal : (SyncManager.call pick P w.manager c).2.localHeight = _ := localHeight_call c
  rw [← hlocal] at hreach
  unfold Watched.call
  generalize SyncManager.call pick P w.manager c = answer at hmem hreach ⊢
  obtain ⟨req, m⟩ := answer
  dsimp only at hmem hreach ⊢
  rcases hreach with hnil | ⟨hup, e, he, hle⟩
  · have hempty : m.pendingRequests.toList = [] :=
      List.eq_nil_iff_forall_not_mem.mpr fun e he => by simp [hmem, hnil] at he
    refine ⟨.inl hempty, fun e he => ?_⟩
    rw [hempty] at he
    cases he
  refine ⟨.inr ⟨e, (hmem e).mpr he, hle⟩, fun e he height hl hh => ?_⟩
  rw [if_neg (List.ne_nil_of_mem he)]
  rcases hw.covered e (mem_kept.mp ((hmem e).mp he)).1 height (UInt64.lt_of_le_of_lt hup hl) hh with
    ⟨e₁, he₁, hin⟩ | ⟨last, hlast, hle⟩
  · cases hends : w.manager.ends c e₁.1 e₁.2 with
    | false => exact .inl ⟨e₁, (hmem e₁).mpr (mem_kept.mpr ⟨he₁, hends⟩), hin⟩
    | true =>
      refine .inr ⟨_, List.mem_append_right _ (List.mem_map_of_mem (List.mem_filter.mpr ⟨he₁, ?_⟩)),
        hin.2⟩
      exact decide_eq_true ⟨hends, e, he, UInt64.le_trans hin.1 hh⟩
  · exact .inr ⟨last, List.mem_append_left _ hlast, hle⟩

theorem Covers.call (hw : w.Covers) {c : Call} (ho : w.Orderly c) : (w.call pick P c).2.Covers := by
  cases h : (SyncManager.call pick P w.manager c).1 with
  | none => exact hw.ended ho h
  | some req => exact hw.issued h

end Watched

end Requests

/-- **Sync requests fit as long as the calls are in order**: the local height stays between what it
was and what is pending, and no request is made before the blocks of a lower one that has ended are
there. -/
theorem sync_requests_of_orderly (P : Platform) (localHeight : UInt64) (calls : List Call)
    (h : AllSteps (Watched.call pick P) Watched.Orderly ⟨⟨localHeight, ∅, ∅⟩, []⟩ calls) :
    AllSteps (Watched.call pick P)
      (fun w c => ∀ req ∈ (call pick P w.manager c).1, w.manager.Fits req)
      ⟨⟨localHeight, ∅, ∅⟩, []⟩ calls := by
  refine h.of_invariant Watched.Covers (fun _ _ ho hw => hw.call ho)
    (fun _ _ ho hw _ hreq => hw.fits ho hreq) ⟨.inl rfl, fun e he => by cases he⟩

/-- Picks the first peer. -/
def pickFirst : ∀ peers : List PeerId, Option { p // p ∈ peers }
  | [] => none
  | p :: _ => some ⟨p, List.mem_cons_self⟩

/-- Two ranges are requested. -/
def twoRequests : List Call :=
  [.updatePeerState [0] 150 0, .updatePeerState [1] 150 0, .updatePeerState [2] 150 0,
    .nextSyncRequest 0, .nextSyncRequest 1]

/-- The first range is answered and its blocks are applied before the third one is requested. -/
theorem sync_requests_applied :
    let w := run (Watched.call pickFirst reference) ⟨⟨0, ∅, ∅⟩, []⟩
      (twoRequests ++ [.handleBlocksResponse [0] [], .updateLocalState 50])
    (call pickFirst reference w.manager (.nextSyncRequest 2)).1 = some ([0], 101, 150) ∧
      w.manager.Fits ([0], 101, 150) := by
  have hreq : (call pickFirst reference (run (Watched.call pickFirst reference) ⟨⟨0, ∅, ∅⟩, []⟩
      (twoRequests ++ [.handleBlocksResponse [0] [], .updateLocalState 50])).manager
      (.nextSyncRequest 2)).1 = some ([0], 101, 150) := by decide +kernel
  have hall := sync_requests_of_orderly pickFirst reference 0
    (twoRequests ++ [.handleBlocksResponse [0] [], .updateLocalState 50] ++ [.nextSyncRequest 2])
    (by decide +kernel)
  exact ⟨hreq, (allSteps_append.mp hall).2.1 _ hreq⟩

/-- **A range is left out**: the first request times out, the range above the second one is requested,
and the first one is nowhere pending. -/
theorem timed_out_range_skipped :
    ¬ AllSteps (Watched.call pickFirst reference)
      (fun w c => ∀ req ∈ (call pickFirst reference w.manager c).1, w.manager.Fits req)
      ⟨⟨0, ∅, ∅⟩, []⟩
      (twoRequests ++ [.cancelTimedOutRequests 30_000_000_001, .nextSyncRequest 40_000_000_000]) := by
  intro h
  have hlast := h.2.2.2.2.2.2.1 ([0], 101, 150) (by decide +kernel)
  exact absurd (hlast.covered 1 (by decide +kernel) (by decide)) (by decide +kernel)

/-! ### Answers -/

/-- The blocks are what was asked of this peer: they begin at the first height, follow one another
and do not go past the last one. -/
def Answers (m : SyncManager) (P : Platform) (peer : PeerId) (blocks : List Block) : Prop :=
  ∃ request ∈ m.pendingRequests[peer]?,
    Stretch P request.fromHeight.toNat blocks ∧ ∀ b ∈ blocks, b.header.height ≤ request.toHeight

/-- The blocks begin at this height, and each is the child of the one before. -/
def Linked (P : Platform) (fromHeight : UInt64) (blocks : List Block) : Prop :=
  (∀ b ∈ blocks.head?, b.header.height = fromHeight) ∧
    (blocks.IsChain fun b b' => b'.header.height = b.header.height + 1) ∧ blocks.IsChain (ChildOf P)

section Answers

variable {P : Platform} {blocks : List Block}

theorem checkResponse_ok {fromHeight : UInt64} :
    checkResponse P fromHeight blocks = .ok () ↔ Linked P fromHeight blocks := by
  rw [Linked, checkResponse, except_seq_ok, except_seq_ok, forM_checks_ok, forM_checks_ok, forM_checks_ok]
  simp only [except_ite_ok, not_not, and_true, Option.mem_toList, ← forall_mem_windows]
  rfl

theorem within_iff_length {fromHeight toHeight : UInt64} {b : Block}
    (h : Linked P fromHeight (b :: blocks)) :
    (Stretch P fromHeight.toNat (b :: blocks) ∧ ∀ c ∈ b :: blocks, c.header.height ≤ toHeight) ↔
      fromHeight.toNat + (b :: blocks).length ≤ toHeight.toNat + 1 := by
  obtain ⟨hfirst, hup, hlinks⟩ := h
  have hmax := toHeight.toNat_lt
  rw [← hfirst b rfl]
  constructor
  · rintro ⟨hs, hle⟩
    have hmem : b.header.height.toNat + blocks.length ∈
        (b :: blocks).map fun b => b.header.height.toNat := by
      rw [hs.heights, List.mem_range'_1, List.length_cons]
      omega
    obtain ⟨c, hc, hlast⟩ := List.mem_map.mp hmem
    have := UInt64.le_iff_toNat_le.mp (hle c hc)
    rw [List.length_cons]
    omega
  · intro hlen
    rw [List.length_cons] at hlen
    have hs := Stretch.of_links hup hlinks (by omega)
    refine ⟨hs, fun c hc => UInt64.le_iff_toNat_le.mpr ?_⟩
    have hmem := List.mem_map_of_mem (f := fun b => b.header.height.toNat) hc
    rw [hs.heights, List.mem_range'_1, List.length_cons] at hmem
    omega

end Answers

/-- **An answer that is passed on was asked for** exactly if a request to that peer is pending, and
the blocks, unless they are refused because they do not follow one another from its first height, are
not more than it asks for. -/
theorem answers_requested_iff (P : Platform) (m : SyncManager) (peer : PeerId)
    (blocks : List Block) :
    (∀ bs, (m.handleBlocksResponse P peer blocks).1 = .ok bs → m.Answers P peer bs) ↔
      ∃ request ∈ m.pendingRequests[peer]?, Linked P request.fromHeight blocks → blocks = [] ∨
        request.fromHeight.toNat + blocks.length ≤ request.toHeight.toNat + 1 := by
  cases hreq : m.pendingRequests[peer]? with
  | none =>
    refine iff_of_false (fun h => ?_) (by simp)
    obtain ⟨request, hr, -⟩ := h blocks (by simp only [handleBlocksResponse, hreq])
    rw [hreq] at hr
    cases hr
  | some request =>
    have hpassed : ∀ bs, (m.handleBlocksResponse P peer blocks).1 = .ok bs ↔
        Linked P request.fromHeight blocks ∧ blocks = bs := by
      intro bs
      rw [← checkResponse_ok]
      simp only [handleBlocksResponse, hreq, except_map_ok]
      exact ⟨fun ⟨_, hok, heq⟩ => ⟨hok, heq⟩, fun ⟨hok, heq⟩ => ⟨_, hok, heq⟩⟩
    simp only [hpassed, Answers, hreq, Option.mem_some, exists_eq_left', and_imp]
    rw [forall_comm]
    refine forall_congr' fun hlinked => forall_eq'.trans ?_
    cases blocks with
    | nil => simp [stretch_nil]
    | cons b blocks => rw [within_iff_length hlinked, or_iff_right (List.cons_ne_nil _ _)]

def bareBlock (height : UInt64) (parent : BlockHash) : Block :=
  ⟨Reference.headerAt height parent (Reference.node 1), [], [], []⟩

def firstTwo : List Block := [bareBlock 1 {}, bareBlock 2 ((bareBlock 1 {}).header.hash reference)]

/-- A node that asks for the first block. -/
def asksFirst : SyncManager :=
  ⟨0, ∅, (∅ : ExtTreeMap PeerId PendingRequest).insert [0] ⟨1, 1, 0⟩⟩

/-- **Two blocks are passed on** that nobody asked for, and where only the first was asked for. -/
theorem unrequested_blocks_pass :
    (handleBlocksResponse reference ⟨0, ∅, ∅⟩ [0] firstTwo).1 = .ok firstTwo ∧
      ¬Answers ⟨0, ∅, ∅⟩ reference [0] firstTwo ∧
      (handleBlocksResponse reference asksFirst [0] firstTwo).1 = .ok firstTwo ∧
      ¬Answers asksFirst reference [0] firstTwo := by
  refine ⟨rfl, ?_, by decide +kernel, ?_⟩
  · rintro ⟨request, hr, -⟩
    cases hr
  · rintro ⟨request, hr, -, hle⟩
    obtain rfl : ⟨1, 1, 0⟩ = request := by
      rw [show asksFirst.pendingRequests[([0] : PeerId)]? = _ from getElem?_insert_self' _ _ _] at hr
      exact Option.some.inj hr
    exact absurd (hle _ (List.mem_cons_of_mem _ List.mem_cons_self)) (by decide +kernel)

end SyncManager

end Gratia
