import Gratia.Support.Maps
import Gratia.Support.Runs

/-!
# Network — Reputation

`gratia-network/src/reputation.rs`: the scores of peers, the bans that follow from them, and the
node identities that are linked to peers.  A call reads the clock once.

A ban that runs is only ever extended by what a peer does.  It can end early in two ways:
`link_node_id` copies score and ban together, by the scores alone, although a score recovers while a
ban runs; and a peer whose entry is dropped as stale is not banned any more.  Otherwise bans follow
the node (`bans_kept_iff`).
-/

namespace Gratia

open Std (ExtTreeMap)
open Support

abbrev Instant := ℤ

def hours (n : ℤ) : ℤ := n * 3600 * 1_000_000_000

def defaultScore : ℤ := 100
def minScore : ℤ := -100
def maxScore : ℤ := 1000
def validBlockReward : ℤ := 5
def invalidBlockPenalty : ℤ := -20
def validTxReward : ℤ := 1
def invalidTxPenalty : ℤ := -10
def spamPenalty : ℤ := -15
def rateLimitPenalty : ℤ := -2
def disconnectThreshold : ℤ := -50
def shortBanDurationHours : ℤ := 1
def hardBanDurationHours : ℤ := 24

/-! ### Peers -/

/-- A score stays between `minScore` and `maxScore`, so adding a reward or a penalty to it does not
overflow an `i32`. -/
structure PeerReputation where
  score : ℤ
  lastActivity : Instant
  bannedUntil : Option Instant

namespace PeerReputation

def new (now : Instant) : PeerReputation := ⟨defaultScore, now, none⟩

def banDurationForScore (rep : PeerReputation) (now : Instant) : Option Instant :=
  if rep.score ≤ minScore then some (now + hours hardBanDurationHours)
  else if rep.score < disconnectThreshold then some (now + hours shortBanDurationHours)
  else none

def evaluateBan (rep : PeerReputation) (now : Instant) : PeerReputation :=
  let fresh := { rep with bannedUntil := rep.banDurationForScore now }
  match rep.bannedUntil with
  | none => fresh
  | some «until» =>
    if «until» > now then
      match rep.banDurationForScore now with
      | none => rep
      | some newUntil => if newUntil > «until» then fresh else rep
    else fresh

def applyDelta (rep : PeerReputation) (delta : ℤ) (now : Instant) : PeerReputation :=
  evaluateBan { rep with
    score := min maxScore (max minScore (rep.score + delta)), lastActivity := now } now

def isBanned (rep : PeerReputation) (now : Instant) : Bool :=
  match rep.bannedUntil with
  | some «until» => now < «until»
  | none => false

end PeerReputation

/-! ### The manager -/

structure ReputationManager where
  peers : ExtTreeMap String PeerReputation := ∅
  nodeToPeer : ExtTreeMap String String := ∅

namespace ReputationManager

def evictStalePeers (m : ReputationManager) (maxAge : ℤ) (now : Instant) : ReputationManager :=
  { m with peers := m.peers.filter fun _ rep => rep.lastActivity > now - maxAge }

/-- The entry of a peer, made if there is none, and what is done with it. -/
def entry (m : ReputationManager) (peerId : String) (now : Instant)
    (use : PeerReputation → PeerReputation) : ReputationManager :=
  let m := if m.peers.size > 1000 ∧ peerId ∉ m.peers then m.evictStalePeers (hours 24) now else m
  { m with peers := m.peers.insert peerId (use (m.peers[peerId]?.getD (.new now))) }

def record (delta : ℤ) (m : ReputationManager) (peerId : String) (now : Instant) :
    ReputationManager :=
  m.entry peerId now fun rep => rep.applyDelta delta now

def recordValidBlock := record validBlockReward
def recordValidTx := record validTxReward
def recordInvalidBlock := record invalidBlockPenalty
def recordInvalidTx := record invalidTxPenalty
def recordSpam := record spamPenalty

def recordRateLimited (m : ReputationManager) (peerId _action : String) (now : Instant) :
    ReputationManager :=
  m.record rateLimitPenalty peerId now

/-- The entry of the peer that an identity is linked to, if it is another one. -/
def oldRep (m : ReputationManager) (nodeId peerId : String) : Option PeerReputation :=
  (m.nodeToPeer[nodeId]?.filter (· ≠ peerId)).bind fun oldPeer => m.peers[oldPeer]?

def linkNodeId (m : ReputationManager) (nodeId peerId : String) (now : Instant) :
    ReputationManager :=
  let shouldTransfer := (m.oldRep nodeId peerId).filter (·.score < defaultScore)
  let m := match shouldTransfer with
    | none => m
    | some oldRep => m.entry peerId now fun newRep =>
      if oldRep.score < newRep.score then
        { newRep with score := oldRep.score, bannedUntil := oldRep.bannedUntil }
      else newRep
  { m with nodeToPeer := m.nodeToPeer.insert nodeId peerId }

def isBanned (m : ReputationManager) (peerId : String) (now : Instant) : Bool :=
  match m.peers[peerId]? with
  | some rep => rep.isBanned now
  | none => false

def isNodeBanned (m : ReputationManager) (nodeId : String) (now : Instant) : Bool :=
  match m.nodeToPeer[nodeId]? with
  | some peerId => m.isBanned peerId now
  | none => false

end ReputationManager

inductive ReputationCall where
  | recordValidBlock (peerId : String)
  | recordValidTx (peerId : String)
  | recordInvalidBlock (peerId : String)
  | recordInvalidTx (peerId : String)
  | recordSpam (peerId : String)
  | recordRateLimited (peerId action : String)
  | linkNodeId (nodeId peerId : String)

namespace ReputationManager

def call (m : ReputationManager) (c : Instant × ReputationCall) : ReputationManager :=
  match c.2 with
  | .recordValidBlock peerId => m.recordValidBlock peerId c.1
  | .recordValidTx peerId => m.recordValidTx peerId c.1
  | .recordInvalidBlock peerId => m.recordInvalidBlock peerId c.1
  | .recordInvalidTx peerId => m.recordInvalidTx peerId c.1
  | .recordSpam peerId => m.recordSpam peerId c.1
  | .recordRateLimited peerId action => m.recordRateLimited peerId action c.1
  | .linkNodeId nodeId peerId => m.linkNodeId nodeId peerId c.1

def step (m : ReputationManager) (c : Instant × ReputationCall) : Unit × ReputationManager :=
  ((), m.call c)

def banEnd (m : ReputationManager) (peerId : String) : Option Instant :=
  m.peers[peerId]?.bind (·.bannedUntil)

def nodeBanEnd (m : ReputationManager) (nodeId : String) : Option Instant :=
  m.nodeToPeer[nodeId]?.bind m.banEnd

end ReputationManager

/-! ### Bans that are kept -/

/-- A ban end that has not passed stays, or moves to a later time. -/
def Outlasts (now : Instant) (before after : Option Instant) : Prop :=
  ∀ t ∈ before, now < t → ∃ t' ∈ after, t ≤ t'

theorem outlasts_refl (now : Instant) (b : Option Instant) : Outlasts now b b :=
  fun t ht _ => ⟨t, ht, le_rfl⟩

theorem outlasts_none (now : Instant) (b : Option Instant) : Outlasts now none b :=
  fun _ ht => absurd ht (Option.not_mem_none _)

theorem PeerReputation.outlasts_evaluateBan (rep : PeerReputation) (now : Instant) :
    Outlasts now rep.bannedUntil (rep.evaluateBan now).bannedUntil := by
  intro t ht hrun
  simp only [evaluateBan, Option.mem_def.mp ht, gt_iff_lt, if_pos hrun]
  cases rep.banDurationForScore now with
  | none => exact ⟨t, ht, le_rfl⟩
  | some newUntil =>
    dsimp only
    split
    next hlater => exact ⟨newUntil, rfl, hlater.le⟩
    next => exact ⟨t, ht, le_rfl⟩

theorem PeerReputation.outlasts_applyDelta (rep : PeerReputation) (delta : ℤ) (now : Instant) :
    Outlasts now rep.bannedUntil (rep.applyDelta delta now).bannedUntil :=
  outlasts_evaluateBan { rep with
    score := min maxScore (max minScore (rep.score + delta)), lastActivity := now } now

namespace ReputationManager

variable {m m' : ReputationManager} {now : Instant} {peerId nodeId : String}

/-- No ban that runs ends early, of a peer or of a node identity. -/
def Kept (now : Instant) (m m' : ReputationManager) : Prop :=
  (∀ peerId, Outlasts now (m.banEnd peerId) (m'.banEnd peerId)) ∧
    ∀ nodeId, Outlasts now (m.nodeBanEnd nodeId) (m'.nodeBanEnd nodeId)

/-- No entry with a ban that runs is dropped to make room for a peer. -/
def RoomFor (m : ReputationManager) (peerId : String) (now : Instant) : Prop :=
  m.peers.size > 1000 → peerId ∉ m.peers → ∀ (other : String) (rep : PeerReputation),
    m.peers[other]? = some rep → rep.lastActivity ≤ now - hours 24 → ∀ t ∈ rep.bannedUntil, t ≤ now

/-- What a call must meet for bans to be kept.  A link of an identity to another peer copies a ban
only with a score below the default and below the peer's own. -/
def Carries (m : ReputationManager) (c : Instant × ReputationCall) : Prop :=
  match c.2 with
  | .recordValidBlock peerId | .recordValidTx peerId | .recordInvalidBlock peerId
  | .recordInvalidTx peerId | .recordSpam peerId | .recordRateLimited peerId _ =>
    m.RoomFor peerId c.1
  | .linkNodeId nodeId peerId => ∀ oldRep ∈ m.oldRep nodeId peerId,
    if oldRep.score < defaultScore then
      m.RoomFor peerId c.1 ∧
        if oldRep.score < (m.peers[peerId]?.getD (.new c.1)).score then
          Outlasts c.1 (m.banEnd peerId) oldRep.bannedUntil
        else Outlasts c.1 oldRep.bannedUntil (m.banEnd peerId)
    else Outlasts c.1 oldRep.bannedUntil (m.banEnd peerId)

theorem banEnd_eq_getD (m : ReputationManager) (peerId : String) (now : Instant) :
    m.banEnd peerId = (m.peers[peerId]?.getD (.new now)).bannedUntil := by
  unfold banEnd
  cases m.peers[peerId]? with
  | none => rfl
  | some rep => rfl

/-! ### One call -/

section Entry

variable {use : PeerReputation → PeerReputation}

theorem nodeToPeer_entry : (m.entry peerId now use).nodeToPeer = m.nodeToPeer := by
  unfold entry
  dsimp only
  split
  · rfl
  · rfl

theorem banEnd_entry_self : (m.entry peerId now use).banEnd peerId =
    (use (m.peers[peerId]?.getD (.new now))).bannedUntil := by
  unfold entry banEnd
  dsimp only
  rw [ExtTreeMap.getElem?_insert_self, Option.bind_some]
  split
  next h =>
    -- a peer that room is made for has no entry, before and after
    have hnone : m.peers[peerId]? = none := ExtTreeMap.getElem?_eq_none h.2
    have hstill : (m.evictStalePeers (hours 24) now).peers[peerId]? = none := by
      rw [evictStalePeers, ExtTreeMap.getElem?_filter', hnone]
      rfl
    rw [hnone, hstill]
  next => rfl

theorem banEnd_entry_of_ne {other : String} (hne : other ≠ peerId) :
    (m.entry peerId now use).banEnd other =
      if m.peers.size > 1000 ∧ peerId ∉ m.peers then
        (m.evictStalePeers (hours 24) now).banEnd other
      else m.banEnd other := by
  unfold entry banEnd
  dsimp only
  rw [getElem?_insert_ne _ _ hne.symm]
  split
  · rfl
  · rfl

theorem banEnd_evictStalePeers {other : String} {rep : PeerReputation}
    (h : m.peers[other]? = some rep) : (m.evictStalePeers (hours 24) now).banEnd other =
      if rep.lastActivity > now - hours 24 then rep.bannedUntil else none := by
  unfold evictStalePeers banEnd
  rw [ExtTreeMap.getElem?_filter', h, Option.filter_some]
  by_cases hfresh : rep.lastActivity > now - hours 24
  · rw [if_pos hfresh, if_pos (decide_eq_true hfresh), Option.bind_some]
  · rw [if_neg hfresh, if_neg (by simpa using hfresh), Option.bind_none]

/-- Using an entry keeps all bans if room is made and the peer's own ban is kept. -/
theorem outlasts_entry_iff :
    (∀ other, Outlasts now (m.banEnd other) ((m.entry peerId now use).banEnd other)) ↔
      m.RoomFor peerId now ∧
        Outlasts now (m.banEnd peerId) (use (m.peers[peerId]?.getD (.new now))).bannedUntil := by
  constructor
  · intro h
    refine ⟨fun hfull hnew other rep hrep hstale t ht => ?_, banEnd_entry_self ▸ h peerId⟩
    have hne : other ≠ peerId := fun heq => hnew (heq ▸ mem_of_getElem? hrep)
    by_contra hrun
    have hend : m.banEnd other = rep.bannedUntil := by rw [banEnd, hrep, Option.bind_some]
    obtain ⟨t', ht', -⟩ := h other t (hend ▸ ht) (not_le.mp hrun)
    rw [banEnd_entry_of_ne hne, if_pos ⟨hfull, hnew⟩, banEnd_evictStalePeers hrep,
      if_neg (not_lt.mpr hstale)] at ht'
    cases ht'
  · rintro ⟨hroom, hown⟩ other
    by_cases heq : other = peerId
    · subst heq
      rw [banEnd_entry_self]
      exact hown
    rw [banEnd_entry_of_ne heq]
    split
    next hevict =>
      cases hrep : m.peers[other]? with
      | none =>
        rw [banEnd, hrep]
        exact outlasts_none _ _
      | some rep =>
        rw [banEnd_evictStalePeers hrep, banEnd, hrep]
        split
        · exact outlasts_refl _ _
        next hstale =>
          intro t ht hrun
          have hend := hroom hevict.1 hevict.2 other rep hrep (not_lt.mp hstale) t ht
          exact absurd hend (not_le.mpr hrun)
    next => exact outlasts_refl _ _

end Entry

/-- Where the identities stay linked as they are, their bans are kept with those of the peers. -/
theorem kept_iff_of_nodeToPeer (h : m'.nodeToPeer = m.nodeToPeer) :
    Kept now m m' ↔ ∀ peerId, Outlasts now (m.banEnd peerId) (m'.banEnd peerId) := by
  refine and_iff_left_of_imp fun hpeers nodeId => ?_
  unfold nodeBanEnd
  rw [h]
  cases m.nodeToPeer[nodeId]? with
  | none => exact outlasts_none _ _
  | some peerId => exact hpeers peerId

theorem kept_record_iff (delta : ℤ) :
    Kept now m (m.record delta peerId now) ↔ m.RoomFor peerId now := by
  refine (kept_iff_of_nodeToPeer nodeToPeer_entry).trans (outlasts_entry_iff.trans ?_)
  refine and_iff_left ?_
  rw [banEnd_eq_getD m peerId now]
  exact PeerReputation.outlasts_applyDelta _ delta now

/-- A link keeps the bans of the other identities with those of the peers. -/
theorem kept_link_iff {links : ExtTreeMap String String}
    (hpeers : m'.nodeToPeer = m.nodeToPeer) (hlinks : links = m'.nodeToPeer.insert nodeId peerId) :
    Kept now m { m' with nodeToPeer := links } ↔
      (∀ other, Outlasts now (m.banEnd other) (m'.banEnd other)) ∧
        Outlasts now (m.nodeBanEnd nodeId) (m'.banEnd peerId) := by
  subst hlinks
  have hself : ({ m' with nodeToPeer := m'.nodeToPeer.insert nodeId peerId } :
      ReputationManager).nodeBanEnd nodeId = m'.banEnd peerId := by
    rw [nodeBanEnd, ExtTreeMap.getElem?_insert_self, Option.bind_some]
    rfl
  refine and_congr_right fun hall => ⟨fun h => hself ▸ h nodeId, fun hnode other => ?_⟩
  by_cases heq : other = nodeId
  · subst heq
    rw [hself]
    exact hnode
  rw [nodeBanEnd, nodeBanEnd, getElem?_insert_ne _ _ (Ne.symm heq), hpeers]
  cases m.nodeToPeer[other]? with
  | none => exact outlasts_none _ _
  | some oldPeer => exact hall oldPeer

/-- An identity is linked to another peer, whose ban it has; or a link changes nothing for it. -/
theorem nodeBanEnd_cases (m : ReputationManager) (nodeId peerId : String) :
    (∃ old, m.oldRep nodeId peerId = some old ∧ m.nodeBanEnd nodeId = old.bannedUntil) ∨
      m.oldRep nodeId peerId = none ∧
        ∀ now, Outlasts now (m.nodeBanEnd nodeId) (m.banEnd peerId) := by
  unfold oldRep nodeBanEnd
  cases m.nodeToPeer[nodeId]? with
  | none => exact .inr ⟨rfl, fun now => outlasts_none now _⟩
  | some oldPeer =>
    rw [Option.filter_some, Option.bind_some, banEnd]
    by_cases hsame : oldPeer = peerId
    · subst hsame
      exact .inr ⟨by simp, fun now => outlasts_refl now _⟩
    · rw [if_pos (decide_eq_true hsame), Option.bind_some]
      cases m.peers[oldPeer]? with
      | none => exact .inr ⟨rfl, fun now => outlasts_none now _⟩
      | some old => exact .inl ⟨old, rfl, rfl⟩

theorem kept_linkNodeId_iff : Kept now m (m.linkNodeId nodeId peerId now) ↔
    m.Carries (now, .linkNodeId nodeId peerId) := by
  -- without a transfer, the identity takes the peer's ban in place of its own
  have hstays : Kept now m { m with nodeToPeer := m.nodeToPeer.insert nodeId peerId } ↔
      Outlasts now (m.nodeBanEnd nodeId) (m.banEnd peerId) :=
    (kept_link_iff rfl rfl).trans (and_iff_right fun other => outlasts_refl _ _)
  unfold linkNodeId Carries
  obtain ⟨old, hold, hend⟩ | ⟨hold, hkept⟩ := nodeBanEnd_cases m nodeId peerId
  · simp only [hold, Option.mem_def, Option.some.injEq, forall_eq', Option.filter_some,
      decide_eq_true_eq]
    by_cases hbad : old.score < defaultScore
    · simp only [if_pos hbad]
      rw [kept_link_iff nodeToPeer_entry rfl, outlasts_entry_iff, banEnd_entry_self, hend,
        and_assoc]
      refine and_congr_right fun _ => ?_
      by_cases hworse : old.score < (m.peers[peerId]?.getD (.new now)).score
      · simp only [if_pos hworse]
        exact and_iff_left (outlasts_refl _ _)
      · simp only [if_neg hworse]
        rw [banEnd_eq_getD m peerId now]
        exact and_iff_right (outlasts_refl _ _)
    · simp only [if_neg hbad]
      rw [hstays, hend]
  · simp only [hold, Option.filter_none]
    exact iff_of_true (hstays.mpr (hkept now)) (by simp)

theorem kept_call_iff (m : ReputationManager) (c : Instant × ReputationCall) :
    Kept c.1 m (m.call c) ↔ m.Carries c := by
  obtain ⟨now, call⟩ := c
  cases call with
  | linkNodeId nodeId peerId => exact kept_linkNodeId_iff
  | _ => exact kept_record_iff _

/-! ### Whole runs -/

theorem isNodeBanned_iff :
    m.isNodeBanned nodeId now = true ↔ ∃ t ∈ m.nodeBanEnd nodeId, now < t := by
  unfold isNodeBanned isBanned PeerReputation.isBanned nodeBanEnd banEnd
  cases m.nodeToPeer[nodeId]? with
  | none => simp
  | some peerId =>
    cases hrep : m.peers[peerId]? with
    | none => simp [hrep]
    | some rep => cases hend : rep.bannedUntil <;> simp [hrep, hend]

/-- Along calls that keep bans, an identity stays banned up to the end it had. -/
theorem nodeBanEnd_run {calls : List (Instant × ReputationCall)} {t u : Instant} (ht : t < u) :
    ∀ {m : ReputationManager}, AllSteps step (fun m c => Kept c.1 m (m.call c)) m calls →
      (∀ c ∈ calls, c.1 ≤ t) → (∃ u' ∈ m.nodeBanEnd nodeId, u ≤ u') →
      ∃ u' ∈ (run step m calls).nodeBanEnd nodeId, u ≤ u' := by
  induction calls with
  | nil => exact fun _ _ h => h
  | cons c calls ih =>
    rintro m ⟨hkept, hrest⟩ htimes ⟨u₁, hu₁, hle₁⟩
    have hrun : c.1 < u₁ := (htimes c List.mem_cons_self).trans_lt (ht.trans_le hle₁)
    obtain ⟨u₂, hu₂, hle₂⟩ := hkept.2 nodeId u₁ hu₁ hrun
    exact ih hrest (fun c hc => htimes c (List.mem_cons_of_mem _ hc)) ⟨u₂, hu₂, hle₁.trans hle₂⟩

/-- **Bans follow the node exactly if every call carries them.**  Then an identity that is banned at
some point of a run is banned until then at least, whatever peers it is linked to. -/
theorem bans_kept_iff (m : ReputationManager) (calls : List (Instant × ReputationCall)) :
    (AllSteps step (fun m c => Kept c.1 m (m.call c)) m calls ∧
      ∀ before after nodeId t u, calls = before ++ after →
        u ∈ (run step m before).nodeBanEnd nodeId → (∀ c ∈ after, c.1 ≤ t) → t < u →
        (run step m calls).isNodeBanned nodeId t = true) ↔
      AllSteps step Carries m calls := by
  have hsteps : AllSteps step (fun m c => Kept c.1 m (m.call c)) m calls ↔
      AllSteps step Carries m calls :=
    allSteps_congr (fun _ => True) (fun _ _ _ _ => trivial)
      (fun m c _ => kept_call_iff m c) calls m trivial
  rw [← hsteps]
  refine and_iff_left_of_imp fun hkept before after nodeId t u hcalls hu htimes ht => ?_
  subst hcalls
  rw [isNodeBanned_iff, run_append]
  have hafter := (allSteps_append.mp hkept).2
  obtain ⟨u', hu', hle⟩ := nodeBanEnd_run ht hafter htimes ⟨u, hu, le_rfl⟩
  exact ⟨u', hu', ht.trans_le hle⟩

def recovers (peerId : String) : List (Instant × ReputationCall) :=
  .replicate 10 (0, .recordInvalidBlock peerId) ++ .replicate 41 (0, .recordValidBlock peerId)

/-- A peer that is banned for a day has its ban lifted by a link of an identity whose peer has sent
one invalid transaction; and an identity that is linked to the banned peer is not banned any more
once it is linked to a new one. -/
theorem link_ends_ban :
    (run step {} (recovers "a")).banEnd "a" = some (hours 24) ∧
    (run step {} (recovers "a" ++ [(0, .recordInvalidTx "b"), (0, .linkNodeId "n" "b"),
      (0, .linkNodeId "n" "a")])).banEnd "a" = none ∧
    (run step {} (recovers "a" ++ [(0, .linkNodeId "n" "a")])).isNodeBanned "n" 0 = true ∧
    (run step {} (recovers "a" ++ [(0, .linkNodeId "n" "a"),
      (0, .linkNodeId "n" "b")])).isNodeBanned "n" 0 = false := by
  refine ⟨?_, ?_, ?_, ?_⟩ <;> decide +kernel

end ReputationManager

end Gratia
