import Gratia.Consensus.Finalization
import Gratia.Consensus.Influence

/-!
# Consensus — Proposers

Who proposes a block, and in whose name.
-/

namespace Gratia

open Support

def shouldRotate (committee : ValidatorCommittee) (currentSlot : UInt64) : Bool :=
  currentSlot ≥ committee.epoch.endSlot

variable {P : Platform}

theorem ValidatorCommittee.isSome_blockProducerForSlot {c : ValidatorCommittee} {slot : UInt64} :
    (c.blockProducerForSlot slot).isSome = true ↔
      c.members ≠ [] ∧ c.epoch.startSlot ≤ slot := by
  unfold blockProducerForSlot
  by_cases hmembers : c.members = []
  · simp [hmembers]
  by_cases hslot : slot < c.epoch.startSlot
  · simp [hmembers, hslot, UInt64.not_le.mpr hslot]
  · have hpos : 0 < c.members.length := List.length_pos_of_ne_nil hmembers
    simp [hmembers, hslot, UInt64.not_lt.mp hslot, Nat.mod_lt _ hpos]

namespace ConsensusEngine

variable {e : ConsensusEngine}

/-! ### In the producer's name -/

/-- The block has a signature of its producer, which verifies on the header under the producer's
signing key. -/
def ProducerSigned (P : Platform) (c : ValidatorCommittee) (b : Block) : Prop :=
  ∃ vs ∈ b.validatorSignatures, vs.validator = b.header.producer ∧
    ∃ key, c.getSigningPubkey b.header.producer = some key ∧
      verifySignature P key (b.header.hash P).bytes.bytes vs.signature = .ok ()

/-- **Who an accepted block is signed by.**  Of the signers a block names every one has signed; that
the producer is one of them is up to whoever sends the block. -/
theorem producer_signed_iff {c : ValidatorCommittee} {b : Block}
    (hc : e.currentCommittee = some c) (hreal : 2 ≤ c.realMembers)
    (hacc : (e.processIncomingBlock P b).1 = .ok .accepted) :
    ProducerSigned P c b ↔
      b.header.producer ∈ b.validatorSignatures.map fun vs => vs.validator := by
  obtain ⟨⟨-, -, hheader⟩, -⟩ := accepted_iff.mp hacc
  obtain ⟨-, -, hsigned⟩ := hheader c hc
  constructor
  · rintro ⟨vs, hvs, hname, -⟩
    exact List.mem_map.mpr ⟨vs, hvs, hname⟩
  · intro hmem
    obtain ⟨vs, hvs, hname⟩ := List.mem_map.mp hmem
    obtain ⟨-, hverified, hkeyless⟩ := hsigned vs hvs
    cases hkey : c.getSigningPubkey vs.validator with
    | none => exact absurd (hkeyless hkey) (Nat.not_le.mpr hreal)
    | some key => exact ⟨vs, hvs, hname, key, hname ▸ hkey, hverified key hkey⟩

open Reference

/-- Members 1, 2 and 3; a block of member 1 that member 1 and member 3 have signed. -/
theorem producer_signed_twoSigners :
    ProducerSigned reference (committeeOf [1, 2, 3] 2)
      (signedBlock (headerAt 1 {} (node 1)) [] [3, 1]) :=
  (producer_signed_iff (e := engineOf 2 (committeeOf [1, 2, 3] 2)) rfl
    (by decide +kernel) (by decide +kernel)).mpr (by decide +kernel)

/-- Member 2 gets a block accepted that names member 1 as its producer, under its own signature
alone. -/
theorem producer_not_signed_otherSigner :
    let c := committeeOf [1, 2, 3] 2
    let b := signedBlock (headerAt 1 {} (node 1)) [] [2]
    2 ≤ c.realMembers ∧
      ((engineOf 3 c).processIncomingBlock reference b).1 = .ok .accepted ∧
      ¬ ProducerSigned reference c b := by
  refine ⟨by decide +kernel, by decide +kernel, ?_⟩
  rintro ⟨vs, hvs, hname, -⟩
  obtain rfl := List.mem_singleton.mp hvs
  exact absurd hname (by decide +kernel)

/-! ### A producer for the next height -/

/-- Some member of the committee is the designated producer of the next height. -/
def HasProducer (e : ConsensusEngine) : Prop :=
  ∃ c, e.currentCommittee = some c ∧ (c.blockProducerForSlot (e.currentHeight + 1)).isSome = true

/-- The calls of a run that keeps its committee up to date: blocks are produced, signed, finalized
and received, slots go by, and the committee is rotated when it is due. -/
def Routine (e : ConsensusEngine) : EngineCall → Prop
  | .advanceSlot | .produceBlock .. | .addBlockSignature _ | .finalizePendingBlock
  | .processIncomingBlock _ => True
  | .rotateCommittee _ => ∃ c ∈ e.currentCommittee, shouldRotate c e.currentSlot = true
  | _ => False

def poolOf (nodes : List EligibleNode) : Except GratiaError (List EligibleNode) :=
  selectionPool nodes
    (tierForNetworkSize (UInt64.ofNat (nodes.countP EligibleNode.isEligible))) none

def nextSeed (P : Platform) (e : ConsensusEngine) (c : ValidatorCommittee) : Bytes32 :=
  sha256Multi P [epochSeedDomain, e.lastFinalizedHash.bytes.bytes,
    toBeBytes (c.epoch.epochNumber + 1)]

/-- A rotation that finds a pool comes when the next height has reached the new epoch, and some node
of the pool has a ticket. -/
def InPace (P : Platform) (e : ConsensusEngine) : EngineCall → Prop
  | .rotateCommittee nodes => ∀ c ∈ e.currentCommittee, ∀ pool, poolOf nodes = .ok pool →
      c.epoch.endSlot ≤ e.currentHeight + 1 ∧
        ∃ n ∈ pool, (candidate P (selectionInput (e.nextSeed P c) (c.epoch.epochNumber + 1))
          n).isSome = true
  | _ => True

def Below (e : ConsensusEngine) (_ : EngineCall) : Prop := e.currentHeight.toNat + 3 < 2 ^ 64

instance (e : ConsensusEngine) (x : EngineCall) : Decidable (e.Below x) :=
  inferInstanceAs (Decidable (_ < _))

theorem take_candidates_ne_nil_iff {pool : List EligibleNode} {input : Bytes}
    {networkSize : UInt64} :
    ((pool.filterMap (candidate P input)).insertionSort CommitteeMember.before).take
        (tierForNetworkSize networkSize).committeeSize ≠ [] ↔
      ∃ n ∈ pool, (candidate P input n).isSome = true := by
  have hseats : ∀ tier ∈ scalingTiers, tier.committeeSize ≠ 0 := by decide
  have hsize := hseats _ (tierForNetworkSize_mem networkSize)
  have hsorted : ∀ l : List CommitteeMember,
      l.insertionSort CommitteeMember.before = [] ↔ l = [] := fun l => by
    rw [← List.length_eq_zero_iff, List.length_insertionSort, List.length_eq_zero_iff]
  rw [Ne, List.take_eq_nil_iff, hsorted, List.filterMap_eq_nil_iff]
  simp [hsize, Option.isSome_iff_ne_none]

/-- What a rotation does: nothing, or it puts in place a committee that starts where the last one
ends and has members if some node of the pool has a ticket. -/
theorem rotateCommittee_cases (nodes : List EligibleNode) {c : ValidatorCommittee}
    (hc : e.currentCommittee = some c) :
    (e.rotateCommittee P nodes).2.currentHeight = e.currentHeight ∧
    (((∀ pool, poolOf nodes ≠ .ok pool) ∧
      (e.rotateCommittee P nodes).2.currentCommittee = some c) ∨
    ∃ pool c', poolOf nodes = .ok pool ∧
      (e.rotateCommittee P nodes).2.currentCommittee = some c' ∧
      c'.epoch.startSlot = c.epoch.endSlot ∧
      (c'.members ≠ [] ↔
        ∃ n ∈ pool, (candidate P (selectionInput (e.nextSeed P c) (c.epoch.epochNumber + 1))
          n).isSome = true)) := by
  unfold rotateCommittee
  simp only [hc]
  cases hsel : Gratia.rotateCommittee P nodes c e.lastFinalizedHash.bytes with
  | error err =>
    refine ⟨rfl, .inl ⟨fun pool hpool => ?_, hc⟩⟩
    simp [Gratia.rotateCommittee, selectCommittee, selectCommitteeWithNetworkSize,
      show selectionPool nodes _ none = .ok pool from hpool] at hsel
  | ok c' =>
    obtain ⟨pool, hpool, hepoch, hmembers, -⟩ := selectCommitteeWithNetworkSize_ok hsel
    refine ⟨rfl, .inr ⟨pool, c', hpool, rfl, by rw [hepoch], ?_⟩⟩
    rw [hmembers]
    exact take_candidates_ne_nil_iff

/-- Where a call can bring the height: nowhere, to that of the pending block, or one or two up. -/
def HeightMoves (e e' : ConsensusEngine) : Prop :=
  e'.currentHeight = e.currentHeight ∨
    (∃ p, e.pendingBlock = some p ∧ e'.currentHeight = p.block.header.height) ∨
    e'.currentHeight = e.currentHeight + 1 ∨ e'.currentHeight = e.currentHeight + 2

structure Stays (e e' : ConsensusEngine) : Prop where
  committee : e'.currentCommittee = e.currentCommittee
  height : e'.currentHeight = e.currentHeight

theorem Stays.and_moves {e' : ConsensusEngine} (h : Stays e e') :
    e'.currentCommittee = e.currentCommittee ∧ HeightMoves e e' :=
  ⟨h.committee, .inl h.height⟩

theorem stays_advanceSlot : Stays e e.advanceSlot.2 := by
  unfold advanceSlot
  simp only
  split
  · exact ⟨rfl, rfl⟩
  split
  · split <;> exact ⟨rfl, rfl⟩
  · exact ⟨rfl, rfl⟩

theorem stays_produceBlock (now : DateTime) (txs : List Transaction)
    (atts : List ProofOfLifeAttestation) (root : Bytes32) (pubkey : Bytes) :
    Stays e (e.produceBlock P now txs atts root pubkey).2 := by
  unfold produceBlock
  split
  · exact ⟨rfl, rfl⟩
  split
  · exact ⟨rfl, rfl⟩
  simp only
  split <;> exact ⟨rfl, rfl⟩

theorem stays_addBlockSignature (sig : ValidatorSignature) :
    Stays e (e.addBlockSignature P sig).2 := by
  unfold addBlockSignature
  split
  · exact ⟨rfl, rfl⟩
  simp only
  split <;> exact ⟨rfl, rfl⟩

theorem finalizePendingBlock_rest :
    (e.finalizePendingBlock P).2.currentCommittee = e.currentCommittee ∧
      HeightMoves e (e.finalizePendingBlock P).2 := by
  unfold finalizePendingBlock finalizePendingBlockInner
  cases hp : e.pendingBlock with
  | none => exact ⟨rfl, .inl rfl⟩
  | some p =>
    simp only [Bool.false_eq_true, if_false]
    cases hf : p.finalize with
    | error err => exact ⟨rfl, .inl rfl⟩
    | ok b =>
      obtain ⟨-, rfl⟩ := PendingBlock.finalize_ok hf
      exact ⟨rfl, .inr (.inl ⟨p, hp, rfl⟩)⟩

theorem processIncomingBlock_rest (b : Block) :
    (e.processIncomingBlock P b).2.currentCommittee = e.currentCommittee ∧
      HeightMoves e (e.processIncomingBlock P b).2 := by
  by_cases hacc : (e.processIncomingBlock P b).1 = .ok .accepted
  · rw [process_of_accepted hacc]
    obtain ⟨⟨-, hfits⟩, -⟩ := (accepted_iff.mp hacc).1
    refine ⟨rfl, .inr (.inr ?_)⟩
    rcases hfits with ⟨hnext, -⟩ | hskip
    · exact .inl hnext
    · exact .inr hskip
  · rcases process_of_rejected hacc with hr | ⟨-, -, hr⟩
    · rw [hr]
      exact ⟨rfl, .inl rfl⟩
    · rw [hr]
      exact ⟨rfl, .inl rfl⟩

theorem routine_cases {x : EngineCall} (hroutine : e.Routine x)
    (hx : ∀ nodes, x ≠ .rotateCommittee nodes) :
    (call P e x).2.currentCommittee = e.currentCommittee ∧ HeightMoves e (call P e x).2 := by
  cases x with
  | advanceSlot => exact stays_advanceSlot.and_moves
  | produceBlock now txs atts root pubkey =>
    exact (stays_produceBlock now txs atts root pubkey).and_moves
  | addBlockSignature sig => exact (stays_addBlockSignature sig).and_moves
  | finalizePendingBlock => exact finalizePendingBlock_rest
  | processIncomingBlock b => exact processIncomingBlock_rest b
  | rotateCommittee nodes => exact absurd rfl (hx nodes)
  | initializeCommittee nodes seed epoch slot | forceProducingState | rollbackTo height tip
  | clearProposalsForHeight height => exact hroutine.elim

/-! ### Along a run -/

/-- The committee has members, its epoch has begun for the next height, and the pending block is the
one of the next height. -/
structure Led (e : ConsensusEngine) : Prop where
  committee : ∃ c, e.currentCommittee = some c ∧ c.members ≠ [] ∧
    c.epoch.startSlot ≤ e.currentHeight + 1
  pending : ∀ p, e.pendingBlock = some p → p.block.header.height = e.currentHeight + 1

theorem Led.hasProducer (h : Led e) : e.HasProducer := by
  obtain ⟨c, hc, hmembers, hstart⟩ := h.committee
  exact ⟨c, hc, ValidatorCommittee.isSome_blockProducerForSlot.mpr ⟨hmembers, hstart⟩⟩

theorem Led.pending_step (h : Led e) (x : EngineCall) {p : PendingBlock}
    (hp : (call P e x).2.pendingBlock = some p) :
    p.block.header.height = (call P e x).2.currentHeight + 1 := by
  obtain ⟨hheight, -, hold | hprod | hsign⟩ := call_pending hp
  · rw [hheight, h.pending p hold]
  · obtain ⟨_, _, _, _, _, -, -, hh, -⟩ := hprod
    rw [hheight, hh]
  · obtain ⟨q, sig, -, hq, -, rfl, -⟩ := hsign
    rw [hheight]
    exact h.pending q hq

theorem HeightMoves.next_le {e' : ConsensusEngine} (hmoves : HeightMoves e e') (h : Led e)
    (hbelow : e.currentHeight.toNat + 3 < 2 ^ 64) :
    e.currentHeight + 1 ≤ e'.currentHeight + 1 := by
  have hone : (1 : UInt64).toNat = 1 := rfl
  have htwo : (2 : UInt64).toNat = 2 := rfl
  have hcases : e'.currentHeight = e.currentHeight ∨ e'.currentHeight = e.currentHeight + 1 ∨
      e'.currentHeight = e.currentHeight + 2 := by
    rcases hmoves with hsame | ⟨p, hp, hheight⟩ | hmoved
    · exact .inl hsame
    · exact .inr (.inl (hheight.trans (h.pending p hp)))
    · exact .inr hmoved
  rw [UInt64.le_iff_toNat_le]
  rcases hcases with h' | h' | h' <;> rw [h'] <;> simp only [UInt64.toNat_add, hone, htwo] <;> omega

theorem Led.step (h : Led e) {x : EngineCall} (hroutine : e.Routine x) (hpace : e.InPace P x)
    (hbelow : e.Below x) : Led (call P e x).2 := by
  refine ⟨?_, fun p hp => h.pending_step x hp⟩
  obtain ⟨c, hc, hmembers, hstart⟩ := h.committee
  by_cases hx : ∃ nodes, x = .rotateCommittee nodes
  · obtain ⟨nodes, rfl⟩ := hx
    obtain ⟨hheight, ⟨-, hsame⟩ | ⟨pool, c', hpool, hc', hstart', hmembers'⟩⟩ :=
      rotateCommittee_cases (P := P) nodes hc
    · exact ⟨c, hsame, hmembers, hheight ▸ hstart⟩
    · obtain ⟨hend, hticket⟩ := hpace c hc pool hpool
      refine ⟨c', hc', hmembers'.mpr hticket, ?_⟩
      rw [show (call P e (.rotateCommittee nodes)).2.currentHeight = _ from hheight, hstart']
      exact hend
  · obtain ⟨hcommittee, hmoves⟩ := routine_cases (P := P) hroutine fun nodes heq => hx ⟨nodes, heq⟩
    exact ⟨c, hcommittee.trans hc, hmembers, UInt64.le_trans hstart (hmoves.next_le h hbelow)⟩

theorem inPace_of_hasProducer {x : EngineCall} (h : (call P e x).2.HasProducer) :
    e.InPace P x := by
  cases x with
  | rotateCommittee nodes =>
    intro c hc pool hpool
    obtain ⟨hheight, ⟨hnone, -⟩ | ⟨pool', c', hpool', hc', hstart, hmembers⟩⟩ :=
      rotateCommittee_cases (P := P) nodes hc
    · exact absurd hpool (hnone pool)
    · obtain rfl : pool' = pool := Except.ok.inj (hpool'.symm.trans hpool)
      obtain ⟨c'', hc'', hsome⟩ := h
      obtain rfl : c' = c'' := Option.some.inj (hc'.symm.trans hc'')
      obtain ⟨hne, hle⟩ := ValidatorCommittee.isSome_blockProducerForSlot.mp hsome
      rw [show (call P e (.rotateCommittee nodes)).2.currentHeight = _ from hheight, hstart] at hle
      exact ⟨hle, hmembers.mp hne⟩
  | _ => trivial

/-- **When someone may produce the next block.**  A new engine is given a committee with members at
slot 0 and run.  It then has a producer for the next height; if it has one after every step then
every rotation was in pace; and if every rotation is in pace, and the height does not run over, then
it has one after every step. -/
theorem producer_always {nodeId : NodeId} {signingKeyBytes : Bytes32} {nodes : List EligibleNode}
    {seed : Bytes32} {epochNumber : UInt64} {e₀ : ConsensusEngine} {c₀ : ValidatorCommittee}
    (hinit : (new P nodeId signingKeyBytes).initializeCommittee P nodes seed epochNumber 0 =
      (.ok (), e₀))
    (hc₀ : e₀.currentCommittee = some c₀) (hmembers : c₀.members ≠ []) (cs : List EngineCall)
    (hroutine : AllSteps (call P) Routine e₀ cs) :
    e₀.HasProducer ∧
      (AllSteps (call P) (fun e x => (call P e x).2.HasProducer) e₀ cs →
        AllSteps (call P) (InPace P) e₀ cs) ∧
      (AllSteps (call P) (InPace P) e₀ cs → AllSteps (call P) Below e₀ cs →
        AllSteps (call P) (fun e x => (call P e x).2.HasProducer) e₀ cs) := by
  have hled : Led e₀ := by
    unfold initializeCommittee at hinit
    cases hsel : selectCommittee P nodes seed epochNumber 0 with
    | error err => simp [hsel] at hinit
    | ok c =>
      simp only [hsel, Prod.mk.injEq, true_and] at hinit
      subst hinit
      obtain rfl : c = c₀ := Option.some.inj hc₀
      obtain ⟨pool, -, hepoch, -, -⟩ := selectCommitteeWithNetworkSize_ok hsel
      refine ⟨⟨c, rfl, hmembers, ?_⟩, fun p hp => by cases hp⟩
      rw [hepoch]
      exact UInt64.zero_le
  refine ⟨hled.hasProducer, AllSteps.imp fun e x => inPace_of_hasProducer,
    fun hpace hbelow => ?_⟩
  have hall := (hroutine.and hpace).and hbelow
  have hkept := hall.invariant Led (fun e x ⟨⟨hr, hp⟩, hb⟩ hled => hled.step hr hp hb) hled
  exact hkept.imp fun e x => Led.hasProducer

/-! ### An epoch with blocks, and one without -/

def threeNodes : List EligibleNode := [eligibleNode 1, eligibleNode 2, eligibleNode 3]

def startedNode : ConsensusEngine := (firstNode.initializeCommittee reference threeNodes .zero 0 0).2

theorem startedNode_init :
    firstNode.initializeCommittee reference threeNodes .zero 0 0 = (.ok (), startedNode) :=
  Prod.ext (by decide +kernel) rfl

theorem startedNode_committee : ∃ c, startedNode.currentCommittee = some c ∧ c.members ≠ [] ∧
    c.epoch.endSlot = 900 ∧ MayPropose c true (node 1) ∧
    c.getSigningPubkey (node 1) = some (key 1) := by
  have h : startedNode.currentCommittee.any (fun c => decide (c.members ≠ [] ∧
      c.epoch.endSlot = 900 ∧
      (∃ m ∈ c.members, m.nodeId = node 1 ∧ (true = true → m.signingPubkey ≠ [])) ∧
      c.getSigningPubkey (node 1) = some (key 1))) = true := by
    decide +kernel
  obtain ⟨c, hc, hall⟩ := (Option.any_eq_true _ _).mp h
  rw [decide_eq_true_eq] at hall
  exact ⟨c, hc, hall⟩

theorem advanceSlot_notes : e.advanceSlot.2.currentSlot = e.currentSlot + 1 ∧
    e.advanceSlot.2.seenProposals = e.seenProposals := by
  unfold advanceSlot
  simp only
  split
  · exact ⟨rfl, rfl⟩
  split
  · split <;> exact ⟨rfl, rfl⟩
  · exact ⟨rfl, rfl⟩

theorem calls_advanceSlot (n : ℕ) :
    Stays e (e.calls P (List.replicate n .advanceSlot)) ∧
      (e.calls P (List.replicate n .advanceSlot)).currentSlot = e.currentSlot + UInt64.ofNat n ∧
      (e.calls P (List.replicate n .advanceSlot)).seenProposals = e.seenProposals := by
  induction n with
  | zero => exact ⟨⟨rfl, rfl⟩, by simp [calls, run], rfl⟩
  | succ n ih =>
    obtain ⟨hstays, hslot, hseen⟩ := ih
    rw [List.replicate_succ', calls_snoc]
    generalize e.calls P (List.replicate n .advanceSlot) = e' at hstays hslot hseen
    have hnext : Stays e' e'.advanceSlot.2 := stays_advanceSlot
    obtain ⟨hslot', hseen'⟩ := advanceSlot_notes (e := e')
    refine ⟨⟨hnext.committee.trans hstays.committee, hnext.height.trans hstays.height⟩,
      hslot'.trans ?_, hseen'.trans hseen⟩
    rw [hslot, UInt64.ofNat_add, UInt64.add_assoc]
    rfl

/-- Every other height of an epoch, as a node that catches up receives the blocks of member 1. -/
def catchUp (n : ℕ) : List EngineCall :=
  (List.range n).map fun i => .processIncomingBlock
    (signedBlock (headerAt (UInt64.ofNat (2 * i + 2)) {} (node 1)) [] [1])

/-- Where the node is after `n` of these blocks. -/
structure CaughtUp (e : ConsensusEngine) (n : ℕ) : Prop where
  height : e.currentHeight = UInt64.ofNat (2 * n)
  slot : e.currentSlot = 900
  committee : e.currentCommittee = startedNode.currentCommittee
  unseen : ∀ h, e.currentHeight < h → e.seenProposals[(h, node 1)]? = none

theorem verify_sign (n : UInt8) (message : Bytes) :
    verifySignature reference (key n) message (sign (key n) message) =
      .ok () := by
  simp [verifySignature, reference, key, sign]

theorem CaughtUp.step {n : ℕ} (h : CaughtUp e n) (hn : n < 450) :
    CaughtUp (e.processIncomingBlock reference (signedBlock
      (headerAt (UInt64.ofNat (2 * n + 2)) {} (node 1)) [] [1])).2 (n + 1) := by
  obtain ⟨c, hc, -, -, hmay, hkey⟩ := startedNode_committee
  have hup : e.currentHeight < UInt64.ofNat (2 * n + 2) := by
    rw [h.height, UInt64.lt_iff_toNat_lt, UInt64.toNat_ofNat', UInt64.toNat_ofNat']
    omega
  have hacc : (e.processIncomingBlock reference (signedBlock
      (headerAt (UInt64.ofNat (2 * n + 2)) {} (node 1)) [] [1])).1 =
        .ok .accepted := by
    refine accepted_iff.mpr ⟨⟨⟨hup, .inr ?_⟩, ?_, fun c' hc' => ?_⟩, by simp [signedBlock]⟩
    · rw [h.height]
      exact UInt64.ofNat_add _ _
    · rintro ⟨prevHash, hprev, -⟩
      cases (h.unseen _ hup).symm.trans hprev
    · obtain rfl : c = c' := Option.some.inj (hc.symm.trans (h.committee.symm.trans hc'))
      obtain ⟨m, hm, hid, hsigns⟩ := hmay
      refine ⟨⟨m, hm, hid, fun _ => hsigns rfl⟩, List.cons_ne_nil _ _, fun vs hvs => ?_⟩
      obtain rfl := List.mem_singleton.mp hvs
      refine ⟨⟨m, hm, hid⟩, fun key hk => ?_, fun hnone => ?_⟩
      · cases hkey.symm.trans hk
        exact verify_sign 1 _
      · cases hkey.symm.trans hnone
  rw [process_of_accepted hacc]
  refine ⟨rfl, h.slot, h.committee, fun k hk => ?_⟩
  replace hk : UInt64.ofNat (2 * n + 2) < k := hk
  change (e.recordProposal reference _).seenProposals[(k, _)]? = none
  rw [seen_recordProposal _ (UInt64.lt_trans hup hk), if_neg]
  · exact h.unseen k (UInt64.lt_trans hup hk)
  · exact fun heq => UInt64.ne_of_lt hk (Prod.mk.inj heq).1

theorem caughtUp (h : CaughtUp e 0) (n : ℕ) (hn : n ≤ 450) :
    AllSteps (call reference) Below e (catchUp n) ∧ CaughtUp (e.calls reference (catchUp n)) n := by
  induction n with
  | zero => exact ⟨trivial, h⟩
  | succ n ih =>
    obtain ⟨hbelow, hat⟩ := ih (Nat.le_of_succ_le hn)
    unfold catchUp at hbelow hat ⊢
    rw [List.range_succ, List.map_append, List.map_singleton, calls_snoc]
    refine ⟨allSteps_append.mpr ⟨hbelow, ?_, trivial⟩, hat.step (Nat.lt_of_succ_le hn)⟩
    change (e.calls reference _).currentHeight.toNat + 3 < 2 ^ 64
    rw [hat.height, UInt64.toNat_ofNat']
    omega

/-- The epoch goes by, the blocks of its heights arrive, and the committee is rotated. -/
def busyEpoch : List EngineCall :=
  List.replicate 900 .advanceSlot ++ (catchUp 450 ++ [.rotateCommittee threeNodes])

theorem busyEpoch_inPace : AllSteps (call reference)
    (fun e x => (Routine e x ∧ InPace reference e x) ∧ Below e x) startedNode busyEpoch := by
  obtain ⟨c, hc, hmembers, hend, -⟩ := startedNode_committee
  obtain ⟨hstays, hslot, hseen⟩ := calls_advanceSlot (P := reference) (e := startedNode) 900
  obtain ⟨hbelow, hat⟩ := caughtUp (e := startedNode.calls reference (.replicate 900 .advanceSlot))
    ⟨hstays.height, hslot, hstays.committee, fun h _ => by rw [hseen]; rfl⟩ 450 le_rfl
  refine allSteps_append.mpr ⟨?_, allSteps_append.mpr ⟨?_, ⟨?_, ?_⟩, trivial⟩⟩
  · -- no slot moves the height, which is 0
    refine AllSteps.of_invariant (P := fun _ x => x = .advanceSlot) (·.currentHeight = 0)
      (fun e x hx h => ?_) (fun e x hx h => ?_)
      (allSteps_of_forall _ fun x hx e => List.eq_of_mem_replicate hx) rfl
    · rw [hx]
      exact stays_advanceSlot.height.trans h
    · rw [hx]
      exact ⟨⟨trivial, trivial⟩, by rw [Below, h]; decide⟩
  · refine (allSteps_of_forall _ fun x hx e => ?_).and hbelow
    obtain ⟨i, -, rfl⟩ := List.mem_map.mp hx
    exact ⟨trivial, trivial⟩
  · refine ⟨⟨c, hat.committee.trans hc, ?_⟩, fun c' hc' pool hpool => ?_⟩
    · rw [shouldRotate, hend]
      exact decide_eq_true (hat.slot ▸ UInt64.le_refl _)
    · obtain rfl : c = c' := Option.some.inj ((hat.committee.trans hc).symm.trans hc')
      obtain rfl : threeNodes = pool := Except.ok.inj hpool
      refine ⟨?_, eligibleNode 1, List.mem_cons_self, rfl⟩
      rw [hend]
      exact hat.height ▸ by decide
  · have hlt : (UInt64.ofNat (2 * 450)).toNat + 3 < 2 ^ 64 := by decide
    exact (congrArg (·.toNat + 3) hat.height).trans_lt hlt

theorem producer_always_busyEpoch :
    AllSteps (call reference) (fun e x => (call reference e x).2.HasProducer) startedNode
      busyEpoch := by
  obtain ⟨c, hc, hmembers, -⟩ := startedNode_committee
  have h := busyEpoch_inPace
  exact (producer_always startedNode_init hc hmembers busyEpoch (h.imp fun _ _ => (·.1.1))).2.2
    (h.imp fun _ _ => (·.1.2)) (h.imp fun _ _ => (·.2))

/-- The epoch goes by without a block; the committee is rotated when it is due, and the new one has
no producer for height 1. -/
def idleEpoch : List EngineCall :=
  List.replicate 900 .advanceSlot ++ [.rotateCommittee threeNodes]

theorem no_producer_idleEpoch :
    AllSteps (call reference) Routine startedNode idleEpoch ∧
      ¬ (startedNode.calls reference idleEpoch).HasProducer := by
  obtain ⟨c, hc, -, hend, -⟩ := startedNode_committee
  obtain ⟨hstays, hslot, -⟩ := calls_advanceSlot (P := reference) (e := startedNode) 900
  have hcommittee := hstays.committee.trans hc
  constructor
  · refine allSteps_append.mpr
      ⟨allSteps_of_forall _ fun x hx e => ?_, ?_, trivial⟩
    · rw [List.eq_of_mem_replicate hx]
      trivial
    · refine ⟨c, hcommittee, ?_⟩
      rw [shouldRotate, hend, show (run _ _ _ : ConsensusEngine).currentSlot = _ from hslot]
      decide +kernel
  · rw [idleEpoch, calls_snoc]
    intro h
    have hpool : ∃ pool, poolOf threeNodes = .ok pool := ⟨_, rfl⟩
    obtain ⟨pool, hpool⟩ := hpool
    have hpace := (inPace_of_hasProducer h c hcommittee pool hpool).1
    rw [hend, hstays.height] at hpace
    exact absurd hpace (by decide +kernel)

end ConsensusEngine

end Gratia
