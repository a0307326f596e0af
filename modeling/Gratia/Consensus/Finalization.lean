import Gratia.Consensus.Incoming

/-!
# Consensus — Local finalization

Where a finalized block comes from.  An engine is started and called in any order; between the call
that produces a block and the one that finalizes it, the tip, the height and the committee can all
change.  They cannot change under a pending block in a way that matters.
-/

namespace Gratia.ConsensusEngine

open Support

variable {P : Platform} {e : ConsensusEngine}

/-! ### Calls -/

inductive EngineCall where
  | initializeCommittee (eligibleNodes : List EligibleNode) (epochSeed : Bytes32)
      (epochNumber startSlot : UInt64)
  | rotateCommittee (eligibleNodes : List EligibleNode)
  | advanceSlot
  | forceProducingState
  | produceBlock (now : DateTime) (transactions : List Transaction)
      (attestations : List ProofOfLifeAttestation) (stateRoot : Bytes32) (producerPubkey : Bytes)
  | addBlockSignature (sig : ValidatorSignature)
  | finalizePendingBlock
  | processIncomingBlock (block : Block)
  | rollbackTo (height : UInt64) (tipHash : BlockHash)
  | clearProposalsForHeight (height : UInt64)

inductive EngineAnswer where
  | done (result : Except GratiaError Unit)
  | flag (result : Except GratiaError Bool)
  | pending (result : Except GratiaError PendingBlock)
  | finalized (result : Except GratiaError Block)
  | processed (result : Except GratiaError BlockProcessResult)
deriving DecidableEq

def call (P : Platform) (e : ConsensusEngine) : EngineCall → EngineAnswer × ConsensusEngine
  | .initializeCommittee eligibleNodes epochSeed epochNumber startSlot =>
    (e.initializeCommittee P eligibleNodes epochSeed epochNumber startSlot).map .done id
  | .rotateCommittee eligibleNodes => (e.rotateCommittee P eligibleNodes).map .done id
  | .advanceSlot => e.advanceSlot.map (fun produce => .flag (.ok produce)) id
  | .forceProducingState => (.done (.ok ()), e.forceProducingState)
  | .produceBlock now transactions attestations stateRoot producerPubkey =>
    (e.produceBlock P now transactions attestations stateRoot producerPubkey).map .pending id
  | .addBlockSignature sig => (e.addBlockSignature P sig).map .flag id
  | .finalizePendingBlock => (e.finalizePendingBlock P).map .finalized id
  | .processIncomingBlock block => (e.processIncomingBlock P block).map .processed id
  | .rollbackTo height tipHash => (e.rollbackTo height tipHash).map .done id
  | .clearProposalsForHeight height => (.done (.ok ()), e.clearProposalsForHeight height)

def calls (P : Platform) (e : ConsensusEngine) (cs : List EngineCall) : ConsensusEngine :=
  run (call P) e cs

theorem calls_snoc (cs : List EngineCall) (x : EngineCall) :
    e.calls P (cs ++ [x]) = (call P (e.calls P cs) x).2 :=
  run_append e cs [x]

def Started (P : Platform) (e : ConsensusEngine) : Prop :=
  ∃ nodeId signingKeyBytes, e = new P nodeId signingKeyBytes ∨
    ∃ height tipHash, e = (new P nodeId signingKeyBytes).restoreState height tipHash

/-- Every committee along the run has more than one member with a signing key. -/
def MultiNode (P : Platform) (e : ConsensusEngine) (cs : List EngineCall) : Prop :=
  ∀ pre ∈ cs.inits, ∀ c ∈ (e.calls P pre).currentCommittee, 1 < c.realMembers

instance (e : ConsensusEngine) (cs : List EngineCall) : Decidable (MultiNode P e cs) :=
  inferInstanceAs (Decidable (∀ pre ∈ cs.inits, ∀ c ∈ (e.calls P pre).currentCommittee, _))

theorem MultiNode.of_append {pre post : List EngineCall} (h : MultiNode P e (pre ++ post)) :
    MultiNode P e pre := by
  intro init hinit
  exact h init ((List.mem_inits _ _).mpr (((List.mem_inits _ _).mp hinit).trans
    (List.prefix_append pre post)))

variable {c : ValidatorCommittee}

theorem MultiNode.last {cs : List EngineCall} (h : MultiNode P e cs)
    (hc : (e.calls P cs).currentCommittee = some c) : 1 < c.realMembers :=
  h cs ((List.mem_inits _ _).mpr (List.prefix_refl cs)) c hc

/-! ### What a call does to the pending block -/

theorem checkSigner_ok {header : BlockHeader} {sig : ValidatorSignature}
    (hmulti : 1 < c.realMembers) (h : checkSigner P c header sig = .ok ()) :
    ∃ m ∈ c.members, m.nodeId = sig.validator ∧
      verifySignature P m.signingPubkey (header.hash P).bytes.bytes sig.signature = .ok () := by
  unfold checkSigner at h
  split at h
  · cases h
  · cases hk : c.getSigningPubkey sig.validator with
    | none =>
      rw [hk] at h
      cases h
    | some key =>
      rw [hk] at h
      obtain ⟨m, hm, hid, rfl, -⟩ := ValidatorCommittee.getSigningPubkey_eq_some hk
      exact ⟨m, hm, hid, h⟩

/-- The call leaves the pending block, the height and the tip as they are. -/
structure SameTip (e e' : ConsensusEngine) : Prop where
  pending : e'.pendingBlock = e.pendingBlock
  height : e'.currentHeight = e.currentHeight
  tip : e'.lastFinalizedHash = e.lastFinalizedHash

/-- And a committee, once set, may be replaced but is not dropped. -/
structure Kept (e e' : ConsensusEngine) : Prop extends SameTip e e' where
  committee : e.currentCommittee.isSome = true → e'.currentCommittee.isSome = true

theorem kept_refl (e : ConsensusEngine) : Kept e e :=
  ⟨⟨rfl, rfl, rfl⟩, id⟩

theorem kept_initializeCommittee (nodes : List EligibleNode) (seed : Bytes32)
    (epoch slot : UInt64) : Kept e (e.initializeCommittee P nodes seed epoch slot).2 := by
  unfold initializeCommittee
  split
  · exact kept_refl e
  · exact ⟨⟨rfl, rfl, rfl⟩, fun _ => rfl⟩

theorem kept_rotateCommittee (nodes : List EligibleNode) :
    Kept e (e.rotateCommittee P nodes).2 := by
  unfold rotateCommittee
  split
  · exact kept_refl e
  · split
    · exact kept_refl e
    · exact ⟨⟨rfl, rfl, rfl⟩, fun _ => rfl⟩

theorem kept_advanceSlot : Kept e e.advanceSlot.2 := by
  unfold advanceSlot
  simp only
  split
  · exact ⟨⟨rfl, rfl, rfl⟩, id⟩
  · split
    · split <;> exact ⟨⟨rfl, rfl, rfl⟩, id⟩
    · exact ⟨⟨rfl, rfl, rfl⟩, id⟩

/-- `p` is what the call produced: the next block on the tip, under the committee's threshold and
without a signature. -/
def ProducedBy (P : Platform) (e : ConsensusEngine) (x : EngineCall) (p : PendingBlock) : Prop :=
  ∃ now txs atts root pubkey, x = .produceBlock now txs atts root pubkey ∧
    (call P e x).1 = .pending (.ok p) ∧
    p.block.header.height = e.currentHeight + 1 ∧ p.block.header.parentHash = e.lastFinalizedHash ∧
    p.signatures = [] ∧ ∃ c, e.currentCommittee = some c ∧ p.finalityThreshold = c.finalityThreshold

/-- `p` is the pending block with one signature more, of a validator that had not signed. -/
def SignedWith (P : Platform) (e : ConsensusEngine) (x : EngineCall) (p : PendingBlock) : Prop :=
  ∃ q sig, x = .addBlockSignature sig ∧ e.pendingBlock = some q ∧
    sig.validator ∉ q.signatures.map (fun s => s.validator) ∧
    p = { q with signatures := q.signatures ++ [sig] } ∧
    ∀ c, e.currentCommittee = some c → checkSigner P c q.block.header sig = .ok ()

/-- What a call can do to the pending block, the tip and the committee. -/
inductive Effect (P : Platform) (e : ConsensusEngine) (x : EngineCall) (e' : ConsensusEngine) :
    Prop where
  | kept (h : Kept e e')
  | pending (p : PendingBlock) (he : e' = { e with pendingBlock := some p })
      (hp : ProducedBy P e x p ∨ SignedWith P e x p)
  | cleared (hp : e'.pendingBlock = none) (hc : e'.currentCommittee = e.currentCommittee)

theorem effect_produceBlock (now : DateTime) (txs : List Transaction)
    (atts : List ProofOfLifeAttestation) (root : Bytes32) (pubkey : Bytes) :
    Effect P e (.produceBlock now txs atts root pubkey)
      (e.produceBlock P now txs atts root pubkey).2 := by
  have hanswer : (call P e (.produceBlock now txs atts root pubkey)).1 =
      .pending (e.produceBlock P now txs atts root pubkey).1 := rfl
  unfold produceBlock at hanswer ⊢
  -- Every way out before the block is built leaves the engine as it is.
  split
  · exact .kept (kept_refl e)
  · next hstate =>
      rw [if_neg hstate] at hanswer
      split
      · exact .kept (kept_refl e)
      · next c hc =>
          rw [hc] at hanswer
          simp only at hanswer
          split
          · exact .kept (kept_refl e)
          · next p hp =>
              rw [hp] at hanswer
              obtain ⟨hheight, hparent, hsigs, hthr⟩ := BlockProducer.produceBlock_ok hp
              refine .pending _ rfl (.inl ?_)
              exact ⟨now, txs, atts, root, pubkey, rfl, hanswer, hheight, hparent, hsigs, c, hc,
                hthr⟩

variable {p : PendingBlock}

theorem addSignature_checked {committee : Option ValidatorCommittee} {q : PendingBlock}
    {sig : ValidatorSignature} (h : (do
      if let some c := committee then checkSigner P c q.block.header sig
      q.addSignature sig) = .ok p) :
    q.addSignature sig = .ok p ∧
      ∀ c, committee = some c → checkSigner P c q.block.header sig = .ok () := by
  cases committee with
  | none => exact ⟨h, nofun⟩
  | some c =>
    cases hk : checkSigner P c q.block.header sig with
    | error err => simp [hk] at h
    | ok u =>
      simp only [hk, except_ok_bind] at h
      refine ⟨h, fun c' hc' => ?_⟩
      cases hc'
      exact hk

theorem effect_addBlockSignature (sig : ValidatorSignature) :
    Effect P e (.addBlockSignature sig) (e.addBlockSignature P sig).2 := by
  unfold addBlockSignature
  cases hp : e.pendingBlock with
  | none => exact .kept (kept_refl e)
  | some q =>
    simp only
    split
    · exact .kept (kept_refl e)
    · next p h =>
        obtain ⟨hadd, hcheck⟩ := addSignature_checked h
        obtain ⟨hfresh, hpq⟩ := PendingBlock.addSignature_ok hadd
        exact .pending p rfl (.inr ⟨q, sig, rfl, hp, hfresh, hpq, hcheck⟩)

theorem effect_finalizePendingBlock :
    Effect P e .finalizePendingBlock (e.finalizePendingBlock P).2 := by
  unfold finalizePendingBlock finalizePendingBlockInner
  cases hp : e.pendingBlock with
  | none => exact .cleared hp rfl
  | some p =>
    simp only
    split <;> exact .cleared rfl rfl

theorem effect_processIncomingBlock (block : Block) :
    Effect P e (.processIncomingBlock block) (e.processIncomingBlock P block).2 := by
  by_cases hacc : (e.processIncomingBlock P block).1 = .ok .accepted
  · rw [process_of_accepted hacc]
    exact .cleared rfl rfl
  · rcases process_of_rejected hacc with hr | ⟨-, -, hr⟩
    · rw [hr]
      exact .kept (kept_refl e)
    · rw [hr]
      exact .kept ⟨⟨rfl, rfl, rfl⟩, id⟩

theorem effect_rollbackTo (height : UInt64) (tipHash : BlockHash) :
    Effect P e (.rollbackTo height tipHash) (e.rollbackTo height tipHash).2 := by
  unfold rollbackTo
  split
  · exact .kept (kept_refl e)
  · exact .cleared rfl rfl

/-- **What one call can do.** -/
theorem call_effect (x : EngineCall) : Effect P e x (call P e x).2 := by
  cases x with
  | initializeCommittee nodes seed epoch slot =>
    exact .kept (kept_initializeCommittee nodes seed epoch slot)
  | rotateCommittee nodes => exact .kept (kept_rotateCommittee nodes)
  | advanceSlot => exact .kept kept_advanceSlot
  | forceProducingState => exact .kept ⟨⟨rfl, rfl, rfl⟩, id⟩
  | produceBlock now txs atts root pubkey => exact effect_produceBlock now txs atts root pubkey
  | addBlockSignature sig => exact effect_addBlockSignature sig
  | finalizePendingBlock => exact effect_finalizePendingBlock
  | processIncomingBlock block => exact effect_processIncomingBlock block
  | rollbackTo height tipHash => exact effect_rollbackTo height tipHash
  | clearProposalsForHeight height => exact .kept ⟨⟨rfl, rfl, rfl⟩, id⟩

theorem call_committee (x : EngineCall) (h : e.currentCommittee.isSome = true) :
    (call P e x).2.currentCommittee.isSome = true := by
  cases call_effect (P := P) (e := e) x with
  | kept hs => exact hs.committee h
  | pending p he hp =>
    rw [he]
    exact h
  | cleared hp hc =>
    rw [hc]
    exact h

theorem call_pending {x : EngineCall} (h : (call P e x).2.pendingBlock = some p) :
    (call P e x).2.currentHeight = e.currentHeight ∧
      (call P e x).2.lastFinalizedHash = e.lastFinalizedHash ∧
      (e.pendingBlock = some p ∨ ProducedBy P e x p ∨ SignedWith P e x p) := by
  cases call_effect (P := P) (e := e) x with
  | kept hs => exact ⟨hs.height, hs.tip, .inl (hs.pending ▸ h)⟩
  | pending q he hq =>
    rw [he] at h ⊢
    cases h
    exact ⟨rfl, rfl, .inr hq⟩
  | cleared hp hc => exact absurd (hp.symm.trans h) nofun

/-! ### Where the pending block comes from -/

/-- The signature was added by a call after `pre`, from a member of the committee of that moment,
and verifies on the header under that member's key. -/
def SignedAfter (P : Platform) (e₀ : ConsensusEngine) (pre post : List EngineCall)
    (header : BlockHeader) (vs : ValidatorSignature) : Prop :=
  ∃ mid rest c, post = mid ++ .addBlockSignature vs :: rest ∧
    (e₀.calls P (pre ++ mid)).currentCommittee = some c ∧
    ∃ m ∈ c.members, m.nodeId = vs.validator ∧
      verifySignature P m.signingPubkey (header.hash P).bytes.bytes vs.signature = .ok ()

/-- The run has a call that produced a block with this header, under a committee with this
threshold, and after it a call for each of these signatures. -/
def ComesFrom (P : Platform) (e₀ : ConsensusEngine) (cs : List EngineCall) (header : BlockHeader)
    (threshold : ℕ) (sigs : List ValidatorSignature) : Prop :=
  ∃ pre x post p c, cs = pre ++ x :: post ∧ (call P (e₀.calls P pre) x).1 = .pending (.ok p) ∧
    p.block.header = header ∧ (e₀.calls P pre).currentCommittee = some c ∧
    c.finalityThreshold = threshold ∧ ∀ vs ∈ sigs, SignedAfter P e₀ (pre ++ [x]) post header vs

variable {e₀ : ConsensusEngine} {cs : List EngineCall} {header : BlockHeader} {threshold : ℕ}
  {sigs : List ValidatorSignature}

theorem SignedAfter.snoc {pre post : List EngineCall} {vs : ValidatorSignature}
    (h : SignedAfter P e₀ pre post header vs) (x : EngineCall) :
    SignedAfter P e₀ pre (post ++ [x]) header vs := by
  obtain ⟨mid, rest, c, rfl, hc, hm⟩ := h
  exact ⟨mid, rest ++ [x], c, by simp, hc, hm⟩

theorem ComesFrom.snoc (h : ComesFrom P e₀ cs header threshold sigs) (x : EngineCall) :
    ComesFrom P e₀ (cs ++ [x]) header threshold sigs := by
  obtain ⟨pre, y, post, p, c, rfl, hy, hp, hc, ht, hs⟩ := h
  exact ⟨pre, y, post ++ [x], p, c, by simp, hy, hp, hc, ht, fun vs hvs => (hs vs hvs).snoc x⟩

theorem ComesFrom.sign (h : ComesFrom P e₀ cs header threshold sigs) {vs : ValidatorSignature}
    (hc : (e₀.calls P cs).currentCommittee = some c)
    (hm : ∃ m ∈ c.members, m.nodeId = vs.validator ∧
      verifySignature P m.signingPubkey (header.hash P).bytes.bytes vs.signature = .ok ()) :
    ComesFrom P e₀ (cs ++ [.addBlockSignature vs]) header threshold (sigs ++ [vs]) := by
  obtain ⟨pre, y, post, p, c₀, rfl, hy, hp, hc₀, ht, hs⟩ := h
  refine ⟨pre, y, post ++ [.addBlockSignature vs], p, c₀, by simp, hy, hp, hc₀, ht,
    fun vs' hvs => ?_⟩
  rcases List.mem_append.mp hvs with hvs | hvs
  · exact (hs vs' hvs).snoc _
  · rw [List.mem_singleton.mp hvs]
    exact ⟨post, [], c, rfl, by simpa using hc, hm⟩

structure PendingOk (P : Platform) (e₀ : ConsensusEngine) (cs : List EngineCall)
    (p : PendingBlock) : Prop where
  height : p.block.header.height = (e₀.calls P cs).currentHeight + 1
  parent : p.block.header.parentHash = (e₀.calls P cs).lastFinalizedHash
  nodup : (p.signatures.map fun s => s.validator).Nodup
  committee : (e₀.calls P cs).currentCommittee.isSome = true
  origin : ComesFrom P e₀ cs p.block.header p.finalityThreshold p.signatures

theorem PendingOk.step {x : EngineCall} (hmulti : MultiNode P e₀ (cs ++ [x]))
    (ih : ∀ q, (e₀.calls P cs).pendingBlock = some q → PendingOk P e₀ cs q)
    (hp : (e₀.calls P (cs ++ [x])).pendingBlock = some p) : PendingOk P e₀ (cs ++ [x]) p := by
  rw [calls_snoc] at hp
  obtain ⟨hheight, htip, hold | hprod | hsign⟩ := call_pending hp
  · have h := ih p hold
    refine ⟨?_, ?_, h.nodup, ?_, h.origin.snoc x⟩
    · rw [calls_snoc, hheight, h.height]
    · rw [calls_snoc, htip, h.parent]
    · rw [calls_snoc]
      exact call_committee x h.committee
  · obtain ⟨now, txs, atts, root, pubkey, hx, hans, hh, hpar, hsigs, c, hc, hthr⟩ := hprod
    refine ⟨?_, ?_, ?_, ?_, cs, x, [], p, c, rfl, hans, rfl, hc, hthr.symm, ?_⟩
    · rw [calls_snoc, hheight, hh]
    · rw [calls_snoc, htip, hpar]
    · rw [hsigs]
      exact List.nodup_nil
    · rw [calls_snoc]
      exact call_committee x (by rw [hc]; rfl)
    · rw [hsigs]
      exact fun _ hvs => absurd hvs List.not_mem_nil
  · -- The check ran under the committee of this moment, which is there since the block is.
    obtain ⟨q, sig, rfl, hq, hfresh, rfl, hcheck⟩ := hsign
    have h := ih q hq
    obtain ⟨c, hc⟩ := Option.isSome_iff_exists.mp h.committee
    have hmem := checkSigner_ok (hmulti.of_append.last hc) (hcheck c hc)
    refine ⟨?_, ?_, ?_, ?_, h.origin.sign hc hmem⟩
    · rw [calls_snoc, hheight, ← h.height]
    · rw [calls_snoc, htip, ← h.parent]
    · simp only [List.map_append, List.map_cons, List.map_nil]
      exact h.nodup.append (List.nodup_singleton _)
        (List.disjoint_singleton.mpr hfresh)
    · rw [calls_snoc]
      exact call_committee _ h.committee

theorem started_pendingBlock (h : Started P e₀) : e₀.pendingBlock = none := by
  obtain ⟨nodeId, key, rfl | ⟨height, tip, rfl⟩⟩ := h <;> rfl

/-- **The pending block of a run.** -/
theorem pendingOk_of_run (hstart : Started P e₀) (hmulti : MultiNode P e₀ cs)
    (hp : (e₀.calls P cs).pendingBlock = some p) : PendingOk P e₀ cs p := by
  -- From the right: every call is judged in the state its predecessors leave.
  induction cs using List.reverseRecOn generalizing p with
  | nil => exact absurd ((started_pendingBlock hstart).symm.trans hp) nofun
  | append_singleton cs x ih =>
    exact PendingOk.step hmulti (fun q hq => ih hmulti.of_append hq) hp

/-- **Soundness of local finalization.**  A block that `finalize_pending_block` returns is the next
block on the tip of that moment; the run has the call that produced it, and the block has at least
as many signatures as the threshold of the committee of that call, from different validators, each
added by a later call that checked it against the committee of its own moment. -/
theorem finalized_sound {b : Block} (hstart : Started P e₀) (hmulti : MultiNode P e₀ cs)
    (hb : (call P (e₀.calls P cs) .finalizePendingBlock).1 = .finalized (.ok b)) :
    b.header.height = (e₀.calls P cs).currentHeight + 1 ∧
      b.header.parentHash = (e₀.calls P cs).lastFinalizedHash ∧
      (b.validatorSignatures.map fun s => s.validator).Nodup ∧
      ∃ threshold ≤ b.validatorSignatures.length,
        ComesFrom P e₀ cs b.header threshold b.validatorSignatures := by
  simp only [call, Prod.map_fst, finalizePendingBlock, finalizePendingBlockInner,
    EngineAnswer.finalized.injEq] at hb
  cases hp : (e₀.calls P cs).pendingBlock with
  | none =>
    rw [hp] at hb
    cases hb
  | some p =>
    have h := pendingOk_of_run hstart hmulti hp
    rw [hp] at hb
    simp only [Bool.false_eq_true, if_false] at hb
    cases hf : p.finalize with
    | error err =>
      rw [hf] at hb
      cases hb
    | ok b' =>
      rw [hf] at hb
      cases hb
      obtain ⟨hthr, rfl⟩ := PendingBlock.finalize_ok hf
      exact ⟨h.height, h.parent, h.nodup, p.finalityThreshold, hthr, h.origin⟩

/-! ### A block with two signatures -/

open Reference

def eligibleNode (n : UInt8) : EligibleNode :=
  { nodeId := node n, vrfPubkey := ⟨.splat n⟩, presenceScore := 60, hasValidPol := true,
    meetsMinimumStake := true, polDays := 90, signingPubkey := key n, vrfProof := [] }

def opening : List EngineCall :=
  [.initializeCommittee [eligibleNode 1, eligibleNode 2, eligibleNode 3] .zero 0 0,
   .forceProducingState, .produceBlock ⟨0, 0⟩ [] [] .zero (key 1)]

def firstNode : ConsensusEngine := new reference (node 1) (.splat 1)

def producedHeader : BlockHeader :=
  let vrfProof := generateVrfProof reference firstNode.vrfSecretKey (buildVrfInput .zero 0)
  { headerAt 1 {} (node 1) with
    vrfProof := vrfProof.proofBytes, activeMiners := 0, producerPubkey := key 1 }

def signing : List EngineCall :=
  opening ++ [.addBlockSignature (signHeader producedHeader 1),
    .addBlockSignature (signHeader producedHeader 2)]

/-- The block is final with their signatures, and the run accounts for both. -/
theorem finalized_sound_two_signatures :
    let b := signedBlock producedHeader [] [1, 2]
    (call reference (firstNode.calls reference signing) .finalizePendingBlock).1 =
        .finalized (.ok b) ∧
      ∃ threshold ≤ 2, ComesFrom reference firstNode signing b.header threshold
        b.validatorSignatures := by
  obtain ⟨hfinal, hmulti⟩ :
      (call reference (firstNode.calls reference signing) .finalizePendingBlock).1 =
          .finalized (.ok (signedBlock producedHeader [] [1, 2])) ∧
        MultiNode reference firstNode signing := by
    decide +kernel
  exact ⟨hfinal, (finalized_sound ⟨_, _, .inl rfl⟩ hmulti hfinal).2.2.2⟩

end Gratia.ConsensusEngine
