import Gratia.Consensus.Finalization

/-!
# Consensus — Attempts to finalize

`finalizePendingBlockInner` takes the pending block out of the engine before it knows whether the
block is final, and does not put it back.  A call is `Timely` when it cannot run into this: no block
is pending, or the one that is has the signatures the call asks for.
-/

namespace Gratia.ConsensusEngine

variable {P : Platform} {e : ConsensusEngine}

/-! ### Calls -/

/-- The calls a pending block is brought to finality with. -/
inductive FinalityCall where
  | addBlockSignature (sig : ValidatorSignature)
  | finalizePendingBlock
  | forceFinalizePendingBlock

def finality (P : Platform) (e : ConsensusEngine) : FinalityCall → EngineAnswer × ConsensusEngine
  | .addBlockSignature sig => (e.addBlockSignature P sig).map .flag id
  | .finalizePendingBlock => (e.finalizePendingBlock P).map .finalized id
  | .forceFinalizePendingBlock => (e.forceFinalizePendingBlock P).map .finalized id

def EngineAnswer.failed : EngineAnswer → Bool
  | .done result => !result.isOk
  | .flag result => !result.isOk
  | .pending result => !result.isOk
  | .finalized result => !result.isOk
  | .processed result => !result.isOk

def LosesNothing (P : Platform) (e : ConsensusEngine) (x : FinalityCall) : Prop :=
  (finality P e x).1.failed = true → (finality P e x).2 = e

/-- `force_finalize_pending_block` is refused: more than one member can sign. -/
def ForceBlocked (e : ConsensusEngine) : Prop := ∃ c ∈ e.currentCommittee, 1 < c.realMembers

/-- No block is pending, or the one that is has the signatures that the call asks for. -/
def Timely (e : ConsensusEngine) : FinalityCall → Prop
  | .addBlockSignature _ => True
  | .finalizePendingBlock => ∀ p ∈ e.pendingBlock, p.Ready false
  | .forceFinalizePendingBlock => e.ForceBlocked ∨ ∀ p ∈ e.pendingBlock, p.Ready true

/-! ### One attempt -/

theorem finalizeInner_cases (force : Bool) :
    (e.pendingBlock = none ∧
      (∃ err, e.finalizePendingBlockInner P force = (.error err, e))) ∨
    ∃ p, e.pendingBlock = some p ∧
      ((p.Ready force ∧
          e.finalizePendingBlockInner P force = (.ok p.signed, e.advanceTo P p.signed)) ∨
        (¬ p.Ready force ∧
          ∃ err, e.finalizePendingBlockInner P force =
            (.error err, { e with pendingBlock := none }))) := by
  unfold finalizePendingBlockInner
  cases hp : e.pendingBlock with
  | none => exact .inl ⟨rfl, _, rfl⟩
  | some p =>
    refine .inr ⟨p, rfl, ?_⟩
    simp only
    rcases p.finalize_cases force with ⟨hready, hok⟩ | ⟨hready, err, herr⟩
    · exact .inl ⟨hready, by rw [hok]⟩
    · exact .inr ⟨hready, err, by rw [herr]⟩

theorem inner_losesNothing_iff (force : Bool) :
    ((e.finalizePendingBlockInner P force).1.isOk = false →
        (e.finalizePendingBlockInner P force).2 = e) ↔
      ∀ p ∈ e.pendingBlock, p.Ready force := by
  rcases finalizeInner_cases (P := P) (e := e) force with
    ⟨hnone, err, hans⟩ | ⟨p, hp, ⟨hready, hans⟩ | ⟨hready, err, hans⟩⟩
  · simp [hans, hnone]
  · refine ⟨fun _ q hq => ?_, fun _ hfail => by rw [hans] at hfail; cases hfail⟩
    obtain rfl : p = q := Option.some.inj (hp.symm.trans hq)
    exact hready
  · rw [hans]
    refine ⟨fun hkept => ?_, fun h => absurd (h p hp) hready⟩
    -- The pending block is gone, and it was there.
    have hgone := congrArg ConsensusEngine.pendingBlock (hkept rfl)
    rw [hp] at hgone
    cases hgone

theorem force_of_blocked (h : e.ForceBlocked) :
    (e.forceFinalizePendingBlock P).1.isOk = false ∧ (e.forceFinalizePendingBlock P).2 = e := by
  obtain ⟨c, hc, hreal⟩ := h
  unfold forceFinalizePendingBlock
  rw [show e.currentCommittee = some c from hc]
  simp only
  rw [if_pos hreal]
  exact ⟨rfl, rfl⟩

theorem force_of_not_blocked (h : ¬ e.ForceBlocked) :
    e.forceFinalizePendingBlock P = e.finalizePendingBlockInner P true := by
  unfold forceFinalizePendingBlock
  cases hc : e.currentCommittee with
  | none => rfl
  | some c => exact if_neg fun hreal => h ⟨c, hc, hreal⟩

/-- The signature passes the check of the committee, if there is one. -/
def accepts (P : Platform) (committee : Option ValidatorCommittee) (header : BlockHeader)
    (sig : ValidatorSignature) : Bool :=
  committee.all fun c => decide (checkSigner P c header sig = .ok ())

variable {p : PendingBlock}

/-- What a signature does to a pending block: one that passes, of a validator that has not signed,
is added; any other is refused and changes nothing. -/
theorem addBlockSignature_cases (hp : e.pendingBlock = some p) (sig : ValidatorSignature) :
    ((∃ err, e.addBlockSignature P sig = (.error err, e)) ∧
      (accepts P e.currentCommittee p.block.header sig = true →
        sig.validator ∈ p.signers)) ∨
    ∃ final, e.addBlockSignature P sig = (.ok final,
      { e with pendingBlock := some { p with signatures := p.signatures ++ [sig] } }) := by
  have hadd : ((∃ err, p.addSignature sig = .error err) ∧
      sig.validator ∈ p.signers) ∨
      p.addSignature sig = .ok { p with signatures := p.signatures ++ [sig] } := by
    unfold PendingBlock.addSignature
    split
    · next hdup =>
        obtain ⟨s, hs, hname⟩ := List.any_eq_true.mp hdup
        exact .inl ⟨⟨_, rfl⟩, List.mem_map.mpr ⟨s, hs, beq_iff_eq.mp hname⟩⟩
    · exact .inr rfl
  unfold addBlockSignature
  rw [hp]
  cases hc : e.currentCommittee with
  | none =>
    rcases hadd with ⟨⟨err, herr⟩, hmem⟩ | hok
    · exact .inl ⟨⟨err, by simp [herr]⟩, fun _ => hmem⟩
    · exact .inr ⟨_, by simp [hok]; rfl⟩
  | some c =>
    cases hcheck : checkSigner P c p.block.header sig with
    | error err =>
      refine .inl ⟨⟨err, by simp [hcheck]⟩, fun haccepts => ?_⟩
      simp [accepts, hcheck] at haccepts
    | ok u =>
      rcases hadd with ⟨⟨err, herr⟩, hmem⟩ | hok
      · exact .inl ⟨⟨err, by simp [hcheck, herr]⟩, fun _ => hmem⟩
      · exact .inr ⟨_, by simp [hcheck, hok]; rfl⟩

/-- **A failing call loses nothing just when it is timely.** -/
theorem losesNothing_iff (x : FinalityCall) : LosesNothing P e x ↔ e.Timely x := by
  unfold LosesNothing
  cases x with
  | addBlockSignature sig =>
    refine iff_of_true (fun hfail => ?_) trivial
    cases hp : e.pendingBlock with
    | none =>
      show (e.addBlockSignature P sig).2 = e
      unfold addBlockSignature
      rw [hp]
    | some p =>
      rcases addBlockSignature_cases (P := P) hp sig with ⟨⟨err, herr⟩, -⟩ | ⟨final, hok⟩
      · show (e.addBlockSignature P sig).2 = e
        rw [herr]
      · simp only [finality, hok, Prod.map_fst, EngineAnswer.failed] at hfail
        cases hfail
  | finalizePendingBlock =>
    have hiff := inner_losesNothing_iff (P := P) (e := e) false
    simpa [finality, EngineAnswer.failed, finalizePendingBlock, Timely] using hiff
  | forceFinalizePendingBlock =>
    by_cases hblocked : e.ForceBlocked
    · exact iff_of_true (fun _ => (force_of_blocked hblocked).2) (.inl hblocked)
    · have hiff := inner_losesNothing_iff (P := P) (e := e) true
      simpa [finality, EngineAnswer.failed, force_of_not_blocked hblocked, Timely, hblocked]
        using hiff

/-! ### Signatures and attempts in any order -/

def finalityAnswers (P : Platform) (e : ConsensusEngine) (cs : List FinalityCall) :
    List EngineAnswer :=
  (Support.trace (finality P) (fun _ => ()) e cs).map Prod.fst

@[simp] theorem finalityAnswers_cons (x : FinalityCall) (cs : List FinalityCall) :
    finalityAnswers P e (x :: cs) = (finality P e x).1 :: finalityAnswers P (finality P e x).2 cs :=
  rfl

/-- The validators whose signature on the header is brought by the calls and passes the check. -/
def validSigners (P : Platform) (committee : Option ValidatorCommittee) (header : BlockHeader)
    (cs : List FinalityCall) : List NodeId :=
  cs.filterMap fun
    | .addBlockSignature sig => if accepts P committee header sig then some sig.validator else none
    | _ => none

/-- The validators that have signed a pending block or whose valid signature is among the calls. -/
def quorumOf (P : Platform) (e : ConsensusEngine) (p : PendingBlock) (cs : List FinalityCall) :
    Finset NodeId :=
  (p.signers ++ validSigners P e.currentCommittee p.block.header cs).toFinset

theorem mem_quorumOf_sign {sig : ValidatorSignature} {cs : List FinalityCall} {name : NodeId} :
    name ∈ quorumOf P e p (.addBlockSignature sig :: cs) ↔
      name ∈ quorumOf P e p cs ∨
        accepts P e.currentCommittee p.block.header sig = true ∧ sig.validator = name := by
  by_cases haccepts : accepts P e.currentCommittee p.block.header sig = true
  · simp only [quorumOf, validSigners, List.filterMap_cons, haccepts, if_true, List.mem_toFinset,
      List.mem_append, List.mem_cons, true_and, eq_comm (a := sig.validator)]
    tauto
  · simp [quorumOf, validSigners, haccepts]

def Finalizes (P : Platform) (e : ConsensusEngine) (cs : List FinalityCall)
    (header : BlockHeader) : Prop :=
  ∃ b, .finalized (.ok b) ∈ finalityAnswers P e cs ∧ b.header = header

theorem Finalizes.cons {x : FinalityCall} {cs : List FinalityCall} {header : BlockHeader}
    (h : Finalizes P (finality P e x).2 cs header) : Finalizes P e (x :: cs) header := by
  obtain ⟨b, hb, hheader⟩ := h
  exact ⟨b, List.mem_cons_of_mem _ hb, hheader⟩

theorem finalizes_of_ready (hp : e.pendingBlock = some p) {force : Bool} (hready : p.Ready force)
    {x : FinalityCall} (cs : List FinalityCall)
    (hx : (finality P e x).1 = .finalized (e.finalizePendingBlockInner P force).1) :
    Finalizes P e (x :: cs) p.block.header := by
  refine ⟨p.signed, ?_, rfl⟩
  rw [finalityAnswers_cons, hx]
  rcases finalizeInner_cases (P := P) (e := e) force with
    ⟨hnone, -⟩ | ⟨q, hq, ⟨-, hans⟩ | ⟨hnot, -⟩⟩
  · exact absurd (hp.symm.trans hnone) nofun
  · obtain rfl : p = q := Option.some.inj (hp.symm.trans hq)
    rw [hans]
    exact List.mem_cons_self
  · obtain rfl : p = q := Option.some.inj (hp.symm.trans hq)
    exact absurd hready hnot

/-- **Along timely calls a block is finalized once its threshold is there.** -/
theorem timely_attempts_finalize (cs : List FinalityCall) (hp : e.pendingBlock = some p)
    (htimely : Support.AllSteps (finality P) Timely e cs)
    (hquorum : p.finalityThreshold ≤ (quorumOf P e p cs).card) :
    Finalizes P e (cs ++ [.finalizePendingBlock]) p.block.header := by
  induction cs generalizing e p with
  | nil =>
    have hsigners : (quorumOf P e p []).card ≤ p.signatures.length := by
      simpa [quorumOf, validSigners, PendingBlock.signers] using List.toFinset_card_le p.signers
    have hready : p.Ready false := hquorum.trans hsigners
    exact finalizes_of_ready hp hready [] rfl
  | cons x cs ih =>
    obtain ⟨hx, hrest⟩ := htimely
    cases x with
    | addBlockSignature sig =>
      refine Finalizes.cons ?_
      rcases addBlockSignature_cases (P := P) hp sig with
        ⟨⟨err, herr⟩, hknown⟩ | ⟨final, hok⟩
      · -- A refused signature is invalid or already there: nobody is missed.
        have hsame : (finality P e (.addBlockSignature sig)).2 = e := by
          simp [finality, herr]
        rw [hsame] at hrest ⊢
        refine ih hp hrest (hquorum.trans (Finset.card_le_card fun name hname => ?_))
        rcases mem_quorumOf_sign.mp hname with hname | ⟨haccepts, rfl⟩
        · exact hname
        · exact List.mem_toFinset.mpr (List.mem_append_left _ (hknown haccepts))
      · have hnext : (finality P e (.addBlockSignature sig)).2 = { e with
            pendingBlock := some { p with signatures := p.signatures ++ [sig] } } := by
          simp [finality, hok]
        rw [hnext] at hrest ⊢
        refine ih (p := { p with signatures := p.signatures ++ [sig] }) rfl hrest
          (hquorum.trans (Finset.card_le_card fun name hname => ?_))
        rcases mem_quorumOf_sign.mp hname with hname | ⟨-, rfl⟩
        · simp only [quorumOf, PendingBlock.signers, List.mem_toFinset, List.map_append,
            List.mem_append] at hname ⊢
          tauto
        · simp [quorumOf, PendingBlock.signers]
    | finalizePendingBlock => exact finalizes_of_ready hp (hx p hp) _ rfl
    | forceFinalizePendingBlock =>
      by_cases hblocked : e.ForceBlocked
      · refine Finalizes.cons ?_
        have hsame : (finality P e .forceFinalizePendingBlock).2 = e :=
          (force_of_blocked hblocked).2
        rw [hsame] at hrest ⊢
        exact ih hp hrest hquorum
      · refine finalizes_of_ready hp (hx.resolve_left hblocked p hp) _ ?_
        rw [← force_of_not_blocked hblocked]
        rfl

/-- **When a premature attempt loses nothing.**  A failing call leaves the engine as it was just
when it is timely; and if every call of a run is timely, then the block that is pending at its start
is finalized by an attempt made once its threshold of valid signatures has been added. -/
theorem attempts_lose_nothing (e : ConsensusEngine) :
    (∀ x, LosesNothing P e x ↔ e.Timely x) ∧
      ∀ (p : PendingBlock) (cs : List FinalityCall), e.pendingBlock = some p →
        Support.AllSteps (finality P) Timely e cs →
        p.finalityThreshold ≤ (quorumOf P e p cs).card →
        Finalizes P e (cs ++ [.finalizePendingBlock]) p.block.header :=
  ⟨losesNothing_iff, fun _ cs => timely_attempts_finalize cs⟩

/-! ### One signature short -/

open Reference

def oneShort : ConsensusEngine :=
  firstNode.calls reference
    (opening ++ [.addBlockSignature (signHeader producedHeader 1)])

/-- The second signature comes, then the attempt. -/
theorem attempts_lose_nothing_inOrder : Finalizes reference oneShort
    [.addBlockSignature (signHeader producedHeader 2), .finalizePendingBlock]
    producedHeader := by
  have hfacts : oneShort.pendingBlock.any (fun p => decide (p.block.header = producedHeader ∧
      p.finalityThreshold ≤ (quorumOf reference oneShort p
        [.addBlockSignature (signHeader producedHeader 2)]).card)) = true := by
    decide +kernel
  simp only [Option.any_eq_true, decide_eq_true_eq] at hfacts
  obtain ⟨p, hp, hheader, hquorum⟩ := hfacts
  rw [← hheader] at hquorum ⊢
  exact (attempts_lose_nothing oneShort).2 p
    [.addBlockSignature (signHeader p.block.header 2)] hp ⟨trivial, trivial⟩ hquorum

/-- An attempt is made first.  It fails and the block is gone: the second signature finds no block,
and neither does the next attempt. -/
theorem premature_attempt_loses_block :
    (finality reference oneShort .finalizePendingBlock).1.failed = true ∧
      (finality reference oneShort .finalizePendingBlock).2.pendingBlock = none ∧
      oneShort.pendingBlock.isSome = true ∧
      finalityAnswers reference oneShort [.finalizePendingBlock,
          .addBlockSignature (signHeader producedHeader 2), .finalizePendingBlock] =
        [.finalized (.error (.insufficientSignatures 1 2)),
         .flag (.error (.blockValidationFailed "No pending block to sign")),
         .finalized (.error (.blockValidationFailed "No pending block to finalize"))] := by
  decide +kernel

end Gratia.ConsensusEngine
