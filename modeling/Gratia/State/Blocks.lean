import Gratia.State.Accounts

/-!
# State — Blocks

What `apply_block` does, stage by stage: the checks of the header against the chain
(`headerChecks`), the transactions, and the writes that record the block (`finishBlock`).
`applyBlock_ok` and `applyBlock_error` are the two ways through.

The column families are written by separate stages: accounts by the transactions alone, everything
else by the record alone.  So what a block does to the accounts is what its transactions do
(`finishBlock_accounts`), and the chain state afterwards names the block
(`getBlockHeight_finishBlock`, `getChainTip_finishBlock`).
-/

namespace Gratia

open Support StateDb

namespace StateManager

variable (P : Platform) (m : StateManager)

/-! ### The stages -/

/-- The checks of a block against the height and the tip of the chain. -/
def headerChecks (block : Block) (s : InMemoryStore) : Except GratiaError Unit := do
  let currentHeight ← getBlockHeight s
  let currentTip ← getChainTip s
  if block.header.height ≠ currentHeight + 1 then
    .error (.blockValidationFailed
      s!"expected height {currentHeight + 1}, got {block.header.height}")
  else if currentHeight > 0 ∧ ∃ tip ∈ currentTip, block.header.parentHash ≠ tip then
    .error (.blockValidationFailed "parent hash does not match chain tip")
  else .ok ()

def finishBlock (block : Block) (s : InMemoryStore) : InMemoryStore :=
  let s := commitBlock P block s
  if Pruning.shouldPrune m.pruningPolicy s then
    (Pruning.runPruningCycle P m.pruningPolicy block.header.height s).2
  else s

theorem record_eq (block : Block) :
    (do
      Db.write (commitBlock P block)
      let s ← get
      if Pruning.shouldPrune m.pruningPolicy s then
        Db.write fun s => (Pruning.runPruningCycle P m.pruningPolicy block.header.height s).2) =
      Db.write (finishBlock P m block) := by
  refine Db.ext fun s => ?_
  rw [Db.write_run, finishBlock]
  by_cases hp : Pruning.shouldPrune m.pruningPolicy (commitBlock P block s) <;> simp [hp]

theorem applyBlock_eq (block : Block) :
    applyBlock P m block = (Db.read (headerChecks block)) >>= fun _ =>
      forM block.transactions (applyTransaction P) >>= fun _ =>
        Db.write (finishBlock P m block) := by
  refine Db.ext fun s => ?_
  simp only [applyBlock, record_eq]
  generalize (forM block.transactions (applyTransaction P) >>= fun _ =>
    Db.write (finishBlock P m block)) = rest
  simp only [headerChecks, EStateM.run_bind, Db.run_read]
  cases getBlockHeight s with
  | error e => rfl
  | ok height =>
    simp only [except_ok_bind]
    cases getChainTip s with
    | error e => rfl
    | ok tip =>
      simp only [except_ok_bind]
      by_cases hh : block.header.height = height + 1
      · by_cases hz : height > 0
        · cases tip with
          | none => simp [hh, hz]
          | some tip => by_cases ht : block.header.parentHash = tip <;> simp [hh, hz, ht]
        · simp [hh, hz]
      · simp [hh]

variable {P m} {block : Block} {s s' : InMemoryStore} {e : GratiaError}

theorem applyBlock_ok :
    (applyBlock P m block).run s = .ok () s' ↔
      headerChecks block s = .ok () ∧
      ∃ s₁, (forM block.transactions (applyTransaction P)).run s = .ok () s₁ ∧
        s' = finishBlock P m block s₁ := by
  rw [applyBlock_eq, bind_ok]
  simp only [Db.read_ok, bind_ok, Db.write_run]
  constructor
  · rintro ⟨_, _, ⟨hh, rfl⟩, _, s₁, ht, hf⟩
    cases hf
    exact ⟨hh, s₁, ht, rfl⟩
  · rintro ⟨hh, s₁, ht, rfl⟩
    exact ⟨(), s, ⟨hh, rfl⟩, (), s₁, ht, rfl⟩

theorem applyBlock_error :
    (applyBlock P m block).run s = .error e s' ↔
      (headerChecks block s = .error e ∧ s' = s) ∨
      headerChecks block s = .ok () ∧
        (forM block.transactions (applyTransaction P)).run s = .error e s' := by
  rw [applyBlock_eq, bind_error]
  simp only [Db.read_error, Db.read_ok, bind_error, Db.write_run]
  constructor
  · rintro (h | ⟨_, _, ⟨hh, rfl⟩, ht | ⟨_, _, _, hf⟩⟩)
    · exact .inl h
    · exact .inr ⟨hh, ht⟩
    · cases hf
  · rintro (h | ⟨hh, ht⟩)
    · exact .inl h
    · exact .inr ⟨(), s, ⟨hh, rfl⟩, .inl ht⟩

/-- The block is one above the chain's height and, above genesis, a child of its tip. -/
def Fits (block : Block) (s : InMemoryStore) : Prop :=
  ∃ height tip, getBlockHeight s = .ok height ∧ getChainTip s = .ok tip ∧
    block.header.height = height + 1 ∧ (0 < height → ∀ t ∈ tip, block.header.parentHash = t)

theorem headerChecks_ok : headerChecks block s = .ok () ↔ Fits block s := by
  unfold headerChecks Fits
  cases getBlockHeight s with
  | error e => simp
  | ok height =>
    cases getChainTip s with
    | error e => simp
    | ok tip =>
      simp only [except_ok_bind, Except.ok.injEq]
      by_cases hh : block.header.height = height + 1
      · rw [if_neg (not_not_intro hh)]
        by_cases hp : height > 0 ∧ ∃ t ∈ tip, block.header.parentHash ≠ t
        · rw [if_pos hp]
          obtain ⟨hz, t, ht, hne⟩ := hp
          simp only [reduceCtorEq, false_iff]
          rintro ⟨_, _, rfl, rfl, -, hpar⟩
          exact hne (hpar hz t ht)
        · rw [if_neg hp]
          refine iff_of_true rfl ⟨height, tip, rfl, rfl, hh, fun hz t ht => ?_⟩
          by_contra hne
          exact hp ⟨hz, t, ht, hne⟩
      · rw [if_pos hh]
        simp only [reduceCtorEq, false_iff]
        rintro ⟨_, _, rfl, rfl, he, -⟩
        exact hh he

/-! ### What the record writes -/

theorem getBlockHeight_congr {t : InMemoryStore} (h : s.data .state = t.data .state) :
    getBlockHeight s = getBlockHeight t := by
  simp only [getBlockHeight, InMemoryStore.get, h]

theorem getChainTip_congr {t : InMemoryStore} (h : s.data .state = t.data .state) :
    getChainTip s = getChainTip t := by
  simp only [getChainTip, InMemoryStore.get, h]

variable (P m block s)

theorem commitBlock_accounts : (commitBlock P block s).data .accounts = s.data .accounts := by
  simp only [commitBlock]
  rw [setBlockHeight_data (by decide), setChainTip_data (by decide), setStateRoot_data (by decide),
    putAttestations_data P (by decide), putTransactions_data P (by decide),
    putBlock_data P (by decide)]

theorem commitBlock_blocks :
    (commitBlock P block s).data .blocks = (putBlock P block s).data .blocks := by
  simp only [commitBlock]
  rw [setBlockHeight_data (by decide), setChainTip_data (by decide), setStateRoot_data (by decide),
    putAttestations_data P (by decide), putTransactions_data P (by decide)]

theorem commitBlock_attestations :
    (commitBlock P block s).data .attestations =
      (block.attestations.foldl (fun s a => putAttestation P a s) s).data .attestations := by
  have hcongr : ∀ (l : List ProofOfLifeAttestation) (s t : InMemoryStore),
      s.data .attestations = t.data .attestations →
      (l.foldl (fun s a => putAttestation P a s) s).data .attestations =
        (l.foldl (fun s a => putAttestation P a s) t).data .attestations := by
    intro l
    induction l with
    | nil => intro s t h; exact h
    | cons a l ih =>
      intro s t h
      refine ih _ _ ?_
      simp only [putAttestation, InMemoryStore.put_data_self, h]
  simp only [commitBlock]
  rw [setBlockHeight_data (by decide), setChainTip_data (by decide), setStateRoot_data (by decide)]
  refine hcongr _ _ _ ?_
  rw [putTransactions_data P (by decide), putBlock_data P (by decide)]

/-- **A block does to the accounts what its transactions do.** -/
theorem finishBlock_accounts : (finishBlock P m block s).data .accounts = s.data .accounts := by
  unfold finishBlock
  dsimp only
  split
  · rw [Pruning.runPruningCycle_data P (by decide) (by decide) (by decide), commitBlock_accounts]
  · exact commitBlock_accounts P block s

theorem finishBlock_blocks (k : Bytes) :
    (finishBlock P m block s).get .blocks k = none ∨
      (finishBlock P m block s).get .blocks k = (putBlock P block s).get .blocks k := by
  have hcommit : (commitBlock P block s).get .blocks k = (putBlock P block s).get .blocks k := by
    simp only [InMemoryStore.get, commitBlock_blocks]
  unfold finishBlock
  dsimp only
  rw [← hcommit]
  split
  · exact Pruning.runPruningCycle_blocks P _ _ _ k
  · exact .inr rfl

theorem finishBlock_state :
    (finishBlock P m block s).data .state = (commitBlock P block s).data .state := by
  unfold finishBlock
  dsimp only
  split
  · exact Pruning.runPruningCycle_data P (by decide) (by decide) (by decide) _ _ _
  · rfl

theorem getBlockHeight_commitBlock :
    getBlockHeight (commitBlock P block s) = .ok block.header.height := by
  simp [commitBlock, getBlockHeight, setBlockHeight]

theorem getChainTip_commitBlock :
    getChainTip (commitBlock P block s) = .ok (some (block.header.hash P)) := by
  have hk : stateKeyBlockHeight ≠ stateKeyChainTip := by decide
  simp only [commitBlock, getChainTip, setBlockHeight, setChainTip]
  rw [InMemoryStore.get_put_ne _ _ _ hk, InMemoryStore.get_put_self]
  simp [(block.header.hash P).bytes.length_eq]

theorem getBlockHeight_finishBlock :
    getBlockHeight (finishBlock P m block s) = .ok block.header.height := by
  rw [getBlockHeight_congr (finishBlock_state P m block s), getBlockHeight_commitBlock]

theorem getChainTip_finishBlock :
    getChainTip (finishBlock P m block s) = .ok (some (block.header.hash P)) := by
  rw [getChainTip_congr (finishBlock_state P m block s), getChainTip_commitBlock]

end StateManager

end Gratia
