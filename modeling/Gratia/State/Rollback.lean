import Gratia.State.ChainStore

/-!
# State — Rollback

`revert_to_height` reverts one block after the other and stops at the first that fails, with the
blocks above it already gone.  On a chain built by blocks and pruning cycles a revert fails where
the body of the block has been pruned, and there is no way back to the blocks reverted before it.

The accounts are followed from the store at which the target height was current: `Accrued` says that
a list of blocks, applied to the accounts of one store, gives those of another, each in a way that
can be undone.  Every block taken back shortens the list by one.
-/

namespace Gratia

open Support StateDb

namespace StateManager

variable {P : Platform} {m : StateManager} {s t base : InMemoryStore}

/-! ### Blocks on top of accounts -/

theorem SameAccounts.trans {u : InMemoryStore} (h : SameAccounts P s t) (h' : SameAccounts P t u) :
    SameAccounts P s u :=
  fun a => (h a).trans (h' a)

/-- The blocks, newest first, applied to the accounts of `base` give those of the store, and none of
their transactions has wrapped what taking it back needs. -/
def Accrued (P : Platform) (base : InMemoryStore) : List Block → InMemoryStore → Prop
  | [], s => SameAccounts P base s
  | b :: below, s => ∃ s₀ s₁, Accrued P base below s₀ ∧ UndoableAll P b.transactions s₀ ∧
      (∀ tx ∈ b.transactions, ¬ WrapsNonce tx) ∧
      (forM b.transactions (applyTransaction P)).run s₀ = .ok () s₁ ∧ SameAccounts P s₁ s

theorem Accrued.congr {blocks : List Block} (h : Accrued P base blocks s)
    (hsame : SameAccounts P s t) : Accrued P base blocks t := by
  cases blocks with
  | nil => exact SameAccounts.trans h hsame
  | cons b below =>
    obtain ⟨s₀, s₁, hbelow, hundo, hwrap, htxs, hs⟩ := h
    exact ⟨s₀, s₁, hbelow, hundo, hwrap, htxs, hs.trans hsame⟩

theorem Accrued.takeBack {b : Block} {below : List Block} (h : Accrued P base (b :: below) s) :
    ∃ t, (forM b.transactions.reverse (revertTransaction P)).run s = .ok () t ∧
      Accrued P base below t ∧ SameRest s t := by
  obtain ⟨s₀, s₁, hbelow, hundo, hwrap, htxs, hs⟩ := h
  rcases revertTransactions_applied hundo htxs hs with
    ⟨-, t, hr, hacc, hrest⟩ | ⟨⟨tx, hmem, hw⟩, -⟩
  · exact ⟨t, hr, hbelow.congr hacc, hrest⟩
  · exact absurd hw (hwrap tx hmem)

/-! ### The loop -/

section Loop

variable {blocks : List Block} {h : ChainHistory} {b : Block} {below new old : List Block}

theorem Stored.revertBlock (hapart : HashesApart P blocks) (hst : Stored P m blocks h)
    (hchain : h.chain = b :: below) (hacc : Accrued P base (b :: new) h.store)
    (hbody : getBlock P (b.header.hash P) h.store = .ok (some b)) :
    ∃ t, (StateManager.revertBlock P).run h.store = .ok () t ∧ Accrued P base new t ∧
      Stored P m blocks { h with store := t, chain := below } ∧
      ∀ c ∈ below, getBlock P (c.header.hash P) t = getBlock P (c.header.hash P) h.store := by
  obtain ⟨hheight, hz, htip⟩ := hst.top hchain
  obtain ⟨t, hr, hnew, hrest⟩ := hacc.takeBack
  refine ⟨_, revertBlock_run hheight hz htip hbody hr (hrest .blocks (by decide)),
    hnew.congr fun a => (getAccount_congr P (unrecordBlock_accounts _ _) a).symm,
    hst.unrecorded hapart hchain hrest, fun c hc => ?_⟩
  have hget := hst.getBlock_unrecorded hapart hchain hrest hc
  unfold bodyKey at hget
  simp only [getBlock, hget]

theorem revertBlocks_succ {tip : BlockHash} (htip : getChainTip s = .ok (some tip))
    (hbody : getBlock P tip s = .ok (some b)) (hr : (StateManager.revertBlock P).run s = .ok () t)
    (n : ℕ) (orphanedTxs : List Transaction) :
    (revertBlocks P (n + 1) orphanedTxs).run s =
      (revertBlocks P n (orphanedTxs ++ b.transactions)).run t := by
  rw [revertBlocks, Db.read_bind _ htip,
    Db.read_bind (some b) (by simp [hbody, Except.toOption]), bind_of_ok hr]
  rfl

theorem revertBlocks_error {tip : BlockHash} {e : GratiaError}
    (htip : getChainTip s = .ok (some tip))
    (hr : (StateManager.revertBlock P).run s = .error e t) (n : ℕ)
    (orphanedTxs : List Transaction) :
    (revertBlocks P (n + 1) orphanedTxs).run s = .error e t := by
  rw [revertBlocks, Db.read_bind _ htip, Db.read_bind (getBlock P tip s).toOption.join rfl,
    bind_of_error hr]

theorem revertBlocks_accrued (hapart : HashesApart P blocks) (orphanedTxs : List Transaction)
    (hst : Stored P m blocks h) (hchain : h.chain = new ++ old) (hacc : Accrued P base new h.store)
    (hbodies : ∀ b ∈ new, getBlock P (b.header.hash P) h.store = .ok (some b)) :
    ∃ t, (revertBlocks P new.length orphanedTxs).run h.store =
        .ok (orphanedTxs ++ new.flatMap fun b => b.transactions) t ∧
      SameAccounts P base t ∧ Stored P m blocks { h with store := t, chain := old } := by
  induction new generalizing h orphanedTxs with
  | nil =>
    obtain rfl : h.chain = old := hchain
    refine ⟨h.store, ?_, hacc, hst⟩
    rw [List.flatMap_nil, List.append_nil]
    rfl
  | cons b new ih =>
    have hbody := hbodies b List.mem_cons_self
    obtain ⟨s₁, hr, hacc₁, hst₁, hkept⟩ := hst.revertBlock hapart hchain hacc hbody
    obtain ⟨t, hrun, hsame, hst'⟩ := ih (orphanedTxs ++ b.transactions) hst₁ rfl hacc₁
      fun c hc => by
        rw [hkept c (List.mem_append_left _ hc)]
        exact hbodies c (List.mem_cons_of_mem _ hc)
    refine ⟨t, ?_, hsame, hst'⟩
    rw [List.length_cons, revertBlocks_succ (hst.top hchain).2.2 hbody hr, hrun,
      List.flatMap_cons, List.append_assoc]

/-- The loop fails at the first body that is not there, at the height of that block. -/
theorem revertBlocks_missing (hapart : HashesApart P blocks) (orphanedTxs : List Transaction)
    {done : List Block} (hst : Stored P m blocks h) (hchain : h.chain = done ++ b :: old)
    (hacc : Accrued P base (done ++ b :: new) h.store)
    (hbodies : ∀ c ∈ done, getBlock P (c.header.hash P) h.store = .ok (some c))
    (hmissing : getBlock P (b.header.hash P) h.store ≠ .ok (some b)) :
    ∃ e t, (revertBlocks P (done ++ b :: new).length orphanedTxs).run h.store = .error e t ∧
      getBlockHeight t = .ok b.header.height := by
  induction done generalizing h orphanedTxs with
  | nil =>
    obtain ⟨hheight, hz, htip⟩ := hst.top hchain
    have hnone : getBlock P (b.header.hash P) h.store = .ok none := by
      rcases hst.read (b := b) (by rw [hchain]; exact List.mem_cons_self) with hread | ⟨hread, -⟩
      · exact absurd hread hmissing
      · exact hread
    exact ⟨_, _, revertBlocks_error htip (revertBlock_missing hheight hz htip hnone) _ _, hheight⟩
  | cons c done ih =>
    have hbody := hbodies c List.mem_cons_self
    obtain ⟨s₁, hr, hacc₁, hst₁, hkept⟩ := hst.revertBlock hapart hchain hacc hbody
    obtain ⟨e, t, hrun, hheight⟩ := ih (orphanedTxs ++ c.transactions) hst₁ rfl hacc₁
      (fun d hd => by
        rw [hkept d (List.mem_append_left _ hd)]
        exact hbodies d (List.mem_cons_of_mem _ hd))
      (by
        rw [hkept b (List.mem_append_right _ List.mem_cons_self)]
        exact hmissing)
    refine ⟨e, t, ?_, hheight⟩
    rw [List.cons_append, List.length_cons, revertBlocks_succ (hst.top hchain).2.2 hbody hr, hrun]

end Loop

/-! ### Runs of blocks and pruning -/

/-- The call is a block or a pruning cycle; a block that is applied wraps nothing that taking it
back needs, and one that is refused has written nothing. -/
structure Forward (P : Platform) (m : StateManager) (h : ChainHistory) (c : StoreCall) : Prop where
  onward : c ≠ .revert
  applied : ∀ block s', c = .apply block → (applyBlock P m block).run h.store = .ok () s' →
    (∀ tx ∈ block.transactions, ¬ WrapsNonce tx) ∧ UndoableAll P block.transactions h.store
  refused : ∀ block e s', c = .apply block → (applyBlock P m block).run h.store = .error e s' →
    RefusedAtOnce P block h.store

/-- What such a run adds to a history: blocks on top of its accounts, and no height beyond them. -/
structure Grown (P : Platform) (h₀ h : ChainHistory) : Prop where
  added : ∃ new, h.chain = new ++ h₀.chain ∧ Accrued P h₀.store new h.store
  top : h.highest = h.chain.length

section Runs

variable {blocks : List Block} {h₀ h : ChainHistory}

theorem Grown.call (hst : Stored P m blocks h) (hg : Grown P h₀ h) {c : StoreCall}
    (hroom : h.chain.length + (offered [c]).length < 2 ^ 64) (hc : Forward P m h c) :
    Grown P h₀ (h.call P m c).2 := by
  obtain ⟨⟨new, hchain, hacc⟩, htop⟩ := hg
  cases c with
  | apply block =>
    simp only [ChainHistory.call]
    cases hr : (applyBlock P m block).run h.store with
    | ok u s' =>
      obtain ⟨hwrap, hundo⟩ := hc.applied block s' rfl hr
      obtain ⟨hhdr, s₁, htxs, rfl⟩ := applyBlock_ok.mp hr
      refine ⟨⟨block :: new, congrArg _ hchain, h.store, s₁, hacc, hundo, hwrap, htxs,
        fun a => (getAccount_congr P (finishBlock_accounts P m block s₁) a).symm⟩, ?_⟩
      have hnat := hst.height_of_fits (headerChecks_ok.mp hhdr) hroom
      dsimp only
      rw [hnat, htop, List.length_cons]
      omega
    | error e s' =>
      obtain rfl := eq_of_refusedAtOnce hr (hc.refused block e s' rfl hr)
      exact ⟨⟨new, hchain, hacc⟩, htop⟩
  | revert => exact absurd rfl hc.onward
  | prune =>
    simp only [ChainHistory.call]
    cases getBlockHeight h.store with
    | error e => exact ⟨⟨new, hchain, hacc⟩, htop⟩
    | ok height =>
      refine ⟨⟨new, hchain, hacc.congr fun a => ?_⟩, htop⟩
      exact (getAccount_congr P
        (Pruning.runPruningCycle_data P (by decide) (by decide) (by decide) _ _ _) a).symm

theorem Grown.run (hapart : HashesApart P blocks) {calls : List StoreCall}
    (hmem : ∀ b ∈ offered calls, b ∈ blocks)
    (hroom : h.chain.length + (offered calls).length < 2 ^ 64) (hst : Stored P m blocks h)
    (hg : Grown P h₀ h)
    (hcalls : AllSteps (ChainHistory.call P m) (Forward P m) h calls) :
    Grown P h₀ (h.run P m calls) := by
  induction calls generalizing h with
  | nil => exact hg
  | cons c calls ih =>
    rw [← List.singleton_append, offered_append] at hmem hroom
    rw [List.length_append] at hroom
    have hlen := h.length_chain_call_le (P := P) (m := m) c
    exact ih (fun b hb => hmem b (List.mem_append_right _ hb)) (by omega)
      (hst.call hapart c (fun b hb => hmem b (List.mem_append_left _ hb)) (by omega))
      (hg.call hst (by omega) hcalls.1) hcalls.2

theorem exists_reached {calls : List StoreCall} {n : ℕ} (hlow : h.chain.length ≤ n)
    (hhigh : n ≤ (h.run P m calls).chain.length) :
    ∃ before after, calls = before ++ after ∧ (h.run P m before).chain.length = n := by
  induction calls generalizing h with
  | nil => exact ⟨[], [], rfl, le_antisymm hlow hhigh⟩
  | cons c calls ih =>
    rcases hlow.eq_or_lt with heq | hlt
    · exact ⟨[], c :: calls, rfl, heq⟩
    · have hstep := h.length_chain_call_le (P := P) (m := m) c
      have hone : (offered [c]).length ≤ 1 := List.length_filterMap_le _ [c]
      obtain ⟨before, after, rfl, hn⟩ := ih (h := (h.call P m c).2) (by omega) hhigh
      exact ⟨c :: before, after, rfl, hn⟩

end Runs

/-! ### All or nothing -/

/-- After the calls, `revert_to_height` succeeds with the height at the target, the transactions of
the blocks above it, and every account as it was whenever that height was current; or it fails and
leaves accounts, blocks, tip and height as they are. -/
structure AllOrNothing (P : Platform) (m : StateManager) (s : InMemoryStore)
    (calls : List StoreCall) (target : UInt64) : Prop where
  all : ∀ orphanedTxs t, (revertToHeight P target).run
      (ChainHistory.run P m ⟨s, [], 0⟩ calls).store = .ok orphanedTxs t →
    getBlockHeight t = .ok target ∧
    orphanedTxs = ((ChainHistory.run P m ⟨s, [], 0⟩ calls).chain.filter
      fun b => target < b.header.height).flatMap (fun b => b.transactions) ∧
    (∃ before after, calls = before ++ after ∧
      getBlockHeight (ChainHistory.run P m ⟨s, [], 0⟩ before).store = .ok target) ∧
    ∀ before after, calls = before ++ after →
      getBlockHeight (ChainHistory.run P m ⟨s, [], 0⟩ before).store = .ok target →
        SameAccounts P (ChainHistory.run P m ⟨s, [], 0⟩ before).store t
  nothing : ∀ e t, (revertToHeight P target).run
      (ChainHistory.run P m ⟨s, [], 0⟩ calls).store = .error e t →
    t.data .accounts = (ChainHistory.run P m ⟨s, [], 0⟩ calls).store.data .accounts ∧
    t.data .blocks = (ChainHistory.run P m ⟨s, [], 0⟩ calls).store.data .blocks ∧
    getChainTip t = getChainTip (ChainHistory.run P m ⟨s, [], 0⟩ calls).store ∧
    getBlockHeight t = getBlockHeight (ChainHistory.run P m ⟨s, [], 0⟩ calls).store

/-- Every block above the target, up to the current height, is still found. -/
def FoundAbove (P : Platform) (target current : UInt64) (s : InMemoryStore) : Prop :=
  ∀ height, target < height → height ≤ current →
    ∃ b, getBlockByHeight P height s = .ok (some b)

section Deep

variable {blocks : List Block} {h₀ h : ChainHistory} {current target : UInt64}

theorem revertToHeight_run (hcurrent : getBlockHeight s = .ok current) (hlt : target < current) :
    (revertToHeight P target).run s =
      (revertBlocks P (current.toNat - target.toNat) []).run s := by
  have hle : target.toNat ≤ current.toNat := (UInt64.lt_iff_toNat_lt.mp hlt).le
  rw [revertToHeight, Db.read_bind _ hcurrent, if_neg (UInt64.not_le.mpr hlt),
    toNat_sub_of_toNat_le hle]

/-- The blocks on top of the target are found if their bodies are there. -/
theorem foundAbove_iff {new old : List Block}
    (hst : Stored P m blocks h) (hcurrent : getBlockHeight h.store = .ok current)
    (hchain : h.chain = new ++ old) (hold : target.toNat = old.length) :
    FoundAbove P target current h.store ↔
      ∀ b ∈ new, getBlock P (b.header.hash P) h.store = .ok (some b) := by
  have hlen := hst.height_eq hcurrent
  have hnew : h.chain.filter (fun b => target < b.header.height) = new := by
    rw [hchain]
    exact Linked.filter_above (hchain ▸ hst.linked) hold
  constructor
  · intro hfound b hb
    rw [← hnew] at hb
    obtain ⟨hmem, habove⟩ := List.mem_filter.mp hb
    obtain ⟨c, hc⟩ := hfound b.header.height (by simpa using habove) (by
      rw [UInt64.le_iff_toNat_le, hlen]
      exact (hst.linked.height_le hmem).2)
    obtain ⟨hcmem, hcheight⟩ := mem_chain_of_found hst hc
    obtain rfl := hst.linked.eq_of_height hcmem hmem (congrArg _ hcheight)
    rwa [getBlockByHeight_of_stored hst hmem] at hc
  · intro hbodies height habove hle
    rw [UInt64.le_iff_toNat_le, hlen] at hle
    have hpos := UInt64.lt_iff_toNat_lt.mp habove
    obtain ⟨b, hb, hbn⟩ := hst.linked.exists_height (n := height.toNat) (by omega) hle
    obtain rfl : b.header.height = height := UInt64.toNat_inj.mp hbn
    refine ⟨b, ?_⟩
    rw [getBlockByHeight_of_stored hst hb]
    refine hbodies b ?_
    rw [← hnew]
    exact List.mem_filter.mpr ⟨hb, by simpa using habove⟩

section Between

-- the target height was current at `h₀`, and `h` has grown from there
variable (hapart : HashesApart P blocks) (hst₀ : Stored P m blocks h₀) (hst : Stored P m blocks h)
  (hg : Grown P h₀ h) (hbefore : getBlockHeight h₀.store = .ok target)
  (hcurrent : getBlockHeight h.store = .ok current) (hlt : target < current)
include hapart hst₀ hst hg hbefore hcurrent hlt

/-- A deep revert succeeds if every block above the target is found. -/
theorem revertToHeight_ok (hfound : FoundAbove P target current h.store) :
    ∃ t, (revertToHeight P target).run h.store = .ok ((h.chain.filter
          fun b => target < b.header.height).flatMap fun b => b.transactions) t ∧
      getBlockHeight t = .ok target ∧ SameAccounts P h₀.store t := by
  obtain ⟨new, hchain, hacc⟩ := hg.added
  have hold := hst₀.height_eq hbefore
  have hlen := hst.height_eq hcurrent
  have hlinked := hst.linked
  rw [hchain] at hlinked hlen
  rw [List.length_append] at hlen
  have hbodies := (foundAbove_iff hst hcurrent hchain hold).mp hfound
  obtain ⟨t, hrun, hsame, hst'⟩ := revertBlocks_accrued hapart [] hst hchain hacc hbodies
  refine ⟨t, ?_, ?_, hsame⟩
  · rw [revertToHeight_run hcurrent hlt, show current.toNat - target.toNat = new.length by omega,
      hrun, hchain, hlinked.filter_above hold]
    rfl
  · obtain ⟨height, hheight, hn⟩ := hst'.height
    rw [hheight, UInt64.toNat_inj.mp (hn.trans hold.symm)]

/-- A deep revert fails below the current height if some block above the target is not found. -/
theorem revertToHeight_stops (hmissing : ¬ FoundAbove P target current h.store) :
    ∃ e t, (revertToHeight P target).run h.store = .error e t ∧ getBlockHeight t ≠ .ok current := by
  obtain ⟨new, hchain, hacc⟩ := hg.added
  have hold := hst₀.height_eq hbefore
  have hlen := hst.height_eq hcurrent
  have htop := hg.top
  rw [foundAbove_iff hst hcurrent hchain hold] at hmissing
  obtain ⟨done, b, rest, rfl, hdone, hb⟩ := exists_first_not hmissing
  rw [List.append_assoc, List.cons_append] at hchain
  obtain ⟨e, t, hrun, hheight⟩ := revertBlocks_missing hapart [] hst hchain hacc hdone hb
  have hcount : current.toNat - target.toNat = (done ++ b :: rest).length := by
    rw [hlen, hchain]
    simp only [List.length_append, List.length_cons]
    omega
  rw [← hcount, ← revertToHeight_run hcurrent hlt] at hrun
  refine ⟨e, t, hrun, fun hsame => ?_⟩
  -- the newest block is never pruned, so it is not the one that is missing
  obtain rfl : b.header.height = current := Except.ok.inj (hheight.symm.trans hsame)
  rcases hst.read (b := b) (by rw [hchain]; simp) with hread | ⟨-, hpruned⟩
  · exact hb hread
  · omega

end Between

variable {calls : List StoreCall} (hs : NoChain s) (hapart : HashesApart P (offered calls))
  (hroom : (offered calls).length < 2 ^ 64)

include hs hapart hroom

variable {before after : List StoreCall}

theorem stored_before (hsplit : calls = before ++ after) :
    Stored P m (offered calls) (ChainHistory.run P m ⟨s, [], 0⟩ before) := by
  rw [hsplit, offered_append] at hapart hroom ⊢
  rw [List.length_append] at hroom
  refine (stored_start hs _).run hapart (fun _ hb => List.mem_append_left _ hb) ?_
  show 0 + _ < _
  omega

theorem grown_between (hcalls : AllSteps (ChainHistory.call P m) (Forward P m) ⟨s, [], 0⟩ calls)
    (hsplit : calls = before ++ after) :
    Grown P (ChainHistory.run P m ⟨s, [], 0⟩ before) (ChainHistory.run P m ⟨s, [], 0⟩ calls) := by
  have hst := stored_before (m := m) hs hapart hroom hsplit
  have hlen := ChainHistory.length_chain_run_le (P := P) (m := m) ⟨s, [], 0⟩ before
  rw [hsplit] at hapart hroom hcalls hst ⊢
  rw [offered_append] at hapart hroom hst
  rw [List.length_append] at hroom
  rw [List.length_nil, Nat.zero_add] at hlen
  obtain ⟨hbefore, hafter⟩ := allSteps_append.mp hcalls
  have hstart : Grown P ⟨s, [], 0⟩ ⟨s, [], 0⟩ := ⟨⟨[], rfl, fun _ => rfl⟩, rfl⟩
  have hfirst := hstart.run hapart (fun _ hb => List.mem_append_left _ hb)
    (by show 0 + _ < _; omega) (stored_start hs _) hbefore
  rw [ChainHistory.run_append]
  exact Grown.run hapart (fun _ hb => List.mem_append_right _ hb) (by omega) hst
    ⟨⟨[], rfl, fun _ => rfl⟩, hfirst.top⟩ hafter

/-- **A deep revert is all or nothing, exactly** if every block above the target is still found. -/
theorem revertToHeight_allOrNothing_iff
    (hcalls : AllSteps (ChainHistory.call P m) (Forward P m) ⟨s, [], 0⟩ calls)
    (hcurrent : getBlockHeight (ChainHistory.run P m ⟨s, [], 0⟩ calls).store = .ok current)
    (hlt : target < current) :
    AllOrNothing P m s calls target ↔
      FoundAbove P target current (ChainHistory.run P m ⟨s, [], 0⟩ calls).store := by
  have hst := stored_before (m := m) hs hapart hroom (List.append_nil calls).symm
  have hlen := hst.height_eq hcurrent
  have hlt' : target.toNat < current.toNat := UInt64.lt_iff_toNat_lt.mp hlt
  -- the target height was current after some of the calls
  obtain ⟨before, after, hsplit, hn⟩ : ∃ before after, calls = before ++ after ∧
      (ChainHistory.run P m ⟨s, [], 0⟩ before).chain.length = target.toNat :=
    exists_reached (Nat.zero_le _) (by omega)
  have hbefore : getBlockHeight (ChainHistory.run P m ⟨s, [], 0⟩ before).store = .ok target := by
    obtain ⟨height, hheight, hlen'⟩ := (stored_before (m := m) hs hapart hroom hsplit).height
    rw [hheight, UInt64.toNat_inj.mp (hlen'.trans hn)]
  constructor
  · intro hall
    by_contra hmissing
    obtain ⟨e, t, hrun, hheight⟩ := revertToHeight_stops hapart
      (stored_before hs hapart hroom hsplit) hst (grown_between hs hapart hroom hcalls hsplit)
      hbefore hcurrent hlt hmissing
    exact hheight ((hall.nothing e t hrun).2.2.2.trans hcurrent)
  · intro hfound
    have hok := fun before after (hsplit : calls = before ++ after) hbefore =>
      revertToHeight_ok hapart (stored_before hs hapart hroom hsplit) hst
        (grown_between hs hapart hroom hcalls hsplit) hbefore hcurrent hlt hfound
    obtain ⟨t, hrun, hheight, -⟩ := hok before after hsplit hbefore
    refine ⟨fun orphanedTxs t' hrun' => ?_, fun e t' hrun' => ?_⟩
    · rw [hrun] at hrun'
      cases hrun'
      refine ⟨hheight, rfl, ⟨before, after, hsplit, hbefore⟩, fun before after hsplit hbefore => ?_⟩
      obtain ⟨t', hrun', -, hsame⟩ := hok before after hsplit hbefore
      rw [hrun] at hrun'
      cases hrun'
      exact hsame
    · rw [hrun] at hrun'
      cases hrun'

end Deep

theorem forward_apply {h : ChainHistory} {b : Block}
    (hok : failure ((applyBlock P m b).run h.store) = none)
    (hsup : supply P h.store < 2 ^ 63) (hnonces : ∀ tx ∈ b.transactions, tx.nonce ≠ maxNonce) :
    Forward P m h (.apply b) := by
  refine ⟨by simp, fun block s' hc _ => ?_, fun block e s' hc hr => ?_⟩
  · cases hc
    exact ⟨fun tx htx hw => hnonces tx htx hw.1, undoableAll_of_supply hsup⟩
  · cases hc
    rw [hr] at hok
    cases hok

open Reference

def paymentOn (parent : Block) (nonce : UInt64) : Block :=
  blockOf (headerAt (parent.header.height + 1) (parent.header.hash reference)
    (node 1))
    [signedTx (key 7) (.transfer ⟨.splat 9⟩ 100) nonce 10]

theorem noChain_fundedStore : NoChain fundedStore := ⟨rfl, rfl⟩

def twoPayments : List StoreCall := [.apply (payment 0), .apply (paymentOn (payment 0) 1)]

abbrev paidTwice : ChainHistory := ChainHistory.run reference {} ⟨fundedStore, [], 0⟩ twoPayments

/-- The second of two payments is taken back and handed out. -/
theorem revertToHeight_allOrNothing_twoPayments :
    paidTwice.chain = [paymentOn (payment 0) 1, payment 0] ∧
    AllOrNothing reference {} fundedStore twoPayments 1 := by
  -- the two blocks are evaluated once, for all that is asked of them
  have hfacts :
      failure ((applyBlock reference {} (payment 0)).run fundedStore) = none ∧
      failure ((applyBlock reference {} (paymentOn (payment 0) 1)).run
        (ChainHistory.call reference {} ⟨fundedStore, [], 0⟩ (.apply (payment 0))).2.store) = none ∧
      supply reference fundedStore < 2 ^ 63 ∧
      supply reference
        (ChainHistory.call reference {} ⟨fundedStore, [], 0⟩ (.apply (payment 0))).2.store <
          2 ^ 63 ∧
      (∀ b ∈ offered twoPayments, ∀ tx ∈ b.transactions, tx.nonce ≠ maxNonce) ∧
      HashesApart reference (offered twoPayments) ∧
      getBlockHeight paidTwice.store = .ok 2 ∧
      getBlockByHeight reference 2 paidTwice.store = .ok (some (paymentOn (payment 0) 1)) ∧
      paidTwice.chain = [paymentOn (payment 0) 1, payment 0] := by
    decide +kernel
  obtain ⟨hfirst, hsecond, hsup, hsup', hnonces, hapart, hheight, hread, hchain⟩ := hfacts
  have hone := forward_apply (h := ChainHistory.mk fundedStore [] 0) hfirst hsup
    (hnonces _ (by simp [offered, twoPayments]))
  have htwo := forward_apply hsecond hsup' (hnonces _ (by simp [offered, twoPayments]))
  have hfound : FoundAbove reference 1 2 paidTwice.store := by
    intro height hlow hhigh
    rw [UInt64.lt_iff_toNat_lt] at hlow
    rw [UInt64.le_iff_toNat_le] at hhigh
    obtain rfl : height = 2 := UInt64.toNat_inj.mp (le_antisymm hhigh hlow)
    exact ⟨_, hread⟩
  exact ⟨hchain, (revertToHeight_allOrNothing_iff noChain_fundedStore hapart
    (by simp [offered, twoPayments]) ⟨hone, htwo, trivial⟩ hheight (by decide)).mpr hfound⟩

def keepOne : StateManager := { pruningPolicy := { blockRetentionCount := 1 } }

def prunedPayments : List StoreCall :=
  twoPayments ++ [.apply (paymentOn (paymentOn (payment 0) 1) 2), .prune]

abbrev prunedStore : InMemoryStore :=
  (ChainHistory.run reference keepOne ⟨fundedStore, [], 0⟩ prunedPayments).store

/-- The first block has been pruned: going back to genesis fails with two blocks reverted. -/
theorem deep_revert_stops_halfway :
    (getBlockHeight prunedStore = .ok 3 ∧
      (revertToHeight reference 0).run prunedStore =
        .error (.storageError "chain tip block not found in storage")
          (finalState ((revertToHeight reference 0).run prunedStore)) ∧
      getBlockHeight (finalState ((revertToHeight reference 0).run prunedStore)) = .ok 1) ∧
    ¬ AllOrNothing reference keepOne fundedStore prunedPayments 0 := by
  refine and_of_imp (by decide +kernel) fun ⟨hbefore, hrun, hafter⟩ hall => ?_
  have hsame := (hall.nothing _ _ hrun).2.2.2
  rw [hafter, hbefore] at hsame
  exact absurd hsame (by decide)

end StateManager

end Gratia
