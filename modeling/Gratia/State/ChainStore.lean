import Gratia.Core.Chains
import Gratia.State.Replay

/-!
# State — Chain store

The blocks of the chain are kept in two indexes that share one key space: the body under the
32-byte hash of its header, and that hash under the 8-byte height.  Applying a block writes both,
reverting it deletes both, pruning deletes bodies and keeps the heights; and a fork that is reverted
and applied again writes over the heights of the blocks it replaces.

`ChainHistory` carries beside the store the blocks that are on the chain, newest first, and the
greatest height ever reached.  The invariant (`Stored`) says what the two indexes hold in terms of
them, and each call has a step lemma.  The heights of the chain count its blocks, which ends at
`u64::MAX`: one block more, and the height is zero with everything below still indexed.
-/

namespace Gratia

open Reference (blockOf headerAt)
open Support StateDb

namespace StateManager

variable {P : Platform} {m : StateManager} {s t : InMemoryStore}

/-! ### Histories -/

inductive StoreCall where
  | apply (block : Block)
  | revert
  | prune

def offered (calls : List StoreCall) : List Block :=
  calls.filterMap fun
    | .apply block => some block
    | _ => none

theorem offered_append (calls calls' : List StoreCall) :
    offered (calls ++ calls') = offered calls ++ offered calls' := by
  exact List.filterMap_append

/-- The store, the blocks on the chain, newest first, and the greatest height ever reached. -/
structure ChainHistory where
  store : InMemoryStore
  chain : List Block := []
  highest : ℕ := 0

namespace ChainHistory

def call (P : Platform) (m : StateManager) (h : ChainHistory) :
    StoreCall → Option GratiaError × ChainHistory
  | .apply block =>
    match (applyBlock P m block).run h.store with
    | .ok _ s => (none, ⟨s, block :: h.chain, max h.highest block.header.height.toNat⟩)
    | .error e s => (some e, { h with store := s })
  | .revert =>
    match (revertBlock P).run h.store with
    | .ok _ s => (none, { h with store := s, chain := h.chain.tail })
    | .error e s => (some e, { h with store := s })
  | .prune =>
    match getBlockHeight h.store with
    | .ok height =>
      (none, { h with store := (Pruning.runPruningCycle P m.pruningPolicy height h.store).2 })
    | .error e => (some e, h)

def run (P : Platform) (m : StateManager) (h : ChainHistory) (calls : List StoreCall) :
    ChainHistory :=
  Support.run (call P m) h calls

theorem run_append (h : ChainHistory) (calls calls' : List StoreCall) :
    h.run P m (calls ++ calls') = (h.run P m calls).run P m calls' :=
  Support.run_append h calls calls'

theorem length_chain_call_le (h : ChainHistory) (c : StoreCall) :
    (h.call P m c).2.chain.length ≤ h.chain.length + (offered [c]).length := by
  cases c with
  | apply block =>
    simp only [call]
    cases (applyBlock P m block).run h.store with
    | ok u s' => exact le_rfl
    | error e s' => exact Nat.le_add_right _ _
  | revert =>
    simp only [call]
    cases (revertBlock P).run h.store with
    | ok u s' => exact (List.tail_sublist _).length_le.trans (Nat.le_add_right _ _)
    | error e s' => exact Nat.le_add_right _ _
  | prune =>
    simp only [call]
    cases getBlockHeight h.store with
    | ok height => exact Nat.le_add_right _ _
    | error e => exact Nat.le_add_right _ _

theorem length_chain_run_le (h : ChainHistory) (calls : List StoreCall) :
    (h.run P m calls).chain.length ≤ h.chain.length + (offered calls).length := by
  induction calls generalizing h with
  | nil => exact le_rfl
  | cons c calls ih =>
    have hstep := h.length_chain_call_le (P := P) (m := m) c
    have hrest := ih (h.call P m c).2
    rw [← List.singleton_append, offered_append, List.length_append]
    exact hrest.trans (by omega)

end ChainHistory

/-- The store has accounts at most, and no chain. -/
def NoChain (s : InMemoryStore) : Prop := s.data .blocks = ∅ ∧ s.data .state = ∅

/-! ### What the two indexes hold -/

def bodyKey (P : Platform) (b : Block) : Bytes := (b.header.hash P).bytes.bytes

/-- What ties a history to its store: `blocks` are those that the run may apply. -/
structure Stored (P : Platform) (m : StateManager) (blocks : List Block) (h : ChainHistory) :
    Prop where
  linked : Linked P h.chain
  height : ∃ height, getBlockHeight h.store = .ok height ∧ height.toNat = h.chain.length
  tip : ∃ tip, getChainTip h.store = .ok tip ∧ ∀ b ∈ h.chain.head?, tip = some (b.header.hash P)
  reached : h.chain.length ≤ h.highest
  counted : h.highest < 2 ^ 64
  index : ∀ b ∈ h.chain, h.store.get .blocks (toBeBytes b.header.height) = some (bodyKey P b)
  vacant : ∀ height, (∀ b ∈ h.chain, b.header.height ≠ height) →
    h.store.get .blocks (toBeBytes height) = none
  bodies : ∀ b ∈ h.chain, h.store.get .blocks (bodyKey P b) = some (P.block.put b) ∨
    h.store.get .blocks (bodyKey P b) = none ∧
      b.header.height.toNat < h.highest - m.pruningPolicy.blockRetentionCount.toNat
  known : ∀ b ∈ h.chain, b ∈ blocks

theorem get_congr {cf : ColumnFamily} (h : s.data cf = t.data cf) (k : Bytes) :
    s.get cf k = t.get cf k := by
  simp only [InMemoryStore.get, h]

theorem toBeBytes_injective : Function.Injective toBeBytes :=
  Function.LeftInverse.injective fromBeBytes_toBeBytes

theorem stored_start (hs : NoChain s) (blocks : List Block) : Stored P m blocks ⟨s, [], 0⟩ := by
  have hempty : ∀ cf k, s.data cf = ∅ → s.get cf k = none := by
    intro cf k h
    rw [InMemoryStore.get, h, Std.ExtTreeMap.getElem?_empty]
  refine ⟨trivial, ⟨0, ?_, rfl⟩, ⟨none, ?_, by simp⟩, le_rfl, Nat.two_pow_pos 64, by simp,
    fun height _ => ?_, by simp, by simp⟩
  · simp [getBlockHeight, hempty .state _ hs.2]
  · simp [getChainTip, hempty .state _ hs.2]
  · exact hempty .blocks _ hs.1

section Steps

variable {blocks : List Block} {h : ChainHistory} {block : Block}

theorem bodyKey_ne (hapart : HashesApart P blocks) {b b' : Block} (hb : b ∈ blocks)
    (hb' : b' ∈ blocks) (hne : b.header.height.toNat ≠ b'.header.height.toNat) :
    bodyKey P b ≠ bodyKey P b' := by
  intro he
  have hhash := BlockHash.bytes_injective (Bytes32.bytes_injective he)
  exact hne (by rw [hapart b hb b' hb' hhash])

theorem Stored.height_eq (hst : Stored P m blocks h) {height : UInt64}
    (hheight : getBlockHeight h.store = .ok height) : height.toNat = h.chain.length := by
  obtain ⟨height', hheight', hlen⟩ := hst.height
  obtain rfl : height = height' := Except.ok.inj (hheight.symm.trans hheight')
  exact hlen

theorem Stored.height_of_fits (hst : Stored P m blocks h) (hfits : Fits block h.store)
    (hroom : h.chain.length + 1 < 2 ^ 64) :
    block.header.height.toNat = h.chain.length + 1 := by
  obtain ⟨height, tip, hheight, -, hnext, -⟩ := hfits
  have hlen := hst.height_eq hheight
  rw [hnext, toNat_add_of_lt (by rw [hlen]; exact hroom), hlen]
  rfl

theorem Stored.read (hst : Stored P m blocks h) {b : Block} (hb : b ∈ h.chain) :
    getBlock P (b.header.hash P) h.store = .ok (some b) ∨
      getBlock P (b.header.hash P) h.store = .ok none ∧
        b.header.height.toNat < h.highest - m.pruningPolicy.blockRetentionCount.toNat := by
  have hbody := hst.bodies b hb
  unfold bodyKey at hbody
  rcases hbody with hbody | ⟨hnone, hlow⟩
  · exact .inl (by simp [getBlock, hbody, Except.map])
  · exact .inr ⟨by simp [getBlock, hnone], hlow⟩

theorem Stored.of_sameRest (hst : Stored P m blocks h) (hrest : SameRest h.store t) :
    Stored P m blocks { h with store := t } := by
  have hblocks := hrest .blocks (by decide)
  have hstate := hrest .state (by decide)
  obtain ⟨hlinked, hheight, htip, hreached, hcounted, hindex, hvacant, hbodies, hknown⟩ := hst
  refine ⟨hlinked, ?_, ?_, hreached, hcounted, fun b hb => ?_, fun height hno => ?_, fun b hb => ?_,
    hknown⟩
  · rw [getBlockHeight_congr hstate]
    exact hheight
  · rw [getChainTip_congr hstate]
    exact htip
  · rw [get_congr hblocks]
    exact hindex b hb
  · rw [get_congr hblocks]
    exact hvacant height hno
  · rw [get_congr hblocks]
    exact hbodies b hb

/-- The one index entry that names the body of a block is that of its own height. -/
theorem Stored.named_iff (hapart : HashesApart P blocks) (hst : Stored P m blocks h) {b : Block}
    (hb : b ∈ h.chain) {cutoff : ℕ} (hcut : cutoff ≤ 2 ^ 64) :
    (∃ n < cutoff, h.store.get .blocks (toBeBytes (UInt64.ofNat n)) = some (bodyKey P b)) ↔
      b.header.height.toNat < cutoff := by
  constructor
  · rintro ⟨n, hn, hentry⟩
    have hnat : (UInt64.ofNat n).toNat = n := by
      refine UInt64.toNat_ofNat_of_lt' ?_
      rw [UInt64.size]
      omega
    by_cases hfound : ∃ c ∈ h.chain, c.header.height = UInt64.ofNat n
    · obtain ⟨c, hc, hcn⟩ := hfound
      have hkeys : bodyKey P c = bodyKey P b := by
        rw [← hcn, hst.index c hc] at hentry
        exact Option.some.inj hentry
      have hbn : b.header.height.toNat = n := by
        by_contra hne
        refine bodyKey_ne hapart (hst.known c hc) (hst.known b hb) ?_ hkeys
        rw [hcn, hnat]
        exact Ne.symm hne
      omega
    · rw [hst.vacant _ fun c hc he => hfound ⟨c, hc, he⟩] at hentry
      cases hentry
  · intro hlow
    refine ⟨b.header.height.toNat, hlow, ?_⟩
    rw [UInt64.ofNat_toNat]
    exact hst.index b hb

/-- A pruning cycle at the current height deletes bodies below the window only. -/
theorem Stored.pruned (hapart : HashesApart P blocks) (hst : Stored P m blocks h) {height : UInt64}
    (hheight : getBlockHeight h.store = .ok height) :
    Stored P m blocks
      { h with store := (Pruning.runPruningCycle P m.pruningPolicy height h.store).2 } := by
  have hstate : (Pruning.runPruningCycle P m.pruningPolicy height h.store).2.data .state =
      h.store.data .state :=
    Pruning.runPruningCycle_data P (by decide) (by decide) (by decide) _ _ _
  have hindexed : ∀ index, (Pruning.runPruningCycle P m.pruningPolicy height h.store).2.get .blocks
      (toBeBytes index) = h.store.get .blocks (toBeBytes index) := by
    intro index
    rw [Pruning.get_runPruningCycle_blocks, if_neg fun hk => absurd hk.1 (by simp)]
  refine ⟨hst.linked, ?_, ?_, hst.reached, hst.counted, fun b hb => ?_, fun index hno => ?_,
    fun b hb => ?_, hst.known⟩
  · rw [getBlockHeight_congr hstate]
    exact hst.height
  · rw [getChainTip_congr hstate]
    exact hst.tip
  · rw [hindexed]
    exact hst.index b hb
  · rw [hindexed]
    exact hst.vacant index hno
  · rw [Pruning.get_runPruningCycle_blocks]
    split
    next hk =>
      have hlen := hst.height_eq hheight
      have hreached := hst.reached
      have hsmall := height.toNat_lt
      have hlow := (hst.named_iff hapart hb (by omega)).mp hk.2
      exact .inr ⟨rfl, by dsimp only; omega⟩
    next => exact hst.bodies b hb

theorem get_commitBlock_index_ne {index : UInt64} (hne : block.header.height ≠ index) :
    (commitBlock P block s).get .blocks (toBeBytes index) = s.get .blocks (toBeBytes index) := by
  rw [get_congr (commitBlock_blocks P block s), putBlock,
    InMemoryStore.get_put_ne _ _ _ fun he => hne (toBeBytes_injective he),
    InMemoryStore.get_put_ne _ _ _ fun he => toBeBytes_ne_hash index _ he.symm]

theorem get_commitBlock_self (P : Platform) (block : Block) (s : InMemoryStore) :
    (commitBlock P block s).get .blocks (toBeBytes block.header.height) = some (bodyKey P block) ∧
      (commitBlock P block s).get .blocks (bodyKey P block) = some (P.block.put block) := by
  have hget := get_congr (commitBlock_blocks P block s)
  refine ⟨?_, (hget _).trans (get_putBlock_self P _)⟩
  rw [hget, putBlock, InMemoryStore.get_put_self, bodyKey]

theorem get_commitBlock_body_ne {b : Block} (hne : bodyKey P block ≠ bodyKey P b) :
    (commitBlock P block s).get .blocks (bodyKey P b) = s.get .blocks (bodyKey P b) := by
  rw [get_congr (commitBlock_blocks P block s)]
  exact get_putBlock_ne P fun he => hne (by rw [bodyKey, bodyKey, he])

theorem Stored.committed (hapart : HashesApart P blocks) (hst : Stored P m blocks h)
    (hmem : block ∈ blocks) (hfits : Fits block h.store) (hroom : h.chain.length + 1 < 2 ^ 64)
    (hrest : SameRest h.store s) :
    Stored P m blocks ⟨commitBlock P block s, block :: h.chain,
      max h.highest block.header.height.toNat⟩ := by
  have hnat := hst.height_of_fits hfits hroom
  have hlower : ∀ b ∈ h.chain, b.header.height.toNat < block.header.height.toNat := by
    intro b hb
    have := (hst.linked.height_le hb).2
    omega
  have hbefore : ∀ k, s.get .blocks k = h.store.get .blocks k :=
    fun k => get_congr (hrest .blocks (by decide)) k
  have hself := get_commitBlock_self P block s
  refine ⟨⟨hnat, fun p hp => ?_, hst.linked⟩,
    ⟨block.header.height, getBlockHeight_commitBlock P block s, hnat⟩,
    ⟨some (block.header.hash P), getChainTip_commitBlock P block s, fun b hb => ?_⟩, ?_,
    max_lt hst.counted block.header.height.toNat_lt, fun b hb => ?_, fun index hno => ?_,
    fun b hb => ?_, List.forall_mem_cons.mpr ⟨hmem, hst.known⟩⟩
  · -- its parent is the tip, which is the newest block
    obtain ⟨height, tip, hheight, htip, -, hparent⟩ := hfits
    obtain ⟨tip', htip', hnewest⟩ := hst.tip
    obtain rfl : tip = tip' := Except.ok.inj (htip.symm.trans htip')
    refine hparent ?_ _ (hnewest p hp)
    rw [UInt64.lt_iff_toNat_lt, hst.height_eq hheight]
    exact List.length_pos_of_mem (List.mem_of_mem_head? hp)
  · cases hb
    rfl
  · rw [List.length_cons, ← hnat]
    exact le_max_right _ _
  · rcases List.mem_cons.mp hb with rfl | hb
    · exact hself.1
    · rw [get_commitBlock_index_ne fun he => (hlower b hb).ne (congrArg UInt64.toNat he).symm,
        hbefore]
      exact hst.index b hb
  · rw [get_commitBlock_index_ne (hno block List.mem_cons_self), hbefore]
    exact hst.vacant index fun b hb => hno b (List.mem_cons_of_mem _ hb)
  · rcases List.mem_cons.mp hb with rfl | hb
    · exact .inl hself.2
    · rw [get_commitBlock_body_ne
        (bodyKey_ne hapart hmem (hst.known b hb) (hlower b hb).ne'), hbefore]
      rcases hst.bodies b hb with hbody | ⟨hnone, hlow⟩
      · exact .inl hbody
      · exact .inr ⟨hnone, by dsimp only; omega⟩

theorem Stored.top (hst : Stored P m blocks h) {b : Block} {below : List Block}
    (hchain : h.chain = b :: below) : getBlockHeight h.store = .ok b.header.height ∧
      b.header.height ≠ 0 ∧ getChainTip h.store = .ok (some (b.header.hash P)) := by
  obtain ⟨height, hheight, hlen⟩ := hst.height
  obtain ⟨tip, htip, hnewest⟩ := hst.tip
  have hlinked := hst.linked
  rw [hchain] at hlinked hlen hnewest
  obtain rfl : height = b.header.height := UInt64.toNat_inj.mp (hlen.trans hlinked.1.symm)
  refine ⟨hheight, fun hz => ?_, by rw [htip, hnewest b rfl]⟩
  rw [hz] at hlen
  cases hlen

theorem Stored.getBlock_unrecorded (hapart : HashesApart P blocks) {b c : Block}
    {below : List Block} (hst : Stored P m blocks h) (hchain : h.chain = b :: below)
    (hrest : SameRest h.store t) (hc : c ∈ below) :
    (unrecordBlock P (b.header.hash P) b b.header.height t).get .blocks (bodyKey P c) =
      h.store.get .blocks (bodyKey P c) := by
  have hlinked := hst.linked
  have hknown := hst.known
  rw [hchain] at hlinked hknown
  have hkey : bodyKey P b ≠ bodyKey P c := by
    refine bodyKey_ne hapart (hknown b List.mem_cons_self)
      (hknown c (List.mem_cons_of_mem _ hc)) fun he => ?_
    have := (hlinked.2.2.height_le hc).2
    have := hlinked.1
    omega
  rw [get_unrecordBlock_blocks, if_neg, get_congr (hrest .blocks (by decide))]
  rintro (he | he)
  · exact hkey he
  · exact toBeBytes_ne_hash _ _ he

theorem Stored.unrecorded (hapart : HashesApart P blocks) {b : Block} {below : List Block}
    (hst : Stored P m blocks h) (hchain : h.chain = b :: below) (hrest : SameRest h.store t) :
    Stored P m blocks { h with
      store := unrecordBlock P (b.header.hash P) b b.header.height t, chain := below } := by
  have hbody := fun c hc => hst.getBlock_unrecorded hapart hchain hrest (c := c) hc
  obtain ⟨store, chain, highest⟩ := h
  obtain rfl : chain = b :: below := hchain
  obtain ⟨⟨hb, hchild, hbelow⟩, -, -, hreached, hcounted, hindex, hvacant, hbodies, hknown⟩ := hst
  have hindexed : ∀ index, b.header.height ≠ index →
      (unrecordBlock P (b.header.hash P) b b.header.height t).get .blocks (toBeBytes index) =
        store.get .blocks (toBeBytes index) := by
    intro index hne
    rw [get_unrecordBlock_blocks, if_neg, get_congr (hrest .blocks (by decide))]
    rintro (he | he)
    · exact toBeBytes_ne_hash index _ he.symm
    · exact hne (toBeBytes_injective he)
  refine ⟨hbelow, ⟨b.header.height - 1, getBlockHeight_unrecordBlock _ _, ?_⟩,
    ⟨_, getChainTip_unrecordBlock _ _, fun p hp => congrArg some (hchild p hp)⟩,
    (Nat.le_succ _).trans hreached, hcounted, fun c hc => ?_, fun index hno => ?_, fun c hc => ?_,
    fun c hc => hknown c (List.mem_cons_of_mem _ hc)⟩
  · rw [toNat_sub_of_toNat_le (by rw [hb]; simp), hb]
    simp
  · rw [hindexed]
    · exact hindex c (List.mem_cons_of_mem _ hc)
    · intro he
      have := (hbelow.height_le hc).2
      rw [← he] at this
      omega
  · by_cases hne : b.header.height = index
    · rw [get_unrecordBlock_blocks, if_pos (.inr (congrArg toBeBytes hne))]
    · rw [hindexed index hne]
      refine hvacant index fun c hc => ?_
      rcases List.mem_cons.mp hc with rfl | hc
      · exact hne
      · exact hno c hc
  · rw [hbody c hc]
    exact hbodies c (List.mem_cons_of_mem _ hc)

theorem Stored.newest (hst : Stored P m blocks h) {height : UInt64} {tip : BlockHash}
    (hheight : getBlockHeight h.store = .ok height) (hz : height ≠ 0)
    (htip : getChainTip h.store = .ok (some tip)) (hb : getBlock P tip h.store = .ok (some block)) :
    ∃ below, h.chain = block :: below ∧ tip = block.header.hash P ∧
      height = block.header.height := by
  have hlen := hst.height_eq hheight
  cases hchain : h.chain with
  | nil =>
    rw [hchain] at hlen
    exact absurd (UInt64.toNat_inj.mp hlen) hz
  | cons c below =>
    obtain ⟨hheight'', -, htip'⟩ := hst.top hchain
    obtain rfl : height = c.header.height := Except.ok.inj (hheight.symm.trans hheight'')
    obtain rfl : tip = c.header.hash P :=
      Option.some.inj (Except.ok.inj (htip.symm.trans htip'))
    obtain rfl : c = block := by
      rcases hst.read (b := c) (by rw [hchain]; exact List.mem_cons_self) with hread | ⟨hread, -⟩
      · simpa using hread.symm.trans hb
      · cases hread.symm.trans hb
    exact ⟨below, rfl, rfl, rfl⟩

/-- **One call keeps what is stored.** -/
theorem Stored.call (hapart : HashesApart P blocks) (hst : Stored P m blocks h) (c : StoreCall)
    (hmem : ∀ b ∈ offered [c], b ∈ blocks)
    (hroom : h.chain.length + (offered [c]).length < 2 ^ 64) :
    Stored P m blocks (h.call P m c).2 := by
  cases c with
  | apply block =>
    simp only [ChainHistory.call]
    cases hr : (applyBlock P m block).run h.store with
    | ok u s' =>
      obtain ⟨hhdr, s₁, htxs, rfl⟩ := applyBlock_ok.mp hr
      have hcommitted := hst.committed hapart (hmem block List.mem_cons_self)
        (headerChecks_ok.mp hhdr) hroom fun cf hcf => applyTransactions_data hcf htxs
      unfold finishBlock
      dsimp only
      split
      · exact hcommitted.pruned hapart (getBlockHeight_commitBlock P block s₁)
      · exact hcommitted
    | error e s' =>
      refine hst.of_sameRest fun cf hcf => ?_
      rcases applyBlock_error.mp hr with ⟨-, rfl⟩ | ⟨-, htxs⟩
      · rfl
      · exact (Keeps.forM (keeps_applyTransaction hcf) _).of_error htxs
  | revert =>
    simp only [ChainHistory.call]
    rcases revertBlock_cases P h.store with
      ⟨e, t, hr, hrest⟩ | ⟨height, tip, block, t, hh, hz, ht, hb, -, hrest, hr⟩
    · rw [hr]
      exact hst.of_sameRest hrest
    · obtain ⟨below, hchain, rfl, rfl⟩ := hst.newest hh hz ht hb
      rw [hr, hchain]
      exact hst.unrecorded hapart hchain hrest
  | prune =>
    obtain ⟨height, hheight, -⟩ := hst.height
    simp only [ChainHistory.call, hheight]
    exact hst.pruned hapart hheight

theorem Stored.run (hapart : HashesApart P blocks) {calls : List StoreCall}
    (hmem : ∀ b ∈ offered calls, b ∈ blocks)
    (hroom : h.chain.length + (offered calls).length < 2 ^ 64) (hst : Stored P m blocks h) :
    Stored P m blocks (h.run P m calls) := by
  induction calls generalizing h with
  | nil => exact hst
  | cons c calls ih =>
    rw [← List.singleton_append, offered_append] at hmem hroom
    rw [List.length_append] at hroom
    have hlen := h.length_chain_call_le (P := P) (m := m) c
    exact ih (fun b hb => hmem b (List.mem_append_right _ hb)) (by omega)
      (hst.call hapart c (fun b hb => hmem b (List.mem_append_left _ hb)) (by omega))

end Steps

/-! ### What can be read -/

/-- The height is at most the current one, and at least one and the greatest height ever reached
less the blocks retained. -/
def InWindow (m : StateManager) (h : ChainHistory) (height : UInt64) : Prop :=
  max 1 (h.highest - m.pruningPolicy.blockRetentionCount.toNat) ≤ height.toNat ∧
    ∃ current, getBlockHeight h.store = .ok current ∧ height ≤ current

/-- What can be read of the store is one linked chain. -/
structure OneChain (P : Platform) (m : StateManager) (h : ChainHistory) : Prop where
  found : ∀ height, InWindow m h height →
    ∃ b, getBlockByHeight P height h.store = .ok (some b) ∧ b.header.height = height
  linked : ∀ height b b', InWindow m h height → InWindow m h (height + 1) →
    getBlockByHeight P height h.store = .ok (some b) →
    getBlockByHeight P (height + 1) h.store = .ok (some b') → ChildOf P b b'
  tip : ∀ current b, getBlockHeight h.store = .ok current →
    getBlockByHeight P current h.store = .ok (some b) →
      getChainTip h.store = .ok (some (b.header.hash P))
  above : ∀ current height, getBlockHeight h.store = .ok current → current < height →
    getBlockByHeight P height h.store = .ok none
  range : ∀ lo hi, InWindow m h lo → InWindow m h hi → lo ≤ hi →
    Stretch P lo.toNat (getBlocksByHeightRange P lo hi h.store) ∧
      (lo.toNat + 49 < 2 ^ 64 → (getBlocksByHeightRange P lo hi h.store).length =
        min 50 (hi.toNat - lo.toNat + 1))

section Reading

variable {blocks : List Block} {h : ChainHistory}

theorem getBlockByHeight_of_index {b : Block}
    (hi : s.get .blocks (toBeBytes b.header.height) = some (bodyKey P b)) :
    getBlockByHeight P b.header.height s = getBlock P (b.header.hash P) s := by
  have hlen : (bodyKey P b).length = 32 := (b.header.hash P).bytes.length_eq
  rw [getBlockByHeight, hi]
  simp only [hlen, dif_pos]
  rfl

theorem getBlockByHeight_of_stored (hst : Stored P m blocks h) {b : Block} (hb : b ∈ h.chain) :
    getBlockByHeight P b.header.height h.store = getBlock P (b.header.hash P) h.store :=
  getBlockByHeight_of_index (hst.index b hb)

theorem mem_chain_of_found (hst : Stored P m blocks h) {height : UInt64} {b : Block}
    (hfound : getBlockByHeight P height h.store = .ok (some b)) :
    b ∈ h.chain ∧ b.header.height = height := by
  by_cases hat : ∃ c ∈ h.chain, c.header.height = height
  · obtain ⟨c, hc, rfl⟩ := hat
    rw [getBlockByHeight_of_stored hst hc] at hfound
    rcases hst.read hc with hread | ⟨hread, -⟩
    · obtain rfl : c = b := by simpa using hread.symm.trans hfound
      exact ⟨hc, rfl⟩
    · cases hread.symm.trans hfound
  · rw [getBlockByHeight, hst.vacant height fun c hc he => hat ⟨c, hc, he⟩] at hfound
    cases hfound

theorem exists_of_inWindow (hst : Stored P m blocks h) {height : UInt64}
    (hw : InWindow m h height) :
    ∃ b ∈ h.chain, b.header.height = height ∧
      getBlockByHeight P height h.store = .ok (some b) := by
  obtain ⟨hlow, current, hcurrent, hle⟩ := hw
  have hlen := hst.height_eq hcurrent
  rw [UInt64.le_iff_toNat_le, hlen] at hle
  obtain ⟨b, hb, hbn⟩ := hst.linked.exists_height (n := height.toNat) (by omega) hle
  obtain rfl : b.header.height = height := UInt64.toNat_inj.mp hbn
  refine ⟨b, hb, rfl, ?_⟩
  rw [getBlockByHeight_of_stored hst hb]
  rcases hst.read hb with hread | ⟨-, hpruned⟩
  · exact hread
  · omega

/-- Heights at each of which the chain has a block that is found: reading them gives a stretch. -/
theorem stretch_blocksFrom {chain : List Block} (hl : Linked P chain) (n : ℕ) (lo : UInt64)
    (hend : lo.toNat + n ≤ 2 ^ 64)
    (hfound : ∀ height : UInt64, lo.toNat ≤ height.toNat → height.toNat < lo.toNat + n →
      ∃ b ∈ chain, b.header.height = height ∧ getBlockByHeight P height s = .ok (some b)) :
    Stretch P lo.toNat (blocksFrom P s n lo) ∧ (blocksFrom P s n lo).length = n ∧
      ∀ b ∈ blocksFrom P s n lo, b ∈ chain := by
  induction n generalizing lo with
  | zero => exact ⟨stretch_nil _, rfl, by simp [blocksFrom]⟩
  | succ n ih =>
    obtain ⟨b, hb, hheight, hget⟩ := hfound lo le_rfl (by omega)
    simp only [blocksFrom, hget]
    rcases Nat.eq_zero_or_pos n with rfl | hpos
    · refine ⟨(stretch_nil _).cons (congrArg _ hheight) (by simp [blocksFrom]), rfl,
        fun c hc => ?_⟩
      obtain rfl := List.mem_singleton.mp hc
      exact hb
    · have hnext : (lo + 1).toNat = lo.toNat + 1 :=
        toNat_add_of_lt (by simp only [UInt64.reduceToNat]; omega)
      obtain ⟨hstretch, hlen, hmem⟩ := ih (lo + 1) (by omega)
        fun height hlow hhigh => hfound height (by omega) (by omega)
      rw [hnext] at hstretch
      refine ⟨hstretch.cons (congrArg _ hheight) fun b' hb' => ?_, by rw [List.length_cons, hlen],
        fun c hc => ?_⟩
      · refine hl.childOf hb (hmem b' (List.mem_of_mem_head? hb')) ?_
        rw [hstretch.head_height hb', hheight]
      · rcases List.mem_cons.mp hc with rfl | hc
        · exact hb
        · exact hmem c hc

theorem stretch_getBlocksByHeightRange (hst : Stored P m blocks h) {lo hi : UInt64}
    (hlo : InWindow m h lo) (hhi : InWindow m h hi) (hle : lo ≤ hi) :
    Stretch P lo.toNat (getBlocksByHeightRange P lo hi h.store) ∧
      (lo.toNat + 49 < 2 ^ 64 → (getBlocksByHeightRange P lo hi h.store).length =
        min 50 (hi.toNat - lo.toNat + 1)) := by
  rw [UInt64.le_iff_toNat_le] at hle
  simp only [getBlocksByHeightRange, UInt64.le_iff_toNat_le, toNat_min]
  by_cases hwrap : lo.toNat + 49 < 2 ^ 64
  · have hlast : (lo + 49).toNat = lo.toNat + 49 := toNat_add_of_lt (by simpa using hwrap)
    rw [hlast, if_pos (by omega)]
    obtain ⟨hstretch, hlen, -⟩ := stretch_blocksFrom (s := h.store) hst.linked
      (min hi.toNat (lo.toNat + 49) - lo.toNat + 1) lo (by omega)
      fun height hlow hhigh => exists_of_inWindow hst ⟨hlo.1.trans hlow, by
        obtain ⟨-, current, hcurrent, hhi⟩ := hhi
        refine ⟨current, hcurrent, ?_⟩
        rw [UInt64.le_iff_toNat_le] at hhi ⊢
        omega⟩
    exact ⟨hstretch, fun _ => by omega⟩
  · -- `from + 49` has gone around, and the range is empty
    have hsum : (lo + 49).toNat = (lo.toNat + 49) % 2 ^ 64 := UInt64.toNat_add _ _
    rw [if_neg (by omega)]
    exact ⟨stretch_nil _, fun hlt => absurd hlt hwrap⟩

theorem Stored.oneChain (hst : Stored P m blocks h) : OneChain P m h where
  found height hw := by
    obtain ⟨b, -, hheight, hget⟩ := exists_of_inWindow hst hw
    exact ⟨b, hget, hheight⟩
  linked height b b' hw hw' hb hb' := by
    obtain ⟨hmem, hheight⟩ := mem_chain_of_found hst hb
    obtain ⟨hmem', hheight'⟩ := mem_chain_of_found hst hb'
    have hlow := hw'.1
    have hsmall := height.toNat_lt
    have hsum : (height + 1).toNat = (height.toNat + 1) % 2 ^ 64 := UInt64.toNat_add _ _
    refine hst.linked.childOf hmem hmem' ?_
    rw [hheight, hheight']
    omega
  tip current b hcurrent hb := by
    obtain ⟨hmem, hheight⟩ := mem_chain_of_found hst hb
    have hlen := hst.height_eq hcurrent
    obtain ⟨tip, htip, hnewest⟩ := hst.tip
    obtain ⟨c, below, hchain⟩ := List.exists_cons_of_ne_nil (List.ne_nil_of_mem hmem)
    have hc : c ∈ h.chain := by
      rw [hchain]
      exact List.mem_cons_self
    have hlinked := hst.linked
    rw [hchain] at hlinked
    obtain rfl : b = c := by
      refine hst.linked.eq_of_height hmem hc ?_
      rw [hheight, hlen, hchain, hlinked.1, List.length_cons]
    rw [htip, hnewest b (by rw [hchain]; rfl)]
  above current height hcurrent hlt := by
    have hlen := hst.height_eq hcurrent
    rw [getBlockByHeight, hst.vacant height fun b hb he => ?_]
    have := (hst.linked.height_le hb).2
    rw [UInt64.lt_iff_toNat_lt, ← he] at hlt
    omega
  range lo hi hlo hhi hle := stretch_getBlocksByHeightRange hst hlo hhi hle

/-- **The store holds one chain.**  Along every run of blocks applied or refused, reverts and
pruning, with fewer than `2 ^ 64` blocks offered, the store can be read as one linked chain. -/
theorem store_holds_one_chain (P : Platform) (m : StateManager) {s : InMemoryStore} (hs : NoChain s)
    {calls : List StoreCall} (hapart : HashesApart P (offered calls))
    (hroom : (offered calls).length < 2 ^ 64) :
    OneChain P m (ChainHistory.run P m ⟨s, [], 0⟩ calls) :=
  ((stored_start hs (offered calls)).run hapart (fun _ hb => hb) (by simpa using hroom)).oneChain

end Reading

open Reference

def childOfBlock (parent : Block) (producer : UInt8) : Block :=
  blockOf (headerAt (parent.header.height + 1) (parent.header.hash reference)
    (node producer)) []

def firstBlock : Block := blockOf (headerAt 1 {} (node 1)) []

/-- Two blocks; the second is reverted, refused in a wrong place and replaced by another; and a
pruning cycle. -/
def forkCalls : List StoreCall :=
  [.apply firstBlock, .apply (childOfBlock firstBlock 1), .revert,
    .apply (childOfBlock (childOfBlock firstBlock 1) 1), .apply (childOfBlock firstBlock 2), .prune]

/-- After the fork the chain is the first block and the replacement. -/
theorem store_holds_one_chain_fork :
    (ChainHistory.run reference {} ⟨.new, [], 0⟩ forkCalls).chain =
      [childOfBlock firstBlock 2, firstBlock] ∧
    OneChain reference {} (ChainHistory.run reference {} ⟨.new, [], 0⟩ forkCalls) := by
  exact ⟨by decide +kernel,
    store_holds_one_chain reference {} ⟨rfl, rfl⟩ (by decide +kernel) (by decide)⟩

/-! ### Past the last height -/

/-- A platform whose hash is the first 32 bytes, so that a header's hash tells its height. -/
def plainPlatform : Platform :=
  { reference with
    sha256 := fun bs => ⟨(bs ++ List.replicate 32 0).take 32, by simp⟩ }

def emptyBlock : ℕ → Block
  | 0 => firstBlock
  | n + 1 => blockOf (headerAt (UInt64.ofNat (n + 2))
      ((emptyBlock n).header.hash plainPlatform) (node 1)) []

def emptyBlocks (n : ℕ) : List StoreCall := (List.range n).map fun i => .apply (emptyBlock i)

theorem height_emptyBlock : ∀ n, (emptyBlock n).header.height = UInt64.ofNat (n + 1)
  | 0 => rfl
  | _ + 1 => rfl

theorem transactions_emptyBlock : ∀ n, (emptyBlock n).transactions = []
  | 0 => rfl
  | _ + 1 => rfl

theorem emptyBlocks_succ (n : ℕ) :
    emptyBlocks (n + 1) = emptyBlocks n ++ [.apply (emptyBlock n)] := by
  simp [emptyBlocks, List.range_succ]

theorem offered_emptyBlocks (n : ℕ) : offered (emptyBlocks n) = (List.range n).map emptyBlock := by
  simp [offered, emptyBlocks, List.filterMap_map]

theorem height_eq_of_hash_eq {a b : BlockHeader}
    (h : a.hash plainPlatform = b.hash plainPlatform) : a.height = b.height := by
  have hput : ∀ c : BlockHeader, (c.hash plainPlatform).bytes.bytes.take 8 =
      Codec.u64.put c.height := by
    intro c
    obtain ⟨rest, hrest⟩ : ∃ rest, plainPlatform.header.put c =
        Codec.u64.put c.height ++ rest := ⟨_, rfl⟩
    have hlen : (Codec.u64.put c.height).length = 8 := length_leBytes _ _
    show ((plainPlatform.header.put c ++ List.replicate 32 0).take 32).take 8 = _
    rw [hrest, List.take_take, List.append_assoc, List.take_append_of_le_length (by simp [hlen]),
      List.take_of_length_le (by simp [hlen])]
  refine Codec.u64.put_injective ?_
  rw [← hput a, ← hput b, h]

theorem hashesApart_emptyBlocks {n : ℕ} (hn : n ≤ 2 ^ 64) :
    HashesApart plainPlatform (offered (emptyBlocks n)) := by
  intro b hb b' hb' hhash
  rw [offered_emptyBlocks] at hb hb'
  obtain ⟨i, hi, rfl⟩ := List.mem_map.mp hb
  obtain ⟨j, hj, rfl⟩ := List.mem_map.mp hb'
  rw [List.mem_range] at hi hj
  have hheight := congrArg UInt64.toNat (height_eq_of_hash_eq hhash)
  simp only [height_emptyBlock, UInt64.toNat_ofNat'] at hheight
  obtain rfl : i = j := by omega
  rfl

def emptyHistory (n : ℕ) : ChainHistory :=
  ChainHistory.run plainPlatform {} ⟨.new, [], 0⟩ (emptyBlocks n)

theorem stored_emptyHistory {n : ℕ} (hn : n < 2 ^ 64) :
    Stored plainPlatform {} (offered (emptyBlocks n)) (emptyHistory n) := by
  refine (stored_start ⟨rfl, rfl⟩ _).run (hashesApart_emptyBlocks hn.le) (fun _ hb => hb) ?_
  simpa [offered_emptyBlocks] using hn

theorem call_emptyBlock {n : ℕ} {blocks : List Block} {h : ChainHistory}
    (hst : Stored plainPlatform {} blocks h)
    (hchain : h.chain = ((List.range n).map emptyBlock).reverse) :
    h.call plainPlatform {} (.apply (emptyBlock n)) =
      (none, ⟨finishBlock plainPlatform {} (emptyBlock n) h.store, emptyBlock n :: h.chain,
        max h.highest (emptyBlock n).header.height.toNat⟩) := by
  obtain ⟨height, hheight, hlen⟩ := hst.height
  obtain ⟨tip, htip, hnewest⟩ := hst.tip
  have hnat : height.toNat = n := by simpa [hchain] using hlen
  have hfits : Fits (emptyBlock n) h.store := by
    refine ⟨height, tip, hheight, htip, ?_, fun hpos p hp => ?_⟩
    · rw [height_emptyBlock, UInt64.ofNat_add, ← hnat, UInt64.ofNat_toNat]
      rfl
    · rw [UInt64.lt_iff_toNat_lt, hnat] at hpos
      obtain ⟨k, rfl⟩ := Nat.exists_eq_succ_of_ne_zero hpos.ne'
      have hhead := hnewest (emptyBlock k) (by simp [hchain, List.range_succ])
      rw [hhead] at hp
      cases hp
      rfl
  have hrun : (applyBlock plainPlatform {} (emptyBlock n)).run h.store =
      .ok () (finishBlock plainPlatform {} (emptyBlock n) h.store) := by
    refine applyBlock_ok.mpr ⟨headerChecks_ok.mpr hfits, h.store, ?_, rfl⟩
    rw [transactions_emptyBlock]
    rfl
  simp only [ChainHistory.call, hrun]

theorem emptyHistory_succ {n : ℕ} (hn : n < 2 ^ 64)
    (hchain : (emptyHistory n).chain = ((List.range n).map emptyBlock).reverse) :
    emptyHistory (n + 1) =
      ⟨finishBlock plainPlatform {} (emptyBlock n) (emptyHistory n).store,
        emptyBlock n :: (emptyHistory n).chain,
        max (emptyHistory n).highest (emptyBlock n).header.height.toNat⟩ := by
  have hcall := call_emptyBlock (stored_emptyHistory hn) hchain
  rw [emptyHistory, emptyBlocks_succ, ChainHistory.run_append, ← emptyHistory]
  exact congrArg Prod.snd hcall

theorem chain_emptyHistory {n : ℕ} (hn : n ≤ 2 ^ 64) :
    (emptyHistory n).chain = ((List.range n).map emptyBlock).reverse := by
  induction n with
  | zero => rfl
  | succ n ih =>
    have hprev := ih (by omega)
    rw [emptyHistory_succ (by omega) hprev, hprev]
    simp [List.range_succ]

theorem get_finishBlock_of_le {block : Block}
    (hle : block.header.height ≤ m.pruningPolicy.blockRetentionCount) (k : Bytes) :
    (finishBlock P m block s).get .blocks k = (commitBlock P block s).get .blocks k := by
  rw [UInt64.le_iff_toNat_le] at hle
  unfold finishBlock
  dsimp only
  split
  · rw [Pruning.get_runPruningCycle_blocks, Nat.sub_eq_zero_of_le hle, if_neg (by simp)]
  · rfl

/-- After `2 ^ 64` empty blocks the height is zero, and the block at the last height is found. -/
theorem found_above_height {n : ℕ} (hn : n + 1 = 2 ^ 64) :
    getBlockHeight (emptyHistory (n + 1)).store = .ok 0 ∧
      ∃ b, getBlockByHeight plainPlatform 18446744073709551615 (emptyHistory (n + 1)).store =
        .ok (some b) := by
  have hst := stored_emptyHistory (n := n) (by omega)
  have hchain := chain_emptyHistory (n := n) (by omega)
  have hzero : (emptyBlock n).header.height = 0 := by
    rw [height_emptyBlock, hn]
    rfl
  rw [emptyHistory_succ (by omega) hchain]
  refine ⟨by rw [getBlockHeight_finishBlock, hzero], ?_⟩
  -- before the last block, the last height is the current one
  have hlast : InWindow {} (emptyHistory n) 18446744073709551615 := by
    obtain ⟨current, hcurrent, hlen⟩ := hst.height
    refine ⟨?_, current, hcurrent, ?_⟩
    · have := hst.counted
      simp only [UInt64.reduceToNat]
      omega
    · rw [UInt64.le_iff_toNat_le, hlen, hchain]
      simp
      omega
  obtain ⟨b, hb, hheight, hread⟩ := exists_of_inWindow hst hlast
  refine ⟨b, ?_⟩
  have hne : (emptyBlock n).header.height ≠ b.header.height := by
    rw [hzero, hheight]
    decide
  have hprunes : (emptyBlock n).header.height ≤
      ({} : StateManager).pruningPolicy.blockRetentionCount := by
    rw [hzero]
    decide
  have hindex : (finishBlock plainPlatform {} (emptyBlock n) (emptyHistory n).store).get .blocks
      (toBeBytes b.header.height) = some (bodyKey plainPlatform b) := by
    rw [get_finishBlock_of_le hprunes, get_commitBlock_index_ne hne, hst.index b hb]
  have hbody : (finishBlock plainPlatform {} (emptyBlock n) (emptyHistory n).store).get .blocks
      (bodyKey plainPlatform b) = (emptyHistory n).store.get .blocks (bodyKey plainPlatform b) := by
    rw [get_finishBlock_of_le hprunes, get_commitBlock_body_ne fun he => hne ?_]
    exact height_eq_of_hash_eq (BlockHash.bytes_injective (Bytes32.bytes_injective he))
  rw [← hheight, getBlockByHeight_of_stored hst hb] at hread
  rw [← hheight, getBlockByHeight_of_index hindex, ← hread]
  unfold bodyKey at hbody
  simp only [getBlock, hbody]

/-- **One block too many.**  `2 ^ 64` empty blocks, whose hashes differ, bring the height back to
zero with a block still found at the last height. -/
theorem block_found_above_wrapped_height :
    HashesApart plainPlatform (offered (emptyBlocks (2 ^ 64))) ∧
    ¬ OneChain plainPlatform {} (ChainHistory.run plainPlatform {} ⟨.new, [], 0⟩
      (emptyBlocks (2 ^ 64))) := by
  refine ⟨hashesApart_emptyBlocks le_rfl, fun hone => ?_⟩
  obtain ⟨hheight, b, hb⟩ := found_above_height (n := 2 ^ 64 - 1) (by norm_num)
  cases (hone.above 0 18446744073709551615 hheight (by decide)).symm.trans hb

end StateManager

end Gratia
