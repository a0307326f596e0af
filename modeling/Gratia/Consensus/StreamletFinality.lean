import Gratia.Consensus.StreamletCalls

/-!
# Consensus — Streamlet finality

The three-in-a-row rule: when three notarized blocks at heights `h`, `h + 1` and `h + 2` extend each
other (`ChainAt`), the block at `h + 1` is final.  `check_finality` looks at the heights above the
final one only, stops at the first that begins a row of notarized blocks (`FirstRow`), and is not
called unless the vote notarizes its block.
-/

namespace Gratia

open Support (Bytes)
open Std

namespace StreamletState

variable {s : StreamletState} {h : UInt64}

/-! ### The scan -/

theorem mem_heightRange {start stop : UInt64} :
    h ∈ heightRange start stop ↔ start ≤ h ∧ h ≤ stop := by
  simp only [heightRange, List.mem_map, List.mem_range, UInt64.le_iff_toNat_le]
  constructor
  · rintro ⟨i, hi, rfl⟩
    have hstop := stop.toNat_lt
    have hadd : (start + UInt64.ofNat i).toNat = start.toNat + i := by
      rw [UInt64.toNat_add, UInt64.toNat_ofNat']
      omega
    rw [hadd]
    omega
  · rintro ⟨hstart, hstop⟩
    refine ⟨h.toNat - start.toNat, by omega, ?_⟩
    have hlt := h.toNat_lt
    apply UInt64.toNat_inj.mp
    rw [UInt64.toNat_add, UInt64.toNat_ofNat']
    omega

theorem pairwise_heightRange (start stop : UInt64) :
    (heightRange start stop).Pairwise (· < ·) := by
  refine List.pairwise_map.mpr (List.pairwise_lt_range.imp_of_mem ?_)
  intro i j hi hj hij
  have hstop := stop.toNat_lt
  rw [List.mem_range] at hi hj
  rw [UInt64.lt_iff_toNat_lt, UInt64.toNat_add, UInt64.toNat_add, UInt64.toNat_ofNat',
    UInt64.toNat_ofNat']
  omega

/-- There are notarized blocks at this height and the two above it. -/
def RowAt (s : StreamletState) (h : UInt64) : Prop :=
  (s.getNotarizedAt h).isSome ∧ (s.getNotarizedAt (h + 1)).isSome ∧
    (s.getNotarizedAt (h + 2)).isSome

/-- The lowest row between the final block and the highest notarized one begins at this height. -/
structure FirstRow (s : StreamletState) (h : UInt64) : Prop where
  above : s.finalizedHeight < h
  below : h < s.highestNotarizedHeight
  row : s.RowAt h
  first : ∀ k, s.finalizedHeight < k → k < h → ¬ s.RowAt k

theorem FirstRow.le {k : UInt64} (hh : s.FirstRow h) (hk : s.FirstRow k) : h ≤ k := by
  rw [← UInt64.not_lt]
  exact fun hlt => hh.first k hk.above hlt hk.row

def scanned (s : StreamletState) : List UInt64 :=
  heightRange (s.finalizedHeight + 1)
    (if s.highestNotarizedHeight = 0 then 0 else s.highestNotarizedHeight - 1)

def finalAt (s : StreamletState) (h : UInt64) : Option (UInt64 × Bytes32) :=
  match s.getNotarizedAt h, s.getNotarizedAt (h + 1), s.getNotarizedAt (h + 2) with
  | some _, some middleHash, some _ =>
    if h + 1 > s.finalizedHeight then some (h + 1, middleHash) else none
  | _, _, _ => none

theorem nextFinal_eq (s : StreamletState) : s.nextFinal = s.scanned.findSome? s.finalAt := rfl

variable {newFinalized : UInt64} {middleHash : Bytes32}

theorem finalAt_some (hf : s.finalAt h = some (newFinalized, middleHash)) :
    s.RowAt h ∧ s.finalizedHeight < h + 1 ∧ newFinalized = h + 1 := by
  unfold finalAt at hf
  split at hf
  · next h₀ h₁ h₂ =>
      split at hf
      · next hgt =>
          cases hf
          exact ⟨⟨by simp [h₀], by simp [h₁], by simp [h₂]⟩, hgt, rfl⟩
      · cases hf
  · cases hf

theorem RowAt.finalAt_ne_none (hrow : s.RowAt h) (hgt : s.finalizedHeight < h + 1) :
    s.finalAt h ≠ none := by
  obtain ⟨h₀, h₁, h₂⟩ := hrow
  obtain ⟨a, h₀⟩ := Option.isSome_iff_exists.mp h₀
  obtain ⟨b, h₁⟩ := Option.isSome_iff_exists.mp h₁
  obtain ⟨c, h₂⟩ := Option.isSome_iff_exists.mp h₂
  simp [finalAt, h₀, h₁, h₂, hgt]

theorem mem_scanned : h ∈ s.scanned ∧ s.finalizedHeight < h + 1 ↔
    s.finalizedHeight < h ∧ h < s.highestNotarizedHeight := by
  have hfinal := s.finalizedHeight.toNat_lt
  have hhighest := s.highestNotarizedHeight.toNat_lt
  have hlt := h.toNat_lt
  have hzero : s.highestNotarizedHeight = 0 ↔ s.highestNotarizedHeight.toNat = 0 :=
    UInt64.toNat_inj.symm
  rw [scanned, mem_heightRange]
  simp only [UInt64.le_iff_toNat_le, UInt64.lt_iff_toNat_lt, UInt64.toNat_add, UInt64.toNat_one]
  split
  · next hz =>
      have := hzero.mp hz
      simp only [UInt64.toNat_zero]
      omega
  · next hz =>
      have := mt hzero.mpr hz
      rw [UInt64.toNat_sub, UInt64.toNat_one]
      omega

theorem nextFinal_none (hnone : s.nextFinal = none) (hfirst : s.FirstRow h) : False := by
  obtain ⟨hmem, hgt⟩ := mem_scanned.mpr ⟨hfirst.above, hfirst.below⟩
  rw [nextFinal_eq, List.findSome?_eq_none_iff] at hnone
  exact hfirst.row.finalAt_ne_none hgt (hnone h hmem)

theorem nextFinal_firstRow (hsome : s.nextFinal = some (newFinalized, middleHash)) :
    ∃ h, s.FirstRow h ∧ newFinalized = h + 1 := by
  rw [nextFinal_eq, List.findSome?_eq_some_iff] at hsome
  obtain ⟨before, h, after, hscan, hfinal, hbefore⟩ := hsome
  obtain ⟨hrow, hgt, rfl⟩ := finalAt_some hfinal
  obtain ⟨habove, hbelow⟩ := mem_scanned.mp ⟨by simp [hscan], hgt⟩
  refine ⟨h, ⟨habove, hbelow, hrow, fun k hk hkh hrowk => ?_⟩, rfl⟩
  obtain ⟨hmem, hgtk⟩ := mem_scanned.mpr ⟨hk, UInt64.lt_trans hkh hbelow⟩
  -- a lower height was scanned before
  have hsorted := pairwise_heightRange (s.finalizedHeight + 1)
    (if s.highestNotarizedHeight = 0 then 0 else s.highestNotarizedHeight - 1)
  change s.scanned.Pairwise _ at hsorted
  rw [hscan] at hmem hsorted
  rcases List.mem_append.mp hmem with hmem | hmem
  · exact hrowk.finalAt_ne_none hgtk (hbefore k hmem)
  · rcases List.mem_cons.mp hmem with rfl | hmem
    · exact UInt64.lt_irrefl _ hkh
    · have hlt := List.rel_of_pairwise_cons (List.pairwise_append.mp hsorted).2.1 hmem
      exact UInt64.lt_asymm hkh hlt

theorem lt_add_one_iff_of_lt {k highest : UInt64} (hk : k < highest) : h < k + 1 ↔ h ≤ k := by
  have := highest.toNat_lt
  rw [UInt64.lt_iff_toNat_lt] at hk ⊢
  rw [UInt64.toNat_add, UInt64.toNat_one, UInt64.le_iff_toNat_le]
  omega

theorem Filed.getElem?_checkFinality (hs : Filed s) {hash : Bytes32} {p : ProposedBlock} :
    s.checkFinality.2.proposedBlocks[hash]? = some p ↔
      s.proposedBlocks[hash]? = some p ∧ ¬ ∃ k, s.FirstRow k ∧ p.header.height ≤ k := by
  unfold checkFinality
  cases hnext : s.nextFinal with
  | none =>
    refine (and_iff_left ?_).symm
    rintro ⟨k, hk, -⟩
    exact nextFinal_none hnext hk
  | some next =>
    obtain ⟨newFinalized, middleHash⟩ := next
    obtain ⟨k, hk, rfl⟩ := nextFinal_firstRow hnext
    have hfiled : Filed { s with finalizedHeight := k + 1, finalizedHash := middleHash } :=
      hs.congr rfl fun _ => rfl
    refine hfiled.getElem?_pruneBelow.trans (and_congr_right fun _ => ?_)
    rw [← UInt64.not_lt, lt_add_one_iff_of_lt hk.below, not_iff_not]
    constructor
    · exact fun hle => ⟨k, hk, hle⟩
    · rintro ⟨k', hk', hle⟩
      exact UInt64.le_trans hle (hk'.le hk)

/-! ### Chains -/

/-- Three notarized blocks, each the parent of the next, the first of them at this height. -/
def ChainAt (s : StreamletState) (h : UInt64) : Prop :=
  ∃ (a b c : Bytes32) (p q r : ProposedBlock),
    (s.proposedBlocks[a]? = some p ∧ s.proposedBlocks[b]? = some q ∧
      s.proposedBlocks[c]? = some r) ∧
    (p.notarized = true ∧ q.notarized = true ∧ r.notarized = true) ∧
    (p.header.height = h ∧ q.header.height.toNat = h.toNat + 1 ∧
      r.header.height.toNat = h.toNat + 2) ∧
    q.header.parentHash.bytes = a ∧ r.header.parentHash.bytes = b

/-- The three-in-a-row rule is applied in full: the second block of every chain is final, or below
the final block. -/
def InFull (s : StreamletState) : Prop := ∀ h, s.ChainAt h → h < s.finalizedHeight

theorem Filed.chainAt_pruneBelow (hs : Filed s) {height : UInt64} :
    (s.pruneBelow height).ChainAt h ↔ s.ChainAt h ∧ height ≤ h := by
  constructor
  · rintro ⟨a, b, c, p, q, r, ⟨hp, hq, hr⟩, hnotarized, hheights, hparents⟩
    rw [hs.getElem?_pruneBelow] at hp hq hr
    refine ⟨⟨a, b, c, p, q, r, ⟨hp.1, hq.1, hr.1⟩, hnotarized, hheights, hparents⟩, ?_⟩
    rw [← hheights.1]
    exact hp.2
  · rintro ⟨⟨a, b, c, p, q, r, ⟨hp, hq, hr⟩, hnotarized, hheights, hparents⟩, hle⟩
    obtain ⟨hph, hqh, hrh⟩ := hheights
    rw [UInt64.le_iff_toNat_le] at hle
    refine ⟨a, b, c, p, q, r, ?_, hnotarized, ⟨hph, hqh, hrh⟩, hparents⟩
    simp only [hs.getElem?_pruneBelow, UInt64.le_iff_toNat_le, hph, hqh, hrh]
    exact ⟨⟨hp, hle⟩, ⟨hq, by omega⟩, ⟨hr, by omega⟩⟩

theorem Filed.chainAt_checkFinality (hs : Filed s)
    (hnext : s.nextFinal = some (newFinalized, middleHash)) :
    s.checkFinality.2.finalizedHeight = newFinalized ∧
      ∀ h, s.checkFinality.2.ChainAt h ↔ s.ChainAt h ∧ newFinalized ≤ h := by
  unfold checkFinality
  rw [hnext]
  refine ⟨rfl, fun h => ?_⟩
  have hfiled : Filed { s with finalizedHeight := newFinalized, finalizedHash := middleHash } :=
    hs.congr rfl fun _ => rfl
  exact hfiled.chainAt_pruneBelow

/-- Looking for finality applies the rule in full, if chains begin below the final block or not
above the row that is found. -/
theorem Filed.inFull_checkFinality (hs : Filed s) :
    s.checkFinality.2.InFull ↔
      ∀ h, s.ChainAt h → h < s.finalizedHeight ∨ ∃ k, s.FirstRow k ∧ h ≤ k := by
  cases hnext : s.nextFinal with
  | none =>
    -- there is no row: the final block stays, and so do all chains
    have hstays : s.checkFinality.2 = s := by
      rw [checkFinality, hnext]
    rw [hstays]
    refine forall₂_congr fun h _ => (or_iff_left ?_).symm
    rintro ⟨k, hk, -⟩
    exact nextFinal_none hnext hk
  | some next =>
    obtain ⟨newFinalized, middleHash⟩ := next
    obtain ⟨k, hk, rfl⟩ := nextFinal_firstRow hnext
    obtain ⟨hfinal, hchains⟩ := hs.chainAt_checkFinality hnext
    refine forall_congr' fun h => ?_
    rw [hchains, hfinal, ← UInt64.not_lt, lt_add_one_iff_of_lt hk.below]
    constructor
    · intro hfull hchain
      refine .inr ⟨k, hk, ?_⟩
      by_contra hgt
      exact hgt (hfull ⟨hchain, hgt⟩)
    · rintro hrow ⟨hchain, -⟩
      rcases hrow hchain with hbelow | ⟨k', hk', hle⟩
      · exact UInt64.le_of_lt (UInt64.lt_trans hbelow hk.above)
      · exact UInt64.le_trans hle (hk'.le hk)

/-- **When the rule is applied in full.**  After a vote every chain is final to its second block
exactly if every chain there is when the vote has been counted begins below the final block, or the
vote notarizes its block and the chain does not begin above the row that is found. -/
theorem finality_in_full_iff (hs : Reachable s) (vote : StreamletVote) :
    (s.addVote vote).2.InFull ↔ ∀ h, (s.tally vote).2.ChainAt h →
      h < s.finalizedHeight ∨
        (s.tally vote).1 = true ∧ ∃ k, (s.tally vote).2.FirstRow k ∧ h ≤ k := by
  have hfinal : (s.tally vote).2.finalizedHeight = s.finalizedHeight := (s.tally_frame vote).2.2.2.1
  rw [addVote_eq]
  split
  · next hjust =>
      simp only [hjust, true_and]
      rw [(hs.filed.tally vote).inFull_checkFinality, hfinal]
  · next hjust =>
      unfold InFull
      simp only [hjust, Bool.false_eq_true, false_and, or_false, hfinal]

/-! ### Four blocks in a chain -/

open Reference

def linkedBlock : ℕ → BlockHeader
  | 0 => headerAt 0 {} (node 1)
  | n + 1 => headerAt (UInt64.ofNat (n + 1)) ((linkedBlock n).hash reference)
      (node 1)

def linkedHash (n : ℕ) : Bytes32 := ((linkedBlock n).hash reference).bytes

def linkedVote (n : ℕ) : StreamletVote :=
  ⟨UInt64.ofNat n, linkedHash n, UInt64.ofNat n, ⟨node 1, []⟩⟩

/-- A node of a committee of one has voted for the blocks at heights `1` to `n` one after the other,
and hears of the next. -/
def linkedState (n : ℕ) : StreamletState :=
  (new (node 1) 1).run ((List.range n).flatMap (fun i =>
      [.addProposal (linkedBlock (i + 1)) (linkedHash (i + 1)) (UInt64.ofNat (i + 1)),
        .addVote (linkedVote (i + 1))]) ++
    [.addProposal (linkedBlock (n + 1)) (linkedHash (n + 1)) (UInt64.ofNat (n + 1))])

theorem reachable_linkedState (n : ℕ) : Reachable (linkedState n) := ⟨_, _, _, rfl⟩

/-- **The row at the final block is not looked at.**  When the fourth block is notarized, the second
is the final one, and it is followed by two notarized blocks of its chain. -/
theorem row_at_final_block_ignored :
    ((linkedState 3).addVote (linkedVote 4)).2.finalizedHeight = 2 ∧
      ((linkedState 3).addVote (linkedVote 4)).2.ChainAt 2 := by
  have hfacts :
      let s := ((linkedState 3).addVote (linkedVote 4)).2
      s.finalizedHeight = 2 ∧
        ∀ n ∈ [2, 3, 4], (s.proposedBlocks[linkedHash n]?.any fun p =>
          p.notarized && p.header = linkedBlock n) = true := by
    decide +kernel
  obtain ⟨hfinal, hstored⟩ := hfacts
  simp only [Option.any_eq_true, Bool.and_eq_true, decide_eq_true_eq] at hstored
  obtain ⟨p, hp, hpn, hpb⟩ := hstored 2 (by simp)
  obtain ⟨q, hq, hqn, hqb⟩ := hstored 3 (by simp)
  obtain ⟨r, hr, hrn, hrb⟩ := hstored 4 (by simp)
  refine ⟨hfinal, _, _, _, p, q, r, ⟨hp, hq, hr⟩, ⟨hpn, hqn, hrn⟩, ?_, ?_, ?_⟩
  · rw [hpb, hqb, hrb]
    exact ⟨rfl, rfl, rfl⟩
  · rw [hqb]
    rfl
  · rw [hrb]
    rfl

/-- With three blocks, the chain begins at the row that is found. -/
theorem finality_in_full_threeBlocks :
    ((linkedState 2).addVote (linkedVote 3)).2.InFull := by
  have hfacts :
      let t := (linkedState 2).tally (linkedVote 3)
      t.1 = true ∧ t.2.finalizedHeight = 0 ∧ t.2.highestNotarizedHeight = 3 ∧
        (t.2.getNotarizedAt 1).isSome = true ∧ (t.2.getNotarizedAt 2).isSome = true ∧
        (t.2.getNotarizedAt 3).isSome = true ∧
        (t.2.proposedBlocks.toList.all fun e => e.2.header.height ≤ 3) = true := by
    decide +kernel
  obtain ⟨hjust, hfinal, hhighest, hfirst, hsecond, hthird, hheights⟩ := hfacts
  rw [finality_in_full_iff (reachable_linkedState 2)]
  refine fun h hchain => .inr ⟨hjust, 1, ?_, ?_⟩
  · refine ⟨by rw [hfinal]; decide, by rw [hhighest]; decide, ⟨hfirst, hsecond, hthird⟩, ?_⟩
    intro k hk hk1
    rw [hfinal, UInt64.lt_iff_toNat_lt] at hk
    rw [UInt64.lt_iff_toNat_lt] at hk1
    simp at hk hk1
    omega
  · -- no block is above height 3, so no chain begins above height 1
    obtain ⟨a, b, c, p, q, r, ⟨-, -, hr⟩, -, ⟨-, -, hheight⟩, -⟩ := hchain
    have hle := List.all_eq_true.mp hheights (c, r)
      (ExtTreeMap.mem_toList_iff_getElem?_eq_some.mpr hr)
    rw [decide_eq_true_eq, UInt64.le_iff_toNat_le, hheight] at hle
    rw [UInt64.le_iff_toNat_le]
    simp at hle ⊢
    omega

end StreamletState

end Gratia
