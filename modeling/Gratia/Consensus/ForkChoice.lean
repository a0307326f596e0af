import Gratia.Consensus.Incoming
import Gratia.Support.Lists

/-!
# Consensus — Fork choice

`ForkResolver` of `gratia-consensus/src/lib.rs`.  The rule compares two blocks and is not an order:
two blocks below the finality threshold are left undecided, and then the block that is held is kept.
All the same it has a champion among blocks of which one at the greatest height is final
(`exists_winner`), and whoever meets the champion holds it from then on (`IsWinner.wins`).
-/

namespace Gratia

open Std

inductive ForkChoice where
  | keepOurs | switchToTheirs | needMoreInfo
deriving DecidableEq

variable (P : Platform)

/-- `ForkResolver::resolve_fork`; a header always has a hash here. -/
def resolveFork (ourBlock theirBlock : Block) (ourSigs theirSigs finalityThreshold : ℕ) :
    ForkChoice :=
  let ourHeight := ourBlock.header.height
  let theirHeight := theirBlock.header.height
  if ourHeight ≠ theirHeight then
    if theirHeight > ourHeight then .switchToTheirs else .keepOurs
  else if theirSigs > ourSigs ∧ theirSigs ≥ finalityThreshold then .switchToTheirs
  else if ourSigs > theirSigs ∧ ourSigs ≥ finalityThreshold then .keepOurs
  else if ourSigs = theirSigs ∧ ourSigs ≥ finalityThreshold then
    if compare (theirBlock.header.hash P).bytes (ourBlock.header.hash P).bytes = .lt then
      .switchToTheirs
    else .keepOurs
  else .needMoreInfo

def switches (sigs : Block → ℕ) (finalityThreshold : ℕ) (held met : Block) : Bool :=
  resolveFork P held met (sigs held) (sigs met) finalityThreshold = .switchToTheirs

/-- The block held after meeting these, one after the other, with a fixed number of signatures for
each block. -/
def followForks (sigs : Block → ℕ) (finalityThreshold : ℕ) (start : Block) (met : List Block) :
    Block :=
  Support.contest (switches P sigs finalityThreshold) start met

variable {P} in
/-- When a block is given up: for a higher one, or for one with the threshold at the same height
that has more signatures, or as many and a lower hash. -/
theorem switches_iff {sigs : Block → ℕ} {finalityThreshold : ℕ} {held met : Block} :
    switches P sigs finalityThreshold held met = true ↔
      held.header.height < met.header.height ∨
      held.header.height = met.header.height ∧ finalityThreshold ≤ sigs met ∧
        (sigs held < sigs met ∨ sigs held = sigs met ∧
          compare (met.header.hash P).bytes (held.header.hash P).bytes = .lt) := by
  unfold switches resolveFork
  simp only
  by_cases hheight : held.header.height = met.header.height
  · rw [if_neg (not_not.mpr hheight)]
    by_cases hfinal : finalityThreshold ≤ sigs met
    · rcases Nat.lt_trichotomy (sigs held) (sigs met) with hlt | heq | hgt
      · simp [hheight, hfinal, hlt]
      · by_cases hhash : compare (met.header.hash P).bytes (held.header.hash P).bytes = .lt
        · simp [hheight, hfinal, heq, hhash]
        · simp [hheight, hfinal, heq, hhash]
      · simp [hheight, hfinal, hgt, hgt.ne', hgt.le, hfinal.trans hgt.le]
    · -- Below the threshold the other block is not taken, whatever ours has.
      rw [if_neg fun h => hfinal h.2]
      by_cases hours : sigs held > sigs met ∧ sigs held ≥ finalityThreshold
      · simp [hours, hfinal, hheight]
      · have heq : ¬ (sigs held = sigs met ∧ sigs held ≥ finalityThreshold) := by
          rintro ⟨heq, hge⟩
          exact hfinal (heq ▸ hge)
        rw [if_neg hours, if_neg heq]
        simp [hfinal, hheight]
  · rw [if_pos hheight]
    by_cases hlt : held.header.height < met.header.height
    · simp [hlt]
    · simp [hlt, hheight]

/-! ### The winner -/

/-- The block of greatest height, with the most signatures of those, and of those the lowest
hash. -/
structure IsWinner (sigs : Block → ℕ) (blocks : List Block) (w : Block) : Prop where
  mem : w ∈ blocks
  height : ∀ b ∈ blocks, b.header.height ≤ w.header.height
  signatures : ∀ b ∈ blocks, b.header.height = w.header.height → sigs b ≤ sigs w
  hash : ∀ b ∈ blocks, b.header.height = w.header.height → sigs b = sigs w →
    (compare (w.header.hash P).bytes (b.header.hash P).bytes).isLE

/-- The order the winner is the least element of. -/
def forkOrder (sigs : Block → ℕ) : Block → Block → Ordering :=
  compareLex (fun a b => compareOn (fun b : Block => b.header.height.toNat) b a)
    (compareLex (fun a b => compareOn sigs b a)
      (compareOn fun b : Block => (b.header.hash P).bytes))

instance (sigs : Block → ℕ) : TransCmp (forkOrder P sigs) := by
  unfold forkOrder
  infer_instance

variable {P} {sigs : Block → ℕ} {blocks : List Block}

theorem exists_winner (hne : blocks ≠ []) : ∃ w, IsWinner P sigs blocks w := by
  obtain ⟨w, hw, hleast⟩ : ∃ w ∈ blocks, ∀ b ∈ blocks, (forkOrder P sigs w b).isLE :=
    Support.exists_least hne
  have horder : ∀ b ∈ blocks, b.header.height.toNat < w.header.height.toNat ∨
      b.header.height.toNat = w.header.height.toNat ∧ (sigs b < sigs w ∨ sigs b = sigs w ∧
        (compare (w.header.hash P).bytes (b.header.hash P).bytes).isLE) := by
    intro b hb
    have hb := hleast b hb
    simp only [forkOrder, compareLex, compareOn, Ordering.isLE_then_iff_or, Nat.compare_eq_lt,
      Nat.compare_eq_eq] at hb
    exact hb
  refine ⟨w, hw, fun b hb => ?_, fun b hb hheight => ?_, fun b hb hheight hsigs => ?_⟩
  · rw [UInt64.le_iff_toNat_le]
    rcases horder b hb with h | ⟨h, -⟩
    · exact h.le
    · exact h.le
  · rcases horder b hb with h | ⟨-, h | ⟨h, -⟩⟩
    · exact absurd (congrArg UInt64.toNat hheight) h.ne
    · exact h.le
    · exact h.le
  · rcases horder b hb with h | ⟨-, h | ⟨-, h⟩⟩
    · exact absurd (congrArg UInt64.toNat hheight) h.ne
    · exact absurd hsigs h.ne
    · exact h

theorem IsWinner.unique (hdistinct : (blocks.map fun b => b.header.hash P).Nodup) {w w' : Block}
    (hw : IsWinner P sigs blocks w) (hw' : IsWinner P sigs blocks w') : w' = w := by
  have hheight : w'.header.height = w.header.height :=
    UInt64.le_antisymm (hw.height w' hw'.mem) (hw'.height w hw.mem)
  have hsigs : sigs w' = sigs w :=
    Nat.le_antisymm (hw.signatures w' hw'.mem hheight) (hw'.signatures w hw.mem hheight.symm)
  have hle := hw.hash w' hw'.mem hheight hsigs
  have hle' := hw'.hash w hw.mem hheight.symm hsigs.symm
  have hbytes : (w.header.hash P).bytes = (w'.header.hash P).bytes :=
    LawfulEqOrd.eq_of_compare (OrientedCmp.isLE_antisymm hle hle')
  exact List.inj_on_of_nodup_map hdistinct hw'.mem hw.mem (BlockHash.bytes_injective hbytes.symm)

/-! ### The winner is a champion -/

variable {finalityThreshold : ℕ} {w b : Block}

theorem IsWinner.final (hw : IsWinner P sigs blocks w)
    (hfinal : ∃ b ∈ blocks, (∀ b' ∈ blocks, b'.header.height ≤ b.header.height) ∧
      finalityThreshold ≤ sigs b) : finalityThreshold ≤ sigs w := by
  obtain ⟨b, hb, hmax, hsigs⟩ := hfinal
  have hheight : b.header.height = w.header.height :=
    UInt64.le_antisymm (hw.height b hb) (hmax w hw.mem)
  exact hsigs.trans (hw.signatures b hb hheight)

theorem IsWinner.keeps (hw : IsWinner P sigs blocks w) (hb : b ∈ blocks) :
    ¬ switches P sigs finalityThreshold w b = true := by
  rw [switches_iff]
  rintro (hheight | ⟨hheight, -, hsigs | ⟨hsigs, hhash⟩⟩)
  · exact absurd (hw.height b hb) (UInt64.not_le.mpr hheight)
  · exact absurd (hw.signatures b hb hheight.symm) (Nat.not_le.mpr hsigs)
  · exact absurd (hw.hash b hb hheight.symm hsigs.symm) (OrientedCmp.not_isLE_of_lt hhash)

theorem IsWinner.wins (hdistinct : (blocks.map fun b => b.header.hash P).Nodup)
    (hw : IsWinner P sigs blocks w) (hfinal : finalityThreshold ≤ sigs w) (hb : b ∈ blocks)
    (hne : b ≠ w) : switches P sigs finalityThreshold b w = true := by
  rw [switches_iff]
  rcases UInt64.lt_or_eq_of_le (hw.height b hb) with hheight | hheight
  · exact .inl hheight
  refine .inr ⟨hheight, hfinal, ?_⟩
  rcases Nat.lt_or_eq_of_le (hw.signatures b hb hheight) with hsigs | hsigs
  · exact .inl hsigs
  refine .inr ⟨hsigs, ?_⟩
  by_contra hhash
  -- Hashes that are equal belong to one block.
  have hge := hw.hash b hb hheight hsigs
  have heq : compare (w.header.hash P).bytes (b.header.hash P).bytes = .eq := by
    cases hcmp : compare (w.header.hash P).bytes (b.header.hash P).bytes with
    | lt => exact absurd hcmp hhash
    | eq => rfl
    | gt => exact absurd hge (by simp [hcmp])
  have hbytes := BlockHash.bytes_injective (LawfulEqOrd.eq_of_compare heq)
  exact hne (List.inj_on_of_nodup_map hdistinct hb hw.mem hbytes.symm)

/-- **Fork choice converges.**  Let the blocks have different hashes, and some block of the greatest
height the finality threshold.  Then whatever block is held first, and in whatever order and however
often the others are met, the block held in the end is the winner. -/
theorem fork_choice_converges (sigs : Block → ℕ) (finalityThreshold : ℕ) {blocks : List Block}
    (hdistinct : (blocks.map fun b => b.header.hash P).Nodup)
    (hfinal : ∃ b ∈ blocks, (∀ b' ∈ blocks, b'.header.height ≤ b.header.height) ∧
      finalityThreshold ≤ sigs b) :
    ∃ w, (IsWinner P sigs blocks w ∧ ∀ w', IsWinner P sigs blocks w' → w' = w) ∧
      ∀ start ∈ blocks, ∀ met : List Block, (∀ b ∈ met, b ∈ blocks) →
        (∀ b ∈ blocks, b = start ∨ b ∈ met) →
        followForks P sigs finalityThreshold start met = w := by
  have hne : blocks ≠ [] := by
    obtain ⟨b, hb, -⟩ := hfinal
    exact List.ne_nil_of_mem hb
  obtain ⟨w, hw⟩ : ∃ w, IsWinner P sigs blocks w := exists_winner hne
  refine ⟨w, ⟨hw, fun w' hw' => hw.unique hdistinct hw'⟩, fun start hstart met hmet hall => ?_⟩
  exact Support.contest_eq_champion (S := {b | b ∈ blocks})
    (fun b hb hswitch => absurd hswitch (hw.keeps hb))
    (fun b hb hne => hw.wins hdistinct (hw.final hfinal) hb hne) hstart hmet (hall w hw.mem)

namespace Reference

def fork : List Block :=
  [blockOf (headerAt 2 {} (node 1)) [], blockOf (headerAt 2 {} (node 2)) [],
   blockOf (headerAt 2 {} (node 3)) [], blockOf (headerAt 1 {} (node 4)) []]

def forkSigs (b : Block) : ℕ := if b.header.producer = node 3 then 1 else 2

end Reference

open Reference

/-- Both of the two final blocks of the greatest height have two signatures, and the one that is
held in the end is the one with the lower hash. -/
theorem fork_choice_converges_fourBlocks :
    ∃ w, (IsWinner reference forkSigs fork w ∧
        ∀ w', IsWinner reference forkSigs fork w' → w' = w) ∧
      ∀ start ∈ fork, ∀ met : List Block, (∀ b ∈ met, b ∈ fork) →
        (∀ b ∈ fork, b = start ∨ b ∈ met) →
        followForks reference forkSigs 2 start met = w :=
  fork_choice_converges forkSigs 2 (by decide +kernel)
    ⟨blockOf (headerAt 2 {} (node 1)) [], by decide +kernel,
      by decide +kernel, by decide +kernel⟩

end Gratia
