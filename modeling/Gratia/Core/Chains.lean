import Gratia.Core.Crypto
import Gratia.Support.Lists
import Gratia.Support.Words

/-!
# Core — Chains

A stretch of a chain: blocks of consecutive heights, each of which names the hash of the one before
it as its parent.  Heights are counted as natural numbers, so that a stretch does not go around the
end of `u64`.
-/

namespace Gratia

open Support

/-- The second block names the first as its parent. -/
def ChildOf (P : Platform) (parent child : Block) : Prop :=
  child.header.parentHash = parent.header.hash P

instance (P : Platform) (parent child : Block) : Decidable (ChildOf P parent child) :=
  inferInstanceAs (Decidable (_ = _))

/-- The blocks have the heights `first`, `first + 1` and so on, and each is the child of the one
before it. -/
structure Stretch (P : Platform) (first : ℕ) (blocks : List Block) : Prop where
  heights : (blocks.map fun b => b.header.height.toNat) = List.range' first blocks.length
  links : blocks.IsChain (ChildOf P)

variable {P : Platform}

theorem stretch_nil (first : ℕ) : Stretch P first [] := ⟨rfl, .nil⟩

variable {blocks : List Block}

theorem Stretch.cons {first : ℕ} {b : Block} (hb : b.header.height.toNat = first)
    (hblocks : Stretch P (first + 1) blocks) (hchild : ∀ b' ∈ blocks.head?, ChildOf P b b') :
    Stretch P first (b :: blocks) := by
  refine ⟨?_, List.isChain_cons.mpr ⟨hchild, hblocks.links⟩⟩
  rw [List.map_cons, hb, hblocks.heights, List.length_cons, List.range'_succ]

theorem Stretch.head_height {first : ℕ} (h : Stretch P first blocks) {b : Block}
    (hb : b ∈ blocks.head?) : b.header.height.toNat = first := by
  cases blocks with
  | nil => cases hb
  | cons c blocks =>
    cases hb
    have := h.heights
    rw [List.map_cons, List.length_cons, List.range'_succ] at this
    exact (List.cons.inj this).1

theorem heights_of_isChain {b : Block}
    (hup : (b :: blocks).IsChain fun b b' => b'.header.height = b.header.height + 1)
    (hend : b.header.height.toNat + blocks.length < 2 ^ 64) :
    ((b :: blocks).map fun b => b.header.height.toNat) =
      List.range' b.header.height.toNat (b :: blocks).length := by
  induction blocks generalizing b with
  | nil => rfl
  | cons c blocks ih =>
    obtain ⟨hc, hrest⟩ := List.isChain_cons_cons.mp hup
    rw [List.length_cons] at hend
    have hnext : c.header.height.toNat = b.header.height.toNat + 1 := by
      rw [hc, toNat_add_of_lt]
      · rfl
      · simp only [UInt64.reduceToNat]
        omega
    rw [List.map_cons, ih hrest (by omega), hnext, List.length_cons (a := b), List.range'_succ]

theorem Stretch.of_links {b : Block}
    (hup : (b :: blocks).IsChain fun b b' => b'.header.height = b.header.height + 1)
    (hlinks : (b :: blocks).IsChain (ChildOf P))
    (hend : b.header.height.toNat + blocks.length < 2 ^ 64) :
    Stretch P b.header.height.toNat (b :: blocks) :=
  ⟨heights_of_isChain hup hend, hlinks⟩

/-! ### Chains from genesis -/

/-- A chain from its first block on, newest first: the heights count the blocks, and each is the
child of the one below it. -/
def Linked (P : Platform) : List Block → Prop
  | [] => True
  | b :: below =>
    b.header.height.toNat = below.length + 1 ∧ (∀ p ∈ below.head?, ChildOf P p b) ∧
      Linked P below

namespace Linked

variable {chain : List Block} {b b' : Block}

theorem height_le (hl : Linked P chain) (hb : b ∈ chain) :
    0 < b.header.height.toNat ∧ b.header.height.toNat ≤ chain.length := by
  induction chain with
  | nil => cases hb
  | cons c below ih =>
    obtain ⟨hc, -, hbelow⟩ := hl
    rw [List.length_cons]
    rcases List.mem_cons.mp hb with rfl | hb
    · omega
    · have := ih hbelow hb
      omega

theorem exists_height (hl : Linked P chain) {n : ℕ} (hpos : 0 < n) (hn : n ≤ chain.length) :
    ∃ b ∈ chain, b.header.height.toNat = n := by
  induction chain with
  | nil => exact absurd hn (by simpa using hpos.ne')
  | cons c below ih =>
    obtain ⟨hc, -, hbelow⟩ := hl
    rw [List.length_cons] at hn
    rcases Nat.lt_or_eq_of_le hn with hlt | rfl
    · obtain ⟨b, hb, hbn⟩ := ih hbelow (Nat.lt_succ_iff.mp hlt)
      exact ⟨b, List.mem_cons_of_mem _ hb, hbn⟩
    · exact ⟨c, List.mem_cons_self, hc⟩

theorem eq_of_height (hl : Linked P chain) (hb : b ∈ chain) (hb' : b' ∈ chain)
    (h : b.header.height.toNat = b'.header.height.toNat) : b = b' := by
  induction chain with
  | nil => cases hb
  | cons c below ih =>
    obtain ⟨hc, -, hbelow⟩ := hl
    have hlow : ∀ d ∈ below, d.header.height.toNat < c.header.height.toNat := by
      intro d hd
      have := (hbelow.height_le hd).2
      omega
    rcases List.mem_cons.mp hb with rfl | hmem <;> rcases List.mem_cons.mp hb' with rfl | hmem'
    · rfl
    · exact absurd h (hlow b' hmem').ne'
    · exact absurd h (hlow b hmem).ne
    · exact ih hbelow hmem hmem'

theorem childOf (hl : Linked P chain) (hb : b ∈ chain) (hb' : b' ∈ chain)
    (h : b'.header.height.toNat = b.header.height.toNat + 1) : ChildOf P b b' := by
  induction chain with
  | nil => cases hb
  | cons c below ih =>
    obtain ⟨hc, hchild, hbelow⟩ := hl
    rcases List.mem_cons.mp hb' with rfl | hmem'
    · -- the newest block: the one below it is the newest of the rest
      rcases List.mem_cons.mp hb with rfl | hmem
      · omega
      · cases below with
        | nil => cases hmem
        | cons d rest =>
          obtain rfl : b = d := by
            refine hbelow.eq_of_height hmem List.mem_cons_self ?_
            have hd := hbelow.1
            rw [List.length_cons] at hc
            omega
          exact hchild b rfl
    · rcases List.mem_cons.mp hb with rfl | hmem
      · have := (hbelow.height_le hmem').2
        omega
      · exact ih hbelow hmem hmem'

theorem filter_above {new old : List Block} (hl : Linked P (new ++ old)) {height : UInt64}
    (hold : height.toNat = old.length) :
    (new ++ old).filter (fun b => height < b.header.height) = new := by
  induction new with
  | nil =>
    refine List.filter_eq_nil_iff.mpr fun b hb => ?_
    have := (hl.height_le hb).2
    rw [decide_eq_true_eq, UInt64.lt_iff_toNat_lt]
    rw [List.nil_append] at this
    omega
  | cons b new ih =>
    obtain ⟨hb, -, hbelow⟩ : b.header.height.toNat = (new ++ old).length + 1 ∧ _ ∧
      Linked P (new ++ old) := hl
    have habove : height < b.header.height := by
      rw [UInt64.lt_iff_toNat_lt, hb, List.length_append]
      omega
    rw [List.cons_append, List.filter_cons_of_pos (by simpa using habove), ih hbelow]

end Linked

end Gratia
