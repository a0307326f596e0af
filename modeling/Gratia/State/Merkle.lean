import Gratia.Core.Reference
import Gratia.State.Manager
import Gratia.Support.PairTree
import Mathlib.Data.List.GetD

/-!
# State — Merkle

The inclusion proofs of `gratia-state/src/merkle.rs`.  The levels of `MerkleTree::build` are rounds
of a pair tree (`build_eq`); a proof climbs one level per step, and the position halves with each.

SHA-256 maps all strings to 32 bytes, so it has collisions; that it is *collision-free* is said of
the strings that are hashed in the run at hand, those of building the tree (`buildInputs`) and those
of checking the proof (`verifyInputs`).
-/

namespace Gratia

open Support
open Support.PairTree (pairs next)

/-! ### Proofs -/

/-- `ProofDirection`: the side of the sibling. -/
inductive ProofDirection where
  | left | right
deriving DecidableEq

structure ProofStep where
  hash : Bytes32
  direction : ProofDirection
deriving DecidableEq

structure MerkleProof where
  leafHash : Bytes32
  path : List ProofStep
  root : Bytes32
deriving DecidableEq

namespace MerkleTree

def depth (levels : List (List Bytes32)) : ℕ := levels.length - 1

def directionAt (index : ℕ) : ProofDirection := if index % 2 = 0 then .right else .left

/-- The position of the sibling of a node; an odd last node is its own. -/
def siblingIndex (level : List Bytes32) (index : ℕ) : ℕ :=
  if index % 2 = 0 then if index + 1 < level.length then index + 1 else index else index - 1

/-- The loop of `generate_proof` over the levels below the root. -/
def proofPath : List (List Bytes32) → ℕ → List ProofStep
  | [], _ => []
  | level :: rest, index =>
    ⟨level.getD (siblingIndex level index) .zero, directionAt index⟩ :: proofPath rest (index / 2)

def generateProof (levels : List (List Bytes32)) (leafIndex : ℕ) : Option MerkleProof :=
  match levels.head? with
  | none => none
  | some leaves =>
    -- the sentinel of the empty tree
    if leaves = [.zero] then none
    else if leafIndex ≥ leaves.length then none
    else some ⟨leaves.getD leafIndex .zero, proofPath levels.dropLast leafIndex, root levels⟩

end MerkleTree

variable (P : Platform)

/-- One step of `verify_proof`. -/
def ProofStep.climb (current : Bytes32) (step : ProofStep) : Bytes32 :=
  match step.direction with
  | .left => hashPair P step.hash current
  | .right => hashPair P current step.hash

def verifyProof (proof : MerkleProof) : Bool :=
  proof.path.foldl (ProofStep.climb P) proof.leafHash == proof.root

/-! ### What is hashed -/

/-- The string that `hash_pair` hashes. -/
def pairInput (p : Bytes32 × Bytes32) : Bytes := p.1.bytes ++ p.2.bytes

/-- The strings hashed by building a tree: the pairs of every level but the last. -/
def MerkleTree.buildInputs (leaves : List Bytes32) : List Bytes :=
  (build P leaves).dropLast.flatMap fun level => (pairs level).map pairInput

/-- The pair that one step of `verify_proof` joins. -/
def ProofStep.pair (current : Bytes32) (step : ProofStep) : Bytes32 × Bytes32 :=
  match step.direction with
  | .left => (step.hash, current)
  | .right => (current, step.hash)

/-- The strings that `verify_proof` hashes. -/
def verifyInputs : Bytes32 → List ProofStep → List Bytes
  | _, [] => []
  | current, step :: rest => pairInput (step.pair current) :: verifyInputs (step.climb P current) rest

theorem pairInput_injective : Function.Injective pairInput := by
  rintro ⟨a, b⟩ ⟨c, d⟩ h
  obtain ⟨hac, hbd⟩ := List.append_inj h (a.length_eq.trans c.length_eq.symm)
  exact Prod.ext (Bytes32.bytes_injective hac) (Bytes32.bytes_injective hbd)

theorem ProofStep.climb_eq (current : Bytes32) (step : ProofStep) :
    step.climb P current = P.sha256 (pairInput (step.pair current)) := by
  unfold ProofStep.climb ProofStep.pair
  cases step.direction with
  | left | right => rfl

variable {P}

theorem injOn_hashPair {S : Set Bytes} (h : S.InjOn P.sha256) :
    Set.InjOn (fun p : Bytes32 × Bytes32 => hashPair P p.1 p.2) {p | pairInput p ∈ S} :=
  fun _ hp _ hq he => pairInput_injective (h hp hq he)

/-! ### The tree as rounds -/

namespace MerkleTree

theorem nextLevel_eq : ∀ l, nextLevel P l = next (hashPair P) l
  | [] => rfl
  | [_] => rfl
  | a :: b :: rest => congrArg (hashPair P a b :: ·) (nextLevel_eq rest)

theorem levelsAbove_eq : ∀ (fuel : ℕ) (l : List Bytes32), l ≠ [] → l.length ≤ fuel + 1 →
    ∃ d, l :: levelsAbove P fuel l = (List.range (d + 1)).map (fun k => (next (hashPair P))^[k] l) ∧
      ((next (hashPair P))^[d] l).length = 1 := by
  intro fuel
  induction fuel with
  | zero =>
    intro l hne hlen
    have := List.length_pos_iff.mpr hne
    exact ⟨0, rfl, by simpa using (by omega : l.length = 1)⟩
  | succ fuel ih =>
    intro l hne hlen
    by_cases h : l.length > 1
    · have hnext : next (hashPair P) l ≠ [] := by
        rw [← List.length_pos_iff, PairTree.length_next]
        omega
      obtain ⟨d, hd, hone⟩ := ih _ hnext (by rw [PairTree.length_next]; omega)
      refine ⟨d + 1, ?_, by rwa [Function.iterate_succ_apply]⟩
      rw [levelsAbove, if_pos h, nextLevel_eq, hd, List.range_succ_eq_map (n := d + 1), List.map_cons,
        List.map_map]
      rfl
    · have := List.length_pos_iff.mpr hne
      refine ⟨0, ?_, by simpa using (by omega : l.length = 1)⟩
      rw [levelsAbove, if_neg h]
      rfl

variable {l : List Bytes32}

theorem build_eq (h : l ≠ []) :
    ∃ d x, build P l = (List.range (d + 1)).map (fun k => (next (hashPair P))^[k] l) ∧
      (next (hashPair P))^[d] l = [x] ∧ root (build P l) = x ∧ depth (build P l) = d := by
  obtain ⟨d, hd, hone⟩ := levelsAbove_eq (P := P) l.length l h (Nat.le_succ _)
  obtain ⟨x, hx⟩ := List.length_eq_one_iff.mp hone
  have hbuild : build P l = (List.range (d + 1)).map (fun k => (next (hashPair P))^[k] l) := by
    rw [build, if_neg h, hd]
  refine ⟨d, x, hbuild, hx, ?_, ?_⟩
  · rw [root, hbuild, List.range_succ, List.map_append, List.map_singleton, List.getLast?_concat, hx]
    rfl
  · rw [depth, hbuild, List.length_map, List.length_range, Nat.add_sub_cancel]

theorem pairInput_mem_buildInputs (h : l ≠ []) {k : ℕ} (hk : k < depth (build P l))
    {p : Bytes32 × Bytes32} (hp : p ∈ pairs ((next (hashPair P))^[k] l)) :
    pairInput p ∈ buildInputs P l := by
  obtain ⟨d, x, hbuild, -, -, hd⟩ := build_eq (P := P) h
  refine List.mem_flatMap.mpr ⟨(next (hashPair P))^[k] l, ?_, List.mem_map_of_mem hp⟩
  rw [hbuild, List.range_succ, List.map_append, List.map_singleton, List.dropLast_concat]
  exact List.mem_map.mpr ⟨k, List.mem_range.mpr (hd ▸ hk), rfl⟩

theorem half_lt_length_next {i : ℕ} (h : i < l.length) : i / 2 < (next (hashPair P) l).length := by
  rw [PairTree.length_next]
  omega

theorem div_lt_length_iterate (d : ℕ) : ∀ {l : List Bytes32} {i : ℕ}, i < l.length →
    i / 2 ^ d < ((next (hashPair P))^[d] l).length := by
  induction d with
  | zero => intro l i h; simpa using h
  | succ d ih =>
    intro l i h
    rw [Function.iterate_succ_apply, Nat.pow_succ', ← Nat.div_div_eq_div_mul]
    exact ih (half_lt_length_next h)

/-! ### Completeness -/

theorem climb_sibling {i : ℕ} {a : Bytes32} (h : l[i]? = some a) :
    (next (hashPair P) l)[i / 2]? =
      some (ProofStep.climb P a ⟨l.getD (siblingIndex l i) .zero, directionAt i⟩) := by
  have hlt := (List.getElem?_eq_some_iff.mp h).1
  rw [next, List.getElem?_map, PairTree.getElem?_pairs_half h]
  unfold siblingIndex directionAt
  by_cases heven : i % 2 = 0
  · rw [if_pos heven, if_pos heven, if_pos heven]
    by_cases hnext : i + 1 < l.length
    · rw [if_pos hnext, List.getElem?_eq_getElem hnext, List.getD_eq_getElem _ _ hnext]
      rfl
    · rw [if_neg hnext, List.getElem?_eq_none (Nat.not_lt.mp hnext), List.getD_eq_getElem?_getD, h]
      rfl
  · rw [if_neg heven, if_neg heven, if_neg heven]
    have hprev : i - 1 < l.length := by omega
    rw [List.getElem?_eq_getElem hprev, List.getD_eq_getElem _ _ hprev]
    rfl

theorem foldl_proofPath (d : ℕ) : ∀ {l : List Bytes32} {i : ℕ} {a : Bytes32}, l[i]? = some a →
    ((next (hashPair P))^[d] l)[i / 2 ^ d]? =
      some ((proofPath ((List.range d).map fun k => (next (hashPair P))^[k] l) i).foldl
        (ProofStep.climb P) a) := by
  induction d with
  | zero => intro l i a h; simpa [proofPath] using h
  | succ d ih =>
    intro l i a h
    rw [Function.iterate_succ_apply, Nat.pow_succ', ← Nat.div_div_eq_div_mul,
      ih (climb_sibling h), List.range_succ_eq_map, List.map_cons, List.map_map]
    rfl

theorem generateProof_verifies {leaves : List Bytes32} {i : ℕ} (hi : i < leaves.length)
    (hzero : leaves ≠ [.zero]) : ∃ proof, generateProof (build P leaves) i = some proof ∧
      verifyProof P proof = true ∧ proof.root = root (build P leaves) ∧
      leaves[i]? = some proof.leafHash := by
  have hne : leaves ≠ [] := List.ne_nil_of_length_pos (Nat.zero_lt_of_lt hi)
  obtain ⟨d, x, hbuild, hx, hroot, -⟩ := build_eq (P := P) hne
  have hget : leaves[i]? = some leaves[i] := List.getElem?_eq_getElem hi
  have hhead : (build P leaves).head? = some leaves := by
    rw [build, if_neg hne]
    rfl
  have hgen : generateProof (build P leaves) i =
      some ⟨leaves[i], proofPath (build P leaves).dropLast i, root (build P leaves)⟩ := by
    unfold generateProof
    rw [hhead]
    dsimp only
    rw [if_neg hzero, if_neg (Nat.not_le.mpr hi), List.getD_eq_getElem _ _ hi]
  refine ⟨_, hgen, ?_, rfl, hget⟩
  have htop := foldl_proofPath (P := P) d hget
  have hindex := div_lt_length_iterate (P := P) d hi
  rw [hx, List.length_singleton, Nat.lt_one_iff] at hindex
  rw [hx, hindex] at htop
  refine beq_iff_eq.mpr ?_
  rw [hroot, hbuild, List.range_succ, List.map_append, List.map_singleton, List.dropLast_concat]
  exact (Option.some.inj htop).symm

/-! ### Soundness -/

theorem eq_of_climb_eq {S : Set Bytes} (hS : S.InjOn P.sha256) {i : ℕ} {a leaf : Bytes32}
    {step : ProofStep} (h : l[i]? = some a) (hl : ∀ p ∈ pairs l, pairInput p ∈ S)
    (hstep : pairInput (step.pair leaf) ∈ S) (hdir : step.direction = directionAt i)
    (hup : (next (hashPair P) l)[i / 2]? = some (step.climb P leaf)) : leaf = a := by
  have hpair := PairTree.getElem?_pairs_half h
  rw [next, List.getElem?_map, hpair, Option.map_some] at hup
  have hhash := Option.some.inj hup
  rw [ProofStep.climb_eq] at hhash
  have heq := pairInput_injective (hS (hl _ (List.mem_of_getElem? hpair)) hstep hhash)
  unfold ProofStep.pair at heq
  unfold directionAt at hdir
  by_cases heven : i % 2 = 0
  · rw [if_pos heven] at heq hdir
    rw [hdir] at heq
    exact (congrArg Prod.fst heq).symm
  · rw [if_neg heven] at heq hdir
    rw [hdir] at heq
    exact (congrArg Prod.snd heq).symm

/-- A path with the directions of a position, to the node above that position, starts at the node
there. -/
theorem getElem?_of_foldl {S : Set Bytes} (hS : S.InjOn P.sha256) : ∀ (path : List ProofStep)
    {l : List Bytes32} {i : ℕ} {leaf : Bytes32}, i < l.length →
    (∀ k < path.length, ∀ p ∈ pairs ((next (hashPair P))^[k] l), pairInput p ∈ S) →
    (∀ x ∈ verifyInputs P leaf path, x ∈ S) →
    (∀ k step, path[k]? = some step → step.direction = directionAt (i / 2 ^ k)) →
    ((next (hashPair P))^[path.length] l)[i / 2 ^ path.length]? =
      some (path.foldl (ProofStep.climb P) leaf) → l[i]? = some leaf := by
  intro path
  induction path with
  | nil =>
    intro l i leaf _ _ _ _ h
    simpa using h
  | cons step rest ih =>
    intro l i leaf hi hl hinputs hdir h
    have hget : l[i]? = some l[i] := List.getElem?_eq_getElem hi
    have hup : (next (hashPair P) l)[i / 2]? = some (step.climb P leaf) := by
      refine ih (half_lt_length_next hi) (fun k hk => ?_) (fun x hx => ?_) (fun k s hs => ?_) ?_
      · exact hl (k + 1) (Nat.succ_lt_succ hk)
      · exact hinputs x (List.mem_cons_of_mem _ hx)
      · rw [Nat.div_div_eq_div_mul, ← Nat.pow_succ']
        exact hdir (k + 1) s hs
      · rw [Nat.div_div_eq_div_mul, ← Nat.pow_succ', ← Function.iterate_succ_apply]
        exact h
    have hdir₀ : step.direction = directionAt i := by
      simpa using hdir 0 step rfl
    rw [eq_of_climb_eq hS hget (hl 0 (Nat.succ_pos _)) (hinputs _ List.mem_cons_self) hdir₀ hup,
      hget]

theorem leafHash_of_verifyProof {leaves : List Bytes32} {i : ℕ} (hi : i < leaves.length)
    {proof : MerkleProof} (hroot : proof.root = root (build P leaves))
    (hpath : proof.path.map ProofStep.direction =
      (List.range (depth (build P leaves))).map fun k => directionAt (i / 2 ^ k))
    (hhash : Set.InjOn P.sha256
      {x | x ∈ buildInputs P leaves ++ verifyInputs P proof.leafHash proof.path})
    (hok : verifyProof P proof = true) : leaves[i]? = some proof.leafHash := by
  have hne : leaves ≠ [] := List.ne_nil_of_length_pos (Nat.zero_lt_of_lt hi)
  obtain ⟨d, x, hbuild, hx, hx', hd⟩ := build_eq (P := P) hne
  rw [hd] at hpath
  have hlen : proof.path.length = d := by
    have := congrArg List.length hpath
    rwa [List.length_map, List.length_map, List.length_range] at this
  have hdir : ∀ k step, proof.path[k]? = some step → step.direction = directionAt (i / 2 ^ k) := by
    intro k step hstep
    have hk := (List.getElem?_eq_some_iff.mp hstep).1
    have := congrArg (·[k]?) hpath
    rw [List.getElem?_map, List.getElem?_map, hstep, List.getElem?_range (hlen ▸ hk)] at this
    exact Option.some.inj this
  refine getElem?_of_foldl hhash proof.path hi (fun k hk p hp => List.mem_append_left _ ?_)
    (fun y hy => List.mem_append_right _ hy) hdir ?_
  · refine pairInput_mem_buildInputs hne ?_ hp
    rwa [hd, ← hlen]
  · have hindex := div_lt_length_iterate (P := P) d hi
    rw [hx, List.length_singleton, Nat.lt_one_iff] at hindex
    rw [hlen, hx, hindex, eq_of_beq hok, hroot, hx']
    rfl

/-- **Merkle proofs are complete and sound.**  For every position in range, `generate_proof` returns
a proof of the leaf there that `verify_proof` accepts, unless the one leaf is the sentinel of the
empty tree; and a proof against the root with the depth of the tree and the directions of the
position is accepted only for the leaf there. -/
theorem merkleProofs_complete_and_sound (leaves : List Bytes32) (i : ℕ) (hi : i < leaves.length) :
    (leaves ≠ [.zero] → ∃ proof, generateProof (build P leaves) i = some proof ∧
      verifyProof P proof = true ∧ proof.root = root (build P leaves) ∧
      proof.leafHash = leaves[i]) ∧
    ∀ proof : MerkleProof, proof.root = root (build P leaves) →
      proof.path.map ProofStep.direction =
        (List.range (depth (build P leaves))).map (fun k => directionAt (i / 2 ^ k)) →
      Set.InjOn P.sha256 {x | x ∈ buildInputs P leaves ++ verifyInputs P proof.leafHash proof.path} →
      verifyProof P proof = true → proof.leafHash = leaves[i] := by
  have hget : leaves[i]? = some leaves[i] := List.getElem?_eq_getElem hi
  constructor
  · intro hzero
    obtain ⟨proof, hgen, hok, hroot, hleaf⟩ := generateProof_verifies (P := P) hi hzero
    exact ⟨proof, hgen, hok, hroot, Option.some.inj (hleaf.symm.trans hget)⟩
  · intro proof hroot hpath hhash hok
    exact Option.some.inj ((leafHash_of_verifyProof hi hroot hpath hhash hok).symm.trans hget)

def threeLeaves : List Bytes32 := [.splat 1, .splat 2, .splat 3]

def lastOfThree : MerkleProof where
  leafHash := .splat 3
  path := [⟨.splat 3, .right⟩, ⟨hashPair reference (.splat 1) (.splat 2), .left⟩]
  root := root (build reference threeLeaves)

theorem merkleProofs_lastOfThree :
    generateProof (build reference threeLeaves) 2 = some lastOfThree ∧
      verifyProof reference lastOfThree = true ∧ lastOfThree.leafHash = .splat 3 := by
  refine ⟨by decide +kernel, by decide +kernel, ?_⟩
  have hhash : ∀ x ∈ buildInputs reference threeLeaves ++
      verifyInputs reference lastOfThree.leafHash lastOfThree.path,
      ∀ y ∈ buildInputs reference threeLeaves ++
        verifyInputs reference lastOfThree.leafHash lastOfThree.path,
      reference.sha256 x = reference.sha256 y → x = y := by
    decide +kernel
  exact (merkleProofs_complete_and_sound threeLeaves 2 (by decide)).2 lastOfThree rfl
    (by decide +kernel) (fun x hx y hy => hhash x hx y hy) (by decide +kernel)

end MerkleTree

end Gratia
