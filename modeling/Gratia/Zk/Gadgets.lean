import Mathlib.NumberTheory.LucasLehmer
import Gratia.Support.Runs
import Gratia.Zk.Circuits

/-!
# Zk — Gadgets

The circuits of `gratia-zk/src/groth16.rs` for ranges and for Merkle inclusion, and what their
constraints say about every assignment, not only about the one that is synthesized.
-/

namespace Gratia

open Support
open LinearCombination (zero fromVariable fromConstant)

variable {F : Type}

/-- The variables of a combination are below `n`. -/
def LinearCombination.Within (lc : LinearCombination F) (n : ℕ) : Prop :=
  ∀ term ∈ lc.terms, term.2 < n

@[simp] theorem LinearCombination.within_zero {n : ℕ} : (zero : LinearCombination F).Within n := nofun

@[simp] theorem LinearCombination.within_addTerm {lc : LinearCombination F} {coeff : F} {n var : ℕ} :
    (lc.addTerm coeff var).Within n ↔ lc.Within n ∧ var < n := by
  unfold Within addTerm
  rw [List.forall_mem_append, List.forall_mem_singleton]

@[simp] theorem LinearCombination.within_fromConstant {coeff : F} {n : ℕ} : (fromConstant coeff).Within n ↔ 0 < n := by
  simp [fromConstant]

variable [CommRing F]

/-! ### Circuits -/

/-- A new witness, constrained to be the product of two combinations, which may refer to it. -/
def ConstraintSystem.allocProduct (cs : ConstraintSystem F) (value : F)
    (factors : ℕ → LinearCombination F × LinearCombination F) :
    Except Groth16Error (ConstraintSystem F × ℕ) := do
  let (cs, var) ← cs.allocWitness value
  let cs ← cs.constrain (factors var).1 (factors var).2 (fromVariable var)
  return (cs, var)

def ConstraintSystem.allocBit (cs : ConstraintSystem F) (value : F) :
    Except Groth16Error (ConstraintSystem F × ℕ) :=
  cs.allocProduct value fun var => (fromVariable var, fromVariable var)

structure RangeProofCircuit (p : ℕ) where
  value : ZMod p
  numBits : ℕ

namespace RangeProofCircuit

variable {p : ℕ}

/-- Bit `i` of the value, out of its 32 bytes. -/
def bit (circuit : RangeProofCircuit p) (i : ℕ) : ℕ :=
  match (leBytes 32 circuit.value.val)[i / 8]? with
  | some byte => (byte.toNat >>> (i % 8)) % 2
  | none => 0

def allocBits (cs : ConstraintSystem F) :
    List F → Except Groth16Error (ConstraintSystem F × List ℕ)
  | [] => .ok (cs, [])
  | value :: values => do
    let (cs, var) ← cs.allocBit value
    let (cs, vars) ← allocBits cs values
    return (cs, var :: vars)

/-- The next bit with the next power of two. -/
def addBit (acc : LinearCombination F × F) (var : ℕ) : LinearCombination F × F :=
  (acc.1.addTerm acc.2 var, acc.2 * 2)

def weightedSum (vars : List ℕ) : LinearCombination F :=
  (vars.foldl addBit (zero, 1)).1

def synthesize (circuit : RangeProofCircuit p) : Circuit (ZMod p) := fun cs => do
  if circuit.numBits = 0 ∨ circuit.numBits > 64 then
    .error (.proofGenerationFailed s!"num_bits must be 1..=64, got {circuit.numBits}")
  else
    let (cs, valueVar) ← cs.allocPublicInput circuit.value
    let bits := (List.range circuit.numBits).map fun i => (circuit.bit i : ZMod p)
    let (cs, bitVars) ← allocBits cs bits
    cs.constrain (weightedSum bitVars) (fromConstant 1) (fromVariable valueVar)

end RangeProofCircuit

structure MerkleInclusionCircuit (F : Type) where
  leaf : F
  path : List F
  positionBits : List Bool
  root : F

namespace MerkleInclusionCircuit

/-- One level of the tree: the value and the variable of the parent. -/
def level (cs : ConstraintSystem F) (current : F) (currentVar : ℕ) (sibling : F) (isRight : Bool) :
    Except Groth16Error (ConstraintSystem F × F × ℕ) := do
  let one := fromConstant 1
  let (cs, siblingVar) ← cs.allocWitness sibling
  let (cs, positionVar) ← cs.allocBit (if isRight then 1 else 0)
  let diff := sibling - current
  let (cs, diffVar) ← cs.allocProduct diff fun _ =>
    ((zero.addTerm 1 siblingVar).addTerm (-1) currentVar, one)
  let swapDelta := if isRight then diff else 0
  let (cs, swapDeltaVar) ← cs.allocProduct swapDelta fun _ =>
    (fromVariable positionVar, fromVariable diffVar)
  let left := current + swapDelta
  let (cs, leftVar) ← cs.allocProduct left fun _ =>
    ((zero.addTerm 1 currentVar).addTerm 1 swapDeltaVar, one)
  let right := sibling - swapDelta
  let (cs, rightVar) ← cs.allocProduct right fun _ =>
    ((zero.addTerm 1 siblingVar).addTerm (-1) swapDeltaVar, one)
  let product := left * right
  let (cs, productVar) ← cs.allocProduct product fun _ =>
    (fromVariable leftVar, fromVariable rightVar)
  let parent := product + left + right
  let (cs, parentVar) ← cs.allocProduct parent fun _ =>
    (((zero.addTerm 1 productVar).addTerm 1 leftVar).addTerm 1 rightVar, one)
  return (cs, parent, parentVar)

/-- The loop over the levels: the variable of the root that is computed. -/
def levels (cs : ConstraintSystem F) (current : F) (currentVar : ℕ) :
    List (F × Bool) → Except Groth16Error (ConstraintSystem F × ℕ)
  | [] => .ok (cs, currentVar)
  | (sibling, isRight) :: rest => do
    let (cs, parent, parentVar) ← level cs current currentVar sibling isRight
    levels cs parent parentVar rest

def synthesize (circuit : MerkleInclusionCircuit F) : Circuit F := fun cs => do
  if circuit.path.length ≠ circuit.positionBits.length then
    .error (.proofGenerationFailed "path and position_bits must have the same length")
  else if circuit.path.isEmpty then
    .error (.proofGenerationFailed "Merkle tree must have at least depth 1")
  else
    let (cs, rootVar) ← cs.allocPublicInput circuit.root
    let (cs, leafVar) ← cs.allocWitness circuit.leaf
    let (cs, var) ← levels cs circuit.leaf leafVar (circuit.path.zip circuit.positionBits)
    cs.constrain ((zero.addTerm 1 var).addTerm (-1) rootVar) (fromConstant 1) (fromConstant 0)

/-- The hash of two children, of which `current` is the right one if `isRight`. -/
def parent (current sibling : F) (isRight : Bool) : F :=
  let (left, right) := if isRight then (sibling, current) else (current, sibling)
  left * right + left + right

def computeRoot (leaf : F) (path : List F) (positionBits : List Bool) : F :=
  (path.zip positionBits).foldl (fun current level => parent current level.1 level.2) leaf

end MerkleInclusionCircuit

/-! ### Building -/

namespace ConstraintSystem

variable {cs cs' : ConstraintSystem F} {pre : List F} {value : F} {i : ℕ}

/-- The next witness is appended to `pre`: the assignment, up to the slot that is skipped. -/
structure Full (cs : ConstraintSystem F) (pre : List F) : Prop where
  length : pre.length = 2 + cs.numPublicInputs + cs.numWitnessVars
  append : ∀ value, assignAt cs.assignment pre.length value = pre ++ [value]

def push (cs : ConstraintSystem F) (pre : List F) (value : F) : ConstraintSystem F :=
  { cs with numWitnessVars := cs.numWitnessVars + 1, assignment := pre ++ [value] }

theorem Full.push (h : Full cs pre) (value : F) : Full (cs.push pre value) (pre ++ [value]) where
  length := by
    rw [List.length_append, h.length]
    rfl
  append x := by
    simp [ConstraintSystem.push, assignAt, List.set_append_right]

theorem Full.allocWitness (h : Full cs pre) : cs.allocWitness value = .ok (cs', i) ↔
    cs.numWitnessVars < maxWitnessVars ∧ cs' = cs.push pre value ∧ i = pre.length := by
  have hindex : 1 + cs.numPublicInputs + (cs.numWitnessVars + 1) = pre.length := by
    rw [h.length]
    omega
  unfold ConstraintSystem.allocWitness
  dsimp only
  rw [hindex, h.append]
  split
  next hge => exact ⟨nofun, fun h => absurd h.1 (Nat.not_lt.mpr hge)⟩
  next hge =>
    refine ⟨fun h => ?_, fun ⟨_, hcs, hi⟩ => by rw [hcs, hi]; rfl⟩
    cases h
    exact ⟨Nat.not_le.mp hge, rfl, rfl⟩

/-- The system with one more witness and a constraint for it. -/
def pushProduct (cs : ConstraintSystem F) (pre : List F) (value : F)
    (factors : LinearCombination F × LinearCombination F) : ConstraintSystem F :=
  { cs.push pre value with
    constraints := cs.constraints ++ [⟨factors.1, factors.2, fromVariable pre.length⟩] }

theorem Full.pushProduct (h : Full cs pre) (value : F)
    (factors : LinearCombination F × LinearCombination F) :
    Full (cs.pushProduct pre value factors) (pre ++ [value]) :=
  ⟨(h.push value).length, (h.push value).append⟩

variable {factors : ℕ → LinearCombination F × LinearCombination F}

theorem Full.allocProduct (h : Full cs pre) :
    cs.allocProduct value factors = .ok (cs', i) ↔
      cs.numWitnessVars < maxWitnessVars ∧ cs.constraints.length < maxConstraints ∧
        cs' = cs.pushProduct pre value (factors pre.length) ∧ i = pre.length := by
  unfold ConstraintSystem.allocProduct
  rw [except_bind_ok]
  constructor
  · rintro ⟨⟨cs₁, var⟩, halloc, hrest⟩
    obtain ⟨hw, rfl, rfl⟩ := h.allocWitness.mp halloc
    obtain ⟨cs₂, hcons, hrest⟩ := except_bind_ok.mp hrest
    obtain ⟨hc, hcons⟩ := except_guard_ok.mp hcons
    cases hcons
    cases hrest
    exact ⟨hw, Nat.not_le.mp hc, rfl, rfl⟩
  · rintro ⟨hw, hc, rfl, rfl⟩
    refine ⟨_, h.allocWitness.mpr ⟨hw, rfl, rfl⟩, ?_⟩
    exact except_bind_ok.mpr
      ⟨_, except_guard_ok.mpr ⟨Nat.not_le.mpr hc, rfl⟩, rfl⟩

/-- The system has grown by values behind `pre` and by constraints. -/
structure Grown (cs : ConstraintSystem F) (pre values : List F)
    (constraints : List (R1CSConstraint F)) (cs' : ConstraintSystem F) : Prop where
  full : cs'.Full (pre ++ values)
  assignment : cs'.assignment = pre ++ values
  constraints : cs'.constraints = cs.constraints ++ constraints

theorem Grown.trans {cs'' : ConstraintSystem F} {values values' : List F}
    {added added' : List (R1CSConstraint F)} (h : Grown cs pre values added cs')
    (h' : Grown cs' (pre ++ values) values' added' cs'') :
    Grown cs pre (values ++ values') (added ++ added') cs'' where
  full := List.append_assoc pre _ _ ▸ h'.full
  assignment := h'.assignment.trans (List.append_assoc pre _ _)
  constraints := by rw [h'.constraints, h.constraints, List.append_assoc]

theorem Full.grown_allocWitness (h : Full cs pre) (halloc : cs.allocWitness value = .ok (cs', i)) :
    Grown cs pre [value] [] cs' ∧ i = pre.length := by
  obtain ⟨-, rfl, rfl⟩ := h.allocWitness.mp halloc
  exact ⟨⟨h.push value, rfl, (List.append_nil _).symm⟩, rfl⟩

theorem Full.grown_allocProduct (h : Full cs pre)
    (halloc : cs.allocProduct value factors = .ok (cs', i)) :
    Grown cs pre [value] [⟨(factors pre.length).1, (factors pre.length).2, fromVariable pre.length⟩]
      cs' ∧ i = pre.length := by
  obtain ⟨-, -, rfl, rfl⟩ := h.allocProduct.mp halloc
  exact ⟨⟨h.pushProduct value _, rfl, rfl⟩, rfl⟩

end ConstraintSystem

/-! ### Satisfaction -/

namespace LinearCombination

variable {lc : LinearCombination F} {z : List F} {coeff : F} {n var : ℕ}

@[simp] theorem within_fromVariable : (fromVariable var : LinearCombination F).Within n ↔ var < n := by
  simp [fromVariable]

/-- What it evaluates to if its variables are assigned. -/
def sum (lc : LinearCombination F) (z : List F) : F :=
  (lc.terms.map fun term => term.1 * z.getD term.2 0).sum

@[simp] theorem sum_zero : (zero : LinearCombination F).sum z = 0 := rfl

@[simp] theorem sum_addTerm : (lc.addTerm coeff var).sum z = lc.sum z + coeff * z.getD var 0 := by
  simp [sum, addTerm]

@[simp] theorem sum_fromVariable : (fromVariable var : LinearCombination F).sum z = z.getD var 0 := by
  simp [fromVariable]

@[simp] theorem sum_fromConstant : (fromConstant coeff).sum z = coeff * z.getD 0 0 := by
  simp [fromConstant]

theorem evaluate_eq (h : lc.Within z.length) : lc.evaluate z = .ok (lc.sum z) := by
  obtain ⟨terms⟩ := lc
  induction terms using List.reverseRecOn with
  | nil => rfl
  | append_singleton terms term ih =>
    obtain ⟨hterms, hterm⟩ := List.forall_mem_append.mp h
    replace hterm := hterm term (List.mem_singleton_self term)
    rw [evaluate, List.foldlM_append]
    refine (congrArg (· >>= _) (ih hterms)).trans ?_
    simp [sum, List.getElem?_eq_getElem hterm]

end LinearCombination

theorem R1CSConstraint.holds_iff {a b c : LinearCombination F} {z : List F}
    (ha : a.Within z.length) (hb : b.Within z.length) (hc : c.Within z.length) :
    R1CSConstraint.Holds ⟨a, b, c⟩ z ↔ a.sum z * b.sum z = c.sum z := by
  simp only [R1CSConstraint.Holds, LinearCombination.evaluate_eq ha,
    LinearCombination.evaluate_eq hb, LinearCombination.evaluate_eq hc, Except.ok.injEq]
  constructor
  · rintro ⟨x, y, rfl, rfl, h⟩
    exact h.symm
  · exact fun h => ⟨_, _, rfl, rfl, h.symm⟩

/-! ### Ranges -/

theorem RangeProofCircuit.bit_eq {p : ℕ} (circuit : RangeProofCircuit p) {i : ℕ} (hi : i < 64) :
    circuit.bit i = circuit.value.val / 2 ^ i % 2 := by
  have hbytes : ∀ (w x j : ℕ), j < w → (leBytes w x)[j]? = some (UInt8.ofNat (x / 256 ^ j)) := by
    intro w
    induction w with
    | zero => exact fun _ _ hj => absurd hj (Nat.not_lt_zero _)
    | succ w ih =>
      intro x j hj
      cases j with
      | zero => simp [leBytes]
      | succ j =>
        rw [leBytes, List.getElem?_cons_succ, ih _ _ (Nat.lt_of_succ_lt_succ hj), Nat.div_div_eq_div_mul,
          Nat.pow_succ']
  have hbit : ∀ x : ℕ, x / 2 ^ (8 * (i / 8)) % 2 ^ 8 / 2 ^ (i % 8) % 2 = x / 2 ^ i % 2 := by
    intro x
    rw [← Nat.toNat_testBit, Nat.testBit_mod_two_pow, Nat.testBit_div_two_pow, Nat.mod_add_div,
      decide_eq_true (Nat.mod_lt i (by decide)), Bool.true_and, Nat.toNat_testBit]
  unfold bit
  rw [hbytes 32 _ _ (by omega)]
  dsimp only
  rw [UInt8.toNat_ofNat', Nat.shiftRight_eq_div_pow, show (256 : ℕ) = 2 ^ 8 by rfl, ← Nat.pow_mul]
  exact hbit _

namespace RangeProofCircuit

variable {cs : ConstraintSystem F} {pre values : List F}

def bitConstraint (var : ℕ) : R1CSConstraint F :=
  ⟨fromVariable var, fromVariable var, fromVariable var⟩

theorem allocBits_ok (h : cs.Full pre) (hw : cs.numWitnessVars + values.length ≤ 64)
    (hc : cs.constraints.length + values.length ≤ 64) :
    ∃ cs' : ConstraintSystem F,
      allocBits cs values = .ok (cs', List.range' pre.length values.length) ∧
      cs'.constraints =
        cs.constraints ++ (List.range' pre.length values.length).map bitConstraint ∧
      (values ≠ [] → cs'.assignment = pre ++ values) := by
  induction values generalizing cs pre with
  | nil => exact ⟨cs, rfl, (List.append_nil _).symm, absurd rfl⟩
  | cons value values ih =>
    rw [List.length_cons] at hw hc
    let factors : LinearCombination F × LinearCombination F :=
      (fromVariable pre.length, fromVariable pre.length)
    have hbit : cs.allocBit value = .ok (cs.pushProduct pre value factors, pre.length) :=
      h.allocProduct.mpr ⟨by unfold maxWitnessVars; omega, by unfold maxConstraints; omega, rfl, rfl⟩
    have hlen : (cs.pushProduct pre value factors).constraints.length = cs.constraints.length + 1 :=
      List.length_append
    obtain ⟨cs', hrest, hcons, hassign⟩ := ih (h.pushProduct value factors)
      (by change cs.numWitnessVars + 1 + values.length ≤ 64; omega) (by omega)
    rw [List.length_append, List.length_singleton] at hrest hcons
    refine ⟨cs', ?_, ?_, fun _ => ?_⟩
    · rw [allocBits, hbit, except_ok_bind]
      dsimp only
      rw [hrest]
      rfl
    · rw [hcons, ConstraintSystem.pushProduct, List.append_assoc]
      rfl
    · cases values with
      | nil => cases hrest; rfl
      | cons value' values =>
        rw [hassign (List.cons_ne_nil _ _), List.append_assoc]
        rfl

/-- The value of bits, the lowest first. -/
def weigh (bits : List F) : F := bits.foldr (fun bit rest => bit + 2 * rest) 0

theorem sum_foldl_addBit (z : List F) (vars : List ℕ) : ∀ acc : LinearCombination F × F,
    (vars.foldl addBit acc).1.sum z =
      acc.1.sum z + acc.2 * weigh (vars.map fun var => z.getD var 0) := by
  induction vars with
  | nil => exact fun acc => by simp [weigh]
  | cons var vars ih =>
    intro acc
    rw [List.foldl_cons, ih, addBit, LinearCombination.sum_addTerm, List.map_cons]
    simp only [weigh, List.foldr_cons]
    ring

theorem within_foldl_addBit {n : ℕ} {vars : List ℕ} (h : ∀ var ∈ vars, var < n) :
    ∀ acc : LinearCombination F × F, acc.1.Within n → (vars.foldl addBit acc).1.Within n := by
  induction vars with
  | nil => exact fun _ hacc => hacc
  | cons var vars ih =>
    intro acc hacc
    obtain ⟨hvar, h⟩ := List.forall_mem_cons.mp h
    exact ih h _ (LinearCombination.within_addTerm.mpr ⟨hacc, hvar⟩)

def rangeConstraints (n : ℕ) : List (R1CSConstraint F) :=
  (List.range' 3 n).map bitConstraint ++
    [⟨weightedSum (List.range' 3 n), fromConstant 1, fromVariable 1⟩]

theorem rangeConstraints_iff (v unused : F) (bits : List F) :
    (∀ c ∈ rangeConstraints bits.length, c.Holds ([1, v, unused] ++ bits)) ↔
      (∀ bit ∈ bits, bit * bit = bit) ∧ weigh bits = v := by
  let z := [1, v, unused] ++ bits
  have hlen : z.length = 3 + bits.length := List.length_append
  have hvars : ∀ var ∈ List.range' 3 bits.length, var < z.length := fun var hvar =>
    hlen ▸ (List.mem_range'_1.mp hvar).2
  have hmap : (List.range' 3 bits.length).map (fun var => z.getD var 0) = bits := by
    refine List.ext_getElem (by simp) fun i hi _ => ?_
    rw [List.length_map, List.length_range'] at hi
    simp [z, Nat.add_comm 3 i, hi]
  have hbit : ∀ var ∈ List.range' 3 bits.length, (bitConstraint var).Holds z ↔
      z.getD var 0 * z.getD var 0 = z.getD var 0 := by
    intro var hvar
    have hwithin : (fromVariable var : LinearCombination F).Within z.length :=
      LinearCombination.within_fromVariable.mpr (hvars var hvar)
    rw [bitConstraint, R1CSConstraint.holds_iff hwithin hwithin hwithin]
    simp only [LinearCombination.sum_fromVariable]
  have hsum : R1CSConstraint.Holds ⟨weightedSum (List.range' 3 bits.length), fromConstant 1,
      fromVariable 1⟩ z ↔ weigh bits = v := by
    have hwithin : (weightedSum (List.range' 3 bits.length) : LinearCombination F).Within z.length :=
      within_foldl_addBit hvars (zero, 1) LinearCombination.within_zero
    rw [R1CSConstraint.holds_iff hwithin (by simp [z]) (by simp [z])]
    have hweigh := sum_foldl_addBit z (List.range' 3 bits.length) (zero, 1)
    rw [hmap] at hweigh
    rw [weightedSum, hweigh]
    simp [z]
  unfold rangeConstraints
  rw [List.forall_mem_append, List.forall_mem_singleton, List.forall_mem_map]
  refine and_congr ?_ hsum
  conv_rhs => rw [← hmap]
  rw [List.forall_mem_map]
  exact forall₂_congr hbit

theorem weigh_map_cast (digits : List ℕ) :
    weigh (digits.map fun d : ℕ => (d : F)) = (Nat.ofDigits 2 digits : ℕ) := by
  induction digits with
  | nil => simp [weigh]
  | cons d digits ih =>
    rw [Nat.ofDigits_cons, Nat.cast_add, Nat.cast_mul, ← ih]
    simp [weigh]

theorem ofDigits_bits (x n : ℕ) :
    Nat.ofDigits 2 ((List.range n).map fun i => x / 2 ^ i % 2) = x % 2 ^ n := by
  induction n with
  | zero => simp [Nat.mod_one]
  | succ n ih =>
    rw [List.range_succ, List.map_append, Nat.ofDigits_append, ih, List.length_map,
      List.length_range, Nat.mod_pow_succ]
    simp

end RangeProofCircuit

section Range

open RangeProofCircuit

variable {p : ℕ} [Fact p.Prime] {n : ℕ}

/-- In a prime field the bits of a solution are the binary digits of the value. -/
theorem rangeConstraints_iff_digits (v unused : ZMod p) (bits : List (ZMod p)) :
    (∀ c ∈ rangeConstraints bits.length, c.Holds ([1, v, unused] ++ bits)) ↔
      ∃ digits : List ℕ, (∀ d ∈ digits, d < 2) ∧ bits = digits.map (fun d : ℕ => (d : ZMod p)) ∧
        v = (Nat.ofDigits 2 digits : ℕ) := by
  rw [rangeConstraints_iff]
  constructor
  · rintro ⟨hbits, rfl⟩
    have hcast : bits = (bits.map ZMod.val).map fun d : ℕ => (d : ZMod p) := by simp
    refine ⟨bits.map ZMod.val, fun d hd => ?_, hcast, ?_⟩
    · obtain ⟨b, hb, rfl⟩ := List.mem_map.mp hd
      rcases mul_right_eq_self₀.mp (hbits b hb) with rfl | rfl
      · rw [ZMod.val_one]
        decide
      · rw [ZMod.val_zero]
        decide
    · rw [← weigh_map_cast, ← hcast]
  · rintro ⟨digits, hdigits, rfl, rfl⟩
    refine ⟨fun b hb => ?_, weigh_map_cast digits⟩
    obtain ⟨d, hd, rfl⟩ := List.mem_map.mp hb
    have hlt := hdigits d hd
    interval_cases d
    · simp
    · simp

theorem RangeProofCircuit.synthesize_ok (hn : 1 ≤ n ∧ n ≤ 64) (value : ZMod p) :
    ∃ cs : ConstraintSystem (ZMod p), (RangeProofCircuit.mk value n).synthesize {} = .ok cs ∧
      cs.constraints = rangeConstraints n ∧
      cs.assignment = [1, value, 0] ++
        ((List.range n).map fun i => value.val / 2 ^ i % 2).map fun d : ℕ => (d : ZMod p) := by
  obtain ⟨bits, hdef⟩ : ∃ bits, bits = (List.range n).map fun i =>
    ((RangeProofCircuit.mk value n).bit i : ZMod p) := ⟨_, rfl⟩
  have hbits : bits = ((List.range n).map fun i => value.val / 2 ^ i % 2).map
      fun d : ℕ => (d : ZMod p) := by
    rw [hdef, List.map_map]
    refine List.map_congr_left fun i hi => congrArg _ (bit_eq _ ?_)
    exact (List.mem_range.mp hi).trans_le hn.2
  have hlen : bits.length = n := by rw [hbits, List.length_map, List.length_map, List.length_range]
  have hle : 0 + bits.length ≤ 64 := by omega
  have hfull : ConstraintSystem.Full { numPublicInputs := 1, assignment := [1, value] }
    [1, value, 0] := ⟨rfl, fun _ => rfl⟩
  obtain ⟨cs, halloc, hcons, hassign⟩ := allocBits_ok hfull hle hle
  rw [hlen] at halloc hcons
  have hroom : cs.constraints.length < maxConstraints := by
    rw [hcons, List.length_append, List.length_map, List.length_range']
    exact (Nat.zero_add n).trans_lt (hn.2.trans_lt (by decide))
  refine ⟨{ cs with constraints := rangeConstraints n }, ?_, rfl, ?_⟩
  · unfold synthesize
    rw [if_neg (by dsimp only; omega), ← hdef]
    change (allocBits { numPublicInputs := 1, assignment := [1, value] } bits >>= _) = _
    rw [halloc]
    refine (if_neg (Nat.not_le.mpr hroom)).trans ?_
    rw [hcons]
    rfl
  · rw [← hbits]
    exact hassign (List.ne_nil_of_length_pos (by omega))

/-- The image of a number below `2 ^ n`. -/
def InRange (n : ℕ) (v : ZMod p) : Prop := ∃ m : ℕ, m < 2 ^ n ∧ v = m

/-- **The range circuit characterises the range.**  Its constraints can be satisfied exactly if the
public value is below `2 ^ n`; there is one way to choose the bits then, and the synthesized
assignment is it. -/
theorem range_characterised (hp : 2 ^ 64 < p) (hn : 1 ≤ n ∧ n ≤ 64) (value : ZMod p) :
    ∃ cs : ConstraintSystem (ZMod p), (RangeProofCircuit.mk value n).synthesize {} = .ok cs ∧
      (∀ v : ZMod p, (∃ unused bits, bits.length = n ∧
        ∀ c ∈ cs.constraints, c.Holds ([1, v, unused] ++ bits)) ↔ InRange n v) ∧
      (∀ (v unused unused' : ZMod p) (bits bits' : List (ZMod p)),
        bits.length = n → (∀ c ∈ cs.constraints, c.Holds ([1, v, unused] ++ bits)) →
        bits'.length = n → (∀ c ∈ cs.constraints, c.Holds ([1, v, unused'] ++ bits')) →
        bits = bits') ∧
      (cs.verifyAssignment = .ok () ↔ InRange n value) := by
  obtain ⟨cs, hcs, hcons, hassign⟩ := synthesize_ok hn value
  have hpow : 2 ^ n < p := (Nat.pow_le_pow_right (by decide) hn.2).trans_lt hp
  -- a solution has binary digits, which make up a number in the range
  have hdigits : ∀ {v unused : ZMod p} {bits : List (ZMod p)}, bits.length = n →
      (∀ c ∈ cs.constraints, c.Holds ([1, v, unused] ++ bits)) →
      ∃ digits : List ℕ, digits.length = n ∧ (∀ d ∈ digits, d < 2) ∧
        bits = digits.map (fun d : ℕ => (d : ZMod p)) ∧ v = (Nat.ofDigits 2 digits : ℕ) ∧
        Nat.ofDigits 2 digits < 2 ^ n := by
    rintro v unused bits rfl hsol
    rw [hcons, rangeConstraints_iff_digits] at hsol
    obtain ⟨digits, hdigits, rfl, hv⟩ := hsol
    have hlt := Nat.ofDigits_lt_base_pow_length (by decide) hdigits
    rw [List.length_map]
    exact ⟨digits, rfl, hdigits, rfl, hv, hlt⟩
  have hsolved : ∀ (unused : ZMod p) (m : ℕ), m < 2 ^ n → ∀ c ∈ cs.constraints,
      c.Holds ([1, (m : ZMod p), unused] ++
        ((List.range n).map fun i => m / 2 ^ i % 2).map fun d : ℕ => (d : ZMod p)) := by
    intro unused m hm
    have hsol := (rangeConstraints_iff_digits (m : ZMod p) unused _).mpr
      ⟨(List.range n).map fun i => m / 2 ^ i % 2, fun d hd => ?_, rfl, ?_⟩
    · rwa [List.length_map, List.length_map, List.length_range, ← hcons] at hsol
    · obtain ⟨i, -, rfl⟩ := List.mem_map.mp hd
      exact Nat.mod_lt _ (by decide)
    · rw [ofDigits_bits, Nat.mod_eq_of_lt hm]
  refine ⟨cs, hcs, fun v => ⟨?_, ?_⟩, ?_, ?_⟩
  · rintro ⟨unused, bits, hlen, hsol⟩
    obtain ⟨digits, -, -, -, hv, hlt⟩ := hdigits hlen hsol
    exact ⟨_, hlt, hv⟩
  · rintro ⟨m, hm, rfl⟩
    exact ⟨0, _, by simp, hsolved 0 m hm⟩
  · intro v unused unused' bits bits' hlen hsol hlen' hsol'
    obtain ⟨digits, hl, hd, rfl, rfl, hlt⟩ := hdigits hlen hsol
    obtain ⟨digits', hl', hd', rfl, hv, hlt'⟩ := hdigits hlen' hsol'
    -- the field is large enough to tell the two numbers apart
    rw [ZMod.natCast_eq_natCast_iff', Nat.mod_eq_of_lt (hlt.trans hpow),
      Nat.mod_eq_of_lt (hlt'.trans hpow)] at hv
    rw [Nat.ofDigits_inj_of_len_eq (by decide) (hl.trans hl'.symm) hd hd' hv]
  · unfold ConstraintSystem.verifyAssignment
    rw [ConstraintSystem.verifyConstraints_ok_iff, hassign]
    constructor
    · intro hsol
      obtain ⟨digits, -, -, -, hv, hlt⟩ := hdigits (by simp) hsol
      exact ⟨_, hlt, hv⟩
    · rintro ⟨m, hm, rfl⟩
      rw [ZMod.val_natCast_of_lt (hm.trans hpow)]
      exact hsolved 0 m hm

end Range

/-- Three bits hold `5`, over the field of `2 ^ 89 - 1` elements. -/
theorem range_characterised_five :
    ∃ cs : ConstraintSystem (ZMod (mersenne 89)),
      (RangeProofCircuit.mk (5 : ZMod (mersenne 89)) 3).synthesize {} = .ok cs ∧
        cs.verifyAssignment = .ok () := by
  have : Fact (mersenne 89).Prime := ⟨lucas_lehmer_sufficiency 89 (by norm_num) (by norm_num)⟩
  obtain ⟨cs, hcs, -, -, hiff⟩ := range_characterised (p := mersenne 89) (n := 3)
    (by norm_num [mersenne]) (by decide) 5
  exact ⟨cs, hcs, hiff.mpr ⟨5, by decide, rfl⟩⟩

/-! ### Merkle inclusion -/

namespace MerkleInclusionCircuit

/-- What is assigned on one level: sibling, position, difference, swap, left, right, product and
parent. -/
def levelValues (current sibling : F) (isRight : Bool) : List F :=
  let swap := if isRight then sibling - current else 0
  let product := (current + swap) * (sibling - swap)
  [sibling, if isRight then 1 else 0, sibling - current, swap, current + swap, sibling - swap,
    product, product + (current + swap) + (sibling - swap)]

def pathValues (current : F) : List (F × Bool) → List F
  | [] => []
  | (sibling, isRight) :: rest =>
    levelValues current sibling isRight ++ pathValues (parent current sibling isRight) rest

theorem length_pathValues {path : List (F × Bool)} :
    ∀ {current : F}, (pathValues current path).length = 8 * path.length := by
  induction path with
  | nil => exact rfl
  | cons step path ih =>
    intro current
    rw [pathValues, List.length_append, ih, List.length_cons, Nat.mul_succ, Nat.add_comm]
    rfl

/-- The constraints of one level, whose current value is the variable `n`. -/
def levelConstraints (n : ℕ) : List (R1CSConstraint F) :=
  let one := fromConstant 1
  [⟨fromVariable (n + 2), fromVariable (n + 2), fromVariable (n + 2)⟩,
    ⟨(zero.addTerm 1 (n + 1)).addTerm (-1) n, one, fromVariable (n + 3)⟩,
    ⟨fromVariable (n + 2), fromVariable (n + 3), fromVariable (n + 4)⟩,
    ⟨(zero.addTerm 1 n).addTerm 1 (n + 4), one, fromVariable (n + 5)⟩,
    ⟨(zero.addTerm 1 (n + 1)).addTerm (-1) (n + 4), one, fromVariable (n + 6)⟩,
    ⟨fromVariable (n + 5), fromVariable (n + 6), fromVariable (n + 7)⟩,
    ⟨((zero.addTerm 1 (n + 7)).addTerm 1 (n + 5)).addTerm 1 (n + 6), one, fromVariable (n + 8)⟩]

/-- The constraints of `d` levels, and the one on the root. -/
def pathConstraints (n : ℕ) : ℕ → List (R1CSConstraint F)
  | 0 => [⟨(zero.addTerm 1 n).addTerm (-1) 1, fromConstant 1, fromConstant 0⟩]
  | d + 1 => levelConstraints n ++ pathConstraints (n + 8) d

section Building

variable {cs cs' : ConstraintSystem F} {pre : List F} {n : ℕ} {current : F}

theorem parent_eq (current sibling : F) (isRight : Bool) :
    (levelValues current sibling isRight).getD 7 0 = parent current sibling isRight := by
  cases isRight with
  | false => simp [levelValues, parent]
  | true =>
    simp only [levelValues, parent, if_true, List.getD_cons_succ, List.getD_cons_zero]
    ring

theorem level_ok {sibling value : F} {isRight : Bool} {var : ℕ} (h : cs.Full pre)
    (hn : pre.length = n + 1) (hlevel : level cs current n sibling isRight = .ok (cs', value, var)) :
    cs.Grown pre (levelValues current sibling isRight) (levelConstraints n) cs' ∧
      value = parent current sibling isRight ∧ var = n + 8 := by
  obtain ⟨⟨cs₁, v₁⟩, h₁, hlevel⟩ := except_bind_ok.mp hlevel
  obtain ⟨g₁, rfl⟩ := h.grown_allocWitness h₁
  obtain ⟨⟨cs₂, v₂⟩, h₂, hlevel⟩ := except_bind_ok.mp hlevel
  obtain ⟨g₂, rfl⟩ := g₁.full.grown_allocProduct h₂
  obtain ⟨⟨cs₃, v₃⟩, h₃, hlevel⟩ := except_bind_ok.mp hlevel
  obtain ⟨g₃, rfl⟩ := g₂.full.grown_allocProduct h₃
  obtain ⟨⟨cs₄, v₄⟩, h₄, hlevel⟩ := except_bind_ok.mp hlevel
  obtain ⟨g₄, rfl⟩ := g₃.full.grown_allocProduct h₄
  obtain ⟨⟨cs₅, v₅⟩, h₅, hlevel⟩ := except_bind_ok.mp hlevel
  obtain ⟨g₅, rfl⟩ := g₄.full.grown_allocProduct h₅
  obtain ⟨⟨cs₆, v₆⟩, h₆, hlevel⟩ := except_bind_ok.mp hlevel
  obtain ⟨g₆, rfl⟩ := g₅.full.grown_allocProduct h₆
  obtain ⟨⟨cs₇, v₇⟩, h₇, hlevel⟩ := except_bind_ok.mp hlevel
  obtain ⟨g₇, rfl⟩ := g₆.full.grown_allocProduct h₇
  obtain ⟨⟨cs₈, v₈⟩, h₈, hlevel⟩ := except_bind_ok.mp hlevel
  obtain ⟨g₈, rfl⟩ := g₇.full.grown_allocProduct h₈
  cases hlevel
  refine ⟨?_, parent_eq current sibling isRight, by simp [hn]⟩
  have hgrown := g₁.trans (g₂.trans (g₃.trans (g₄.trans (g₅.trans (g₆.trans (g₇.trans g₈))))))
  simp only [List.length_append, List.length_singleton, hn] at hgrown
  exact hgrown

/-- What the circuit builds above a value, up to the constraint on the root. -/
theorem levels_ok {path : List (F × Bool)} : ∀ {cs : ConstraintSystem F} {pre : List F} {n var : ℕ}
    {current : F}, cs.Full pre → pre.length = n + 1 → cs.assignment = pre →
    levels cs current n path = .ok (cs', var) →
    cs'.assignment = pre ++ pathValues current path ∧
      cs'.constraints ++ [⟨(zero.addTerm 1 var).addTerm (-1) 1, fromConstant 1, fromConstant 0⟩] =
        cs.constraints ++ pathConstraints n path.length := by
  induction path with
  | nil =>
    rintro cs pre n var current - - hassign ⟨⟩
    exact ⟨hassign.trans (List.append_nil _).symm, rfl⟩
  | cons step path ih =>
    intro cs pre n var current h hn hassign hlevels
    obtain ⟨⟨cs₁, value, var₁⟩, hlevel, hlevels⟩ := except_bind_ok.mp hlevels
    obtain ⟨hgrown, rfl, rfl⟩ := level_ok h hn hlevel
    have hlen : (pre ++ levelValues current step.1 step.2).length = n + 8 + 1 := by
      rw [List.length_append, hn]
      rfl
    obtain ⟨hvalues, hcons⟩ := ih hgrown.full hlen hgrown.assignment hlevels
    rw [List.append_assoc] at hvalues
    rw [hgrown.constraints, List.append_assoc] at hcons
    exact ⟨hvalues, hcons⟩

end Building

section Solutions

variable {K : Type} [Field K]

theorem levelConstraints_iff {init rest : List K} {current s p d w l r x y : K}
    (hone : (init ++ current :: ([s, p, d, w, l, r, x, y] ++ rest))[0]? = some 1) :
    (∀ c ∈ levelConstraints init.length,
        c.Holds (init ++ current :: ([s, p, d, w, l, r, x, y] ++ rest))) ↔
      ∃ isRight, [s, p, d, w, l, r, x, y] = levelValues current s isRight := by
  generalize hz : init ++ current :: ([s, p, d, w, l, r, x, y] ++ rest) = z at hone ⊢
  have hget : ∀ j, z[init.length + j]? = (current :: ([s, p, d, w, l, r, x, y] ++ rest))[j]? := by
    intro j
    rw [← hz, List.getElem?_append_right (Nat.le_add_right _ _), Nat.add_sub_cancel_left]
  have hcurrent : z[init.length]? = some current := hget 0
  have hin : ∀ j ≤ 8, init.length + j < z.length := by
    intro j hj
    rw [← hz]
    simp
    omega
  have hpos : init.length < z.length := hin 0 (by decide)
  have hpos' : 0 < z.length := by omega
  have hcons : (∀ c ∈ levelConstraints init.length, c.Holds z) ↔
      p * p = p ∧ s - current = d ∧ p * d = w ∧ current + w = l ∧ s - w = r ∧ l * r = x ∧
        x + l + r = y := by
    simp only [levelConstraints, List.forall_mem_cons, List.not_mem_nil, false_implies, implies_true,
      R1CSConstraint.holds_iff, LinearCombination.within_zero, LinearCombination.within_addTerm,
      LinearCombination.within_fromVariable, LinearCombination.within_fromConstant, hin, hpos, hpos',
      Nat.reduceLeDiff, le_refl, and_true]
    simp [hget, hcurrent, hone, sub_eq_add_neg]
  rw [hcons]
  constructor
  · rintro ⟨hp, rfl, rfl, rfl, rfl, rfl, rfl⟩
    rcases mul_right_eq_self₀.mp hp with rfl | rfl
    · exact ⟨true, by simp [levelValues]⟩
    · exact ⟨false, by simp [levelValues]⟩
  · rintro ⟨isRight, h⟩
    simp only [levelValues, List.cons.injEq, and_true] at h
    obtain ⟨-, rfl, rfl, rfl, rfl, rfl, rfl, rfl⟩ := h
    cases isRight with
    | false | true => simp

/-- The solutions above a value are what is assigned for some path that leads to the root. -/
theorem pathConstraints_iff {root : K} {d : ℕ} : ∀ {init rest : List K} {current : K},
    (init ++ current :: rest)[0]? = some 1 → (init ++ current :: rest)[1]? = some root →
    rest.length = 8 * d →
    ((∀ c ∈ pathConstraints init.length d, c.Holds (init ++ current :: rest)) ↔
      ∃ path : List (K × Bool), path.length = d ∧ rest = pathValues current path ∧
        path.foldl (fun current level => parent current level.1 level.2) current = root) := by
  induction d with
  | zero =>
    intro init rest current hone hroot hlen
    obtain rfl := List.length_eq_zero_iff.mp hlen
    have hcurrent : (init ++ [current])[init.length]? = some current := List.getElem?_concat_length
    have hcons : (∀ c ∈ pathConstraints init.length 0, c.Holds (init ++ [current])) ↔
        current = root := by
      rw [pathConstraints, List.forall_mem_singleton, R1CSConstraint.holds_iff]
      · simp only [LinearCombination.sum_addTerm, LinearCombination.sum_zero,
          LinearCombination.sum_fromConstant, List.getD_eq_getElem?_getD, hone, hroot, hcurrent]
        simp [← sub_eq_add_neg, sub_eq_zero]
      · simpa using (List.getElem?_eq_some_iff.mp hroot).1
      · simp
      · simp
    rw [hcons]
    constructor
    · exact fun h => ⟨[], rfl, rfl, h⟩
    · rintro ⟨path, hpath, -, h⟩
      obtain rfl := List.length_eq_zero_iff.mp hpath
      exact h
  | succ d ih =>
    intro init rest current hone hroot hlen
    obtain ⟨s, p, x₃, x₄, x₅, x₆, x₇, y, rest, rfl⟩ : ∃ s p x₃ x₄ x₅ x₆ x₇ y rest',
        rest = [s, p, x₃, x₄, x₅, x₆, x₇, y] ++ rest' := by
      match rest, hlen with
      | s :: p :: x₃ :: x₄ :: x₅ :: x₆ :: x₇ :: y :: rest, _ =>
        exact ⟨s, p, x₃, x₄, x₅, x₆, x₇, y, rest, rfl⟩
    have hsplit : init ++ current :: ([s, p, x₃, x₄, x₅, x₆, x₇, y] ++ rest) =
        (init ++ [current, s, p, x₃, x₄, x₅, x₆, x₇]) ++ y :: rest := by simp
    rw [pathConstraints, List.forall_mem_append, levelConstraints_iff hone]
    rw [hsplit] at hone hroot ⊢
    have hrest := ih hone hroot (by simpa [Nat.mul_succ] using hlen)
    rw [List.length_append] at hrest
    refine (and_congr_right fun _ => hrest).trans ?_
    constructor
    · rintro ⟨⟨isRight, hlevel⟩, path, rfl, rfl, hpath⟩
      have hy : y = parent current s isRight := by
        rw [← parent_eq, ← hlevel]
        rfl
      subst hy
      exact ⟨(s, isRight) :: path, rfl, by rw [pathValues, hlevel], hpath⟩
    · rintro ⟨path, hpath, hvalues, hfold⟩
      match path, hpath with
      | (s', isRight) :: path, hpath =>
        obtain ⟨hlevel, habove⟩ := List.append_inj hvalues rfl
        obtain rfl : s = s' := (List.cons.inj hlevel).1
        have hy : y = parent current s isRight := by
          rw [← parent_eq, ← hlevel]
          rfl
        subst hy
        exact ⟨⟨isRight, hlevel⟩, path, Nat.succ.inj hpath, habove, hfold⟩

end Solutions

end MerkleInclusionCircuit

open MerkleInclusionCircuit in
/-- **The Merkle circuit characterises inclusion.**  Over any field, an assignment satisfies the
constraints exactly if it is the one synthesized for some leaf, siblings and positions, with the root
that `compute_root` gives for them, up to the slot that is not used; so if that is the root, the
synthesized assignment satisfies them. -/
theorem merkle_characterised {K : Type} [Field K] [DecidableEq K] {circuit : MerkleInclusionCircuit K}
    {cs : ConstraintSystem K} (h : circuit.synthesize {} = .ok cs) :
    cs.assignment = [1, circuit.root, 0, circuit.leaf] ++
        pathValues circuit.leaf (circuit.path.zip circuit.positionBits) ∧
      (∀ z : List K, z.length = cs.assignment.length → z[0]? = some 1 →
        ((∀ c ∈ cs.constraints, c.Holds z) ↔
          ∃ (leaf unused : K) (path : List K) (positionBits : List Bool),
            path.length = circuit.path.length ∧ positionBits.length = circuit.path.length ∧
            z = [1, computeRoot leaf path positionBits, unused, leaf] ++
              pathValues leaf (path.zip positionBits))) ∧
      (circuit.root =
          computeRoot circuit.leaf circuit.path circuit.positionBits →
        cs.verifyAssignment = .ok ()) := by
  obtain ⟨hlen, h⟩ := except_guard_ok.mp h
  obtain ⟨-, h⟩ := except_guard_ok.mp h
  obtain ⟨⟨_, _⟩, hpublic, h⟩ := except_bind_ok.mp h
  cases hpublic
  obtain ⟨⟨cs₁, _⟩, hleaf, h⟩ := except_bind_ok.mp h
  have hstart : ConstraintSystem.Full { numPublicInputs := 1, assignment := [1, circuit.root] }
    [1, circuit.root, 0] := ⟨rfl, fun _ => rfl⟩
  obtain ⟨hgrown, rfl⟩ := hstart.grown_allocWitness hleaf
  obtain ⟨⟨cs₂, var⟩, hlevels, h⟩ := except_bind_ok.mp h
  obtain ⟨hvalues, hcons⟩ := levels_ok hgrown.full rfl hgrown.assignment hlevels
  obtain ⟨-, h⟩ := except_guard_ok.mp h
  cases h
  rw [hgrown.constraints] at hcons
  have hdepth : (circuit.path.zip circuit.positionBits).length = circuit.path.length := by
    rw [List.length_zip, ← not_not.mp hlen, min_self]
  rw [hdepth] at hcons
  have hiff : ∀ z : List K, z.length = 8 * circuit.path.length + 4 → z[0]? = some 1 →
      ((∀ c ∈ pathConstraints 3 circuit.path.length, c.Holds z) ↔
        ∃ (leaf unused : K) (path : List K) (positionBits : List Bool),
          path.length = circuit.path.length ∧ positionBits.length = circuit.path.length ∧
          z = [1, computeRoot leaf path positionBits, unused, leaf] ++
            pathValues leaf (path.zip positionBits)) := by
    intro z hz hone
    match z, hz with
    | one :: root :: unused :: leaf :: rest, hz =>
      obtain rfl : one = 1 := Option.some.inj hone
      have hrest : rest.length = 8 * circuit.path.length := Nat.add_right_cancel (m := 4) hz
      have hroot : ([1, root, unused] ++ leaf :: rest)[1]? = some root := rfl
      refine (pathConstraints_iff rfl hroot hrest).trans ⟨?_, ?_⟩
      · rintro ⟨path, hpath, rfl, hfold⟩
        refine ⟨leaf, unused, path.unzip.1, path.unzip.2, by simp [hpath], by simp [hpath], ?_⟩
        rw [computeRoot, List.zip_unzip, hfold]
        rfl
      · rintro ⟨leaf', unused', path, positionBits, hpath, hbits, heq⟩
        cases heq
        exact ⟨path.zip positionBits, by simp [hpath, hbits], rfl, rfl⟩
  have hassign : cs₂.assignment.length = 8 * circuit.path.length + 4 := by
    rw [hvalues, List.length_append, length_pathValues, hdepth, Nat.add_comm]
    rfl
  refine ⟨hvalues, fun z hz hone => ?_, fun hroot => ?_⟩
  · exact hcons ▸ hiff z (hz.trans hassign) hone
  · refine ConstraintSystem.verifyConstraints_ok_iff.mpr ?_
    change ∀ c ∈ cs₂.constraints ++ _, c.Holds cs₂.assignment
    rw [hcons]
    refine (hiff _ hassign (by rw [hvalues]; rfl)).mpr ⟨circuit.leaf, 0, circuit.path,
      circuit.positionBits, rfl, (not_not.mp hlen).symm, ?_⟩
    rw [hvalues, ← hroot]
    rfl

/-- A leaf on the right, below a root of depth one. -/
theorem merkle_characterised_one :
    ∃ cs : ConstraintSystem ℚ,
      (MerkleInclusionCircuit.mk 1 [2] [true] 5 : MerkleInclusionCircuit ℚ).synthesize {} = .ok cs ∧
        cs.verifyAssignment = .ok () := by
  let circuit : MerkleInclusionCircuit ℚ := ⟨1, [2], [true], 5⟩
  obtain ⟨cs, hcs⟩ : ∃ cs, circuit.synthesize {} = .ok cs := ⟨_, rfl⟩
  refine ⟨cs, hcs, (merkle_characterised hcs).2.2 ?_⟩
  norm_num [circuit, MerkleInclusionCircuit.computeRoot, MerkleInclusionCircuit.parent]

end Gratia
