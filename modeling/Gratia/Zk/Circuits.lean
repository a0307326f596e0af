import Gratia.Support.Sigma
import Gratia.Core.Types

/-!
# Zk — Circuits

The constraint systems of `gratia-zk/src/groth16.rs`: rank-one constraints over the scalars, and the
interface a circuit builds them with.  The scalars are any ring with decidable equality.

A circuit is what its `synthesize` does to a constraint system.  Circuits that keep to the public
interface reach only systems built by `allocPublicInput`, `allocWitness` and `constrain`; nothing
below depends on it.
-/

namespace Gratia

/-! ### Errors -/

inductive Groth16Error where
  | circuitTooLarge (max actual : ℕ)
  | invalidVariableIndex (index max : ℕ)
  | setupMismatch (expected actual : ℕ)
  | proofGenerationFailed (reason : String)
  | verificationFailed (reason : String)
  | serializationError (reason : String)
deriving DecidableEq

def maxConstraints : ℕ := 65536

def maxWitnessVars : ℕ := 65536

def maxPublicInputs : ℕ := 256

variable {F : Type} [CommRing F]

/-! ### Linear combinations -/

/-- `LinearCombination`: coefficients with the indices of their variables.  Index 0 is the constant
one. -/
structure LinearCombination (F : Type) where
  terms : List (F × ℕ) := []

namespace LinearCombination

def zero : LinearCombination F := {}

def addTerm (lc : LinearCombination F) (coeff : F) (var : ℕ) : LinearCombination F :=
  ⟨lc.terms ++ [(coeff, var)]⟩

def fromVariable (var : ℕ) : LinearCombination F := zero.addTerm 1 var

def fromConstant (value : F) : LinearCombination F := zero.addTerm value 0

def evaluate (lc : LinearCombination F) (assignment : List F) : Except Groth16Error F :=
  lc.terms.foldlM (fun result term =>
    match assignment[term.2]? with
    | some value => .ok (result + term.1 * value)
    | none => .error (.invalidVariableIndex term.2 (assignment.length - 1))) 0

end LinearCombination

/-! ### Constraint systems -/

/-- `R1CSConstraint`: `a * b = c`. -/
structure R1CSConstraint (F : Type) where
  a : LinearCombination F
  b : LinearCombination F
  c : LinearCombination F

structure ConstraintSystem (F : Type) [CommRing F] where
  numPublicInputs : ℕ := 0
  numWitnessVars : ℕ := 0
  constraints : List (R1CSConstraint F) := []
  assignment : List F := [1]

/-- Write `value` at `idx`, the vector first grown with zeros to reach it. -/
def assignAt (assignment : List F) (idx : ℕ) (value : F) : List F :=
  (assignment ++ List.replicate (idx + 1 - assignment.length) 0).set idx value

namespace ConstraintSystem

/-- `alloc_public_input`: the new system and the index of the variable. -/
def allocPublicInput (cs : ConstraintSystem F) (value : F) :
    Except Groth16Error (ConstraintSystem F × ℕ) :=
  if cs.numPublicInputs ≥ maxPublicInputs then
    .error (.circuitTooLarge maxPublicInputs (cs.numPublicInputs + 1))
  else
    let idx := cs.numPublicInputs + 1
    .ok ({ cs with
      numPublicInputs := idx
      assignment := assignAt cs.assignment idx value }, idx)

/-- `alloc_witness`.  The count is incremented before the index is computed, so the slot right after
the public inputs is skipped. -/
def allocWitness (cs : ConstraintSystem F) (value : F) :
    Except Groth16Error (ConstraintSystem F × ℕ) :=
  if cs.numWitnessVars ≥ maxWitnessVars then
    .error (.circuitTooLarge maxWitnessVars (cs.numWitnessVars + 1))
  else
    let numWitnessVars := cs.numWitnessVars + 1
    let index := 1 + cs.numPublicInputs + numWitnessVars
    .ok ({ cs with
      numWitnessVars := numWitnessVars
      assignment := assignAt cs.assignment index value }, index)

def constrain (cs : ConstraintSystem F) (a b c : LinearCombination F) :
    Except Groth16Error (ConstraintSystem F) :=
  if cs.constraints.length ≥ maxConstraints then
    .error (.circuitTooLarge maxConstraints (cs.constraints.length + 1))
  else
    .ok { cs with constraints := cs.constraints ++ [⟨a, b, c⟩] }

/-- The public inputs that were allocated, in the slots after the constant one. -/
def publicInputs (cs : ConstraintSystem F) : List F :=
  (cs.assignment.drop 1).take cs.numPublicInputs

/-- The witness values that `prove` takes out of the assignment, after the constant one and the
public inputs; `none` where it would index past the end. -/
def witnessValues (cs : ConstraintSystem F) : Option (List F) :=
  (List.range cs.numWitnessVars).mapM fun i => cs.assignment[1 + cs.numPublicInputs + i]?

variable [DecidableEq F]

/-- The loop of `verify_assignment`, from the constraint number `i` on. -/
def verifyConstraints (assignment : List F) :
    ℕ → List (R1CSConstraint F) → Except Groth16Error Unit
  | _, [] => .ok ()
  | i, constraint :: rest => do
    let a ← constraint.a.evaluate assignment
    let b ← constraint.b.evaluate assignment
    let c ← constraint.c.evaluate assignment
    if a * b ≠ c then
      .error (.proofGenerationFailed s!"constraint {i} not satisfied: A*B != C")
    else verifyConstraints assignment (i + 1) rest

def verifyAssignment (cs : ConstraintSystem F) : Except Groth16Error Unit :=
  verifyConstraints cs.assignment 0 cs.constraints

def computeConstraintEvaluations (cs : ConstraintSystem F) : Except Groth16Error (List F) :=
  cs.constraints.mapM fun constraint => do
    let a ← constraint.a.evaluate cs.assignment
    let b ← constraint.b.evaluate cs.assignment
    return a * b

end ConstraintSystem

/-- `Circuit`, by what `synthesize` does. -/
abbrev Circuit (F : Type) [CommRing F] : Type :=
  ConstraintSystem F → Except Groth16Error (ConstraintSystem F)

/-! ### Satisfaction -/

variable [DecidableEq F]

/-- The constraint holds: its three sides evaluate and the product of two is the third. -/
def R1CSConstraint.Holds (constraint : R1CSConstraint F) (assignment : List F) : Prop :=
  ∃ a b, constraint.a.evaluate assignment = .ok a ∧ constraint.b.evaluate assignment = .ok b ∧
    constraint.c.evaluate assignment = .ok (a * b)

theorem ConstraintSystem.verifyConstraints_ok_iff {assignment : List F} {i : ℕ}
    {constraints : List (R1CSConstraint F)} :
    verifyConstraints assignment i constraints = .ok () ↔
      ∀ constraint ∈ constraints, constraint.Holds assignment := by
  induction constraints generalizing i with
  | nil => simp [verifyConstraints]
  | cons constraint rest ih =>
    rw [List.forall_mem_cons, ← ih (i := i + 1), R1CSConstraint.Holds, verifyConstraints]
    rcases constraint.a.evaluate assignment with - | a
    · simp [bind, Except.bind]
    rcases constraint.b.evaluate assignment with - | b
    · simp [bind, Except.bind]
    rcases constraint.c.evaluate assignment with - | c
    · simp [bind, Except.bind]
    by_cases h : a * b = c
    · subst h
      simp [bind, Except.bind]
    · simp [bind, Except.bind, h, Ne.symm h]

theorem ConstraintSystem.computeConstraintEvaluations_ok {cs : ConstraintSystem F}
    (h : cs.verifyAssignment = .ok ()) :
    ∃ evals, cs.computeConstraintEvaluations = .ok evals ∧
      evals.length = cs.constraints.length := by
  have hall := verifyConstraints_ok_iff.mp h
  unfold computeConstraintEvaluations
  generalize cs.constraints = constraints at hall
  induction constraints with
  | nil => exact ⟨[], rfl, rfl⟩
  | cons constraint rest ih =>
    obtain ⟨⟨a, b, ha, hb, -⟩, hrest⟩ := List.forall_mem_cons.mp hall
    obtain ⟨evals, hevals, hlen⟩ := ih hrest
    refine ⟨a * b :: evals, ?_, by simp [hlen]⟩
    rw [List.mapM_cons, ha, hb, hevals]
    rfl

/-- The constraints of a system hold for public inputs `x` and witness values `w`, laid out as the
assignment is documented to be: the constant one, the public inputs, the witness.  Slots past
these are free, since neither list speaks of them. -/
def ConstraintSystem.Satisfied (cs : ConstraintSystem F) (x w : List F) : Prop :=
  ∃ rest, ConstraintSystem.verifyConstraints (1 :: x ++ w ++ rest) 0 cs.constraints = .ok ()

end Gratia
