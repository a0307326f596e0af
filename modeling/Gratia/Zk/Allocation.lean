import Gratia.Support.Runs
import Gratia.Zk.Groth16

/-!
# Zk — Allocation

Circuits by the calls they make on a constraint system: where the values they allocate end up, and
which of them `prove` commits to.  The variable of a witness is computed from a count that includes
it, one slot further than `prove` looks for it; and a public input that is allocated later may take
its slot.
-/

namespace Gratia

open Support

variable {F : Type}

inductive CircuitCall (F : Type) where
  | allocPublicInput (value : F)
  | allocWitness (value : F)
  | constrain (a b c : LinearCombination F)

/-- The values of the public inputs, in the order of their allocation. -/
def publicValues (calls : List (CircuitCall F)) : List F :=
  calls.filterMap fun | .allocPublicInput value => some value | _ => none

def allocatedWitnesses (calls : List (CircuitCall F)) : List F :=
  calls.filterMap fun | .allocWitness value => some value | _ => none

/-! ### Slots -/

/-- The variables of the calls, with their values, when `p` public inputs and `w` witnesses are
allocated before them. -/
def slots : ℕ → ℕ → List (CircuitCall F) → List (ℕ × F)
  | _, _, [] => []
  | p, w, .allocPublicInput value :: calls => (p + 1, value) :: slots (p + 1) w calls
  | p, w, .allocWitness value :: calls => (1 + p + (w + 1), value) :: slots p (w + 1) calls
  | p, w, .constrain _ _ _ :: calls => slots p w calls

variable {calls : List (CircuitCall F)}

theorem mem_slots : ∀ {p w : ℕ}, ∀ v ∈ slots p w calls,
    (p < v.1 ∧ v.1 ≤ p + (publicValues calls).length) ∨ p + w + 2 ≤ v.1 := by
  induction calls with
  | nil => exact nofun
  | cons call calls ih =>
    intro p w v hv
    cases call with
    | allocPublicInput value =>
      rw [show (publicValues (.allocPublicInput value :: calls)).length =
        (publicValues calls).length + 1 from rfl]
      rcases List.mem_cons.mp hv with rfl | hv
      · exact .inl ⟨Nat.lt_succ_self p, by dsimp only; omega⟩
      · have := ih v hv
        omega
    | allocWitness value =>
      rcases List.mem_cons.mp hv with rfl | hv
      · exact .inr (by dsimp only; omega)
      · have := ih v hv
        change (p < v.1 ∧ v.1 ≤ p + (publicValues calls).length) ∨ _
        omega
    | constrain a b c => exact ih v hv

/-- For each witness, `R` holds of the witnesses before it and the public inputs behind it; there
are `w` witnesses before these calls. -/
def Behind (R : ℕ → ℕ → Prop) : ℕ → List (CircuitCall F) → Prop
  | _, [] => True
  | w, .allocWitness _ :: calls => R w (publicValues calls).length ∧ Behind R (w + 1) calls
  | w, _ :: calls => Behind R w calls

theorem Behind.imp {R S : ℕ → ℕ → Prop} (hRS : ∀ w n, R w n → S w n) :
    ∀ {w : ℕ}, Behind R w calls → Behind S w calls := by
  induction calls with
  | nil => exact id
  | cons call calls ih =>
    intro w h
    cases call with
    | allocWitness value => exact ⟨hRS _ _ h.1, ih h.2⟩
    | _ => exact ih h

theorem publicSlot_mem : ∀ {p w i : ℕ}, i < (publicValues calls).length →
    p + i + 1 ∈ (slots p w calls).map Prod.fst := by
  induction calls with
  | nil => exact fun h => absurd h (Nat.not_lt_zero _)
  | cons call calls ih =>
    intro p w i h
    cases call with
    | allocPublicInput value =>
      cases i with
      | zero => exact List.mem_cons_self
      | succ i =>
        have hmem := ih (p := p + 1) (w := w) (Nat.lt_of_succ_lt_succ h)
        rw [Nat.add_right_comm p] at hmem
        exact List.mem_cons_of_mem _ hmem
    | allocWitness value => exact List.mem_cons_of_mem _ (ih h)
    | constrain a b c => exact ih h

/-- Slots are shared exactly if enough public inputs follow a witness to reach its own. -/
theorem slots_nodup_iff : ∀ {p w : ℕ}, ((slots p w calls).map Prod.fst).Nodup ↔
    Behind (fun w n => n ≤ w + 1) w calls := by
  induction calls with
  | nil => exact iff_of_true .nil trivial
  | cons call calls ih =>
    intro p w
    cases call with
    | allocPublicInput value =>
      refine List.nodup_cons.trans ((and_iff_right fun hmem => ?_).trans ih)
      obtain ⟨v, hv, hp⟩ := List.mem_map.mp hmem
      have := mem_slots v hv
      dsimp only at hp
      omega
    | allocWitness value =>
      refine List.nodup_cons.trans (and_congr ⟨fun hnot => ?_, fun hle hmem => ?_⟩ ih)
      · by_contra hlt
        have hmem := publicSlot_mem (p := p) (w := w + 1) (Nat.lt_of_succ_le (not_le.mp hlt))
        exact hnot (by rwa [show 1 + p + (w + 1) = p + (w + 1) + 1 by omega])
      · obtain ⟨v, hv, hp⟩ := List.mem_map.mp hmem
        have := mem_slots v hv
        dsimp only at hp
        omega
    | constrain a b c => exact ih

/-- If one public input follows each witness, the witnesses have the slots right behind those of the
public inputs. -/
theorem mem_slots_of_one : ∀ {p w i : ℕ} {value : F},
    Behind (fun _ n => n = 1) w calls → (allocatedWitnesses calls)[i]? = some value →
      (1 + (p + (publicValues calls).length) + (w + i), value) ∈ slots p w calls := by
  induction calls with
  | nil => exact fun _ h => nomatch h
  | cons call calls ih =>
    intro p w i value h hi
    cases call with
    | allocPublicInput x =>
      have hmem := ih (p := p + 1) (w := w) h hi
      rw [Nat.add_assoc p, Nat.add_comm 1 (publicValues calls).length] at hmem
      exact List.mem_cons_of_mem _ hmem
    | allocWitness x =>
      obtain ⟨hone, h⟩ := h
      rw [show (publicValues (.allocWitness x :: calls)).length = 1 from hone]
      cases i with
      | zero =>
        cases hi
        rw [slots, show 1 + (p + 1) + (w + 0) = 1 + p + (w + 1) by omega]
        exact List.mem_cons_self
      | succ i =>
        have hmem := ih (p := p) (w := w + 1) h hi
        rw [hone, Nat.add_right_comm w] at hmem
        exact List.mem_cons_of_mem _ hmem
    | constrain a b c => exact ih h hi

theorem mapM_range_eq_some {f : ℕ → Option F} {l : List F} :
    (∀ i < l.length, f i = l[i]?) → (List.range l.length).mapM f = some l := by
  induction l using List.reverseRecOn with
  | nil => exact fun _ => rfl
  | append_singleton l a ih =>
    intro h
    have hl : (List.range l.length).mapM f = some l := by
      refine ih fun i hi => ?_
      rw [h i (by rw [List.length_append]; omega), List.getElem?_append_left hi]
    have ha : f l.length = some a := by
      rw [h l.length (by simp)]
      exact List.getElem?_concat_length
    rw [List.length_append, List.length_singleton, List.range_succ, List.mapM_append, hl]
    simp [ha]

/-! ### Calls -/

variable [CommRing F]

namespace ConstraintSystem

/-- What a call does: the system behind it, and the variable it returns with the value. -/
def call (cs : ConstraintSystem F) :
    CircuitCall F → Except Groth16Error (ConstraintSystem F × List (ℕ × F))
  | .allocPublicInput value => do
    let (cs, var) ← cs.allocPublicInput value
    return (cs, [(var, value)])
  | .allocWitness value => do
    let (cs, var) ← cs.allocWitness value
    return (cs, [(var, value)])
  | .constrain a b c => do return (← cs.constrain a b c, [])

def run (cs : ConstraintSystem F) :
    List (CircuitCall F) → Except Groth16Error (ConstraintSystem F × List (ℕ × F))
  | [] => .ok (cs, [])
  | call :: calls => do
    let (cs, vars) ← cs.call call
    let (cs, rest) ← cs.run calls
    return (cs, vars ++ rest)

end ConstraintSystem

def assignAll (assignment : List F) (vars : List (ℕ × F)) : List F :=
  vars.foldl (fun z v => assignAt z v.1 v.2) assignment

structure Built (cs : ConstraintSystem F) (calls : List (CircuitCall F)) (vars : List (ℕ × F))
    (cs' : ConstraintSystem F) : Prop where
  vars_eq : vars = slots cs.numPublicInputs cs.numWitnessVars calls
  numPublicInputs : cs'.numPublicInputs = cs.numPublicInputs + (publicValues calls).length
  numWitnessVars : cs'.numWitnessVars = cs.numWitnessVars + (allocatedWitnesses calls).length
  assignment : cs'.assignment = assignAll cs.assignment vars

theorem ConstraintSystem.built :
    ∀ {cs cs' : ConstraintSystem F} {vars : List (ℕ × F)}, cs.run calls = .ok (cs', vars) →
      Built cs calls vars cs' := by
  induction calls with
  | nil =>
    rintro cs cs' vars ⟨⟩
    exact ⟨rfl, rfl, rfl, rfl⟩
  | cons call calls ih =>
    intro cs cs' vars h
    obtain ⟨⟨cs₁, vars₁⟩, hcall, h⟩ := except_bind_ok.mp h
    obtain ⟨⟨cs₂, rest⟩, hrest, h⟩ := except_bind_ok.mp h
    cases h
    obtain ⟨hvars, hpublic, hwitness, hassignment⟩ := ih hrest
    cases call with
    | allocPublicInput value | allocWitness value =>
      obtain ⟨⟨cs₃, var⟩, halloc, hcall⟩ := except_bind_ok.mp hcall
      cases hcall
      obtain ⟨-, halloc⟩ := except_guard_ok.mp halloc
      cases halloc
      first
        | exact ⟨congrArg _ hvars, hpublic.trans (Nat.add_right_comm _ _ _), hwitness, hassignment⟩
        | exact ⟨congrArg _ hvars, hpublic, hwitness.trans (Nat.add_right_comm _ _ _), hassignment⟩
    | constrain a b c =>
      obtain ⟨cs₃, hcons, hcall⟩ := except_bind_ok.mp hcall
      cases hcall
      obtain ⟨-, hcons⟩ := except_guard_ok.mp hcons
      cases hcons
      exact ⟨hvars, hpublic, hwitness, hassignment⟩

theorem getElem?_assignAt {z : List F} {i j : ℕ} {value x : F}
    (h : j = i ∧ x = value ∨ j ≠ i ∧ z[j]? = some x) : (assignAt z i value)[j]? = some x := by
  unfold assignAt
  rcases h with ⟨rfl, rfl⟩ | ⟨hne, hz⟩
  · exact List.getElem?_set_self (by rw [List.length_append, List.length_replicate]; omega)
  · rw [List.getElem?_set_ne (Ne.symm hne)]
    exact List.getElem?_append_left (List.getElem?_eq_some_iff.mp hz).1 ▸ hz

theorem length_assignAt (z : List F) (i : ℕ) (value : F) :
    (assignAt z i value).length = max z.length (i + 1) := by
  unfold assignAt
  rw [List.length_set, List.length_append, List.length_replicate]
  omega

theorem getElem?_assignAll_of_notMem {vars : List (ℕ × F)} {j : ℕ} {x : F} :
    ∀ {z : List F}, j ∉ vars.map Prod.fst → z[j]? = some x → (assignAll z vars)[j]? = some x := by
  induction vars with
  | nil => exact fun _ hz => hz
  | cons v vars ih =>
    intro z hj hz
    rw [List.map_cons, List.mem_cons, not_or] at hj
    exact ih hj.2 (getElem?_assignAt (.inr ⟨hj.1, hz⟩))

theorem getElem?_assignAll {vars : List (ℕ × F)} (hvars : (vars.map Prod.fst).Nodup) :
    ∀ {z : List F}, ∀ v ∈ vars, (assignAll z vars)[v.1]? = some v.2 := by
  induction vars with
  | nil => exact nofun
  | cons u vars ih =>
    intro z v hv
    obtain ⟨hu, hvars⟩ := List.nodup_cons.mp hvars
    rcases List.mem_cons.mp hv with rfl | hv
    · change (assignAll (assignAt z v.1 v.2) vars)[v.1]? = _
      exact getElem?_assignAll_of_notMem hu (getElem?_assignAt (.inl ⟨rfl, rfl⟩))
    · exact ih hvars v hv

/-! ### What `prove` takes out of the assignment -/

theorem ConstraintSystem.witnessValues_eq {cs : ConstraintSystem F} {l : List F}
    (hlen : l.length = cs.numWitnessVars)
    (h : ∀ i < l.length, cs.assignment[1 + cs.numPublicInputs + i]? = l[i]?) :
    cs.witnessValues = some l := by
  rw [ConstraintSystem.witnessValues, ← hlen]
  exact mapM_range_eq_some h

/-- **Allocated values are kept, and committed.**  The variables are different and the assignment
holds their values exactly if no more public inputs follow a witness than there are witnesses up to
it; and `prove` takes out exactly the witness values if one public input follows each of them. -/
theorem allocations_kept {calls : List (CircuitCall F)} {cs : ConstraintSystem F}
    {vars : List (ℕ × F)} (h : ({} : ConstraintSystem F).run calls = .ok (cs, vars)) :
    (Behind (fun w n => n ≤ w + 1) 0 calls ↔
      (vars.map Prod.fst).Nodup ∧ ∀ v ∈ vars, cs.assignment[v.1]? = some v.2) ∧
    (Behind (fun _ n => n = 1) 0 calls → cs.witnessValues = some (allocatedWitnesses calls)) := by
  have hbuilt := ConstraintSystem.built h
  have hnodup : (vars.map Prod.fst).Nodup ↔ Behind (fun w n => n ≤ w + 1) 0 calls := by
    rw [hbuilt.vars_eq]
    exact slots_nodup_iff
  have hkept : Behind (fun w n => n ≤ w + 1) 0 calls →
      ∀ v ∈ vars, cs.assignment[v.1]? = some v.2 := by
    rw [hbuilt.assignment]
    exact fun hapart => getElem?_assignAll (hnodup.mpr hapart)
  refine ⟨⟨fun hapart => ⟨hnodup.mpr hapart, hkept hapart⟩, fun hvars => hnodup.mp hvars.1⟩,
    fun hone => ConstraintSystem.witnessValues_eq ?_ fun i hi => ?_⟩
  · exact (hbuilt.numWitnessVars.trans (Nat.zero_add _)).symm
  · have hmem := mem_slots_of_one (p := 0) hone (List.getElem?_eq_getElem hi)
    have hslot := hkept (hone.imp fun w n hn => hn.le.trans (Nat.le_add_left 1 w)) _
      (hbuilt.vars_eq ▸ hmem)
    rw [List.getElem?_eq_getElem hi, ← hslot, hbuilt.numPublicInputs, Nat.zero_add i]

section

-- a constant, as for the base points of the shielded transactions
local instance Reference.two_between : Nat.AtLeastTwo 2 := ⟨le_rfl⟩

def Reference.between : ConstraintSystem reference.Scalar :=
  { numPublicInputs := 2, numWitnessVars := 2, assignment := [1, 1, 2, 7, 8] }

end

theorem allocations_kept_between : Reference.between.witnessValues = some [7, 8] := by
  have hrun : ({} : ConstraintSystem reference.Scalar).run [.allocPublicInput 1, .allocWitness 7,
      .allocWitness 8, .allocPublicInput 2] =
        .ok (Reference.between, [(1, 1), (3, 7), (4, 8), (2, 2)]) := rfl
  exact (allocations_kept hrun).2 ⟨rfl, rfl, trivial⟩

/-- `prove` commits to `0` for a witness `7` behind a public input; and the second of two public
inputs takes the slot of a witness before them. -/
theorem witness_not_committed :
    (({} : ConstraintSystem reference.Scalar).run [.allocPublicInput 5, .allocWitness 7]).map
        (fun r => r.1.witnessValues) = .ok (some [0]) ∧
    (({} : ConstraintSystem reference.Scalar).run [.allocWitness 7, .allocPublicInput 1,
        .allocPublicInput 2]).map (fun r => (r.2, r.1.assignment)) =
      .ok ([(2, 7), (1, 1), (2, 2)], [1, 1, 2]) :=
  ⟨rfl, rfl⟩

/-! ### Completeness -/

/-- If no public input is allocated behind a witness, the assignment reaches to the last slot that is
read as a witness. -/
theorem length_of_publicFirst :
    ∀ {p w : ℕ} {z : List F}, Behind (fun _ n => n = 0) w calls →
      (w ≠ 0 → (publicValues calls).length = 0) →
      1 + p + w ≤ z.length →
      1 + (p + (publicValues calls).length) + (w + (allocatedWitnesses calls).length) ≤
        (assignAll z (slots p w calls)).length := by
  induction calls with
  | nil => exact fun _ _ hz => hz
  | cons call calls ih =>
    intro p w z h hw hz
    cases call with
    | allocPublicInput x =>
      obtain rfl : w = 0 := by
        by_contra hne
        cases hw hne
      have hlen := ih (p := p + 1) (w := 0) (z := assignAt z (p + 1) x) h (absurd rfl)
        (by rw [length_assignAt]; omega)
      rwa [Nat.add_assoc p, Nat.add_comm 1 (publicValues calls).length] at hlen
    | allocWitness x =>
      obtain ⟨hnone, h⟩ := h
      have hlen := ih (p := p) (w := w + 1) (z := assignAt z (1 + p + (w + 1)) x) h
        (fun _ => hnone) (by rw [length_assignAt]; omega)
      rwa [Nat.add_assoc w, Nat.add_comm 1 (allocatedWitnesses calls).length] at hlen
    | constrain a b c => exact ih h hw hz

/-- **The prover is complete** for circuits that allocate their public inputs first: if the
assignment satisfies the constraints, it returns a proof for the public inputs, which is accepted
for them. -/
theorem prove_complete {P : Platform} (challengeOf : Challenge P) (alphaScalar betaScalar : P.Scalar)
    (coins : ProverCoins P) {circuit : Circuit P.Scalar} {params : SetupParameters P}
    {calls : List (CircuitCall P.Scalar)} {vars : List (ℕ × P.Scalar)}
    {cs : ConstraintSystem P.Scalar} (hcircuit : circuit {} = .ok cs)
    (hcalls : ({} : ConstraintSystem P.Scalar).run calls = .ok (cs, vars))
    (hfirst : Behind (fun _ n => n = 0) 0 calls) (hsatisfied : cs.verifyAssignment = .ok ())
    (hsetup : trustedSetup alphaScalar betaScalar circuit = .ok params) :
    ∃ proof,
      Groth16.prove challengeOf params coins circuit (publicValues calls) = some (.ok proof) ∧
      Groth16.verify challengeOf params.verificationKey proof (publicValues calls) = .ok true := by
  have hparams : setupFor P alphaScalar betaScalar cs = params := by
    simpa [trustedSetup, hcircuit] using hsetup
  subst hparams
  have hbuilt := ConstraintSystem.built hcalls
  have hlen : 1 + cs.numPublicInputs + cs.numWitnessVars ≤ cs.assignment.length := by
    rw [hbuilt.assignment, hbuilt.vars_eq, hbuilt.numPublicInputs, hbuilt.numWitnessVars]
    exact length_of_publicFirst hfirst (absurd rfl) le_rfl
  have hwitness : cs.witnessValues =
      some ((cs.assignment.drop (1 + cs.numPublicInputs)).take cs.numWitnessVars) := by
    have htake : ((cs.assignment.drop (1 + cs.numPublicInputs)).take cs.numWitnessVars).length =
        cs.numWitnessVars := by
      rw [List.length_take, List.length_drop]
      omega
    refine ConstraintSystem.witnessValues_eq htake fun i hi => ?_
    rw [List.getElem?_take_of_lt (htake ▸ hi), List.getElem?_drop]
  exact prove_accepted challengeOf alphaScalar betaScalar coins hcircuit ⟨rfl, rfl, rfl⟩
    ⟨hsatisfied, hwitness ▸ rfl⟩ (hbuilt.numPublicInputs.trans (Nat.zero_add _)).symm

namespace Reference

/-- A square root of a public input. -/
def root (x square : reference.Scalar) : Circuit reference.Scalar := fun cs => do
  let (cs, y) ← cs.allocPublicInput square
  let (cs, var) ← cs.allocWitness x
  cs.constrain (.fromVariable var) (.fromVariable var) (.fromVariable y)

def rootSystem (x square : reference.Scalar) : ConstraintSystem reference.Scalar :=
  { numPublicInputs := 1, numWitnessVars := 1
    constraints := [⟨⟨[(1, 3)]⟩, ⟨[(1, 3)]⟩, ⟨[(1, 1)]⟩⟩]
    assignment := [1, square, 0, x] }

end Reference

/-- The witness `3` is in slot 3, for the public input `9`. -/
theorem prove_complete_root :
    ∃ proof,
      Groth16.prove (fun _ _ _ x => x.sum) (setupFor reference 1 1 (Reference.rootSystem 3 9))
        ⟨2, 3, fun _ => 5, 4⟩ (Reference.root 3 9) [9] = some (.ok proof) ∧
      Groth16.verify (fun _ _ _ x => x.sum)
        (setupFor reference 1 1 (Reference.rootSystem 3 9)).verificationKey proof [9] = .ok true := by
  have hrun : ({} : ConstraintSystem reference.Scalar).run [.allocPublicInput 9, .allocWitness 3,
      .constrain ⟨[(1, 3)]⟩ ⟨[(1, 3)]⟩ ⟨[(1, 1)]⟩] =
        .ok (Reference.rootSystem 3 9, [(1, 9), (3, 3)]) := rfl
  exact prove_complete (fun _ _ _ x => x.sum) 1 1 ⟨2, 3, fun _ => 5, 4⟩
    (rfl : Reference.root 3 9 {} = .ok (Reference.rootSystem 3 9)) hrun ⟨rfl, trivial⟩
    (by decide +kernel) rfl

end Gratia
