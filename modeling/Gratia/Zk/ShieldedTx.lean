import Gratia.Core.Reference
import Gratia.Support.Runs
import Gratia.Support.Words
import Gratia.Zk.Pedersen
import Mathlib.NumberTheory.LucasLehmer

/-!
# Zk — Shielded transactions

`gratia-zk/src/shielded_tx.rs`: transfers of hidden amounts.  The verifier checks a range proof on
the amount and the change, and that the input commitment is the sum of theirs and the fee's.  That
sum is one in the group, so it says nothing about integers by itself: the range proof keeps the
three terms below `2 ^ 64`, and an order above `2 ^ 66` then leaves no room to wrap around.

What the group hides cannot be a property of the group.  Every commitment of a group of prime order
opens to every value, with some blinding factor, so both assumptions are about the openings that are
*known*: the range proof of the transfer, if it is accepted, yields known openings
(`RangeProofSound`), and no commitment has two of them with different values (`BindingOn`).
-/

namespace Gratia

open Support

/-! ### Proofs -/

def txRangeProofBits : ℕ := 64

def txProofValues : ℕ := 2

/-- The bytes of `TX_TRANSCRIPT_DOMAIN`, `b"gratia-shielded-transfer-v1"`. -/
def txTranscriptDomain : Bytes :=
  [103, 114, 97, 116, 105, 97, 45, 115, 104, 105, 101, 108, 100, 101, 100, 45, 116, 114, 97, 110, 115,
   102, 101, 114, 45, 118, 49]

structure ShieldedTransactionProof where
  amountCommitment : PedersenCommitment
  changeCommitment : PedersenCommitment
  rangeProof : Bytes
deriving DecidableEq

structure ShieldedTransferSecret (P : Platform) where
  amount : Lux
  amountBlinding : P.Scalar
  change : Lux
  changeBlinding : P.Scalar

structure ShieldedTransferContext where
  senderPubkey : Bytes
  recipient : Bytes32
  nonce : UInt64
  chainId : UInt32
deriving DecidableEq

/-- The transcript that the prover and the verifier set up; the labels are `b"sender_pubkey"`,
`b"recipient"`, `b"nonce"` and `b"chain_id"`. -/
def ShieldedTransferContext.transcript (context : ShieldedTransferContext) : Transcript :=
  ((((Transcript.mk txTranscriptDomain []).appendMessage
    [115, 101, 110, 100, 101, 114, 95, 112, 117, 98, 107, 101, 121] context.senderPubkey).appendMessage
    [114, 101, 99, 105, 112, 105, 101, 110, 116] context.recipient.bytes).appendMessage
    [110, 111, 110, 99, 101] (toLeBytes context.nonce)).appendMessage
    [99, 104, 97, 105, 110, 95, 105, 100] (leBytes 4 context.chainId.toNat)

/-- `BulletproofGens::new(TX_RANGE_PROOF_BITS, TX_PROOF_VALUES)`. -/
def txGens : BulletproofGens := ⟨txRangeProofBits, txProofValues⟩

section Checks

variable {P : Platform} (bp : Bulletproofs P)

/-- `prove_transfer`, on the blinding factors and the bytes that it draws. -/
def proveTransfer (amountBlinding changeBlinding : P.Scalar) (rng : Bytes) (amount senderBalance fee : Lux)
    (context : ShieldedTransferContext) :
    Except GratiaError (ShieldedTransactionProof × ShieldedTransferSecret P) :=
  match checkedAdd amount fee with
  | none => .error (.invalidZkProof "amount + fee overflow")
  | some totalDebit =>
    if senderBalance < totalDebit then .error (.insufficientBalance senderBalance totalDebit)
    else
      let change := senderBalance - totalDebit
      match bp.proveMultiple rng txGens context.transcript [amount, change]
          [amountBlinding, changeBlinding] txRangeProofBits with
      | .error e =>
        .error (.invalidZkProof ("shielded transfer proof generation failed: " ++ e))
      | .ok (proof, commitments) =>
        .ok (⟨⟨commitments.getD 0 .zero⟩, ⟨commitments.getD 1 .zero⟩, proof⟩,
          ⟨amount, amountBlinding, change, changeBlinding⟩)

/-- `verify_transfer`.  Any 32 bytes make a `CompressedRistretto`; `verify_multiple` decompresses
them. -/
def verifyTransfer (proof : ShieldedTransactionProof) (context : ShieldedTransferContext) :
    Except GratiaError Unit :=
  if !bp.isRangeProof proof.rangeProof then
    .error (.invalidZkProof "invalid shielded transfer range proof encoding")
  else if bp.verifyMultiple proof.rangeProof txGens context.transcript
      [proof.amountCommitment.point, proof.changeCommitment.point] txRangeProofBits then .ok ()
  else .error (.invalidZkProof "shielded transfer range proof verification failed")

/-- `verify_value_conservation`.  Points are compared by their one encoding. -/
def verifyValueConservation (inputCommitment : PedersenCommitment) (proof : ShieldedTransactionProof)
    (fee : Lux) : Except GratiaError Unit := do
  let inputPoint ← Pedersen.decompress P inputCommitment
  let amountPoint ← Pedersen.decompress P proof.amountCommitment
  let changePoint ← Pedersen.decompress P proof.changeCommitment
  let feePoint := bp.commit (scalarFrom P fee) 0
  let expectedInput := amountPoint + changePoint + feePoint
  if P.ristretto.compress inputPoint = P.ristretto.compress expectedInput then return ()
  else throw (.invalidZkProof "value conservation check failed: inputs != outputs")

def verifyShieldedTransaction (inputCommitment : PedersenCommitment)
    (proof : ShieldedTransactionProof) (fee : Lux) (context : ShieldedTransferContext) :
    Except GratiaError Unit := do
  verifyTransfer bp proof context
  verifyValueConservation bp inputCommitment proof fee

/-! ### What the checks say -/

variable {bp} {input : PedersenCommitment} {proof : ShieldedTransactionProof} {fee : Lux}
  {context : ShieldedTransferContext}

theorem verifyTransfer_ok : verifyTransfer bp proof context = .ok () ↔
    bp.isRangeProof proof.rangeProof = true ∧
      bp.verifyMultiple proof.rangeProof txGens context.transcript
        [proof.amountCommitment.point, proof.changeCommitment.point] txRangeProofBits = true := by
  unfold verifyTransfer
  cases bp.isRangeProof proof.rangeProof with
  | false | true => simp

theorem verifyValueConservation_ok {o amount change : PedersenOpening P}
    (hin : Pedersen.verify bp input o = .ok ())
    (hamount : Pedersen.verify bp proof.amountCommitment amount = .ok ())
    (hchange : Pedersen.verify bp proof.changeCommitment change = .ok ()) :
    verifyValueConservation bp input proof fee = .ok () ↔
      bp.commit (scalarFrom P o.value) o.blinding =
        bp.commit (scalarFrom P amount.value + scalarFrom P change.value + scalarFrom P fee)
          (amount.blinding + change.blinding) := by
  have hsum : Pedersen.pointOf bp amount + Pedersen.pointOf bp change + bp.commit (scalarFrom P fee) 0 =
      bp.commit (scalarFrom P amount.value + scalarFrom P change.value + scalarFrom P fee)
        (amount.blinding + change.blinding) := by
    simp only [Pedersen.pointOf, bp.commit_add, add_zero]
  unfold verifyValueConservation
  rw [Pedersen.decompress_of_verify hin, Pedersen.decompress_of_verify hamount,
    Pedersen.decompress_of_verify hchange]
  change (if P.ristretto.compress (Pedersen.pointOf bp o) = P.ristretto.compress
    (Pedersen.pointOf bp amount + Pedersen.pointOf bp change + bp.commit (scalarFrom P fee) 0)
    then Except.ok () else Except.error _) = Except.ok () ↔ Pedersen.pointOf bp o = _
  rw [hsum, ← P.ristretto.compress_inj]
  split
  next h => exact iff_of_true rfl h
  next h => exact iff_of_false nofun h

/-! ### Conservation -/

variable (bp) in
/-- If the range proof of this transfer is accepted, its commitments have known openings, to 64-bit
values. -/
def RangeProofSound (known : Set (PedersenOpening P)) (proof : ShieldedTransactionProof)
    (context : ShieldedTransferContext) : Prop :=
  verifyTransfer bp proof context = .ok () →
    (∃ o ∈ known, Pedersen.verify bp proof.amountCommitment o = .ok ()) ∧
      ∃ o ∈ known, Pedersen.verify bp proof.changeCommitment o = .ok ()

variable (bp) in
/-- Of these pairs of a value and a blinding factor, no two open one commitment to different values.
-/
def BindingOn (openings : Set (P.Scalar × P.Scalar)) : Prop :=
  ∀ x ∈ openings, ∀ y ∈ openings, bp.commit x.1 x.2 = bp.commit y.1 y.2 → x.1 = y.1

/-- The openings that a transfer brings up: known ones, and what two known ones and a fee add up
to. -/
def transferOpenings (known : Set (PedersenOpening P)) : Set (P.Scalar × P.Scalar) :=
  {x | ∃ o ∈ known, x = (scalarFrom P o.value, o.blinding)} ∪
    {x | ∃ a ∈ known, ∃ c ∈ known, ∃ fee : Lux,
      x = (scalarFrom P a.value + scalarFrom P c.value + scalarFrom P fee, a.blinding + c.blinding)}

theorem scalarFrom_eq_of_toNat_eq {b a c f : UInt64} (h : b.toNat = a.toNat + c.toNat + f.toNat) :
    scalarFrom P b = scalarFrom P a + scalarFrom P c + scalarFrom P f := by
  unfold scalarFrom
  rw [h]
  push_cast
  rfl

theorem toNat_eq_of_scalarFrom_eq (horder : 2 ^ 66 < P.ristretto.order) {b a c f : UInt64}
    (h : scalarFrom P b = scalarFrom P a + scalarFrom P c + scalarFrom P f) :
    b.toNat = a.toNat + c.toNat + f.toNat := by
  have hb := b.toNat_lt
  have ha := a.toNat_lt
  have hc := c.toNat_lt
  have hf := f.toNat_lt
  have hcast : ((b.toNat : ℕ) : P.Scalar) = ((a.toNat + c.toNat + f.toNat : ℕ) : P.Scalar) := by
    push_cast
    exact h
  rw [ZMod.natCast_eq_natCast_iff, Nat.ModEq, Nat.mod_eq_of_lt (by omega),
    Nat.mod_eq_of_lt (by omega)] at hcast
  exact hcast

/-- **A shielded transaction creates no money.**  When it is accepted, the amount and the change
have known openings, and with every known opening of them the balance is the sum of the amount, the
change and the fee. -/
theorem verifyShieldedTransaction_conserves (known : Set (PedersenOpening P))
    (hrange : RangeProofSound bp known proof context)
    (hbinding : BindingOn bp (transferOpenings known))
    (horder : 2 ^ 66 < P.ristretto.order) (balance : PedersenOpening P) (hknown : balance ∈ known)
    (hin : Pedersen.verify bp input balance = .ok ())
    (h : verifyShieldedTransaction bp input proof fee context = .ok ()) :
    (∃ amount ∈ known, Pedersen.verify bp proof.amountCommitment amount = .ok ()) ∧
      (∃ change ∈ known, Pedersen.verify bp proof.changeCommitment change = .ok ()) ∧
      ∀ amount ∈ known, ∀ change ∈ known,
        Pedersen.verify bp proof.amountCommitment amount = .ok () →
        Pedersen.verify bp proof.changeCommitment change = .ok () →
          balance.value.toNat = amount.value.toNat + change.value.toNat + fee.toNat ∧
            amount.value.toNat + fee.toNat ≤ balance.value.toNat := by
  obtain ⟨htransfer, hconserve⟩ : verifyTransfer bp proof context = .ok () ∧
      verifyValueConservation bp input proof fee = .ok () := by
    unfold verifyShieldedTransaction at h
    cases htransfer : verifyTransfer bp proof context with
    | error e => rw [htransfer] at h; cases h
    | ok u => rw [htransfer] at h; exact ⟨rfl, h⟩
  obtain ⟨hamounts, hchanges⟩ := hrange htransfer
  refine ⟨hamounts, hchanges, ?_⟩
  intro amount ha change hc hamount hchange
  have hpoints := (verifyValueConservation_ok hin hamount hchange).mp hconserve
  -- two openings of the input commitment: the balance's, and the sum of the outputs'
  have hvalue := hbinding _ (.inl ⟨balance, hknown, rfl⟩) _ (.inr ⟨amount, ha, change, hc, fee, rfl⟩)
    hpoints
  have hsum := toNat_eq_of_scalarFrom_eq horder hvalue
  exact ⟨hsum, by omega⟩

/-! ### Honest transfers -/

variable (bp) in
/-- A generated range proof commits to the given values, and is accepted. -/
def RangeProofComplete : Prop :=
  ∀ (rng : Bytes) (gens : BulletproofGens) (transcript : Transcript) (values : List UInt64)
    (blindings : List P.Scalar) (bits : ℕ) (proof : Bytes) (commitments : List Bytes32),
    bp.proveMultiple rng gens transcript values blindings bits = .ok (proof, commitments) →
      commitments = List.zipWith (fun v r => (Pedersen.commitWithBlinding bp v r).1.point)
        values blindings ∧
      bp.isRangeProof proof = true ∧ bp.verifyMultiple proof gens transcript commitments bits = true

/-- **Honest transfers are accepted exactly if the blinding factors fit.**  What `prove_transfer`
returns for a balance is accepted against a commitment to it exactly if the commitment was made with
the sum of the blinding factors that the prover draws afresh. -/
theorem proveTransfer_accepted_iff (hcomplete : RangeProofComplete bp) (hbase : bp.baseBlinding ≠ 0)
    {amountBlinding changeBlinding : P.Scalar} {rng : Bytes} {amount balance : Lux}
    {secret : ShieldedTransferSecret P}
    (h : proveTransfer bp amountBlinding changeBlinding rng amount balance fee context =
      .ok (proof, secret)) (blinding : P.Scalar) :
    verifyShieldedTransaction bp (Pedersen.commitWithBlinding bp balance blinding).1 proof fee
        context = .ok () ↔
      blinding = amountBlinding + changeBlinding := by
  unfold proveTransfer at h
  split at h
  next => cases h
  next totalDebit hdebit =>
  split at h
  next => cases h
  next hbalance =>
  dsimp only at h
  split at h
  next => cases h
  next rangeProof commitments hprove =>
  cases h
  obtain ⟨hcommit, hproof, haccepted⟩ := hcomplete _ _ _ _ _ _ _ _ hprove
  subst hcommit
  unfold verifyShieldedTransaction
  rw [verifyTransfer_ok.mpr ⟨hproof, haccepted⟩, except_ok_bind,
    verifyValueConservation_ok (Pedersen.verify_commitWithBlinding bp _ _)
      (Pedersen.verify_commitWithBlinding bp amount amountBlinding)
      (Pedersen.verify_commitWithBlinding bp (balance - totalDebit) changeBlinding)]
  have hsum := toNat_of_checkedAdd hdebit
  have hle := UInt64.not_lt.mp hbalance
  have hchange : balance.toNat = amount.toNat + (balance - totalDebit).toNat + fee.toNat := by
    rw [UInt64.toNat_sub_of_le _ _ hle]
    have := UInt64.le_iff_toNat_le.mp hle
    omega
  -- the values agree, so the commitments differ by the blinding factors only
  change bp.commit (scalarFrom P balance) blinding = _ ↔ _
  rw [scalarFrom_eq_of_toNat_eq hchange]
  exact (add_right_inj _).trans (smul_left_injective _ hbase).eq_iff

end Checks

section

-- a constant, so that the numeral below holds no proof of its own
local instance Reference.two_baseBlinding : Nat.AtLeastTwo 2 := ⟨le_rfl⟩

def Reference.honestProofs : Bulletproofs reference :=
  let base : reference.ristretto.Point := (1 : ZMod 251)
  let baseBlinding : reference.ristretto.Point := (2 : ZMod 251)
  { base, baseBlinding
    isRangeProof := fun _ => true
    proveMultiple := fun _ _ _ values blindings _ => .ok ([], List.zipWith (fun v r =>
      reference.ristretto.compress (scalarFrom reference v • base + r • baseBlinding)) values
      blindings)
    verifyMultiple := fun _ _ _ _ _ => true }

end

theorem Reference.honestProofs_complete : RangeProofComplete Reference.honestProofs := by
  rintro rng gens transcript values blindings bits proof commitments ⟨⟩
  exact ⟨rfl, rfl, rfl⟩

def Reference.honestTransfer (blinding amountBlinding changeBlinding : reference.Scalar) :
    Except GratiaError Unit := do
  let (proof, _) ← proveTransfer honestProofs amountBlinding changeBlinding [] 5 8 2
    ⟨[], .zero, 0, 2⟩
  verifyShieldedTransaction honestProofs (Pedersen.commitWithBlinding honestProofs 8 blinding).1 proof
    2 ⟨[], .zero, 0, 2⟩

theorem proveTransfer_accepted_eight : Reference.honestTransfer 3 1 2 = .ok () := by
  have hbase : (2 : ZMod 251) ≠ 0 := by decide
  have hblinding : (3 : ZMod 251) = 1 + 2 := by decide
  obtain ⟨proof, secret, hprove⟩ : ∃ proof secret,
      proveTransfer Reference.honestProofs 1 2 [] 5 8 2 ⟨[], .zero, 0, 2⟩ = .ok (proof, secret) :=
    ⟨_, _, rfl⟩
  unfold Reference.honestTransfer
  rw [hprove]
  exact (proveTransfer_accepted_iff Reference.honestProofs_complete hbase hprove 3).mpr hblinding

theorem honest_transfer_rejected :
    RangeProofComplete Reference.honestProofs ∧ Reference.honestTransfer 3 1 1 =
      .error (.invalidZkProof "value conservation check failed: inputs != outputs") :=
  ⟨Reference.honestProofs_complete, by decide +kernel⟩

/-! ### A transfer to compute with -/

namespace Transfer

variable (p : ℕ) (hp : p.Prime) (hlt : p < 2 ^ 256)

/-- The integers modulo a prime, a point being encoded by its residue. -/
def group : RistrettoGroup where
  order := p
  prime := hp
  order_lt := hlt
  Point := ZMod p
  basepoint := 1
  compress x := ⟨leBytes 32 x.val, length_leBytes _ _⟩
  decompress b := if ofLeBytes b.bytes < p ∧ leBytes 32 (ofLeBytes b.bytes) = b.bytes then
    some (ofLeBytes b.bytes : ZMod p) else none
  decompress_compress x := by
    have : NeZero p := ⟨hp.ne_zero⟩
    have hx : x.val < p := ZMod.val_lt x
    have hn : ofLeBytes (leBytes 32 x.val) = x.val := by
      rw [ofLeBytes_leBytes, Nat.mod_eq_of_lt (hx.trans (hlt.trans_eq (by norm_num)))]
    rw [if_pos ⟨hn.trans_lt hx, congrArg _ hn⟩, hn, ZMod.natCast_zmod_val]
  compress_of_decompress b x h := by
    split at h
    next hb =>
      cases h
      simp only [ZMod.val_natCast_of_lt hb.1, hb.2]
    next => cases h
  fromUniformBytes bs := (ofLeBytes bs : ZMod p)

def platform : Platform := { reference with ristretto := group p hp hlt }

/-- A balance of 8, of which 5 are sent and 1 is left, with a fee of 2; each with its blinding
factor. -/
def openings : List (ℕ × ℕ) := [(8, 3), (5, 1), (1, 2)]

def opening (x : ℕ × ℕ) : PedersenOpening (platform p hp hlt) := ⟨UInt64.ofNat x.1, (x.2 : ZMod p)⟩

def known : Set (PedersenOpening (platform p hp hlt)) := {o | ∃ x ∈ openings, o = opening p hp hlt x}

def commitment (x : ℕ × ℕ) : PedersenCommitment :=
  ⟨⟨leBytes 32 ((x.1 + x.2 * 2 ^ 80 : ℕ) : ZMod p).val, length_leBytes _ _⟩⟩

def proof : ShieldedTransactionProof := ⟨commitment p (5, 1), commitment p (1, 2), []⟩

def context : ShieldedTransferContext := ⟨[], .zero, 0, 2⟩

/-- Blinding factors count in units of `2 ^ 80`, and range proofs are accepted. -/
def bulletproofs : Bulletproofs (platform p hp hlt) where
  base := (1 : ZMod p)
  baseBlinding := ((2 ^ 80 : ℕ) : ZMod p)
  isRangeProof _ := true
  proveMultiple _ _ _ _ _ _ := .error "no prover"
  verifyMultiple _ _ _ _ _ := true

variable {p hp hlt}

theorem commit_natCast (v r : ℕ) : (bulletproofs p hp hlt).commit (v : ZMod p) (r : ZMod p) =
    ((v + r * 2 ^ 80 : ℕ) : ZMod p) := by
  change (v : ZMod p) * 1 + (r : ZMod p) * ((2 ^ 80 : ℕ) : ZMod p) = _
  push_cast
  ring

theorem verify_opening {x : ℕ × ℕ} (hx : x ∈ openings) :
    Pedersen.verify (bulletproofs p hp hlt) (commitment p x) (opening p hp hlt x) = .ok () := by
  have hlt64 : ∀ x ∈ openings, x.1 < 2 ^ 64 := by decide
  have hpoint : Pedersen.pointOf (bulletproofs p hp hlt) (opening p hp hlt x) =
      ((x.1 + x.2 * 2 ^ 80 : ℕ) : ZMod p) := by
    rw [← commit_natCast]
    unfold Pedersen.pointOf scalarFrom opening
    rw [UInt64.toNat_ofNat_of_lt' (hlt64 x hx)]
    rfl
  refine if_pos ?_
  rw [hpoint]
  rfl

theorem rangeProofSound :
    RangeProofSound (bulletproofs p hp hlt) (known p hp hlt) (proof p) context := by
  intro _
  exact ⟨⟨_, ⟨(5, 1), by decide, rfl⟩, verify_opening (by decide)⟩,
    ⟨_, ⟨(1, 2), by decide, rfl⟩, verify_opening (by decide)⟩⟩

theorem exists_of_mem_transferOpenings {y : (platform p hp hlt).Scalar × (platform p hp hlt).Scalar}
    (hy : y ∈ transferOpenings (known p hp hlt)) :
    ∃ v r : ℕ, v < 2 ^ 66 ∧ r ≤ 6 ∧ y = ((v : ZMod p), (r : ZMod p)) := by
  have hsmall : ∀ x ∈ openings, x.1 < 2 ^ 64 ∧ x.2 ≤ 3 := by decide
  rcases hy with ⟨_, ⟨x, hx, rfl⟩, rfl⟩ | ⟨_, ⟨x, hx, rfl⟩, _, ⟨z, hz, rfl⟩, fee, rfl⟩
  · obtain ⟨hv, hr⟩ := hsmall x hx
    refine ⟨x.1, x.2, by omega, by omega, ?_⟩
    unfold scalarFrom opening
    rw [UInt64.toNat_ofNat_of_lt' hv]
    rfl
  · obtain ⟨hv, hr⟩ := hsmall x hx
    obtain ⟨hw, hs⟩ := hsmall z hz
    have hf := fee.toNat_lt
    refine ⟨x.1 + z.1 + fee.toNat, x.2 + z.2, by omega, by omega, ?_⟩
    unfold scalarFrom opening
    rw [UInt64.toNat_ofNat_of_lt' hv, UInt64.toNat_ofNat_of_lt' hw]
    push_cast
    rfl

theorem bindingOn (hp' : 2 ^ 84 < p) :
    BindingOn (bulletproofs p hp hlt) (transferOpenings (known p hp hlt)) := by
  intro x hx y hy h
  obtain ⟨v, r, hv, hr, rfl⟩ := exists_of_mem_transferOpenings hx
  obtain ⟨w, s, hw, hs, rfl⟩ := exists_of_mem_transferOpenings hy
  have hsum : ((v + r * 2 ^ 80 : ℕ) : ZMod p) = ((w + s * 2 ^ 80 : ℕ) : ZMod p) :=
    (commit_natCast v r).symm.trans (h.trans (commit_natCast w s))
  rw [ZMod.natCast_eq_natCast_iff, Nat.ModEq, Nat.mod_eq_of_lt (by omega),
    Nat.mod_eq_of_lt (by omega)] at hsum
  have hvw : v = w := by omega
  rw [hvw]

theorem accepted : verifyShieldedTransaction (bulletproofs p hp hlt) (commitment p (8, 3)) (proof p) 2
    context = .ok () := by
  have hrange : verifyTransfer (bulletproofs p hp hlt) (proof p) context = .ok () :=
    verifyTransfer_ok.mpr ⟨rfl, rfl⟩
  have hvalue : scalarFrom (platform p hp hlt) 8 = scalarFrom _ 5 + scalarFrom _ 1 + scalarFrom _ 2 :=
    scalarFrom_eq_of_toNat_eq rfl
  have hblinding : ((3 : ℕ) : ZMod p) = ((1 : ℕ) : ZMod p) + ((2 : ℕ) : ZMod p) := by norm_num
  have hamount : Pedersen.verify (bulletproofs p hp hlt) (proof p).amountCommitment
      (opening p hp hlt (5, 1)) = .ok () := verify_opening (by decide)
  have hchange : Pedersen.verify (bulletproofs p hp hlt) (proof p).changeCommitment
      (opening p hp hlt (1, 2)) = .ok () := verify_opening (by decide)
  have hbalance : Pedersen.verify (bulletproofs p hp hlt) (commitment p (8, 3))
      (opening p hp hlt (8, 3)) = .ok () := verify_opening (by decide)
  unfold verifyShieldedTransaction
  rw [hrange]
  exact (verifyValueConservation_ok hbalance hamount hchange).mpr
    (congrArg₂ (bulletproofs p hp hlt).commit hvalue hblinding)

end Transfer

theorem mersenne_89_prime : (mersenne 89).Prime :=
  lucas_lehmer_sufficiency _ (by norm_num) (by norm_num)

theorem mersenne_89_lt : mersenne 89 < 2 ^ 256 := by
  norm_num [mersenne]

/-- Of a balance of 8 and a fee of 2, with 5 sent, 1 is left; the group has order `2 ^ 89 - 1`. -/
theorem verifyShieldedTransaction_conserves_eight :
    verifyShieldedTransaction (Transfer.bulletproofs _ mersenne_89_prime mersenne_89_lt)
        (Transfer.commitment (mersenne 89) (8, 3)) (Transfer.proof (mersenne 89)) 2
        Transfer.context = .ok () ∧
      (Transfer.opening _ mersenne_89_prime mersenne_89_lt (8, 3)).value.toNat =
        (Transfer.opening _ mersenne_89_prime mersenne_89_lt (5, 1)).value.toNat +
          (Transfer.opening _ mersenne_89_prime mersenne_89_lt (1, 2)).value.toNat + (2 : Lux).toNat :=
  ⟨Transfer.accepted,
    ((verifyShieldedTransaction_conserves (Transfer.known _ mersenne_89_prime mersenne_89_lt)
      Transfer.rangeProofSound (Transfer.bindingOn (by norm_num [mersenne]))
      (show 2 ^ 66 < mersenne 89 by norm_num [mersenne]) (Transfer.opening _ _ _ (8, 3))
      ⟨_, by decide, rfl⟩ (Transfer.verify_opening (by decide)) Transfer.accepted).2.2
      (Transfer.opening _ _ _ (5, 1)) ⟨_, by decide, rfl⟩ (Transfer.opening _ _ _ (1, 2))
      ⟨_, by decide, rfl⟩ (Transfer.verify_opening (by decide))
      (Transfer.verify_opening (by decide))).1⟩

end Gratia
