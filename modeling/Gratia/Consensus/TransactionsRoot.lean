import Gratia.State.Merkle

/-!
# Consensus — Transactions root

What the root of a block says about its transactions.  `merkle_root` joins neighbours level by level
and an odd last node with itself, so it sees a list as filled up to a power of two by repeating
tails: `[a, b, c]` and `[a, b, c, c]` have one root.  Where SHA-256 is collision-free on what is
hashed, that is all it confuses.
-/

namespace Gratia

open Support
open Support.PairTree (pairs next fill)

/-! ### The root as rounds -/

def treeHeight (l : List Bytes32) : ℕ := Nat.clog 2 l.length

/-- The leaves as `merkle_root` sees them, with the tails repeated. -/
def filled (l : List Bytes32) : List Bytes32 := fill (treeHeight l) l

section Root

variable (P : Platform)

theorem merkleLevel_eq : ∀ l, merkleLevel P l = next (hashPair P) l
  | [] => rfl
  | [a] => by simp [merkleLevel, next, pairs, sha256Multi, hashPair]
  | a :: b :: rest => by
    simp only [merkleLevel, merkleLevel_eq rest, sha256Multi, List.flatten_cons, List.flatten_nil,
      List.append_nil]
    rfl

theorem merkleLoop_eq (fuel : ℕ) : ∀ {level : List Bytes32}, level.length ≤ fuel + 1 →
    merkleLoop P fuel level = (next (hashPair P))^[treeHeight level] level := by
  induction fuel with
  | zero =>
    intro level hle
    rw [treeHeight, Nat.clog_of_right_le_one (by omega)]
    rfl
  | succ fuel ih =>
    intro level hle
    rw [merkleLoop]
    split
    next hgt =>
      have hnext := PairTree.length_next (hashPair P) level
      rw [merkleLevel_eq, ih (by omega), treeHeight, treeHeight, hnext,
        Nat.clog_of_two_le Nat.one_lt_two hgt, Function.iterate_succ_apply]
      rfl
    next hle' =>
      rw [treeHeight, Nat.clog_of_right_le_one (by omega)]
      rfl

theorem iterate_treeHeight {l : List Bytes32} (h : l ≠ []) :
    (next (hashPair P))^[treeHeight l] l = [merkleRoot P l] := by
  have hlen := length_merkleLoop P l.length l (List.length_pos_iff.mpr h) (Nat.le_succ _)
  rw [← merkleLoop_eq P l.length (Nat.le_succ _), merkleRoot, if_neg h]
  obtain ⟨x, hx⟩ := List.length_eq_one_iff.mp hlen
  rw [hx]
  rfl

/-- The strings that `merkle_root` hashes: the pairs of every level but the last. -/
def rootInputs (l : List Bytes32) : List Bytes :=
  (List.range (treeHeight l)).flatMap fun k => (pairs ((next (hashPair P))^[k] l)).map pairInput

/-- `l`, filled up, is a level of the tree over `l'`. -/
def LevelOf (l l' : List Bytes32) : Prop :=
  treeHeight l ≤ treeHeight l' ∧
    filled l = fill (treeHeight l) ((next (hashPair P))^[treeHeight l' - treeHeight l] l')

end Root

variable {P : Platform} {l l' : List Bytes32}

theorem length_filled (h : l ≠ []) : (filled l).length = 2 ^ treeHeight l :=
  PairTree.length_fill _ h (Nat.le_pow_clog Nat.one_lt_two _)

theorem pairInput_mem_rootInputs {k : ℕ} (hk : k < treeHeight l) {p : Bytes32 × Bytes32}
    (hp : p ∈ pairs ((next (hashPair P))^[k] l)) : pairInput p ∈ rootInputs P l :=
  List.mem_flatMap.mpr ⟨k, List.mem_range.mpr hk, List.mem_map_of_mem hp⟩

theorem merkleRoot_eq_iff_levelOf (h : l ≠ []) (h' : l' ≠ [])
    (hfree : Set.InjOn P.sha256 {x | x ∈ rootInputs P l ++ rootInputs P l'})
    (hle : treeHeight l ≤ treeHeight l') :
    merkleRoot P l = merkleRoot P l' ↔ LevelOf P l l' := by
  have hroots : merkleRoot P l = merkleRoot P l' ↔ (next (hashPair P))^[treeHeight l] l =
      (next (hashPair P))^[treeHeight l] ((next (hashPair P))^[treeHeight l' - treeHeight l] l') := by
    rw [← Function.iterate_add_apply, Nat.add_sub_cancel' hle, iterate_treeHeight P h,
      iterate_treeHeight P h']
    simp
  rw [hroots, LevelOf, and_iff_right hle]
  refine PairTree.iterate_next_eq_iff (injOn_hashPair hfree) _ ?_ ?_
  · intro k hk p hp
    exact List.mem_append_left _ (pairInput_mem_rootInputs hk hp)
  · intro k hk p hp
    rw [← Function.iterate_add_apply] at hp
    exact List.mem_append_right _ (pairInput_mem_rootInputs (by omega) hp)

/-- **Two lists have one root** exactly if one is a level of the tree over the other. -/
theorem merkleRoot_eq_iff (h : l ≠ []) (h' : l' ≠ [])
    (hfree : Set.InjOn P.sha256 {x | x ∈ rootInputs P l ++ rootInputs P l'}) :
    merkleRoot P l = merkleRoot P l' ↔ LevelOf P l l' ∨ LevelOf P l' l := by
  have hfree' : Set.InjOn P.sha256 {x | x ∈ rootInputs P l' ++ rootInputs P l} :=
    hfree.mono fun x hx => List.mem_append.mpr (List.mem_append.mp hx).symm
  rcases Nat.le_total (treeHeight l) (treeHeight l') with hle | hle
  · rw [merkleRoot_eq_iff_levelOf h h' hfree hle]
    refine ⟨.inl, fun hor => hor.elim id fun hl => ?_⟩
    exact (merkleRoot_eq_iff_levelOf h h' hfree hle).mp
      ((merkleRoot_eq_iff_levelOf h' h hfree' hl.1).mpr hl).symm
  · rw [eq_comm, merkleRoot_eq_iff_levelOf h' h hfree' hle]
    refine ⟨.inr, fun hor => hor.elim (fun hl => ?_) id⟩
    exact (merkleRoot_eq_iff_levelOf h' h hfree' hle).mp
      ((merkleRoot_eq_iff_levelOf h h' hfree hl.1).mpr hl).symm

/-! ### Transactions as leaves -/

def Transaction.hashed (P : Platform) (tx : Transaction) : Bytes :=
  tx.senderPubkey ++ tx.signable P ++ tx.signature

def contentHashes (P : Platform) (txs : List Transaction) : List Bytes32 :=
  txs.map fun tx => tx.contentHash P

def blockInputs (P : Platform) (txs : List Transaction) : List Bytes :=
  txs.map (fun tx => tx.hashed P) ++ rootInputs P (contentHashes P txs)

variable {txs txs' : List Transaction}

theorem length_pairInput (p : Bytes32 × Bytes32) : (pairInput p).length = 64 := by
  rw [pairInput, List.length_append, p.1.length_eq, p.2.length_eq]

theorem contentHash_notMem_iterate {tx : Transaction} {e : ℕ} (hlong : (tx.hashed P).length ≠ 64)
    (hfree : Set.InjOn P.sha256 {x | x ∈ tx.hashed P :: rootInputs P l}) (he : e < treeHeight l) :
    tx.contentHash P ∉ (next (hashPair P))^[e + 1] l := by
  rw [Function.iterate_succ_apply']
  intro hmem
  obtain ⟨p, hp, hsame⟩ := List.mem_map.mp hmem
  have hstring : pairInput p = tx.hashed P :=
    hfree (List.mem_cons_of_mem _ (pairInput_mem_rootInputs he hp)) List.mem_cons_self hsame
  exact hlong (hstring ▸ length_pairInput p)

theorem levelOf_contentHashes (h : txs ≠ []) (hlong : ∀ tx ∈ txs, (tx.hashed P).length ≠ 64)
    (hfree : Set.InjOn P.sha256 {x | x ∈ blockInputs P txs ++ blockInputs P txs'}) :
    LevelOf P (contentHashes P txs) (contentHashes P txs') →
      filled (contentHashes P txs) = filled (contentHashes P txs') := by
  rintro ⟨hle, heq⟩
  rcases Nat.eq_or_lt_of_le hle with hsame | hlt
  · rw [heq, filled, hsame, Nat.sub_self]
    rfl
  · exfalso
    obtain ⟨e, he⟩ := Nat.exists_eq_add_of_lt hlt
    obtain ⟨tx, rest, rfl⟩ := List.exists_cons_of_ne_nil h
    have hmem : tx.contentHash P ∈ filled (contentHashes P (tx :: rest)) :=
      (PairTree.isPrefix_fill _ _).subset List.mem_cons_self
    rw [heq, he, Nat.add_assoc, Nat.add_sub_cancel_left] at hmem
    refine contentHash_notMem_iterate (hlong tx List.mem_cons_self) (hfree.mono ?_) (by omega)
      (PairTree.mem_of_mem_fill _ hmem)
    intro x hx
    rcases List.mem_cons.mp hx with rfl | hx
    · exact List.mem_append_left _ (List.mem_append_left _ (List.mem_map_of_mem List.mem_cons_self))
    · exact List.mem_append_right _ (List.mem_append_right _ hx)

theorem levelOf_of_filled_eq (h : l ≠ []) (h' : l' ≠ []) (heq : filled l = filled l') :
    LevelOf P l l' := by
  have hheight : treeHeight l = treeHeight l' := by
    have hpow := congrArg List.length heq
    rw [length_filled h, length_filled h'] at hpow
    exact Nat.pow_right_injective (Nat.le_refl 2) hpow
  refine ⟨hheight.le, ?_⟩
  rw [heq, filled, hheight, Nat.sub_self]
  rfl

/-! ### When the root determines the list -/

theorem determines_iff {p q r : Prop} (hpq : p ↔ q) : (p → r) ↔ r ∨ ¬ q := by
  rw [hpq, imp_iff_not_or, or_comm]

/-- **The root determines its list, exactly.**  Of two lists with collision-free trees, the first
part says it for any leaves, the second for the hashes of transactions none of which is hashed from
64 bytes, as a node is: they differ with one root exactly if they fill up to the same list. -/
theorem merkleRoot_determines_iff (P : Platform) :
    (∀ l l' : List Bytes32, l ≠ [] → l' ≠ [] →
      Set.InjOn P.sha256 {x | x ∈ rootInputs P l ++ rootInputs P l'} →
      ((merkleRoot P l = merkleRoot P l' → l = l') ↔
        l = l' ∨ ¬ (LevelOf P l l' ∨ LevelOf P l' l))) ∧
    ∀ txs txs' : List Transaction, txs ≠ [] → txs' ≠ [] →
      (∀ tx ∈ txs ++ txs', (tx.hashed P).length ≠ 64) →
      Set.InjOn P.sha256 {x | x ∈ blockInputs P txs ++ blockInputs P txs'} →
      ((merkleRoot P (contentHashes P txs) = merkleRoot P (contentHashes P txs') →
          contentHashes P txs = contentHashes P txs') ↔
        contentHashes P txs = contentHashes P txs' ∨
          filled (contentHashes P txs) ≠ filled (contentHashes P txs')) := by
  refine ⟨fun l l' h h' hfree => determines_iff (merkleRoot_eq_iff h h' hfree), ?_⟩
  intro txs txs' h h' hlong hfree
  refine determines_iff ?_
  have hne : contentHashes P txs ≠ [] := fun hnil => h (List.map_eq_nil_iff.mp hnil)
  have hne' : contentHashes P txs' ≠ [] := fun hnil => h' (List.map_eq_nil_iff.mp hnil)
  have hswap : Set.InjOn P.sha256 {x | x ∈ blockInputs P txs' ++ blockInputs P txs} :=
    hfree.mono fun x hx => List.mem_append.mpr (List.mem_append.mp hx).symm
  have hroots : Set.InjOn P.sha256
      {x | x ∈ rootInputs P (contentHashes P txs) ++ rootInputs P (contentHashes P txs')} := by
    refine hfree.mono fun x hx => ?_
    rcases List.mem_append.mp hx with hx | hx
    · exact List.mem_append_left _ (List.mem_append_right _ hx)
    · exact List.mem_append_right _ (List.mem_append_right _ hx)
  rw [merkleRoot_eq_iff hne hne' hroots]
  constructor
  · rintro (hl | hl)
    · exact levelOf_contentHashes h (fun tx hmem => hlong tx (List.mem_append_left _ hmem)) hfree hl
    · exact (levelOf_contentHashes h' (fun tx hmem => hlong tx (List.mem_append_right _ hmem))
        hswap hl).symm
  · exact fun heq => .inl (levelOf_of_filled_eq hne hne' heq)

theorem merkleRoot_concat_getLast (P : Platform) {l : List Bytes32} (hodd : l.length % 2 = 1)
    (hlen : 1 < l.length) (h : l ≠ []) :
    merkleRoot P (l ++ [l.getLast h]) = merkleRoot P l := by
  have hnext : next (hashPair P) (l ++ [l.getLast h]) = next (hashPair P) l := by
    rw [next, next, PairTree.pairs_concat_getLast hodd h]
  have hheight : ∀ n, n % 2 = 1 → 1 < n → Nat.clog 2 (n + 1) = Nat.clog 2 n := by
    intro n hodd hlen
    rw [Nat.clog_of_two_le Nat.one_lt_two (by omega), Nat.clog_of_two_le Nat.one_lt_two hlen]
    congr 2
    omega
  obtain ⟨k, hk⟩ : ∃ k, treeHeight l = k + 1 :=
    Nat.exists_eq_succ_of_ne_zero (Nat.clog_pos Nat.one_lt_two hlen).ne'
  have hk' : treeHeight (l ++ [l.getLast h]) = k + 1 := by
    rw [← hk, treeHeight, treeHeight, List.length_append, List.length_singleton,
      hheight _ hodd hlen]
  have hroot := iterate_treeHeight P (l := l ++ [l.getLast h]) (by simp)
  have hroot' := iterate_treeHeight P h
  rw [hk', Function.iterate_succ_apply, hnext] at hroot
  rw [hk, Function.iterate_succ_apply] at hroot'
  exact (List.cons.inj (hroot.symm.trans hroot')).1

def payments (n : ℕ) : List Transaction :=
  (List.range n).map fun i =>
    Reference.signedTx (Reference.key 7) (.transfer ⟨.splat 9⟩ 100) (UInt64.ofNat i) 10

/-- The root tells one payment from two. -/
theorem merkleRoot_determines_payments :
    merkleRoot reference (contentHashes reference (payments 1)) ≠
      merkleRoot reference (contentHashes reference (payments 2)) := by
  have hlong : ∀ tx ∈ payments 1 ++ payments 2, (tx.hashed reference).length ≠ 64 := by
    decide +kernel
  have hfree : ∀ x ∈ blockInputs reference (payments 1) ++ blockInputs reference (payments 2),
      ∀ y ∈ blockInputs reference (payments 1) ++ blockInputs reference (payments 2),
        reference.sha256 x = reference.sha256 y → x = y := by
    decide +kernel
  have hfilled : filled (contentHashes reference (payments 1)) ≠
      filled (contentHashes reference (payments 2)) := by
    decide +kernel
  intro hroot
  have hsame := ((merkleRoot_determines_iff reference).2 (payments 1) (payments 2) (by decide)
    (by decide) hlong (fun x hx y hy => hfree x hx y hy)).mpr (.inr hfilled) hroot
  exact absurd (congrArg List.length hsame) (by decide)

/-- Three payments with the last repeated: another list of transactions, under the same root, with
no collision. -/
theorem repeated_payment_same_root :
    let txs := payments 3
    let txs' := payments 3 ++ (payments 3).drop 2
    contentHashes reference txs ≠ contentHashes reference txs' ∧
    merkleRoot reference (contentHashes reference txs) =
      merkleRoot reference (contentHashes reference txs') ∧
    (∀ tx ∈ txs ++ txs', (tx.hashed reference).length ≠ 64) ∧
    ∀ x ∈ blockInputs reference txs ++ blockInputs reference txs',
      ∀ y ∈ blockInputs reference txs ++ blockInputs reference txs',
        reference.sha256 x = reference.sha256 y → x = y := by
  refine ⟨by decide +kernel, ?_, by decide +kernel, by decide +kernel⟩
  exact (merkleRoot_concat_getLast reference (by decide) (by decide) (by decide)).symm

end Gratia
