import Gratia.State.Merkle

/-!
# State — State root

The root that `compute_state_root` takes commits to the account table.  Leaves and inner nodes are
hashed without a tag, and an odd last node is joined with itself, so neither the depth nor the size
of the tree is written down anywhere.  What keeps two tables apart is that a
leaf is hashed from more bytes than an inner node, and that addresses are distinct.
-/

namespace Gratia

open Support
open Support.PairTree (pairs next)
open Std

namespace StateManager

variable (P : Platform)

def leafInputs (s : InMemoryStore) : List Bytes := (s.iterCf .accounts).map fun e => e.1 ++ e.2

def stateRootInputs (s : InMemoryStore) : List Bytes :=
  if s.iterCf .accounts = [] then [emptyStateDomain]
  else leafInputs s ++ MerkleTree.buildInputs P ((leafInputs s).map P.sha256)

/-- The column family holds accounts under their addresses. -/
def HoldsAccounts (s : InMemoryStore) : Prop :=
  ∀ e ∈ s.iterCf .accounts, ∃ (address : Address) (account : AccountState),
    e = (address.bytes.bytes, P.account.put account)

/-- An encoded account takes more than 32 bytes: five 64-bit integers make 40. -/
def LongAccounts : Prop := ∀ account : AccountState, 32 < (P.account.put account).length

/-! ### Leaves and nodes -/

section Store

variable {P} {s : InMemoryStore} {S : Set Bytes}

theorem computeStateRoot_of_ne (h : s.iterCf .accounts ≠ []) :
    computeStateRoot P s = MerkleTree.root (MerkleTree.build P ((leafInputs s).map P.sha256)) := by
  rw [computeStateRoot, if_neg h, leafInputs, List.map_map]
  rfl

theorem lt_length_of_mem_leafInputs (hlong : LongAccounts P) (hs : HoldsAccounts P s) {x : Bytes}
    (hx : x ∈ leafInputs s) : 64 < x.length := by
  obtain ⟨e, he, rfl⟩ := List.mem_map.mp hx
  obtain ⟨address, account, rfl⟩ := hs e he
  have hlen := hlong account
  simp only [List.length_append, address.bytes.length_eq]
  omega

theorem length_pairInput (p : Bytes32 × Bytes32) : (pairInput p).length = 64 := by
  rw [pairInput, List.length_append, p.1.length_eq, p.2.length_eq]

theorem injOn_append (hs : HoldsAccounts P s) {s' : InMemoryStore} (hs' : HoldsAccounts P s') :
    Set.InjOn (fun e : Bytes × Bytes => e.1 ++ e.2)
      {e | e ∈ s.iterCf .accounts ∨ e ∈ s'.iterCf .accounts} := by
  have hkey : ∀ e ∈ {e | e ∈ s.iterCf .accounts ∨ e ∈ s'.iterCf .accounts}, e.1.length = 32 := by
    rintro e (he | he)
    · obtain ⟨address, account, rfl⟩ := hs e he
      exact address.bytes.length_eq
    · obtain ⟨address, account, rfl⟩ := hs' e he
      exact address.bytes.length_eq
  intro e he e' he' h
  obtain ⟨h₁, h₂⟩ := List.append_inj h ((hkey e he).trans (hkey e' he').symm)
  exact Prod.ext h₁ h₂

theorem nodup_leafInputs (hs : HoldsAccounts P s) : (leafInputs s).Nodup :=
  (nodup_toList (s.data .accounts)).map_on fun _ he _ he' h =>
    injOn_append hs hs (.inl he) (.inl he') h

theorem nodup_leaves (hs : HoldsAccounts P s) (hS : S.InjOn P.sha256)
    (hin : ∀ x ∈ leafInputs s, x ∈ S) : ((leafInputs s).map P.sha256).Nodup :=
  (nodup_leafInputs hs).map_on fun _ hx _ hy h => hS (hin _ hx) (hin _ hy) h

theorem exists_rounds (h : s.iterCf .accounts ≠ []) (hin : ∀ x ∈ stateRootInputs P s, x ∈ S) :
    (∀ x ∈ leafInputs s, x ∈ S) ∧
    ∃ d, (next (hashPair P))^[d] ((leafInputs s).map P.sha256) = [computeStateRoot P s] ∧
      ∀ k < d, ∀ p ∈ pairs ((next (hashPair P))^[k] ((leafInputs s).map P.sha256)),
        pairInput p ∈ S := by
  have hne : (leafInputs s).map P.sha256 ≠ [] := by
    simpa [leafInputs] using h
  obtain ⟨d, x, hbuild, hx, hroot, hd⟩ := MerkleTree.build_eq (P := P) hne
  rw [stateRootInputs, if_neg h] at hin
  refine ⟨fun y hy => hin y (List.mem_append_left _ hy), d, ?_, fun k hk p hp => ?_⟩
  · rw [hx, computeStateRoot_of_ne h, hroot]
  · refine hin _ (List.mem_append_right _ (MerkleTree.pairInput_mem_buildInputs hne ?_ hp))
    rwa [hd]

theorem exists_of_mem_iterate {l : List Bytes32} {e : ℕ} (he : 0 < e)
    (hin : ∀ k < e, ∀ p ∈ pairs ((next (hashPair P))^[k] l), pairInput p ∈ S) {x : Bytes32}
    (hx : x ∈ (next (hashPair P))^[e] l) : ∃ y ∈ S, y.length = 64 ∧ x = P.sha256 y := by
  obtain ⟨k, rfl⟩ := Nat.exists_eq_add_of_lt he
  rw [Nat.zero_add, Function.iterate_succ_apply'] at hx
  obtain ⟨p, hp, rfl⟩ := List.mem_map.mp hx
  exact ⟨pairInput p, hin k (by omega) p hp, length_pairInput p, rfl⟩

theorem exists_of_computeStateRoot (hlong : LongAccounts P) (hs : HoldsAccounts P s)
    (h : s.iterCf .accounts ≠ []) (hin : ∀ x ∈ stateRootInputs P s, x ∈ S) :
    ∃ y ∈ S, 64 ≤ y.length ∧ computeStateRoot P s = P.sha256 y := by
  obtain ⟨hleaves, d, hd, hnodes⟩ := exists_rounds h hin
  have hroot : computeStateRoot P s ∈ (next (hashPair P))^[d] ((leafInputs s).map P.sha256) := by
    rw [hd]
    exact List.mem_singleton_self _
  rcases Nat.eq_zero_or_pos d with rfl | hpos
  · obtain ⟨y, hy, hroot⟩ := List.mem_map.mp hroot
    exact ⟨y, hleaves y hy, (lt_length_of_mem_leafInputs hlong hs hy).le, hroot.symm⟩
  · obtain ⟨y, hy, hlen, hroot⟩ := exists_of_mem_iterate hpos hnodes hroot
    exact ⟨y, hy, hlen.ge, hroot⟩

theorem data_eq_of_leafInputs_eq {s' : InMemoryStore} (hs : HoldsAccounts P s)
    (hs' : HoldsAccounts P s') (h : leafInputs s = leafInputs s') :
    s.data .accounts = s'.data .accounts :=
  ExtTreeMap.toList_inj.mp (eq_of_map_eq (injOn_append hs hs') (fun _ he => .inl he)
    (fun _ he => .inr he) h)

end Store

/-! ### Two stores -/

section Stores

variable {P} {s s' : InMemoryStore} {S : Set Bytes} (hlong : LongAccounts P) (hS : S.InjOn P.sha256)
  (hs : HoldsAccounts P s) (hs' : HoldsAccounts P s')

include hlong hS hs

theorem ne_root_of_empty (h : s.iterCf .accounts ≠ []) (hin : ∀ x ∈ stateRootInputs P s, x ∈ S)
    (hempty : emptyStateDomain ∈ S) : computeStateRoot P s ≠ P.sha256 emptyStateDomain := by
  intro he
  obtain ⟨y, hy, hlen, hroot⟩ := exists_of_computeStateRoot hlong hs h hin
  rw [hS hy hempty (hroot.symm.trans he)] at hlen
  exact absurd hlen (by decide)

include hs'

/-- Two trees, the second at least as deep as the first: the leaves of the first are a level of the
second, and only the leaves are hashed from more than 64 bytes. -/
theorem leafInputs_eq_of_iterate_eq {d e : ℕ} (hne : s.iterCf .accounts ≠ [])
    (hleaves : ∀ x ∈ leafInputs s, x ∈ S) (hleaves' : ∀ x ∈ leafInputs s', x ∈ S)
    (hnodes : ∀ k < d, ∀ p ∈ pairs ((next (hashPair P))^[k] ((leafInputs s).map P.sha256)),
      pairInput p ∈ S)
    (hnodes' : ∀ k < e + d, ∀ p ∈ pairs ((next (hashPair P))^[k] ((leafInputs s').map P.sha256)),
      pairInput p ∈ S)
    (h : (next (hashPair P))^[d] ((leafInputs s).map P.sha256) =
      (next (hashPair P))^[e + d] ((leafInputs s').map P.sha256)) :
    leafInputs s = leafInputs s' := by
  have heq := PairTree.iterate_next_inj (injOn_hashPair hS) (nodup_leaves hs hS hleaves)
    (nodup_leaves hs' hS hleaves') e d hnodes hnodes' h
  rcases Nat.eq_zero_or_pos e with rfl | hpos
  · exact eq_of_map_eq hS hleaves hleaves' heq
  · -- the first leaf of one tree would be an inner node of the other
    obtain ⟨x, hx⟩ := List.exists_mem_of_ne_nil (leafInputs s) (by simpa [leafInputs] using hne)
    have hnode : P.sha256 x ∈ (next (hashPair P))^[e] ((leafInputs s').map P.sha256) :=
      heq ▸ List.mem_map_of_mem hx
    obtain ⟨y, hy, hlen, hxy⟩ := exists_of_mem_iterate hpos (fun k hk => hnodes' k (by omega)) hnode
    have hlong := lt_length_of_mem_leafInputs hlong hs hx
    rw [hS (hleaves x hx) hy hxy, hlen] at hlong
    exact absurd hlong (lt_irrefl _)

end Stores

/-- **The state root commits to the account table.**  Two stores that hold accounts under their
addresses and have the same state root have the same account table, unless two of the strings hashed
on the way collide. -/
theorem accounts_eq_of_computeStateRoot_eq (hlong : LongAccounts P) (s s' : InMemoryStore)
    (hs : HoldsAccounts P s) (hs' : HoldsAccounts P s')
    (hhash : Set.InjOn P.sha256 {x | x ∈ stateRootInputs P s ++ stateRootInputs P s'})
    (h : computeStateRoot P s = computeStateRoot P s') :
    s.data .accounts = s'.data .accounts ∧
      ∀ address, StateDb.getAccount P address s = StateDb.getAccount P address s' := by
  have hdata : s.data .accounts = s'.data .accounts := by
    have hin : ∀ x ∈ stateRootInputs P s, x ∈ {x | x ∈ stateRootInputs P s ++ stateRootInputs P s'} :=
      fun _ => List.mem_append_left _
    have hin' : ∀ x ∈ stateRootInputs P s', x ∈ {x | x ∈ stateRootInputs P s ++ stateRootInputs P s'} :=
      fun _ => List.mem_append_right _
    have hempty {t : InMemoryStore} (ht : t.iterCf .accounts = []) :
        emptyStateDomain ∈ stateRootInputs P t ∧ computeStateRoot P t = P.sha256 emptyStateDomain := by
      rw [stateRootInputs, computeStateRoot, if_pos ht, if_pos ht]
      exact ⟨List.mem_singleton_self _, rfl⟩
    by_cases hne : s.iterCf .accounts = []
    · by_cases hne' : s'.iterCf .accounts = []
      · exact ExtTreeMap.toList_inj.mp (hne.trans hne'.symm)
      · obtain ⟨hmem, hroot⟩ := hempty hne
        exact absurd (h.symm.trans hroot) (ne_root_of_empty hlong hhash hs' hne' hin' (hin _ hmem))
    · by_cases hne' : s'.iterCf .accounts = []
      · obtain ⟨hmem, hroot⟩ := hempty hne'
        exact absurd (h.trans hroot) (ne_root_of_empty hlong hhash hs hne hin (hin' _ hmem))
      · obtain ⟨hleaves, d, hd, hnodes⟩ := exists_rounds hne hin
        obtain ⟨hleaves', d', hd', hnodes'⟩ := exists_rounds hne' hin'
        have htop : (next (hashPair P))^[d] ((leafInputs s).map P.sha256) =
            (next (hashPair P))^[d'] ((leafInputs s').map P.sha256) := by
          rw [hd, hd', h]
        refine data_eq_of_leafInputs_eq hs hs' ?_
        rcases le_total d d' with hle | hle
        · obtain ⟨e, rfl⟩ := Nat.exists_eq_add_of_le' hle
          exact leafInputs_eq_of_iterate_eq hlong hhash hs hs' hne hleaves hleaves' hnodes hnodes' htop
        · obtain ⟨e, rfl⟩ := Nat.exists_eq_add_of_le' hle
          exact (leafInputs_eq_of_iterate_eq hlong hhash hs' hs hne' hleaves' hleaves hnodes' hnodes
            htop.symm).symm
  refine ⟨hdata, fun address => ?_⟩
  unfold StateDb.getAccount InMemoryStore.get
  rw [hdata]

/-! ### Stores that hold accounts -/

theorem holdsAccounts_new : HoldsAccounts P .new := by
  rintro ⟨k, v⟩ he
  rw [InMemoryStore.mem_iterCf, InMemoryStore.get, InMemoryStore.new, ExtTreeMap.getElem?_empty] at he
  cases he

variable {P} in
theorem HoldsAccounts.putAccount {s : InMemoryStore} (hs : HoldsAccounts P s) (address : Address)
    (account : AccountState) : HoldsAccounts P (StateDb.putAccount P address account s) := by
  rintro ⟨k, v⟩ he
  rw [InMemoryStore.mem_iterCf, StateDb.putAccount] at he
  by_cases hk : k = address.bytes.bytes
  · subst hk
    rw [InMemoryStore.get_put_self, Option.some.injEq] at he
    exact ⟨address, account, by rw [he]⟩
  · rw [InMemoryStore.get_put_ne _ _ _ (Ne.symm hk), ← InMemoryStore.mem_iterCf] at he
    exact hs _ he

theorem longAccounts_reference : LongAccounts reference := by
  intro account
  change 32 < (leBytes 8 account.balance.toNat ++ (leBytes 8 account.nonce.toNat ++
    (leBytes 8 account.staked.toNat ++ (leBytes 8 account.overflowStake.toNat ++
    ([if account.polValid then (1 : UInt8) else 0] ++ _))))).length
  simp only [List.length_append, length_leBytes, List.length_singleton]
  omega

def twoAccounts (first second : UInt8) : InMemoryStore :=
  StateDb.putAccount reference ⟨.splat second⟩ { balance := second.toUInt64 }
    (StateDb.putAccount reference ⟨.splat first⟩ { balance := first.toUInt64 } .new)

theorem accounts_eq_twoAccounts :
    (twoAccounts 1 2).data .accounts = (twoAccounts 2 1).data .accounts :=
  have hhash : ∀ x ∈ stateRootInputs reference (twoAccounts 1 2) ++
        stateRootInputs reference (twoAccounts 2 1),
      ∀ y ∈ stateRootInputs reference (twoAccounts 1 2) ++
        stateRootInputs reference (twoAccounts 2 1),
      reference.sha256 x = reference.sha256 y → x = y := by
    decide +kernel
  (accounts_eq_of_computeStateRoot_eq reference longAccounts_reference (twoAccounts 1 2)
    (twoAccounts 2 1) (((holdsAccounts_new _).putAccount _ _).putAccount _ _)
    (((holdsAccounts_new _).putAccount _ _).putAccount _ _) (fun x hx y hy => hhash x hx y hy)
    (by decide +kernel)).1

end StateManager

end Gratia
