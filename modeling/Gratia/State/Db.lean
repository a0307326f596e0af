import Gratia.Core.Crypto
import Gratia.Support.Runs

/-!
# State — Db

`gratia-state/src/db.rs`: the in-memory store and the typed access `StateDb` gives to it.  A store
is one ordered map from byte strings to byte strings for each column family.  Its lock is never
poisoned and every column family exists, so writing cannot fail; reading fails on bytes that do not
decode.

A reader is a function of the store, a writer a change of it; `Db` is the monad of computations that
interleave them and keep what they have written when they fail, which is what a `Result`-returning
method on a shared `&self` store does.
-/

namespace Gratia

open Support Std

/-! ### The store -/

/-- `ALL_COLUMN_FAMILIES`. -/
inductive ColumnFamily where
  | blocks | transactions | accounts | state | attestations
deriving DecidableEq

structure InMemoryStore where
  data : ColumnFamily → ExtTreeMap Bytes Bytes

namespace InMemoryStore

def new : InMemoryStore := ⟨fun _ => ∅⟩

def get (s : InMemoryStore) (cf : ColumnFamily) (key : Bytes) : Option Bytes := (s.data cf)[key]?

def put (s : InMemoryStore) (cf : ColumnFamily) (key value : Bytes) : InMemoryStore :=
  ⟨Function.update s.data cf ((s.data cf).insert key value)⟩

def delete (s : InMemoryStore) (cf : ColumnFamily) (key : Bytes) : InMemoryStore :=
  ⟨Function.update s.data cf ((s.data cf).erase key)⟩

/-- `StateStore::iter_cf`: the pairs of a column family in key order. -/
def iterCf (s : InMemoryStore) (cf : ColumnFamily) : List (Bytes × Bytes) := (s.data cf).toList

def countKeys (s : InMemoryStore) (cf : ColumnFamily) : UInt64 := UInt64.ofNat (s.data cf).size

def sizeCf (s : InMemoryStore) (cf : ColumnFamily) : UInt64 :=
  (s.iterCf cf).foldl
    (fun total e => total + (UInt64.ofNat e.1.length + UInt64.ofNat e.2.length)) 0

def estimateSizeBytes (s : InMemoryStore) : UInt64 :=
  s.sizeCf .blocks + s.sizeCf .transactions + s.sizeCf .accounts + s.sizeCf .state +
    s.sizeCf .attestations

variable (s : InMemoryStore)

@[simp] theorem put_data_self (cf : ColumnFamily) (k v : Bytes) :
    (s.put cf k v).data cf = (s.data cf).insert k v := Function.update_self ..

@[simp] theorem delete_data_self (cf : ColumnFamily) (k : Bytes) :
    (s.delete cf k).data cf = (s.data cf).erase k := Function.update_self ..

theorem put_data_ne {cf cf' : ColumnFamily} (h : cf' ≠ cf) (k v : Bytes) :
    (s.put cf k v).data cf' = s.data cf' := Function.update_of_ne h ..

theorem delete_data_ne {cf cf' : ColumnFamily} (h : cf' ≠ cf) (k : Bytes) :
    (s.delete cf k).data cf' = s.data cf' := Function.update_of_ne h ..

@[simp] theorem get_put_self (cf : ColumnFamily) (k v : Bytes) :
    (s.put cf k v).get cf k = some v := by
  simp [get]

theorem get_put_ne (cf : ColumnFamily) {k k' : Bytes} (v : Bytes) (h : k ≠ k') :
    (s.put cf k v).get cf k' = s.get cf k' := by
  simp only [get, put_data_self]
  exact getElem?_insert_ne _ _ h

@[simp] theorem get_delete_self (cf : ColumnFamily) (k : Bytes) :
    (s.delete cf k).get cf k = none := by
  simp [get]

theorem get_delete_ne (cf : ColumnFamily) {k k' : Bytes} (h : k ≠ k') :
    (s.delete cf k).get cf k' = s.get cf k' := by
  simp only [get, delete_data_self]
  exact getElem?_erase_ne _ h

variable {s} in
theorem mem_iterCf {cf : ColumnFamily} {k v : Bytes} :
    (k, v) ∈ s.iterCf cf ↔ s.get cf k = some v :=
  ExtTreeMap.mem_toList_iff_getElem?_eq_some

end InMemoryStore

/-! ### Computations on the store -/

abbrev Db := EStateM GratiaError InMemoryStore

namespace Db

def read {α : Type} (f : InMemoryStore → Except GratiaError α) : Db α := fun s =>
  match f s with
  | .ok a => .ok a s
  | .error e => .error e s

def write (f : InMemoryStore → InMemoryStore) : Db Unit := fun s => .ok () (f s)

variable {α : Type} {f : InMemoryStore → Except GratiaError α} {s s' : InMemoryStore}

protected theorem ext {x y : Db α} (h : ∀ s, x.run s = y.run s) : x = y := funext h

theorem run_read : (read f).run s =
    match f s with
    | .ok a => .ok a s
    | .error e => .error e s := rfl

theorem read_bind {β : Type} (a : α) (h : f s = .ok a) (g : α → Db β) :
    (read f >>= g).run s = (g a).run s := by
  rw [EStateM.run_bind, run_read, h]

theorem read_bind_error {β : Type} {e : GratiaError} (h : f s = .error e) (g : α → Db β) :
    (read f >>= g).run s = .error e s := by
  rw [EStateM.run_bind, run_read, h]

theorem read_bind_cases {β : Type} (f : InMemoryStore → Except GratiaError α) (g : α → Db β)
    (s : InMemoryStore) : (∃ e, (read f >>= g).run s = .error e s) ∨
      ∃ a, f s = .ok a ∧ (read f >>= g).run s = (g a).run s := by
  cases h : f s with
  | error e => exact .inl ⟨e, read_bind_error h g⟩
  | ok a => exact .inr ⟨a, rfl, read_bind a h g⟩

@[simp] theorem read_ok {a : α} : (read f).run s = .ok a s' ↔ f s = .ok a ∧ s' = s := by
  simp only [read, EStateM.run]
  cases f s with
  | ok b => simp [eq_comm]
  | error e => simp

@[simp] theorem read_error {e : GratiaError} :
    (read f).run s = .error e s' ↔ f s = .error e ∧ s' = s := by
  simp only [read, EStateM.run]
  cases f s with
  | ok b => simp
  | error e => simp [eq_comm]

@[simp] theorem write_run (g : InMemoryStore → InMemoryStore) :
    (write g).run s = .ok () (g s) := rfl

theorem keeps_read {ω : Type} {see : InMemoryStore → ω} : Keeps see (read f) := by
  intro s
  rw [run_read]
  cases f s <;> rfl

theorem keeps_write {ω : Type} {see : InMemoryStore → ω} {g : InMemoryStore → InMemoryStore}
    (hg : ∀ s, see (g s) = see s) : Keeps see (write g) := hg

end Db

/-! ### Well-known keys -/

def stateKeyChainTip : Bytes := [99, 104, 97, 105, 110, 95, 116, 105, 112]

def stateKeyBlockHeight : Bytes := [98, 108, 111, 99, 107, 95, 104, 101, 105, 103, 104, 116]

def stateKeyStateRoot : Bytes := [115, 116, 97, 116, 101, 95, 114, 111, 111, 116]

/-! ### Typed access -/

namespace StateDb

variable (P : Platform)

/-- `bincode::deserialize`, with the error `StateDb` makes of a failure.  Trailing bytes are
allowed. -/
def deserialize {α : Type} (c : Codec α) (data : Bytes) : Except GratiaError α :=
  match c.take data with
  | some (a, _) => .ok a
  | none => .error (.serializationError "invalid encoding")

@[simp] theorem deserialize_put {α : Type} (c : Codec α) (a : α) :
    deserialize c (c.put a) = .ok a := by
  simp [deserialize, c.take_put_self]

/-- `put_block`: the block under its hash, and its hash under its height. -/
def putBlock (block : Block) (s : InMemoryStore) : InMemoryStore :=
  (s.put .blocks (block.header.hash P).bytes.bytes (P.block.put block)).put .blocks
    (toBeBytes block.header.height) (block.header.hash P).bytes.bytes

def getBlock (hash : BlockHash) (s : InMemoryStore) : Except GratiaError (Option Block) :=
  match s.get .blocks hash.bytes.bytes with
  | some data => (deserialize P.block data).map some
  | none => .ok none

def getBlockByHeight (height : UInt64) (s : InMemoryStore) : Except GratiaError (Option Block) :=
  match s.get .blocks (toBeBytes height) with
  | some hashBytes =>
    if h : hashBytes.length = 32 then getBlock P ⟨hashBytes, h⟩ s
    else .error (.storageError "corrupt block height index")
  | none => .ok none

def deleteBlock (hash : BlockHash) : Db Unit := do
  match ← Db.read (getBlock P hash) with
  | some block => Db.write fun s => s.delete .blocks (toBeBytes block.header.height)
  | none => pure ()
  Db.write fun s => s.delete .blocks hash.bytes.bytes

def putTransaction (tx : Transaction) (s : InMemoryStore) : InMemoryStore :=
  s.put .transactions tx.hash.bytes.bytes (P.transaction.put tx)

def getTransaction (hash : TxHash) (s : InMemoryStore) : Except GratiaError (Option Transaction) :=
  match s.get .transactions hash.bytes.bytes with
  | some data => (deserialize P.transaction data).map some
  | none => .ok none

def deleteTransaction (hash : TxHash) (s : InMemoryStore) : InMemoryStore :=
  s.delete .transactions hash.bytes.bytes

def putAccount (address : Address) (acct : AccountState) (s : InMemoryStore) : InMemoryStore :=
  s.put .accounts address.bytes.bytes (P.account.put acct)

/-- `get_account`: an address never seen has the empty account. -/
def getAccount (address : Address) (s : InMemoryStore) : Except GratiaError AccountState :=
  match s.get .accounts address.bytes.bytes with
  | some data => deserialize P.account data
  | none => .ok {}

def getNonce (address : Address) (s : InMemoryStore) : Except GratiaError UInt64 :=
  (getAccount P address s).map fun acct => acct.nonce

/-- `put_attestation`: keyed by nullifier. -/
def putAttestation (a : ProofOfLifeAttestation) (s : InMemoryStore) : InMemoryStore :=
  s.put .attestations a.nullifier.bytes (P.attestation.put a)

def hasNullifier (nullifier : Bytes32) (s : InMemoryStore) : Bool :=
  (s.get .attestations nullifier.bytes).isSome

def setChainTip (hash : BlockHash) (s : InMemoryStore) : InMemoryStore :=
  s.put .state stateKeyChainTip hash.bytes.bytes

def getChainTip (s : InMemoryStore) : Except GratiaError (Option BlockHash) :=
  match s.get .state stateKeyChainTip with
  | some data =>
    if h : data.length = 32 then .ok (some ⟨⟨data, h⟩⟩)
    else .error (.storageError "corrupt chain tip")
  | none => .ok none

def setBlockHeight (height : UInt64) (s : InMemoryStore) : InMemoryStore :=
  s.put .state stateKeyBlockHeight (toBeBytes height)

/-- `get_block_height`: zero when none is set. -/
def getBlockHeight (s : InMemoryStore) : Except GratiaError UInt64 :=
  match s.get .state stateKeyBlockHeight with
  | some data =>
    if data.length ≠ 8 then .error (.storageError "corrupt block height")
    else .ok (fromBeBytes data)
  | none => .ok 0

def setStateRoot (root : Bytes32) (s : InMemoryStore) : InMemoryStore :=
  s.put .state stateKeyStateRoot root.bytes

def getStateRoot (s : InMemoryStore) : Except GratiaError Bytes32 :=
  match s.get .state stateKeyStateRoot with
  | some data =>
    if h : data.length = 32 then .ok ⟨data, h⟩ else .error (.storageError "corrupt state root")
  | none => .ok .zero

/-! ### What writers leave alone -/

section Frames

variable {cf : ColumnFamily} {s : InMemoryStore}

theorem toBeBytes_ne_hash (height : UInt64) (hash : Bytes32) : toBeBytes height ≠ hash.bytes := by
  intro h
  have hlen := congrArg List.length h
  rw [length_toBeBytes, hash.length_eq] at hlen
  exact absurd hlen (by decide)

theorem get_putBlock_self (block : Block) : (putBlock P block s).get .blocks
    (block.header.hash P).bytes.bytes = some (P.block.put block) := by
  rw [putBlock, InMemoryStore.get_put_ne _ _ _ (toBeBytes_ne_hash _ _), InMemoryStore.get_put_self]

theorem get_putBlock_ne {block : Block} {hash : BlockHash} (h : block.header.hash P ≠ hash) :
    (putBlock P block s).get .blocks hash.bytes.bytes = s.get .blocks hash.bytes.bytes := by
  have hne : (block.header.hash P).bytes.bytes ≠ hash.bytes.bytes :=
    fun he => h (BlockHash.bytes_injective (Bytes32.bytes_injective he))
  rw [putBlock, InMemoryStore.get_put_ne _ _ _ (toBeBytes_ne_hash _ _),
    InMemoryStore.get_put_ne _ _ _ hne]

theorem putBlock_data (h : cf ≠ .blocks) (block : Block) :
    (putBlock P block s).data cf = s.data cf := by
  rw [putBlock, InMemoryStore.put_data_ne _ h, InMemoryStore.put_data_ne _ h]

theorem putTransaction_data (h : cf ≠ .transactions) (tx : Transaction) :
    (putTransaction P tx s).data cf = s.data cf := s.put_data_ne h _ _

theorem deleteTransaction_data (h : cf ≠ .transactions) (hash : TxHash) :
    (deleteTransaction hash s).data cf = s.data cf := s.delete_data_ne h _

theorem putAccount_data (h : cf ≠ .accounts) (a : Address) (acct : AccountState) :
    (putAccount P a acct s).data cf = s.data cf := s.put_data_ne h _ _

theorem putAttestation_data (h : cf ≠ .attestations) (a : ProofOfLifeAttestation) :
    (putAttestation P a s).data cf = s.data cf := s.put_data_ne h _ _

theorem setChainTip_data (h : cf ≠ .state) (hash : BlockHash) :
    (setChainTip hash s).data cf = s.data cf := s.put_data_ne h _ _

theorem setBlockHeight_data (h : cf ≠ .state) (height : UInt64) :
    (setBlockHeight height s).data cf = s.data cf := s.put_data_ne h _ _

theorem setStateRoot_data (h : cf ≠ .state) (root : Bytes32) :
    (setStateRoot root s).data cf = s.data cf := s.put_data_ne h _ _

theorem foldl_data {α : Type} {f : InMemoryStore → α → InMemoryStore}
    (hf : ∀ s a, (f s a).data cf = s.data cf) (l : List α) (s : InMemoryStore) :
    (l.foldl f s).data cf = s.data cf := by
  induction l generalizing s with
  | nil => rfl
  | cons a l ih => exact (ih _).trans (hf s a)

theorem putTransactions_data (h : cf ≠ .transactions) (txs : List Transaction) :
    (txs.foldl (fun s tx => putTransaction P tx s) s).data cf = s.data cf :=
  foldl_data (fun _ tx => putTransaction_data P h tx) txs s

theorem deleteTransactions_data (h : cf ≠ .transactions) (txs : List Transaction) :
    (txs.foldl (fun s tx => deleteTransaction tx.hash s) s).data cf = s.data cf :=
  foldl_data (fun _ tx => deleteTransaction_data h tx.hash) txs s

theorem putAttestations_data (h : cf ≠ .attestations) (as : List ProofOfLifeAttestation) :
    (as.foldl (fun s a => putAttestation P a s) s).data cf = s.data cf :=
  foldl_data (fun _ a => putAttestation_data P h a) as s

end Frames

end StateDb

end Gratia
