import Gratia.State.Pruning

/-!
# State — Manager

`gratia-state/src/lib.rs`: `StateManager`, which applies blocks to the store and takes them back.
The methods are written as the source has them, one `Db` computation each, so that a call that fails
returns its error together with whatever it had already written.
-/

namespace Gratia

open Support (Bytes Codec)
open StateDb

def hashPair (P : Platform) (left right : Bytes32) : Bytes32 := P.sha256 (left.bytes ++ right.bytes)

namespace MerkleTree

variable (P : Platform)

/-- One round of `MerkleTree::build`. -/
def nextLevel : List Bytes32 → List Bytes32
  | a :: b :: rest => hashPair P a b :: nextLevel rest
  | [a] => [hashPair P a a]
  | [] => []

/-- The levels above `current`, for at most `fuel` rounds. -/
def levelsAbove : ℕ → List Bytes32 → List (List Bytes32)
  | 0, _ => []
  | fuel + 1, current =>
    if current.length > 1 then nextLevel P current :: levelsAbove fuel (nextLevel P current)
    else []

/-- `MerkleTree::build`: the levels of the tree, leaves first. -/
def build (leaves : List Bytes32) : List (List Bytes32) :=
  if leaves = [] then [[.zero]] else leaves :: levelsAbove P leaves.length leaves

/-- `MerkleTree::root`: the first node of the last level. -/
def root (levels : List (List Bytes32)) : Bytes32 :=
  match levels.getLast? with
  | some level => level.headD .zero
  | none => .zero

end MerkleTree

/-- The bytes of `b"gratia-empty-state-v1"`. -/
def emptyStateDomain : Bytes :=
  [103, 114, 97, 116, 105, 97, 45, 101, 109, 112, 116, 121, 45, 115, 116, 97, 116, 101, 45, 118, 49]

/-- `StateManager`: the policy; the store is what its methods run on. -/
structure StateManager where
  pruningPolicy : PruningPolicy := {}

namespace StateManager

variable (P : Platform) (m : StateManager)

/-! ### Applying transactions -/

/-- `checked_add`, with the error made of an overflow. -/
def checkedAdd (a b : Lux) (message : String) : Except GratiaError Lux :=
  if a.toNat + b.toNat < 2 ^ 64 then .ok (a + b) else .error (.other message)

def applyTransfer (sender recipient : Address) (amount fee : Lux) (nonce : UInt64) : Db Unit := do
  let senderAcct ← Db.read (getAccount P sender)
  let totalDebit ← Db.read fun _ => checkedAdd amount fee "transfer amount overflow"
  if senderAcct.balance < totalDebit then
    throw (.insufficientBalance senderAcct.balance totalDebit)
  if senderAcct.nonce ≠ nonce then
    throw (.nonceMismatch senderAcct.nonce nonce)
  Db.write (putAccount P sender
    { senderAcct with balance := senderAcct.balance - totalDebit, nonce := senderAcct.nonce + 1 })
  -- Read after the debit is written: sender and recipient may be one account.
  let recipientAcct ← Db.read (getAccount P recipient)
  let balance ← Db.read fun _ =>
    checkedAdd recipientAcct.balance amount "recipient balance overflow"
  Db.write (putAccount P recipient { recipientAcct with balance := balance })

def applyStake (sender : Address) (amount fee : Lux) (nonce : UInt64) : Db Unit := do
  let acct ← Db.read (getAccount P sender)
  let totalDebit ← Db.read fun _ => checkedAdd amount fee "stake amount overflow"
  if acct.balance < totalDebit then
    throw (.insufficientBalance acct.balance totalDebit)
  if acct.nonce ≠ nonce then
    throw (.nonceMismatch acct.nonce nonce)
  let staked ← Db.read fun _ => checkedAdd acct.staked amount "staked amount overflow"
  Db.write (putAccount P sender
    { acct with balance := acct.balance - totalDebit, staked := staked, nonce := acct.nonce + 1 })

def applyUnstake (sender : Address) (amount fee : Lux) (nonce : UInt64) : Db Unit := do
  let acct ← Db.read (getAccount P sender)
  if acct.balance < fee then
    throw (.insufficientBalance acct.balance fee)
  if acct.staked < amount then
    throw (.insufficientStake acct.staked amount)
  if acct.nonce ≠ nonce then
    throw (.nonceMismatch acct.nonce nonce)
  Db.write (putAccount P sender
    { acct with balance := acct.balance - fee + amount, staked := acct.staked - amount,
                nonce := acct.nonce + 1 })

def applyFeeAndNonce (sender : Address) (fee : Lux) (nonce : UInt64) : Db Unit := do
  let acct ← Db.read (getAccount P sender)
  if acct.balance < fee then
    throw (.insufficientBalance acct.balance fee)
  if acct.nonce ≠ nonce then
    throw (.nonceMismatch acct.nonce nonce)
  Db.write (putAccount P sender
    { acct with balance := acct.balance - fee, nonce := acct.nonce + 1 })

def applyTransaction (tx : Transaction) : Db Unit := do
  let sender ← Db.read fun _ => addressFromPubkey P tx.senderPubkey
  match tx.payload with
  | .transfer recipient amount => applyTransfer P sender recipient amount tx.fee tx.nonce
  | .stake amount => applyStake P sender amount tx.fee tx.nonce
  | .unstake amount => applyUnstake P sender amount tx.fee tx.nonce
  | _ => applyFeeAndNonce P sender tx.fee tx.nonce

/-! ### Taking transactions back -/

def revertTransaction (tx : Transaction) : Db Unit := do
  let sender ← Db.read fun _ => addressFromPubkey P tx.senderPubkey
  match tx.payload with
  | .transfer recipient amount =>
    let senderAcct ← Db.read (getAccount P sender)
    let nonce ← Db.read fun _ =>
      if senderAcct.nonce = 0 then .error (.other "nonce underflow during transaction revert")
      else .ok (senderAcct.nonce - 1)
    Db.write (putAccount P sender
      { senderAcct with balance := senderAcct.balance + (amount + tx.fee), nonce := nonce })
    let recipientAcct ← Db.read (getAccount P recipient)
    Db.write (putAccount P recipient
      { recipientAcct with balance := Pruning.saturatingSub recipientAcct.balance amount })
  -- Only a transfer checks the nonce before it counts it down.
  | .stake amount =>
    let acct ← Db.read (getAccount P sender)
    Db.write (putAccount P sender
      { acct with balance := acct.balance + (amount + tx.fee),
                  staked := Pruning.saturatingSub acct.staked amount, nonce := acct.nonce - 1 })
  | .unstake amount =>
    let acct ← Db.read (getAccount P sender)
    Db.write (putAccount P sender
      { acct with balance := Pruning.saturatingSub acct.balance amount + tx.fee,
                  staked := acct.staked + amount, nonce := acct.nonce - 1 })
  | _ =>
    let acct ← Db.read (getAccount P sender)
    Db.write (putAccount P sender
      { acct with balance := acct.balance + tx.fee, nonce := acct.nonce - 1 })

/-! ### Blocks -/

def computeStateRoot (s : InMemoryStore) : Bytes32 :=
  if s.iterCf .accounts = [] then P.sha256 emptyStateDomain
  else MerkleTree.root (MerkleTree.build P
    ((s.iterCf .accounts).map fun e => P.sha256 (e.1 ++ e.2)))

/-- The writes of `apply_block` after its transactions: the block and its parts, the state root and
the new tip. -/
def commitBlock (block : Block) (s : InMemoryStore) : InMemoryStore :=
  let s := putBlock P block s
  let s := block.transactions.foldl (fun s tx => putTransaction P tx s) s
  let s := block.attestations.foldl (fun s a => putAttestation P a s) s
  let s := setStateRoot (computeStateRoot P s) s
  let s := setChainTip (block.header.hash P) s
  setBlockHeight block.header.height s

def applyBlock (block : Block) : Db Unit := do
  let currentHeight ← Db.read getBlockHeight
  let currentTip ← Db.read getChainTip
  let expectedHeight := currentHeight + 1
  if block.header.height ≠ expectedHeight then
    throw (.blockValidationFailed
      s!"expected height {expectedHeight}, got {block.header.height}")
  if currentHeight > 0 then
    if let some tip := currentTip then
      if block.header.parentHash ≠ tip then
        throw (.blockValidationFailed "parent hash does not match chain tip")
  -- Each transaction writes to the store itself; there is nothing to roll back to.
  forM block.transactions (applyTransaction P)
  Db.write (commitBlock P block)
  let s ← get
  if Pruning.shouldPrune m.pruningPolicy s then
    Db.write fun s => (Pruning.runPruningCycle P m.pruningPolicy block.header.height s).2

def revertBlock : Db Unit := do
  let currentHeight ← Db.read getBlockHeight
  if currentHeight = 0 then
    throw (.blockValidationFailed "cannot revert genesis block")
  let tip ← Db.read fun s => do
    match ← getChainTip s with
    | some tip => .ok tip
    | none => .error (.storageError "no chain tip found")
  let block ← Db.read fun s => do
    match ← getBlock P tip s with
    | some block => .ok block
    | none => .error (.storageError "chain tip block not found in storage")
  forM block.transactions.reverse (revertTransaction P)
  Db.write fun s => block.transactions.foldl (fun s tx => deleteTransaction tx.hash s) s
  deleteBlock P tip
  Db.write (setChainTip block.header.parentHash)
  Db.write (setBlockHeight (currentHeight - 1))
  Db.write fun s => setStateRoot (computeStateRoot P s) s

/-- The loop of `revert_to_height`: so many blocks, with their transactions collected. -/
def revertBlocks : ℕ → List Transaction → Db (List Transaction)
  | 0, orphanedTxs => pure orphanedTxs
  | n + 1, orphanedTxs => do
    let tip ← Db.read getChainTip
    -- A block that cannot be read is passed over here; `revert_block` fails on it.
    let block ← Db.read fun s => .ok (tip.bind fun hash => (getBlock P hash s).toOption.join)
    revertBlock P
    revertBlocks n (orphanedTxs ++ block.elim [] fun b => b.transactions)

def revertToHeight (targetHeight : UInt64) : Db (List Transaction) := do
  let currentHeight ← Db.read getBlockHeight
  if targetHeight ≥ currentHeight then return []
  revertBlocks P (currentHeight - targetHeight).toNat []

/-! ### Queries -/

/-- The blocks of so many heights, up to the first height without one. -/
def blocksFrom (s : InMemoryStore) : ℕ → UInt64 → List Block
  | 0, _ => []
  | n + 1, height =>
    match getBlockByHeight P height s with
    | .ok (some block) => block :: blocksFrom s n (height + 1)
    | _ => []

/-- `get_blocks_by_height_range`: at most fifty blocks. -/
def getBlocksByHeightRange (fromHeight toHeight : UInt64) (s : InMemoryStore) : List Block :=
  let last := min toHeight (fromHeight + 49)
  if fromHeight ≤ last then blocksFrom P s (last.toNat - fromHeight.toNat + 1) fromHeight else []

end StateManager

end Gratia
