import Gratia.Support.Aliasing
import Gratia.Vm.Events
import Gratia.Vm.Resources

/-!
# Vm — Storage

The storage that contracts share.  A contract names an entry by bytes of its memory; what
`storage_read` and `storage_write` use is the first 32 of them, filled up with zeros, and nothing of
the contract.
-/

namespace Gratia

open Support
open Std (ExtTreeMap)

/-- The entry of the storage under a key: its first 32 bytes, filled up with zeros. -/
def entryKey (key : Bytes) : Bytes32 :=
  ⟨(key.take 32 ++ List.replicate (32 - (key.take 32).length) 0).take 32, by simp⟩

def HostEnvironment.entries (host : HostEnvironment) (key : Bytes32) : Option Bytes :=
  host.storage[key]?

namespace HostCall

variable (c : HostCall)

/-- The bytes that a storage function is given as a key; none if they lie out of bounds. -/
def key? : Option Bytes :=
  (storageKey c.memory (argU32 c.args 0) (argU32 c.args 1)).map fun _ =>
    (c.memory.drop (argU32 c.args 0).toNat).take (argU32 c.args 1).toNat

/-- The value that a contract reads off the answer: none at the pointer 0, and otherwise the bytes
behind the length to which the answer points. -/
def found : Option Bytes :=
  match c.answer with
  | .ok (some (.i32 ptr), memory, _) =>
    if ptr = 0 then none
    else
      let answer := memory.drop ptr.toUInt32.toNat
      some ((answer.drop 4).take (ofLeBytes (answer.take 4)))
  | _ => none

/-- The key and the value of a `storage_write`. -/
def written : Option (Bytes × Bytes) := c.key?.bind fun key => c.write?.map fun write => (key, write.2)

variable {c}

theorem storageKey_eq {memory : Bytes} {start len : UInt32} {key : Bytes32}
    (h : storageKey memory start len = some key) :
    key = entryKey ((memory.drop start.toNat).take len.toNat) := by
  unfold storageKey at h
  dsimp only at h
  split at h
  · cases h
  · cases h
    unfold entryKey
    rw [Bytes32.mk.injEq, List.take_take, Nat.min_comm]

theorem write_eq (c : HostCall) : c.write? = c.written.map fun w => (entryKey w.1, w.2) := by
  unfold written key? write?
  split
  · cases hkey : storageKey c.memory (argU32 c.args 0) (argU32 c.args 1) with
    | none => rfl
    | some key =>
      rw [storageKey_eq hkey]
      dsimp only
      split
      · rfl
      · rfl
  · cases storageKey c.memory (argU32 c.args 0) (argU32 c.args 1) with
    | none | some key => rfl

theorem length_of_written {w : Bytes × Bytes} (h : c.written = some w) : w.2.length < 2 ^ 32 := by
  have hw := c.write_eq
  rw [h] at hw
  unfold write? at hw
  split at hw
  · split at hw
    · cases hw
    split at hw
    · cases hw
    · have hvalue : w.2 = (c.memory.drop _).take _ := (congrArg Prod.snd (Option.some.inj hw)).symm
      have hlen := (argU32 c.args 3).toNat_lt
      rw [hvalue, List.length_take]
      omega
  · cases hw

theorem drop_copyAt {memory bytes : Bytes} {addr : ℕ} (h : addr ≤ memory.length) :
    (copyAt memory addr bytes).drop addr = bytes ++ memory.drop (addr + bytes.length) := by
  unfold copyAt
  rw [List.append_assoc, List.drop_append_of_le_length (by rw [List.length_take]; omega),
    List.drop_of_length_le (by rw [List.length_take]; omega), List.nil_append]

/-- **What a `storage_read` finds**: the value of the entry under its key, if memory has room for
it. -/
theorem found_eq (hname : c.name = "storage_read")
    (hroom : ∀ key ∈ c.key?, ∀ value ∈ c.host.entries (entryKey key),
      value.length < 2 ^ 32 ∧ storageReadOffset + 4 + value.length ≤ c.memory.length) :
    c.found = c.key?.bind fun key => c.host.entries (entryKey key) := by
  obtain ⟨name, args, memory, host⟩ := c
  subst hname
  unfold key? at hroom ⊢
  unfold found answer
  simp only [hostFunction]
  cases hkey : storageKey memory (argU32 args 0) (argU32 args 1) with
  | none => rfl
  | some key =>
    rw [hkey] at hroom
    replace hroom := hroom _ rfl
    rw [← storageKey_eq hkey] at hroom
    dsimp only [Option.map_some, Option.bind_some]
    rw [← storageKey_eq hkey]
    change _ = host.storageRead key
    change ∀ value ∈ host.storageRead key, _ at hroom
    cases hvalue : host.storageRead key with
    | none => rfl
    | some value =>
      obtain ⟨hlen, hfits⟩ := hroom value hvalue
      dsimp only at hfits ⊢
      rw [if_pos hfits]
      have hprefix : (toLeBytes32 (UInt32.ofNat value.length)).length = 4 :=
        length_leBytes 4 _
      have hcount : ofLeBytes (toLeBytes32 (UInt32.ofNat value.length)) = value.length := by
        rw [toLeBytes32, ofLeBytes_leBytes, UInt32.toNat_ofNat']
        omega
      change some _ = some value
      rw [show (1024 : Int32).toUInt32.toNat = storageReadOffset from rfl,
        drop_copyAt (by omega), List.append_assoc, List.take_left' hprefix,
        List.drop_left' hprefix, hcount, List.take_left]

end HostCall

/-! ### The storage along a run -/

def overwrite (entries : Bytes32 → Option Bytes) (write : Option (Bytes32 × Bytes)) :
    Bytes32 → Option Bytes :=
  replay entries write.toList

/-- Every host function finds the storage that the writes before it have left. -/
def Logged : (Bytes32 → Option Bytes) → List HostCall → (Bytes32 → Option Bytes) → Prop
  | entries, [], entries' => entries' = entries
  | entries, c :: calls, entries' =>
    c.host.entries = entries ∧ Logged (overwrite entries c.write?) calls entries'

theorem Logged.append {entries' entries'' : Bytes32 → Option Bytes} {calls' : List HostCall}
    (h' : Logged entries' calls' entries'') : ∀ {calls : List HostCall} {entries},
    Logged entries calls entries' → Logged entries (calls ++ calls') entries'' := by
  intro calls
  induction calls with
  | nil =>
    rintro entries ⟨⟩
    exact h'
  | cons c calls ih =>
    rintro entries ⟨hc, hcalls⟩
    exact ⟨hc, ih hcalls⟩

theorem Logged.split {entries' : Bytes32 → Option Bytes} {c : HostCall} {after : List HostCall} :
    ∀ {before : List HostCall} {entries}, Logged entries (before ++ c :: after) entries' →
      c.host.entries = replay entries (before.filterMap HostCall.write?) := by
  intro before
  induction before with
  | nil =>
    intro entries h
    exact h.1
  | cons b before ih =>
    rintro entries ⟨-, hrest⟩
    rw [ih hrest, overwrite, ← replay_append, List.filterMap_cons]
    cases b.write? with
    | none => rfl
    | some write => rfl

theorem entries_stored (host : HostEnvironment) (write : Option (Bytes32 × Bytes))
    {host' : HostEnvironment} (h : host'.storage = HostCall.stored host.storage write) :
    host'.entries = overwrite host.entries write := by
  funext key
  rw [HostEnvironment.entries, h]
  cases write with
  | none => rfl
  | some write =>
    obtain ⟨written, value⟩ := write
    change (host.storage.insert written value)[key]? = Function.update host.entries written _ key
    rw [ExtTreeMap.getElem?_insert, Function.update_apply]
    simp only [Std.compare_eq_iff_eq, @eq_comm _ key]
    rfl

theorem logged_traced (ctx : Context) :
    Traced ctx fun s calls t => Logged s.2.host.entries calls t.2.host.entries where
  refl _ := rfl
  trans _ _ _ _ _ h h' := Logged.append h' h
  perform _ _ _ _ _ _ := rfl
  count _ _ := rfl
  charge cost store env :=
    (chargeGas_metered cost env).mono fun _ _ hm => congrArg HostEnvironment.entries hm.host
  answered name args store env env' v memory host hc _ hf := by
    have hhost : env'.host = env.host := ((chargeGas_metered _ env).ok hc).host
    cases HostCall.effect ⟨name, args, store.memory, env'.host⟩ with
    | failed h => cases h.symm.trans hf
    | answered h _ hs _ =>
      cases h.symm.trans hf
      refine ⟨congrArg _ hhost, ?_⟩
      dsimp only
      rw [← hhost]
      exact entries_stored env'.host _ hs
  failed name args store env env' e hc _ hf := by
    have hhost : env'.host = env.host := ((chargeGas_metered _ env).ok hc).host
    cases HostCall.effect ⟨name, args, store.memory, env'.host⟩ with
    | failed _ hw =>
      refine ⟨congrArg _ hhost, ?_⟩
      rw [hw]
      exact congrArg _ hhost
    | answered h => cases h.symm.trans hf

/-! ### Calls through one virtual machine and one host -/

/-- A virtual machine and a host, with the host functions that have been run on it, each with the
contract that was called. -/
structure Session where
  vm : GratiaVm
  host : HostEnvironment
  log : List (Address × HostCall) := []

/-- An entry of the storage as a contract means it: its own, under these bytes. -/
abbrev Slot := Address × Bytes

namespace Session

def step (s : Session) (request : ℕ × ContractCall) : Option Session :=
  (s.vm.callContract request.1 request.2 s.host).map fun called =>
    ⟨called.vm, called.host, s.log ++
      (s.vm.observe hostTrace request.1 request.2 s.host).map fun c => (request.2.contractAddress, c)⟩

def writes (log : List (Address × HostCall)) : List (Slot × Bytes) :=
  log.filterMap fun (address, c) => c.written.map fun w => ((address, w.1), w.2)

/-- What a contract has last written under the key that a host function is given. -/
def lastWritten (log : List (Address × HostCall)) (address : Address) (c : HostCall) : Option Bytes :=
  c.key?.bind fun key => replay (fun _ => none) (writes log) (address, key)

/-- The entry that a contract means at a host function is shared with no other that has been
written, and not occupied from the start; and what it has written there fits into its memory. -/
structure Unshared (host : HostEnvironment) (log : List (Address × HostCall)) (address : Address)
    (c : HostCall) : Prop where
  own : ∀ key ∈ c.key?, ∀ write ∈ writes log, entryKey write.1.2 = entryKey key →
    write.1 = (address, key)
  vacant : ∀ key ∈ c.key?, host.entries (entryKey key) = none ∨
    ∃ value, ((address, key), value) ∈ writes log
  room : ∀ value ∈ lastWritten log address c,
    storageReadOffset + 4 + value.length ≤ c.memory.length

theorem step_logged {s s' : Session} {request : ℕ × ContractCall} {start : Bytes32 → Option Bytes}
    (hstep : s.step request = some s') (h : Logged start (s.log.map Prod.snd) s.host.entries) :
    Logged start (s'.log.map Prod.snd) s'.host.entries := by
  obtain ⟨called, hcall, rfl⟩ := Option.map_eq_some_iff.mp hstep
  dsimp only
  rw [List.map_append, List.map_map, show Prod.snd ∘ (fun c => (request.2.contractAddress, c)) = id
    from rfl, List.map_id]
  refine Logged.append ?_ h
  unfold GratiaVm.observe
  rcases GratiaVm.callContract_cases hcall with
    ⟨fault, vm₁, rfl, hwhy, -⟩ | ⟨contract, vm₁, e, hcontract, hload, hrun, rfl⟩
  · rcases hwhy with ⟨hnone, -⟩ | ⟨contract, hcontract, hload⟩
    · rw [hnone]
      rfl
    · simp only [hcontract, hload]
      rfl
  · simp only [hcontract, hload]
    rcases Traced.executeContract (fun m => logged_traced ⟨m, contract.permissions⟩) hrun with
      ⟨hcalls, err, gas₁, -, rfl⟩ | ⟨contract', gas₁, r, store, env, -, -, hlogged, rfl⟩
    · rw [hcalls]
      rfl
    · exact hlogged

theorem filterMap_write (log : List (Address × HostCall)) :
    (log.map Prod.snd).filterMap HostCall.write? =
      (writes log).map fun w => (entryKey w.1.2, w.2) := by
  rw [List.filterMap_map, writes, List.map_filterMap]
  refine List.filterMap_congr fun (address, c) _ => ?_
  change c.write? = _
  rw [c.write_eq, Option.map_map]
  rfl

theorem length_of_writes {log : List (Address × HostCall)} {w : Slot × Bytes}
    (h : w ∈ writes log) : w.2.length < 2 ^ 32 := by
  obtain ⟨⟨address, c⟩, -, hc⟩ := List.mem_filterMap.mp h
  obtain ⟨w', hw', rfl⟩ := Option.map_eq_some_iff.mp hc
  exact HostCall.length_of_written hw'

/-- **Storage is exact where entries are not shared**: in every run of calls, a read of an entry that
no other contract has written, nor the same contract under other bytes, finds the value that the
contract has last written under the key. -/
theorem storage_exact {vm : GratiaVm} {host : HostEnvironment} {requests : List (ℕ × ContractCall)}
    {s : Session} (hrun : reach step ⟨vm, host, []⟩ requests = some s)
    {i : ℕ} {address : Address} {c : HostCall} (hlog : s.log[i]? = some (address, c))
    (hread : c.name = "storage_read") (hown : Unshared host (s.log.take i) address c) :
    c.found = lastWritten (s.log.take i) address c := by
  have hlogged : Logged host.entries (s.log.map Prod.snd) s.host.entries :=
    reach_invariant (fun t : Session => Logged _ (t.log.map Prod.snd) t.host.entries)
      (fun _ _ _ => step_logged) hrun (rfl : host.entries = host.entries)
  obtain ⟨hi, hget⟩ := List.getElem?_eq_some_iff.mp hlog
  rw [← List.take_append_drop i s.log, List.drop_eq_getElem_cons hi, hget, List.map_append,
    List.map_cons] at hlogged
  have hentries := hlogged.split
  rw [filterMap_write] at hentries
  -- what the entry holds is what was meant
  have hmeant : ∀ key ∈ c.key?, c.host.entries (entryKey key) =
      replay (fun _ => none) (writes (s.log.take i)) (address, key) := by
    intro key hkey
    rw [hentries]
    refine (replay_through (fun slot : Slot => entryKey slot.2) (k := (address, key))
      (hown.own key hkey) rfl : _ = replay (fun slot => host.entries (entryKey slot.2)) _ _).trans ?_
    exact replay_congr (hown.vacant key hkey)
  have hexpected : (c.key?.bind fun key => c.host.entries (entryKey key)) =
      lastWritten (s.log.take i) address c := Option.bind_congr hmeant
  rw [HostCall.found_eq hread, hexpected]
  intro key hkey value hvalue
  rw [hmeant key hkey] at hvalue
  refine ⟨?_, hown.room value ?_⟩
  · rcases mem_of_replay hvalue with hnone | hw
    · cases hnone
    · exact length_of_writes hw
  · rw [lastWritten, show c.key? = some key from hkey]
    exact hvalue

def onesAddress : Address := ⟨⟨List.replicate 32 1, by decide⟩⟩

/-- Where the ledger of a deployer is. -/
def ledgerOf (deployer : Address) : Address :=
  GratiaVm.contractAddressOf reference deployer ledger

def ledgerVm : GratiaVm := (({} : GratiaVm).deployContract reference ⟨.zero⟩ ledger {}).2

/-- Two have deployed the same ledger. -/
def twoLedgers : GratiaVm := (ledgerVm.deployContract reference onesAddress ledger {}).2

/-- A read as an observer sees it: who reads, under which key, what is found and what was written
last. -/
structure Sight where
  address : Address
  name : String
  key : Option Bytes
  found : Option Bytes
  meant : Option Bytes
deriving DecidableEq

def sight (s : Session) (i : ℕ) : Option Sight :=
  s.log[i]?.map fun (address, c) =>
    ⟨address, c.name, c.key?, c.found, lastWritten (s.log.take i) address c⟩

theorem sight_some {s : Session} {i : ℕ} {r : Sight} (h : s.sight i = some r) :
    ∃ c, s.log[i]? = some (r.address, c) ∧ c.name = r.name ∧ c.key? = r.key ∧ c.found = r.found ∧
      lastWritten (s.log.take i) r.address c = r.meant := by
  obtain ⟨⟨address, c⟩, hlog, rfl⟩ := Option.map_eq_some_iff.mp h
  exact ⟨c, hlog, rfl, rfl, rfl, rfl⟩

theorem storage_exact_own :
    ∃ s c, reach step ⟨ledgerVm, quietHost, []⟩
        [(40, ⟨ledgerOf ⟨.zero⟩, "put", [], 1000⟩), (40, ⟨ledgerOf ⟨.zero⟩, "get", [], 1000⟩)] =
        some s ∧
      s.log[1]? = some (ledgerOf ⟨.zero⟩, c) ∧ c.name = "storage_read" ∧
      c.found = some [0x76, 0x61, 0x6C] := by
  have hrun : (reach step ⟨ledgerVm, quietHost, []⟩
      [(40, ⟨ledgerOf ⟨.zero⟩, "put", [], 1000⟩), (40, ⟨ledgerOf ⟨.zero⟩, "get", [], 1000⟩)]).any
      (fun s => decide (s.sight 1 = some ⟨ledgerOf ⟨.zero⟩, "storage_read", some [0x6B, 0x65, 0x79],
          some [0x76, 0x61, 0x6C], some [0x76, 0x61, 0x6C]⟩ ∧
        writes (s.log.take 1) = [((ledgerOf ⟨.zero⟩, [0x6B, 0x65, 0x79]), [0x76, 0x61, 0x6C])] ∧
        s.log[1]?.map (·.2.memory.length) = some 65536)) = true := by decide +kernel
  obtain ⟨s, hs, hsight⟩ := (Option.any_eq_true ..).mp hrun
  obtain ⟨hsight, hwrites, hmemory⟩ := of_decide_eq_true hsight
  obtain ⟨c, hlog, hname, hkey, -, hmeant⟩ := sight_some hsight
  dsimp only at hlog hname hkey hmeant
  have hlen : c.memory.length = 65536 := by
    rw [hlog] at hmemory
    exact Option.some.inj hmemory
  refine ⟨s, c, hs, hlog, hname, (storage_exact hs hlog hname ⟨?_, ?_, ?_⟩).trans hmeant⟩
  · intro key hk write hw _
    cases hkey.symm.trans hk
    rw [hwrites] at hw
    cases List.mem_singleton.mp hw
    rfl
  · intro key hk
    cases hkey.symm.trans hk
    rw [hwrites]
    exact .inr ⟨_, List.mem_singleton.mpr rfl⟩
  · intro value hv
    cases hmeant.symm.trans hv
    rw [hlen]
    decide

/-- **A contract reads what another has written**, and a key is taken for another. -/
theorem storage_shared :
    ∃ s c c', reach step ⟨twoLedgers, quietHost, []⟩
        [(40, ⟨ledgerOf ⟨.zero⟩, "put", [], 1000⟩), (40, ⟨ledgerOf onesAddress, "get", [], 1000⟩),
          (40, ⟨ledgerOf ⟨.zero⟩, "peek", [], 1000⟩)] = some s ∧
      ledgerOf onesAddress ≠ ledgerOf ⟨.zero⟩ ∧
      s.log[1]? = some (ledgerOf onesAddress, c) ∧ c.name = "storage_read" ∧
      c.found = some [0x76, 0x61, 0x6C] ∧
      lastWritten (s.log.take 1) (ledgerOf onesAddress) c = none ∧
      s.log[2]? = some (ledgerOf ⟨.zero⟩, c') ∧ c'.name = "storage_read" ∧
      c'.found = some [0x76, 0x61, 0x6C] ∧
      lastWritten (s.log.take 2) (ledgerOf ⟨.zero⟩) c' = none := by
  have hrun : ledgerOf onesAddress ≠ ledgerOf ⟨.zero⟩ ∧ (reach step ⟨twoLedgers, quietHost, []⟩
      [(40, ⟨ledgerOf ⟨.zero⟩, "put", [], 1000⟩), (40, ⟨ledgerOf onesAddress, "get", [], 1000⟩),
        (40, ⟨ledgerOf ⟨.zero⟩, "peek", [], 1000⟩)]).any (fun s =>
        decide (s.sight 1 = some ⟨ledgerOf onesAddress, "storage_read", some [0x6B, 0x65, 0x79],
            some [0x76, 0x61, 0x6C], none⟩ ∧
          s.sight 2 = some ⟨ledgerOf ⟨.zero⟩, "storage_read", some [0x6B, 0x65, 0x79, 0],
            some [0x76, 0x61, 0x6C], none⟩)) = true := by
    decide +kernel
  obtain ⟨hne, hrun⟩ := hrun
  obtain ⟨s, hs, hsights⟩ := (Option.any_eq_true ..).mp hrun
  obtain ⟨hget, hpeek⟩ := of_decide_eq_true hsights
  obtain ⟨c, hlog, hname, -, hfound, hmeant⟩ := sight_some hget
  obtain ⟨c', hlog', hname', -, hfound', hmeant'⟩ := sight_some hpeek
  exact ⟨s, c, c', hs, hne, hlog, hname, hfound, hmeant, hlog', hname', hfound', hmeant'⟩

/-! ### What contracts are told -/

/-- The same answers as another host, apart from storage and events; no entry of it is lost. -/
def Told (host host' : HostEnvironment) : Prop :=
  host' = { host with storage := host'.storage, events := host'.events } ∧
    ∀ key ∈ host.storage, key ∈ host'.storage

theorem told_region (ctx : Context) (host : HostEnvironment) :
    Region ctx (fun _ => True) (fun _ env => Told host env.host) (fun _ _ => True) where
  body _ _ _ _ _ _ _ _ _ _ := trivial
  perform _ _ _ _ _ _ _ h := h
  count _ _ h := h
  charge cost _ env h :=
    (chargeGas_metered cost env).mono fun _ _ hm => ⟨hm.host ▸ h, fun _ _ => trivial⟩
  host _ imported args store env _ _ _ _ _ _ _ hf h := by
    have hanswer := hostFunction_cases imported.name args store.memory env.host
    rw [hf] at hanswer
    cases hanswer with
    | answered | copied => exact h
    | stored _ key value =>
      exact ⟨congrArg (·.storageWrite key value) h.1,
        fun k hk => ExtTreeMap.mem_insert.mpr (.inr (h.2 k hk))⟩
    | emitted _ address topic data => exact ⟨congrArg (·.emitEvent address topic data) h.1, h.2⟩

/-- **No call changes what contracts are told**: after any calls of any code, the host's account of
chain, caller and device is the one it started with, and no entry of the storage is gone. -/
theorem run_told {vm : GratiaVm} {host : HostEnvironment} {requests : List (ℕ × ContractCall)}
    {s : Session} (hrun : reach step ⟨vm, host, []⟩ requests = some s) : Told host s.host := by
  refine reach_invariant (fun t : Session => Told host t.host) (fun t request t' hstep h => ?_) hrun
    ⟨rfl, fun _ hk => hk⟩
  obtain ⟨called, hcall, rfl⟩ := Option.map_eq_some_iff.mp hstep
  rcases GratiaVm.callContract_cases hcall with
    ⟨fault, vm₁, rfl, -⟩ | ⟨contract, vm₁, e, -, -, hexec, rfl⟩
  · exact h
  have he : Told host e.host := by
    rcases InterpreterRuntime.executeContract_cases hexec with
      ⟨err, rfl, -⟩ | ⟨g, gas₁, -, rfl⟩ | ⟨_, i, gas₁, r, store, env, -, -, -, hfun, rfl⟩
    · exact h
    · exact h
    · exact ((told_region _ host).run trivial h hfun).1
  exact ⟨congrArg (·.takeEvents.2) he.1, he.2⟩

theorem run_told_put : ∃ s, reach step ⟨ledgerVm, quietHost, []⟩
    [(40, ⟨ledgerOf ⟨.zero⟩, "put", [], 1000⟩)] = some s ∧ Told quietHost s.host := by
  have hsome : (reach step ⟨ledgerVm, quietHost, []⟩
      [(40, ⟨ledgerOf ⟨.zero⟩, "put", [], 1000⟩)]).isSome = true := by decide +kernel
  obtain ⟨s, hs⟩ := Option.isSome_iff_exists.mp hsome
  exact ⟨s, hs, run_told hs⟩

end Session

end Gratia
