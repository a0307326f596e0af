import Gratia.Support.Words

/-!
# Vm — Gas

The gas meter of `gratia-vm/src/gas.rs`.  The fields of a meter are private to the source and its
constructors cap the limit, so a `GasMeter` carries both bounds: it never reads more than its limit,
and the limit is at most `maxGasLimit`.
-/

namespace Gratia

open Support

inductive GasError where
  | outOfGas (used limit : UInt64)
  | gasLimitTooHigh (requested max : UInt64)
deriving DecidableEq

def GasError.toText : GasError → String
  | outOfGas used limit => s!"out of gas: used {used}, limit {limit}"
  | gasLimitTooHigh requested max =>
    s!"gas limit too high: {requested}, maximum allowed is {max}"

structure GasCosts where
  memoryAccess : UInt64 := 1
  arithmetic : UInt64 := 1
  division : UInt64 := 5
  branch : UInt64 := 2
  sha256Hash : UInt64 := 1_000
  ed25519Verify : UInt64 := 50_000
  hostCallBase : UInt64 := 100
  hostGetLocation : UInt64 := 150
  hostGetProximity : UInt64 := 300
  hostGetPresence : UInt64 := 120
  hostGetSensor : UInt64 := 150
  hostGetBlockInfo : UInt64 := 110
  hostGetCallerInfo : UInt64 := 200
  storageRead : UInt64 := 200
  storageWrite : UInt64 := 5_000
  memoryGrowPage : UInt64 := 10_000
  crossContractCall : UInt64 := 100_000
  logPerByte : UInt64 := 2
deriving DecidableEq

/-- The cost that `charge_host_call` looks up by the name of the function. -/
def GasCosts.hostCall (costs : GasCosts) (functionName : String) : UInt64 :=
  match functionName with
  | "get_location" => costs.hostGetLocation
  | "get_nearby_peers" => costs.hostGetProximity
  | "get_presence_score" => costs.hostGetPresence
  | "get_sensor_data" => costs.hostGetSensor
  | "get_block_height" => costs.hostGetBlockInfo
  | "get_block_timestamp" => costs.hostGetBlockInfo
  | "get_caller_address" => costs.hostGetCallerInfo
  | "get_caller_balance" => costs.hostGetCallerInfo
  | _ => costs.hostCallBase

theorem GasCosts.le_hostCall (functionName : String) :
    100 ≤ (({} : GasCosts).hostCall functionName).toNat := by
  unfold hostCall
  split <;> decide

def maxGasLimit : UInt64 := 10_000_000_000

structure GasMeter where
  limit : UInt64
  used : UInt64
  costs : GasCosts
  limit_le : limit ≤ maxGasLimit
  used_le : used ≤ limit
deriving DecidableEq

namespace GasMeter

theorem min_le_maxGasLimit (limit : UInt64) : min limit maxGasLimit ≤ maxGasLimit := by
  rw [UInt64.le_iff_toNat_le, toNat_min]
  exact min_le_right _ _

def withCosts (limit : UInt64) (costs : GasCosts) : GasMeter :=
  ⟨min limit maxGasLimit, 0, costs, min_le_maxGasLimit limit, UInt64.zero_le⟩

def new (limit : UInt64) : GasMeter := withCosts limit {}

def charge (g : GasMeter) (amount : UInt64) : Except GasError Unit × GasMeter :=
  let newUsed := saturatingAdd g.used amount
  if h : newUsed > g.limit then
    -- billing stays at the limit, not over it
    (.error (.outOfGas newUsed g.limit), { g with used := g.limit, used_le := UInt64.le_refl _ })
  else (.ok (), { g with used := newUsed, used_le := UInt64.not_lt.mp h })

def gasRemaining (g : GasMeter) : UInt64 := saturatingSub g.limit g.used

/-! ### What a charge does -/

variable {g g' : GasMeter} {amount : UInt64}

theorem limit_lt (g : GasMeter) : g.limit.toNat < 2 ^ 64 - 1 :=
  (UInt64.le_iff_toNat_le.mp g.limit_le).trans_lt (by decide)

theorem toNat_used_le (g : GasMeter) : g.used.toNat ≤ g.limit.toNat :=
  UInt64.le_iff_toNat_le.mp g.used_le

theorem used_add_gasRemaining (g : GasMeter) :
    g.used.toNat + g.gasRemaining.toNat = g.limit.toNat := by
  have h := g.toNat_used_le
  have hr : g.gasRemaining.toNat = g.limit.toNat - g.used.toNat := toNat_saturatingSub _ _
  omega

theorem toNat_limit_new (limit : UInt64) :
    (new limit).limit.toNat = min limit.toNat maxGasLimit.toNat :=
  toNat_min _ _

theorem toNat_saturatingAdd_le_iff (g : GasMeter) (amount : UInt64) :
    saturatingAdd g.used amount ≤ g.limit ↔ g.used.toNat + amount.toNat ≤ g.limit.toNat := by
  have hlim := g.limit_lt
  rw [UInt64.le_iff_toNat_le, toNat_saturatingAdd]
  omega

theorem charge_cases (g : GasMeter) (amount : UInt64) :
    (g.used.toNat + amount.toNat ≤ g.limit.toNat ∧ ∃ g', g.charge amount = (.ok (), g') ∧
        g'.limit = g.limit ∧ g'.costs = g.costs ∧ g'.used = g.used + amount ∧
        g'.used.toNat = g.used.toNat + amount.toNat) ∨
      (g.limit.toNat < g.used.toNat + amount.toNat ∧
        ∃ e g', g.charge amount = (.error e, g') ∧ g'.limit = g.limit ∧ g'.costs = g.costs ∧
          g'.used = g.limit) := by
  by_cases h : saturatingAdd g.used amount > g.limit
  · refine .inr ⟨?_, _, { g with used := g.limit, used_le := UInt64.le_refl _ }, dif_pos h, rfl,
      rfl, rfl⟩
    exact Nat.not_le.mp (mt (g.toNat_saturatingAdd_le_iff amount).mpr (UInt64.not_le.mpr h))
  · have hle := (g.toNat_saturatingAdd_le_iff amount).mp (UInt64.not_lt.mp h)
    have hlt : g.used.toNat + amount.toNat < 2 ^ 64 := hle.trans_lt g.limit.toNat_lt
    have hsat : saturatingAdd g.used amount = g.used + amount := if_pos hlt
    refine .inl ⟨hle, { g with used := saturatingAdd g.used amount, used_le := UInt64.not_lt.mp h },
      dif_neg h, rfl, rfl, hsat, ?_⟩
    rw [← toNat_add_of_lt hlt, ← hsat]

end GasMeter

end Gratia
