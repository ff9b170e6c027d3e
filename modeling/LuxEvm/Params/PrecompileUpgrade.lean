import LuxEvm.Common
import LuxEvm.Lib.StateRel

/-!
# Precompile upgrades in the chain config

Each precompile config embeds an `Upgrade`: the timestamp it takes effect at and
whether it disables the precompile. A precompile is configured at genesis (the
`GenesisPrecompiles` map, keyed by module) and then by the list of
`PrecompileUpgrades`. `GetActivatingPrecompileConfigs` lists the configs of one
module that take effect between two times, the genesis one first and then the
upgrades in list order; `verifyPrecompileUpgrades` checks the list: timestamps
never decrease, and per key they increase and disable and enable alternate.

A module's own fields and its `Verify` are parameters: a config is its module's
key, its `Upgrade` and fields of any type `π`.
-/

set_option autoImplicit false

namespace LuxEvm.Extras

/-- `precompileconfig.Upgrade`. -/
structure Upgrade where
  blockTimestamp : Option UInt64
  disable : Bool
  deriving DecidableEq, Repr

structure PrecompileConfig (κ π : Type) where
  key : κ
  upgrade : Upgrade
  fields : π
  deriving DecidableEq, Repr

namespace PrecompileConfig

variable {κ π : Type}

def timestamp (c : PrecompileConfig κ π) : Option UInt64 := c.upgrade.blockTimestamp

def isDisabled (c : PrecompileConfig κ π) : Bool := c.upgrade.disable

end PrecompileConfig

/-- `Upgrade.Equal`: the same `Disable`, and timestamps both missing or equal
(`Uint64PtrEqual`). -/
def Upgrade.equal (u other : Upgrade) : Bool :=
  u.disable == other.disable && u.blockTimestamp == other.blockTimestamp

theorem Upgrade.equal_iff (u other : Upgrade) : u.equal other = true ↔ u = other := by
  cases u
  cases other
  simp [Upgrade.equal, and_comm]

/-- `modules.Module`, without its contract and configurator. -/
structure Module (κ : Type) where
  configKey : κ
  address : Address
  alwaysOn : Bool
  deriving DecidableEq, Repr

/-- `modules.RegisteredModules`, in address order: registration refuses a module
whose key or address is taken. -/
structure Registry (κ : Type) where
  modules : List (Module κ)
  nodup_configKey : (modules.map Module.configKey).Nodup
  nodup_address : (modules.map Module.address).Nodup

namespace Registry

variable {κ : Type}

def getPrecompileModuleByAddress (r : Registry κ) (address : Address) : Option (Module κ) :=
  r.modules.find? fun m => m.address = address

def alwaysOnModules (r : Registry κ) : List (Module κ) := r.modules.filter (·.alwaysOn)

theorem getPrecompileModuleByAddress_of_mem (r : Registry κ) {m : Module κ} (hm : m ∈ r.modules) :
    r.getPrecompileModuleByAddress m.address = some m := by
  cases h : r.getPrecompileModuleByAddress m.address with
  | none =>
    have := List.find?_eq_none.mp h m hm
    simp at this
  | some m' =>
    have hmem := List.mem_of_find?_eq_some h
    have haddr : m'.address = m.address := by simpa using List.find?_some h
    rw [List.inj_on_of_nodup_map r.nodup_address hmem hm haddr]

theorem address_ne_of_ne (r : Registry κ) {m m' : Module κ} (hm : m ∈ r.modules)
    (hm' : m' ∈ r.modules) (hne : m' ≠ m) : m'.address ≠ m.address :=
  fun h => hne (List.inj_on_of_nodup_map r.nodup_address hm' hm h)

end Registry

/-- `Precompiles`, the genesis map from module key to config. -/
structure Precompiles (κ π : Type) where
  entries : List (κ × PrecompileConfig κ π)
  nodup : (entries.map Prod.fst).Nodup

/-- The fields of `extras.ChainConfig` that schedule precompiles. -/
structure ChainConfig (κ π : Type) where
  genesisPrecompiles : Precompiles κ π
  precompileUpgrades : List (PrecompileConfig κ π)

/-- `IsForkTransition`: the fork activates from `parent` (none at genesis) to
`current`. -/
def isForkTransition (fork parent : Option UInt64) (current : UInt64) : Bool :=
  let parentForked := match parent with
    | none => false
    | some parent => isTimestampForked fork parent
  !parentForked && isTimestampForked fork current

section Getters

variable {κ π : Type} [DecidableEq κ]

def ChainConfig.getActivatingPrecompileConfigs (c : ChainConfig κ π) (r : Registry κ)
    (address : Address) (fromTime : Option UInt64) (toTime : UInt64)
    (upgrades : List (PrecompileConfig κ π)) : List (PrecompileConfig κ π) :=
  match r.getPrecompileModuleByAddress address with
  | none => []
  | some module =>
    let key := module.configKey
    let genesis := match c.genesisPrecompiles.entries.lookup key with
      | some config => if isForkTransition config.timestamp fromTime toTime then [config] else []
      | none => []
    genesis ++ upgrades.filter fun upgrade =>
      upgrade.key = key && isForkTransition upgrade.timestamp fromTime toTime

/-- The most recent config of the module at `address`. -/
def ChainConfig.getActivePrecompileConfig (c : ChainConfig κ π) (r : Registry κ)
    (address : Address) (timestamp : UInt64) : Option (PrecompileConfig κ π) :=
  (c.getActivatingPrecompileConfigs r address none timestamp c.precompileUpgrades).getLast?

def ChainConfig.isPrecompileEnabled (c : ChainConfig κ π) (r : Registry κ) (address : Address)
    (timestamp : UInt64) : Bool :=
  match c.getActivePrecompileConfig r address timestamp with
  | some config => !config.isDisabled
  | none => false

/-- The configs of one key in the order the getters list them: the genesis one,
then the upgrades. -/
def ChainConfig.configsOf (c : ChainConfig κ π) (key : κ) (upgrades : List (PrecompileConfig κ π)) :
    List (PrecompileConfig κ π) :=
  (c.genesisPrecompiles.entries.lookup key).toList ++ upgrades.filter (·.key = key)

/-- For a registered module, the activating configs are its configs that activate
in the transition. -/
theorem ChainConfig.getActivatingPrecompileConfigs_eq (c : ChainConfig κ π) (r : Registry κ)
    {m : Module κ} (hm : m ∈ r.modules) (fromTime : Option UInt64) (toTime : UInt64)
    (upgrades : List (PrecompileConfig κ π)) :
    c.getActivatingPrecompileConfigs r m.address fromTime toTime upgrades =
      (c.configsOf m.configKey upgrades).filter
        fun config => isForkTransition config.timestamp fromTime toTime := by
  rw [getActivatingPrecompileConfigs, r.getPrecompileModuleByAddress_of_mem hm]
  dsimp only
  rw [configsOf, List.filter_append, List.filter_filter]
  congr 1
  · cases c.genesisPrecompiles.entries.lookup m.configKey with
    | none => rfl
    | some config => by_cases h : isForkTransition config.timestamp fromTime toTime <;> simp [h]
  · exact List.filter_congr fun u _ => Bool.and_comm _ _

end Getters

structure LastUpgradeData where
  blockTimestamp : UInt64
  disabled : Bool
  deriving DecidableEq, Repr

inductive UpgradeError (κ : Type) where
  /-- a config's own `Verify` failed -/
  | verify (err : String)
  /-- "PrecompileUpgrade (%s) at [%d]: block timestamp cannot be nil " -/
  | nilTimestamp (key : κ) (i : ℕ)
  /-- "PrecompileUpgrade (%s) at [%d]: config block timestamp (%v) < previous timestamp (%v)" -/
  | beforePrevious (key : κ) (i : ℕ) (timestamp previous : UInt64)
  /-- "PrecompileUpgrade (%s) at [%d]: disable should be [%v]" -/
  | disableShouldBe (key : κ) (i : ℕ) (disable : Bool)
  /-- "PrecompileUpgrade (%s) at [%d]: config block timestamp (%v) <= previous timestamp (%v)
  of same key" -/
  | notAfterSameKey (key : κ) (i : ℕ) (timestamp last : UInt64)
  deriving DecidableEq, Repr

section Verify

variable {κ π : Type} [DecidableEq κ] (verifyConfig : PrecompileConfig κ π → Except String Unit)

/-- The loop over `GenesisPrecompiles`: every config is verified, and one with a
timestamp is recorded as the key's last upgrade, enabled. -/
def verifyGenesis : List (κ × PrecompileConfig κ π) → (κ → Option LastUpgradeData) →
    Except (UpgradeError κ) (κ → Option LastUpgradeData)
  | [], last => .ok last
  | (key, config) :: rest, last => do
    (verifyConfig config).mapError .verify
    match config.timestamp with
    -- disabled at genesis: skipped
    | none => verifyGenesis rest last
    | some timestamp =>
      verifyGenesis rest (Function.update last key (some ⟨timestamp, false⟩))

/-- The checks of `verifyPrecompileUpgrades` on the `i`-th upgrade, against the
timestamp of the upgrade before it and the last upgrade of its key: the upgrade's
timestamp if they pass. -/
def checkUpgrade (i : ℕ) (lastUpgradeByKey : Option LastUpgradeData)
    (previousUpgradeTimestamp : Option UInt64) (upgrade : PrecompileConfig κ π) :
    Except (UpgradeError κ) UInt64 := do
  let key := upgrade.key
  -- a key with no upgrade yet counts as disabled
  let disabled := match lastUpgradeByKey with
    | none => true
    | some lastUpgradeByKey => lastUpgradeByKey.disabled
  let some upgradeTimestamp := upgrade.timestamp | throw (.nilTimestamp key i)
  if let some previous := previousUpgradeTimestamp then
    if upgradeTimestamp < previous then
      throw (.beforePrevious key i upgradeTimestamp previous)
  if disabled = upgrade.isDisabled then throw (.disableShouldBe key i !disabled)
  if let some lastUpgradeByKey := lastUpgradeByKey then
    if upgradeTimestamp ≤ lastUpgradeByKey.blockTimestamp then
      throw (.notAfterSameKey key i upgradeTimestamp lastUpgradeByKey.blockTimestamp)
  return upgradeTimestamp

/-- The loop over `PrecompileUpgrades`, the `i`-th onwards. -/
def verifyUpgrades : ℕ → (κ → Option LastUpgradeData) → Option UInt64 →
    List (PrecompileConfig κ π) → Except (UpgradeError κ) Unit
  | _, _, _, [] => .ok ()
  | i, last, previousUpgradeTimestamp, upgrade :: rest => do
    let upgradeTimestamp ← checkUpgrade i (last upgrade.key) previousUpgradeTimestamp upgrade
    (verifyConfig upgrade).mapError .verify
    verifyUpgrades (i+1)
      (Function.update last upgrade.key (some ⟨upgradeTimestamp, upgrade.isDisabled⟩))
      (some upgradeTimestamp) rest

def ChainConfig.verifyPrecompileUpgrades (c : ChainConfig κ π) : Except (UpgradeError κ) Unit := do
  let last ← verifyGenesis verifyConfig c.genesisPrecompiles.entries fun _ => none
  verifyUpgrades verifyConfig 0 last none c.precompileUpgrades

end Verify

inductive CompatWhat where
  /-- "missing PrecompileUpgrade[%d]" -/
  | missing (i : ℕ)
  /-- "PrecompileUpgrade[%d]" -/
  | changed (i : ℕ)
  /-- "cannot retroactively enable PrecompileUpgrade[%d]" -/
  | retroactive (i : ℕ)
  deriving DecidableEq, Repr

/-- `ethparams.ConfigCompatError`. -/
structure ConfigCompatError where
  what : CompatWhat
  storedTime : Option UInt64
  newTime : Option UInt64
  rewindToTime : UInt64
  deriving DecidableEq, Repr

/-- `newTimestampCompatError`: rewind to just before the later of the two times. -/
def newTimestampCompatError (what : CompatWhat) (storedTime newTime : Option UInt64) :
    ConfigCompatError :=
  let rew := match storedTime, newTime with
    | none, _ => newTime
    | some _, none => newTime
    | some stored, some new => if stored < new then newTime else storedTime
  { what, storedTime, newTime
    rewindToTime := match rew with
      | some rew => if rew > 0 then rew-1 else 0
      | none => 0 }

section Compat

variable {κ π : Type} [DecidableEq κ] (equal : PrecompileConfig κ π → PrecompileConfig κ π → Bool)

/-- The loop of `checkPrecompileCompatible` over the upgrades already active: each
must still be there, at the same index, and `Equal` to the new one. -/
def compareActive : ℕ → List (PrecompileConfig κ π) → List (PrecompileConfig κ π) →
    Option ConfigCompatError
  | _, [], _ => none
  | i, upgrade :: _, [] => some (newTimestampCompatError (.missing i) upgrade.timestamp none)
  | i, upgrade :: rest, newUpgrade :: newRest =>
    if !equal upgrade newUpgrade then
      some (newTimestampCompatError (.changed i) upgrade.timestamp newUpgrade.timestamp)
    else compareActive (i+1) rest newRest

/-- `checkPrecompileCompatible`: the upgrades of the module at `address` active at
`time` must be the same under `precompileUpgrades`, and no new one may be active. -/
def ChainConfig.checkPrecompileCompatible (c : ChainConfig κ π) (r : Registry κ) (address : Address)
    (precompileUpgrades : List (PrecompileConfig κ π)) (time : UInt64) : Option ConfigCompatError :=
  let activeUpgrades := c.getActivatingPrecompileConfigs r address none time c.precompileUpgrades
  let newUpgrades := c.getActivatingPrecompileConfigs r address none time precompileUpgrades
  match compareActive equal 0 activeUpgrades newUpgrades with
  | some err => some err
  | none =>
    if newUpgrades.length > activeUpgrades.length then
      some (newTimestampCompatError (.retroactive activeUpgrades.length) none
        (newUpgrades[activeUpgrades.length]?.bind PrecompileConfig.timestamp))
    else none

/-- `checkPrecompilesCompatible`: the first module, in registry order, that is not. -/
def ChainConfig.checkPrecompilesCompatible (c : ChainConfig κ π) (r : Registry κ)
    (precompileUpgrades : List (PrecompileConfig κ π)) (time : UInt64) : Option ConfigCompatError :=
  r.modules.findSome? fun module =>
    c.checkPrecompileCompatible equal r module.address precompileUpgrades time

end Compat

end LuxEvm.Extras
