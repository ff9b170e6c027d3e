import LuxEvm.Precompile.RewardManager
import LuxEvm.Warp.Config
import LuxEvm.Params.PrecompileUpgrade

/-!
# Equality of precompile configs

Every precompile config type writes its own `Equal`, and upgrade compatibility rests
on it: `checkPrecompileCompatible` lets a node restart with an edited upgrade list
exactly when each upgrade already active is `Equal` to the one at its place in the
new list (`checkPrecompileCompatible_eq_none_iff`).

The allow-list configs and the fee manager compare every field, so their `Equal` is
equality. The reward manager compares its initial reward config only when the
receiver has one: a config without one is `Equal` to any config with one, and not
the other way round. Warp's `Equal` leaves out `RequirePrimaryNetworkSigners`, which
picks the chain whose validators must sign a predicate. Either lets a restart change
what an active upgrade does (`config_equal_not_sound`).
-/

set_option autoImplicit false

namespace LuxEvm.Precompile

open Extras CommonType

deriving instance DecidableEq for AllowListConfig

/-- `AllowListConfig.Equal`: the same addresses in the same order, list by list. -/
def AllowListConfig.equal (c other : AllowListConfig) : Bool :=
  c.adminAddresses == other.adminAddresses && c.managerAddresses == other.managerAddresses &&
    c.enabledAddresses == other.enabledAddresses

theorem AllowListConfig.equal_iff (c other : AllowListConfig) : c.equal other = true ↔ c = other := by
  cases c
  cases other
  simp [AllowListConfig.equal, and_assoc]

namespace RewardManager

/-- `rewardmanager.InitialRewardConfig`. -/
structure InitialRewardConfig where
  allowFeeRecipients : Bool
  rewardAddress : Address
  deriving DecidableEq, Repr

/-- `InitialRewardConfig.Equal`, against a present config. -/
def InitialRewardConfig.equal (i other : InitialRewardConfig) : Bool :=
  i.allowFeeRecipients == other.allowFeeRecipients && i.rewardAddress == other.rewardAddress

theorem InitialRewardConfig.equal_iff (i other : InitialRewardConfig) :
    i.equal other = true ↔ i = other := by
  cases i
  cases other
  simp [InitialRewardConfig.equal]

/-- `InitialRewardConfig.Configure`. -/
def InitialRewardConfig.configure (blackholeAddr : Address) (i : InitialRewardConfig)
    (state : StateDB) : StateDB :=
  if i.allowFeeRecipients then enableAllowFeeRecipients state
  -- no reward address and no fee recipients: rewards go nowhere
  else if i.rewardAddress = 0 then disableFeeRewards blackholeAddr state
  else storeRewardAddress state i.rewardAddress

/-- The reward manager's `Configure`, with the chain config's `AllowedFeeRecipients`. -/
def configure (allowedFeeRecipients : Bool) (blackholeAddr : Address) (allowList : AllowListConfig)
    (initialRewardConfig : Option InitialRewardConfig) (state : StateDB) : StateDB :=
  let state := match initialRewardConfig with
    | some initialRewardConfig => initialRewardConfig.configure blackholeAddr state
    | none => if allowedFeeRecipients then enableAllowFeeRecipients state
      else disableFeeRewards blackholeAddr state
  allowList.configure ContractAddress state

theorem addressKey_ne_allowFeeRecipientsAddressValue (a : Address) :
    addressKey a ≠ allowFeeRecipientsAddressValue :=
  addressKey_ne_hashOfPrefix a _ _ (by decide) (by decide)

end RewardManager

/-- The fields of each precompile config type besides its `Upgrade`. -/
inductive ConfigFields where
  | txAllowList (allowList : AllowListConfig)
  | deployerAllowList (allowList : AllowListConfig)
  | feeManager (allowList : AllowListConfig) (initialFeeConfig : Option FeeConfig)
  /-- `InitialMint`, a map from address to amount, in one order of its entries -/
  | nativeMinter (allowList : AllowListConfig) (initialMint : List (Address × Option ℤ))
  | rewardManager (allowList : AllowListConfig)
      (initialRewardConfig : Option RewardManager.InitialRewardConfig)
  | warp (quorumNumerator : UInt64) (requirePrimaryNetworkSigners : Bool)
  deriving DecidableEq

/-- A precompile config: its key, its `Upgrade` and its type's fields. -/
abbrev ModuleConfig := PrecompileConfig String ConfigFields

/-- The `InitialMint` part of `nativeminter.Config.Equal`: as many entries, and each
entry of the receiver found in the other with a `BigNumEqual` amount. -/
def initialMintEqual (initialMint other : List (Address × Option ℤ)) : Bool :=
  initialMint.length == other.length && initialMint.all fun (address, amount) =>
    match other.lookup address with
    | some val => bigNumEqual amount val
    | none => false

/-- `Equal` of each config type, after its `Upgrade.Equal`. Configs of two types are
never equal ("typecast before comparison"). -/
def configEqual (c other : ModuleConfig) : Bool :=
  c.upgrade.equal other.upgrade && match c.fields, other.fields with
  | .txAllowList a, .txAllowList b => a.equal b
  | .deployerAllowList a, .deployerAllowList b => a.equal b
  | .feeManager a f, .feeManager b g =>
    a.equal b && match f, g with
      | none, g => g.isNone
      | some f, g => g.any f.equal
  | .nativeMinter a m, .nativeMinter b n => a.equal b && initialMintEqual m n
  | .rewardManager a i, .rewardManager b j =>
    -- the initial reward config is compared only when the receiver has one
    (match i with
      | some i => j.any i.equal
      | none => true) && a.equal b
  | .warp q _, .warp q' _ => q == q'
  | _, _ => false

def warpConfigOf (c : ModuleConfig) : Option Warp.Config :=
  match c.fields with
  | .warp quorumNumerator requirePrimaryNetworkSigners =>
    some ⟨c.upgrade.blockTimestamp, quorumNumerator, requirePrimaryNetworkSigners⟩
  | _ => none

/-! ## What `Equal` identifies -/

theorem configEqual_iff_of_allowList {c other : ModuleConfig}
    (hc : (∃ a, c.fields = .txAllowList a) ∨ (∃ a, c.fields = .deployerAllowList a) ∨
      ∃ a f, c.fields = .feeManager a f) :
    configEqual c other = true ↔ c.upgrade = other.upgrade ∧ c.fields = other.fields := by
  rcases hc with ⟨a, ha⟩ | ⟨a, ha⟩ | ⟨a, f, ha⟩
  · cases hb : other.fields <;>
      simp [configEqual, ha, hb, Upgrade.equal_iff, AllowListConfig.equal_iff]
  · cases hb : other.fields <;>
      simp [configEqual, ha, hb, Upgrade.equal_iff, AllowListConfig.equal_iff]
  · cases hb : other.fields with
    | feeManager b g =>
      cases f <;> cases g <;>
        simp [configEqual, ha, hb, Upgrade.equal_iff, AllowListConfig.equal_iff, FeeConfig.equal_iff]
    | _ => simp [configEqual, ha, hb]

/-- The reward manager's `Equal` holds whenever the receiver has no initial reward
config. -/
theorem configEqual_rewardManager_iff {c other : ModuleConfig} {a b : AllowListConfig}
    {i j : Option RewardManager.InitialRewardConfig} (hc : c.fields = .rewardManager a i)
    (hother : other.fields = .rewardManager b j) :
    configEqual c other = true ↔ c.upgrade = other.upgrade ∧ a = b ∧ (i = none ∨ i = j) := by
  cases i <;> cases j <;>
    simp [configEqual, hc, hother, Upgrade.equal_iff, AllowListConfig.equal_iff,
      RewardManager.InitialRewardConfig.equal_iff, and_comm]

/-- Warp's `Equal` compares the quorum numerator and nothing else of its own. -/
theorem configEqual_warp_iff {c other : ModuleConfig} {q q' : UInt64} {p p' : Bool}
    (hc : c.fields = .warp q p) (hother : other.fields = .warp q' p') :
    configEqual c other = true ↔ c.upgrade = other.upgrade ∧ q = q' := by
  simp [configEqual, hc, hother, Upgrade.equal_iff]

/-! ## Compatibility -/

section Compat

variable {κ π : Type} (equal : PrecompileConfig κ π → PrecompileConfig κ π → Bool)

theorem compareActive_eq_none_iff (i : ℕ) (active new : List (PrecompileConfig κ π)) :
    compareActive equal i active new = none ↔
      active.length ≤ new.length ∧
        List.Forall₂ (fun a b => equal a b = true) active (new.take active.length) := by
  induction active generalizing i new with
  | nil => simp [compareActive]
  | cons a active ih =>
    cases new with
    | nil => simp [compareActive]
    | cons b new =>
      by_cases hab : equal a b = true
      · simp [compareActive, hab, ih]
      · simp [compareActive, hab]

/-- **Compatibility is `Equal`, index by index, on the active upgrades.** -/
theorem checkPrecompileCompatible_eq_none_iff [DecidableEq κ] (c : ChainConfig κ π) (r : Registry κ)
    (address : Address) (precompileUpgrades : List (PrecompileConfig κ π)) (time : UInt64) :
    c.checkPrecompileCompatible equal r address precompileUpgrades time = none ↔
      List.Forall₂ (fun a b => equal a b = true)
        (c.getActivatingPrecompileConfigs r address none time c.precompileUpgrades)
        (c.getActivatingPrecompileConfigs r address none time precompileUpgrades) := by
  simp only [ChainConfig.checkPrecompileCompatible]
  generalize c.getActivatingPrecompileConfigs r address none time c.precompileUpgrades = active
  generalize c.getActivatingPrecompileConfigs r address none time precompileUpgrades = new
  cases h : compareActive equal 0 active new with
  | some err =>
    simp only [reduceCtorEq, false_iff]
    intro hall
    have hlen := hall.length_eq
    have := (compareActive_eq_none_iff equal 0 active new).mpr
      ⟨hlen.le, by rwa [hlen, List.take_length]⟩
    rw [h] at this
    cases this
  | none =>
    obtain ⟨hle, hall⟩ := (compareActive_eq_none_iff equal 0 active new).mp h
    by_cases hgt : new.length > active.length
    · simp only [hgt, ↓reduceIte, reduceCtorEq, false_iff]
      exact fun h2 => absurd h2.length_eq (by omega)
    · have hlen : active.length = new.length := by omega
      simp only [hgt, ↓reduceIte, true_iff]
      rwa [hlen, List.take_length] at hall

end Compat

/-! ## A restart that changes an active upgrade -/

def rewardManagerDefault : ModuleConfig :=
  ⟨"rewardManagerConfig", ⟨some 0, false⟩, .rewardManager ⟨[], [], []⟩ none⟩

def rewardManagerAllowingFeeRecipients : ModuleConfig :=
  ⟨"rewardManagerConfig", ⟨some 0, false⟩, .rewardManager ⟨[], [], []⟩ (some ⟨true, 0⟩)⟩

def rewardManagerModule : Module String := ⟨"rewardManagerConfig", RewardManager.ContractAddress, false⟩

def rewardManagerRegistry : Registry String := ⟨[rewardManagerModule], by decide, by decide⟩

/-- A chain whose only upgrade is `rewardManagerDefault`. -/
def rewardManagerChain : ChainConfig String ConfigFields := ⟨⟨[], by decide⟩, [rewardManagerDefault]⟩

def warpDefault : ModuleConfig := ⟨"warpConfig", ⟨some 0, false⟩, .warp 0 false⟩

def warpRequiringPrimarySigners : ModuleConfig := ⟨"warpConfig", ⟨some 0, false⟩, .warp 0 true⟩

/-- `Equal` is not symmetric on reward manager configs, lets an active reward
manager gain an initial reward config across a restart although `Configure` then
writes another reward slot, and identifies Warp configs that check predicates
against different validator sets (primary network 1, P-chain 2, a message from
chain 3 of the primary network received on chain 4). -/
theorem config_equal_not_sound :
    configEqual rewardManagerDefault rewardManagerAllowingFeeRecipients = true ∧
      configEqual rewardManagerAllowingFeeRecipients rewardManagerDefault = false ∧
      rewardManagerChain.checkPrecompileCompatible configEqual rewardManagerRegistry
        RewardManager.ContractAddress [rewardManagerAllowingFeeRecipients] 0 = none ∧
      (∀ (blackholeAddr : Address) (state : StateDB),
        (RewardManager.getStoredRewardAddress
          (RewardManager.configure false blackholeAddr ⟨[], [], []⟩ none state)).2 = false ∧
        (RewardManager.getStoredRewardAddress
          (RewardManager.configure false blackholeAddr ⟨[], [], []⟩ (some ⟨true, 0⟩) state)).2 = true) ∧
      configEqual warpDefault warpRequiringPrimarySigners = true ∧
      (warpConfigOf warpDefault).map (·.requestedChainID 1 2 1 3 4) = some 4 ∧
      (warpConfigOf warpRequiringPrimarySigners).map (·.requestedChainID 1 2 1 3 4) = some 1 := by
  refine ⟨by decide, by decide, by decide, fun blackholeAddr state => ⟨?_, ?_⟩, by decide, by decide,
    by decide⟩
  · -- rewards disabled: the slot holds the blackhole address, never the marker
    simp [RewardManager.configure, RewardManager.getStoredRewardAddress,
      RewardManager.disableFeeRewards, AllowListConfig.configure,
      RewardManager.addressKey_ne_allowFeeRecipientsAddressValue]
  · simp [RewardManager.configure, RewardManager.InitialRewardConfig.configure,
      RewardManager.getStoredRewardAddress, RewardManager.enableAllowFeeRecipients,
      AllowListConfig.configure]

end LuxEvm.Precompile
