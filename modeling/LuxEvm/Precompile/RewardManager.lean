import LuxEvm.Precompile.AllowList

/-!
# The reward manager

The reward manager keeps one storage word under `Hash{'r','a','s','k'}`: the
reward address right-aligned, the blackhole address when rewards are disabled,
or the marker `Hash{'a','f','r','a','v'}` when fee recipients are allowed.
The key is not an address key, so no reward manager call moves a role. The
blackhole address comes from a library outside the repository and is a
parameter here.
-/

set_option autoImplicit false

namespace LuxEvm.Precompile.RewardManager
open Lib.StateRel

def ContractAddress : Address := 0x10205

def AllowFeeRecipientsGasCost : UInt64 := WriteGasCostPerSlot+ReadAllowListGasCost
def AreFeeRecipientsAllowedGasCost : UInt64 := ReadAllowListGasCost
def CurrentRewardAddressGasCost : UInt64 := ReadAllowListGasCost
def DisableRewardsGasCost : UInt64 := WriteGasCostPerSlot+ReadAllowListGasCost
def SetRewardAddressGasCost : UInt64 := WriteGasCostPerSlot+ReadAllowListGasCost
def FeeRecipientsAllowedEventGasCost : UInt64 := LogGas+LogTopicGas*2
def RewardAddressChangedEventGasCost : UInt64 := LogGas+LogTopicGas*4+ReadGasCostPerSlot
def RewardsDisabledEventGasCost : UInt64 := LogGas+LogTopicGas*2

def rewardAddressStorageKey : Hash := hashOfPrefix (['r', 'a', 's', 'k'].map Char.toUInt8)

def allowFeeRecipientsAddressValue : Hash :=
  hashOfPrefix (['a', 'f', 'r', 'a', 'v'].map Char.toUInt8)

inductive RewardManagerMethod where
  | allowFeeRecipients
  | areFeeRecipientsAllowed
  | currentRewardAddress
  | disableRewards
  | setRewardAddress
  deriving DecidableEq, Repr

structure RewardManagerABI where
  methodID : RewardManagerMethod → List UInt8
  unpackSetRewardAddress : List UInt8 → Bool → Except String Address

def enableAllowFeeRecipients (stateDB : StateDB) : StateDB :=
  stateDB.setState ContractAddress rewardAddressStorageKey allowFeeRecipientsAddressValue

def disableFeeRewards (blackholeAddr : Address) (stateDB : StateDB) : StateDB :=
  stateDB.setState ContractAddress rewardAddressStorageKey (addressKey blackholeAddr)

def getStoredRewardAddress (stateDB : StateDB) : Address × Bool :=
  let val := stateDB.getState ContractAddress rewardAddressStorageKey
  (hashToAddress val, val == allowFeeRecipientsAddressValue)

def storeRewardAddress (stateDB : StateDB) (val : Address) : StateDB :=
  stateDB.setState ContractAddress rewardAddressStorageKey (addressKey val)

def allowFeeRecipients : RunStatefulPrecompileFunc :=
  fun evm caller _ _ suppliedGas readOnly => do
    let remainingGas ← orFail (deductGas suppliedGas AllowFeeRecipientsGasCost) 0
    failIf readOnly .writeProtection remainingGas
    let stateDB ← get
    let callerStatus := getAllowListStatus stateDB ContractAddress caller
    failIf (!callerStatus.isEnabled) (.cannotAllowFeeRecipients caller) remainingGas
    let remainingGas ← emitEvent evm remainingGas FeeRecipientsAllowedEventGasCost ContractAddress
      (.feeRecipientsAllowed caller)
    modify enableAllowFeeRecipients
    pure ([], remainingGas)

def areFeeRecipientsAllowed : RunStatefulPrecompileFunc :=
  fun _ _ _ _ suppliedGas _ => do
    let remainingGas ← orFail (deductGas suppliedGas AreFeeRecipientsAllowedGasCost) 0
    let stateDB ← get
    let output := (getStoredRewardAddress stateDB).2
    pure (packWords [if output then 1 else 0], remainingGas)

def setRewardAddress (abi : RewardManagerABI) : RunStatefulPrecompileFunc :=
  fun evm caller _ input suppliedGas readOnly => do
    let remainingGas ← orFail (deductGas suppliedGas SetRewardAddressGasCost) 0
    failIf readOnly .writeProtection remainingGas
    let useStrictMode := !isDurangoActivated evm
    let rewardAddress ← orFail ((abi.unpackSetRewardAddress input useStrictMode).mapError .abi)
      remainingGas
    let stateDB ← get
    let callerStatus := getAllowListStatus stateDB ContractAddress caller
    failIf (!callerStatus.isEnabled) (.cannotSetRewardAddress caller) remainingGas
    failIf (rewardAddress == 0) .emptyRewardAddress remainingGas
    let remainingGas ← emitEvent evm remainingGas RewardAddressChangedEventGasCost ContractAddress
      (.rewardAddressChanged caller (getStoredRewardAddress stateDB).1 rewardAddress)
    modify (storeRewardAddress · rewardAddress)
    pure ([], remainingGas)

def currentRewardAddress : RunStatefulPrecompileFunc :=
  fun _ _ _ _ suppliedGas _ => do
    let remainingGas ← orFail (deductGas suppliedGas CurrentRewardAddressGasCost) 0
    let stateDB ← get
    let output := (getStoredRewardAddress stateDB).1
    pure (packWords [output.toNat], remainingGas)

def disableRewards (blackholeAddr : Address) : RunStatefulPrecompileFunc :=
  fun evm caller _ _ suppliedGas readOnly => do
    let remainingGas ← orFail (deductGas suppliedGas DisableRewardsGasCost) 0
    failIf readOnly .writeProtection remainingGas
    let stateDB ← get
    let callerStatus := getAllowListStatus stateDB ContractAddress caller
    failIf (!callerStatus.isEnabled) (.cannotDisableRewards caller) remainingGas
    let remainingGas ← emitEvent evm remainingGas RewardsDisabledEventGasCost ContractAddress
      (.rewardsDisabled caller)
    modify (disableFeeRewards blackholeAddr)
    pure ([], remainingGas)

def createRewardManagerPrecompile (blackholeAddr : Address) (allowListABI : AllowListABI)
    (abi : RewardManagerABI) : Except PrecompileError StatefulPrecompileWithFunctionSelectors :=
  newStatefulPrecompileContract none (createAllowListFunctions allowListABI ContractAddress ++
    [⟨abi.methodID .allowFeeRecipients, allowFeeRecipients, none⟩,
     ⟨abi.methodID .areFeeRecipientsAllowed, areFeeRecipientsAllowed, none⟩,
     ⟨abi.methodID .currentRewardAddress, currentRewardAddress, none⟩,
     ⟨abi.methodID .disableRewards, disableRewards blackholeAddr, none⟩,
     ⟨abi.methodID .setRewardAddress, setRewardAddress abi, none⟩])

/-! ## No reward manager function touches a role -/

theorem addressKey_ne_rewardAddressStorageKey (a : Address) :
    addressKey a ≠ rewardAddressStorageKey :=
  addressKey_ne_hashOfPrefix a _ _ (by decide) (by decide)

theorem sameRoles_setReward (p : Address) (value : Hash) (s : StateDB) :
    SameRoles p s (s.setState ContractAddress rewardAddressStorageKey value) :=
  sameRoles_setState p _ _ _ s fun _ a => addressKey_ne_rewardAddressStorageKey a

section Footprint

variable (p : Address) (evm : AccessibleState) (caller addr : Address) (input : List UInt8)
  (suppliedGas : UInt64) (readOnly : Bool)

theorem keeps_rewardWriter (cost eventCost : UInt64) (err : PrecompileError) (event : Event)
    (write : StateDB → StateDB) (hwrite : ∀ s, SameRoles p s (write s)) :
    Keeps (SameRoles p) (do
      let remainingGas ← orFail (deductGas suppliedGas cost) 0
      failIf readOnly .writeProtection remainingGas
      let stateDB ← get
      failIf (!(getAllowListStatus stateDB ContractAddress caller).isEnabled) err remainingGas
      let remainingGas ← emitEvent evm remainingGas eventCost ContractAddress event
      modify write
      pure (([] : List UInt8), remainingGas)) := by
  refine keeps_bind (SameRoles p) (keeps_orFail _ _ _) fun remainingGas => ?_
  refine keeps_bind (SameRoles p) (keeps_failIf _ _ _ _) fun _ => ?_
  refine keeps_bind (SameRoles p) (keeps_get _) fun s => ?_
  refine keeps_bind (SameRoles p) (keeps_failIf _ _ _ _) fun _ => ?_
  refine keeps_bind (SameRoles p) (keeps_emitEvent p _ _ _ _ _) fun remainingGas => ?_
  exact keeps_bind (SameRoles p) (keeps_modify _ _ hwrite) fun _ => keeps_pure _ _

theorem keeps_allowFeeRecipients :
    Keeps (SameRoles p) (allowFeeRecipients evm caller addr input suppliedGas readOnly) :=
  keeps_rewardWriter p evm caller suppliedGas readOnly _ _ _ _ _
    fun s => sameRoles_setReward p _ s

theorem keeps_disableRewards (blackholeAddr : Address) :
    Keeps (SameRoles p) (disableRewards blackholeAddr evm caller addr input suppliedGas readOnly) :=
  keeps_rewardWriter p evm caller suppliedGas readOnly _ _ _ _ _
    fun s => sameRoles_setReward p _ s

theorem keeps_setRewardAddress (abi : RewardManagerABI) :
    Keeps (SameRoles p) (setRewardAddress abi evm caller addr input suppliedGas readOnly) := by
  refine keeps_bind (SameRoles p) (keeps_orFail _ _ _) fun remainingGas => ?_
  refine keeps_bind (SameRoles p) (keeps_failIf _ _ _ _) fun _ => ?_
  refine keeps_bind (SameRoles p) (keeps_orFail _ _ _) fun rewardAddress => ?_
  refine keeps_bind (SameRoles p) (keeps_get _) fun s => ?_
  refine keeps_bind (SameRoles p) (keeps_failIf _ _ _ _) fun _ => ?_
  refine keeps_bind (SameRoles p) (keeps_failIf _ _ _ _) fun _ => ?_
  refine keeps_bind (SameRoles p) (keeps_emitEvent p _ _ _ _ _) fun remainingGas => ?_
  exact keeps_bind (SameRoles p) (keeps_modify _ _ fun s => sameRoles_setReward p _ s)
    fun _ => keeps_pure _ _

theorem keeps_areFeeRecipientsAllowed :
    Keeps (SameRoles p) (areFeeRecipientsAllowed evm caller addr input suppliedGas readOnly) := by
  refine keeps_bind (SameRoles p) (keeps_orFail _ _ _) fun remainingGas => ?_
  exact keeps_bind (SameRoles p) (keeps_get _) fun s => keeps_pure _ _

theorem keeps_currentRewardAddress :
    Keeps (SameRoles p) (currentRewardAddress evm caller addr input suppliedGas readOnly) := by
  refine keeps_bind (SameRoles p) (keeps_orFail _ _ _) fun remainingGas => ?_
  exact keeps_bind (SameRoles p) (keeps_get _) fun s => keeps_pure _ _

end Footprint

end LuxEvm.Precompile.RewardManager
