import LuxEvm.Precompile.Contract

/-!
# Allow lists

An allow-listed precompile keeps the role of every address in its own storage,
in the slot whose key is the address right-aligned in a word. Four storage
words name a role; an admin may set any role, a manager (after Durango) may
only move addresses between no role and enabled.
-/

set_option autoImplicit false

namespace LuxEvm.Precompile
open Lib.StateRel

/-- `allowlist.Role`: a storage word, of which four name a role. -/
structure Role where
  hash : Hash
  deriving DecidableEq, Repr

def NoRole : Role := ⟨bigToHash 0⟩
def EnabledRole : Role := ⟨bigToHash 1⟩
def AdminRole : Role := ⟨bigToHash 2⟩
def ManagerRole : Role := ⟨bigToHash 3⟩

namespace Role

def isNoRole (r : Role) : Bool := r == NoRole

def isAdmin (r : Role) : Bool := r == AdminRole

def isEnabled (r : Role) : Bool := r == AdminRole || r == EnabledRole || r == ManagerRole

def canModify (r fromRole target : Role) : Bool :=
  if r = AdminRole then true
  else if r = ManagerRole then
    (fromRole == EnabledRole || fromRole == NoRole) && (target == EnabledRole || target == NoRole)
  else false

end Role

inductive AllowListMethod where
  | readAllowList
  | setAdmin
  | setEnabled
  | setNone
  | setManager
  deriving DecidableEq, Repr

def Role.getSetterFunctionName (r : Role) : Except PrecompileError AllowListMethod :=
  if r = AdminRole then .ok .setAdmin
  else if r = ManagerRole then .ok .setManager
  else if r = EnabledRole then .ok .setEnabled
  else if r = NoRole then .ok .setNone
  else .error .invalidRole

/-- The parts of `AllowListABI` the precompile uses: the method selectors and
the decoding of the single `address` argument. -/
structure AllowListABI where
  methodID : AllowListMethod → List UInt8
  unpackAddress : AllowListMethod → List UInt8 → Bool → Except String Address

def ModifyAllowListGasCost : UInt64 := WriteGasCostPerSlot
def ReadAllowListGasCost : UInt64 := ReadGasCostPerSlot
def AllowListEventGasCost : UInt64 := LogGas+LogTopicGas*4+LogDataGas*32
def allowListInputLen : ℕ := HashLength

def getAllowListStatus (state : StateDB) (precompileAddr address : Address) : Role :=
  ⟨state.getState precompileAddr (addressKey address)⟩

def setAllowListRole (stateDB : StateDB) (precompileAddr address : Address) (role : Role) :
    StateDB :=
  stateDB.setState precompileAddr (addressKey address) role.hash

def unpackModifyAllowListInput (abi : AllowListABI) (input : List UInt8) (r : Role)
    (useStrictMode : Bool) : Except PrecompileError Address :=
  if useStrictMode && input.length != allowListInputLen then
    .error (.invalidModifyAllowListInputLength input.length)
  else do
    let funcName ← r.getSetterFunctionName
    (abi.unpackAddress funcName input useStrictMode).mapError .abi

def unpackReadAllowListInput (abi : AllowListABI) (input : List UInt8) (useStrictMode : Bool) :
    Except PrecompileError Address :=
  if useStrictMode && input.length != allowListInputLen then
    .error (.invalidReadAllowListInputLength input.length)
  else (abi.unpackAddress .readAllowList input useStrictMode).mapError .abi

def createAllowListRoleSetter (abi : AllowListABI) (precompileAddr : Address) (role : Role) :
    RunStatefulPrecompileFunc :=
  fun evm callerAddr _ input suppliedGas readOnly => do
    let remainingGas ← orFail (deductGas suppliedGas ModifyAllowListGasCost) 0
    -- strict decoding only before Durango
    let useStrictMode := !isDurangoActivated evm
    let modifyAddress ← orFail (unpackModifyAllowListInput abi input role useStrictMode)
      remainingGas
    failIf readOnly .writeProtection remainingGas
    let stateDB ← get
    let callerStatus := getAllowListStatus stateDB precompileAddr callerAddr
    let modifyStatus := getAllowListStatus stateDB precompileAddr modifyAddress
    -- the message labels the caller as the "modify address"
    failIf (!callerStatus.canModify modifyStatus role)
      (.cannotModifyAllowList callerAddr modifyStatus.hash role.hash) remainingGas
    let remainingGas ← emitEvent evm remainingGas AllowListEventGasCost precompileAddr
      (.roleSet role.hash modifyAddress callerAddr modifyStatus.hash)
    modify (setAllowListRole · precompileAddr modifyAddress role)
    pure ([], remainingGas)

def createReadAllowList (abi : AllowListABI) (precompileAddr : Address) :
    RunStatefulPrecompileFunc :=
  fun evm _ _ input suppliedGas _ => do
    let remainingGas ← orFail (deductGas suppliedGas ReadAllowListGasCost) 0
    let useStrictMode := !isDurangoActivated evm
    let readAddress ← orFail (unpackReadAllowListInput abi input useStrictMode) remainingGas
    let stateDB ← get
    let role := getAllowListStatus stateDB precompileAddr readAddress
    pure (packWords [role.hash.toNat], remainingGas)

/-- `CreateAllowListFunctions`; the Go code walks the ABI's method map, whose
order does not matter once the functions are keyed by selector. -/
def createAllowListFunctions (abi : AllowListABI) (precompileAddr : Address) :
    List StatefulPrecompileFunction :=
  [⟨abi.methodID .readAllowList, createReadAllowList abi precompileAddr, none⟩,
   ⟨abi.methodID .setAdmin, createAllowListRoleSetter abi precompileAddr AdminRole, none⟩,
   ⟨abi.methodID .setEnabled, createAllowListRoleSetter abi precompileAddr EnabledRole, none⟩,
   ⟨abi.methodID .setNone, createAllowListRoleSetter abi precompileAddr NoRole, none⟩,
   ⟨abi.methodID .setManager, createAllowListRoleSetter abi precompileAddr ManagerRole,
     some isDurangoActivated⟩]

def createAllowListPrecompile (abi : AllowListABI) (precompileAddr : Address) :
    Except PrecompileError StatefulPrecompileWithFunctionSelectors :=
  newStatefulPrecompileContract none (createAllowListFunctions abi precompileAddr)

structure AllowListConfig where
  adminAddresses : List Address
  managerAddresses : List Address
  enabledAddresses : List Address

/-- `Configure`: enabled addresses first, then admins, then managers, so a
later list wins for an address named twice. -/
def AllowListConfig.configure (c : AllowListConfig) (precompileAddr : Address)
    (state : StateDB) : StateDB :=
  let setAll (role : Role) (addrs : List Address) (st : StateDB) : StateDB :=
    addrs.foldl (fun st a => setAllowListRole st precompileAddr a role) st
  setAll ManagerRole c.managerAddresses
    (setAll AdminRole c.adminAddresses (setAll EnabledRole c.enabledAddresses state))

/-! ## Roles -/

theorem roles_ne : NoRole ≠ EnabledRole ∧ NoRole ≠ AdminRole ∧ NoRole ≠ ManagerRole ∧
    EnabledRole ≠ AdminRole ∧ EnabledRole ≠ ManagerRole ∧ AdminRole ≠ ManagerRole := by
  decide

theorem canModify_eq_true (r fromRole target : Role) :
    r.canModify fromRole target = true ↔ r = AdminRole ∨
      (r = ManagerRole ∧ (fromRole = EnabledRole ∨ fromRole = NoRole) ∧
        (target = EnabledRole ∨ target = NoRole)) := by
  by_cases ha : r = AdminRole
  · simp [Role.canModify, ha]
  · by_cases hm : r = ManagerRole
    · simp [Role.canModify, hm]
    · simp [Role.canModify, ha, hm]

@[simp] theorem getAllowListStatus_setAllowListRole (s : StateDB) (p q a b : Address)
    (role : Role) :
    getAllowListStatus (setAllowListRole s q b role) p a =
      if p = q ∧ a = b then role else getAllowListStatus s p a := by
  by_cases h : p = q ∧ a = b
  · obtain ⟨rfl, rfl⟩ := h
    simp [getAllowListStatus, setAllowListRole]
  · have h' : ¬(p = q ∧ addressKey a = addressKey b) := fun ⟨hp, hk⟩ =>
      h ⟨hp, addressKey_injective hk⟩
    simp [getAllowListStatus, setAllowListRole, h, h']

@[simp] theorem getAllowListStatus_addLog (s : StateDB) (log : Log) (p a : Address) :
    getAllowListStatus (s.addLog log) p a = getAllowListStatus s p a := rfl

/-! ## Which calls touch the role slots -/

/-- No role slot of the precompile at `p` differs between `s` and `s'`. -/
def SameRoles (p : Address) (s s' : StateDB) : Prop :=
  ∀ a, getAllowListStatus s' p a = getAllowListStatus s p a

instance (p : Address) : Std.Refl (SameRoles p) := ⟨fun _ _ => rfl⟩

instance (p : Address) : IsTrans StateDB (SameRoles p) :=
  ⟨fun _ _ _ h₁ h₂ a => (h₂ a).trans (h₁ a)⟩

theorem sameRoles_setState (p q : Address) (key value : Hash) (s : StateDB)
    (h : q = p → ∀ a, addressKey a ≠ key) : SameRoles p s (s.setState q key value) := by
  intro a
  show (⟨(s.setState q key value).getState p (addressKey a)⟩ : Role) = ⟨s.getState p (addressKey a)⟩
  rw [StateDB.getState_setState]
  by_cases hq : q = p
  · simp [h hq a]
  · simp [Ne.symm hq]

theorem sameRoles_of_storage_eq (p : Address) {s s' : StateDB} (h : s'.storage = s.storage) :
    SameRoles p s s' := by
  intro a
  simp only [getAllowListStatus, StateDB.getState, h]

theorem keeps_emitEvent (p : Address) (evm : AccessibleState) (remainingGas eventGasCost : UInt64)
    (address : Address) (event : Event) :
    Keeps (SameRoles p) (emitEvent evm remainingGas eventGasCost address event) := by
  intro s
  obtain ⟨logs, h⟩ := step_emitEvent evm remainingGas eventGasCost address event s
  rw [h]
  exact fun _ => rfl

/-- **The role setter.** A call of `setAdmin`, `setEnabled`, `setNone` or
`setManager` either leaves every role slot as it was, or succeeds on a call that
is not read-only, after checking that the caller's role may move the modified
address from its old role to `role`, and then changes that one slot only. -/
theorem step_createAllowListRoleSetter (abi : AllowListABI) (p : Address) (role : Role)
    (evm : AccessibleState) (caller addr : Address) (input : List UInt8) (suppliedGas : UInt64)
    (readOnly : Bool) (s : StateDB) :
    SameRoles p s
        (step (createAllowListRoleSetter abi p role evm caller addr input suppliedGas readOnly) s).2 ∨
    ∃ modifyAddress out, readOnly = false ∧
      (step (createAllowListRoleSetter abi p role evm caller addr input suppliedGas readOnly) s).1 =
        .ok out ∧
      (getAllowListStatus s p caller).canModify (getAllowListStatus s p modifyAddress) role ∧
      ∀ a, getAllowListStatus
          (step (createAllowListRoleSetter abi p role evm caller addr input suppliedGas readOnly) s).2
          p a = if a = modifyAddress then role else getAllowListStatus s p a := by
  -- follow the setter's checks in order: gas, decoding, read-only, permission, event gas
  cases hg : deductGas suppliedGas ModifyAllowListGasCost with
  | error err =>
    left
    simp only [createAllowListRoleSetter, step_bind, hg, step_orFail_error]
    exact fun _ => rfl
  | ok remainingGas =>
  cases hu : unpackModifyAllowListInput abi input role (!isDurangoActivated evm) with
  | error err =>
    left
    simp only [createAllowListRoleSetter, step_bind, hg, hu, step_orFail_error, step_orFail_ok]
    exact fun _ => rfl
  | ok m =>
  cases readOnly with
  | true =>
    left
    simp only [createAllowListRoleSetter, step_bind, hg, hu, step_orFail_ok, step_failIf_true]
    exact fun _ => rfl
  | false =>
  simp only [createAllowListRoleSetter, step_bind, hg, hu, step_orFail_ok, step_failIf_false,
    step_get]
  by_cases hc : (getAllowListStatus s p caller).canModify (getAllowListStatus s p m) role
  swap
  · left
    simp only [hc, Bool.not_false, step_failIf_true]
    exact fun _ => rfl
  simp only [hc, Bool.not_true, step_failIf_false]
  obtain ⟨logs, hlogs⟩ := step_emitEvent evm remainingGas AllowListEventGasCost p
    (.roleSet role.hash m caller (getAllowListStatus s p m).hash) s
  rcases he : step (emitEvent evm remainingGas AllowListEventGasCost p
    (.roleSet role.hash m caller (getAllowListStatus s p m).hash)) s with ⟨_ | g, s'⟩
  all_goals rw [he] at hlogs; subst hlogs
  · left
    exact fun _ => rfl
  · right
    refine ⟨m, ([], g), trivial, rfl, hc, fun a => ?_⟩
    simp only [step_modify, step_pure, getAllowListStatus_setAllowListRole, true_and]
    rfl

theorem keeps_createReadAllowList (abi : AllowListABI) (p : Address) (evm : AccessibleState)
    (caller addr : Address) (input : List UInt8) (suppliedGas : UInt64) (readOnly : Bool) :
    Keeps Eq (createReadAllowList abi p evm caller addr input suppliedGas readOnly) := by
  apply keeps_bind Eq (keeps_orFail Eq _ _)
  intro remainingGas
  apply keeps_bind Eq (keeps_orFail Eq _ _)
  intro readAddress
  apply keeps_get_bind Eq
  intro s
  rfl

end LuxEvm.Precompile

namespace LuxEvm.Precompile.DeployerAllowList

def ContractAddress : Address := 0x10201

def contractDeployerAllowListPrecompile (abi : AllowListABI) :
    Except PrecompileError StatefulPrecompileWithFunctionSelectors :=
  createAllowListPrecompile abi ContractAddress

end LuxEvm.Precompile.DeployerAllowList

namespace LuxEvm.Precompile.TxAllowList

def ContractAddress : Address := 0x10301

def txAllowListPrecompile (abi : AllowListABI) :
    Except PrecompileError StatefulPrecompileWithFunctionSelectors :=
  createAllowListPrecompile abi ContractAddress

end LuxEvm.Precompile.TxAllowList
