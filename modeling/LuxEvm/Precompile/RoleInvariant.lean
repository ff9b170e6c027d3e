import LuxEvm.Precompile.FeeManager
import LuxEvm.Precompile.NativeMinter
import LuxEvm.Precompile.RewardManager

/-!
# The allow-list role invariant

Every allow-list-governed precompile dispatches to the four role setters, to
`readAllowList` and to functions of its own that write no role slot. A call is
therefore a `RoleStep`: a role slot changes only to a role, only as the
caller's role permits, and never on a failed or read-only call. From the
state `Configure` leaves, every sequence of calls keeps every role slot a
role, and a caller that is not an admin never changes who is admin or manager.
-/

set_option autoImplicit false

namespace LuxEvm.Precompile
open Lib.StateRel

def IsRole (r : Role) : Prop := r = NoRole ∨ r = EnabledRole ∨ r = AdminRole ∨ r = ManagerRole

instance (r : Role) : Decidable (IsRole r) := inferInstanceAs (Decidable (_ ∨ _))

/-- Every role slot of the precompile at `p` holds a role. -/
def RolesValid (p : Address) (s : StateDB) : Prop := ∀ a, IsRole (getAllowListStatus s p a)

def IsPrivileged (r : Role) : Prop := r = AdminRole ∨ r = ManagerRole

/-- The moves `CanModify` allows a caller of role `callerRole`. -/
def Permitted (callerRole old new : Role) : Prop :=
  callerRole = AdminRole ∨
    (callerRole = ManagerRole ∧ (old = NoRole ∨ old = EnabledRole) ∧
      (new = NoRole ∨ new = EnabledRole))

/-- What one call may do to the role slots of the precompile at `p`. -/
structure RoleStep (p caller : Address) (readOnly : Bool) (s : StateDB)
    (result : Except (PrecompileError × UInt64) (List UInt8 × UInt64)) (s' : StateDB) : Prop where
  isRole : ∀ a, getAllowListStatus s' p a ≠ getAllowListStatus s p a →
    IsRole (getAllowListStatus s' p a)
  permitted : ∀ a, getAllowListStatus s' p a ≠ getAllowListStatus s p a →
    Permitted (getAllowListStatus s p caller) (getAllowListStatus s p a) (getAllowListStatus s' p a)
  frame_of_error : ∀ e, result = .error e → SameRoles p s s'
  frame_of_readOnly : readOnly = true → SameRoles p s s'

/-- Every call of `f` is a `RoleStep` for the precompile at `p`. -/
def RespectsRoles (p : Address) (f : RunStatefulPrecompileFunc) : Prop :=
  ∀ evm caller addr input suppliedGas readOnly s,
    RoleStep p caller readOnly s (step (f evm caller addr input suppliedGas readOnly) s).1
      (step (f evm caller addr input suppliedGas readOnly) s).2

section RoleStep

variable {p caller : Address} {readOnly : Bool} {s s' : StateDB}
  {result : Except (PrecompileError × UInt64) (List UInt8 × UInt64)}

theorem RoleStep.of_sameRoles (h : SameRoles p s s') : RoleStep p caller readOnly s result s' where
  isRole a hne := absurd (h a) hne
  permitted a hne := absurd (h a) hne
  frame_of_error _ _ := h
  frame_of_readOnly _ := h

theorem RoleStep.rolesValid (h : RoleStep p caller readOnly s result s') (hs : RolesValid p s) :
    RolesValid p s' := by
  intro a
  by_cases hne : getAllowListStatus s' p a = getAllowListStatus s p a
  · rw [hne]
    exact hs a
  · exact h.isRole a hne

theorem RoleStep.privileged_iff (h : RoleStep p caller readOnly s result s')
    (hcaller : getAllowListStatus s p caller ≠ AdminRole) (a : Address) :
    IsPrivileged (getAllowListStatus s' p a) ↔ IsPrivileged (getAllowListStatus s p a) := by
  by_cases hne : getAllowListStatus s' p a = getAllowListStatus s p a
  · rw [hne]
  rcases h.permitted a hne with hadmin | ⟨-, hold, hnew⟩
  · exact absurd hadmin hcaller
  obtain ⟨-, hNA, hNM, hEA, hEM, -⟩ := roles_ne
  have low : ∀ r : Role, (r = NoRole ∨ r = EnabledRole) → ¬IsPrivileged r := by
    rintro r (rfl | rfl) (h' | h')
    exacts [hNA h', hNM h', hEA h', hEM h']
  exact iff_of_false (low _ hnew) (low _ hold)

end RoleStep

theorem respectsRoles_of_keeps {p : Address} {f : RunStatefulPrecompileFunc}
    (h : ∀ evm caller addr input suppliedGas readOnly,
      Keeps (SameRoles p) (f evm caller addr input suppliedGas readOnly)) :
    RespectsRoles p f :=
  fun evm caller addr input suppliedGas readOnly s =>
    .of_sameRoles (h evm caller addr input suppliedGas readOnly s)

theorem permitted_of_canModify {callerRole old new : Role}
    (h : callerRole.canModify old new = true) : Permitted callerRole old new := by
  rcases (canModify_eq_true _ _ _).mp h with h | ⟨hm, ho, hn⟩
  · exact .inl h
  · exact .inr ⟨hm, ho.symm, hn.symm⟩

theorem respectsRoles_roleSetter (abi : AllowListABI) (p : Address) (role : Role)
    (hrole : IsRole role) : RespectsRoles p (createAllowListRoleSetter abi p role) := by
  intro evm caller addr input suppliedGas readOnly s
  rcases step_createAllowListRoleSetter abi p role evm caller addr input suppliedGas readOnly s
    with h | ⟨m, out, hro, hok, hc, hroles⟩
  · exact .of_sameRoles h
  have hchanged : ∀ a, getAllowListStatus (step (createAllowListRoleSetter abi p role evm caller
      addr input suppliedGas readOnly) s).2 p a ≠ getAllowListStatus s p a → a = m := by
    intro a hne
    by_contra ham
    rw [hroles a, if_neg ham] at hne
    exact hne rfl
  refine ⟨fun a hne => ?_, fun a hne => ?_, fun e he => ?_, fun h => ?_⟩
  · rw [hroles a, if_pos (hchanged a hne)]
    exact hrole
  · obtain rfl := hchanged a hne
    rw [hroles a, if_pos rfl]
    exact permitted_of_canModify hc
  · rw [hok] at he
    cases he
  · rw [hro] at h
    cases h

theorem respectsRoles_readAllowList (abi : AllowListABI) (p : Address) :
    RespectsRoles p (createReadAllowList abi p) :=
  respectsRoles_of_keeps fun evm caller addr input suppliedGas readOnly =>
    (keeps_createReadAllowList abi p evm caller addr input suppliedGas readOnly).mono
      fun _ _ h => h ▸ Std.Refl.refl _

theorem respectsRoles_allowListFunctions (abi : AllowListABI) (p : Address) :
    ∀ f ∈ createAllowListFunctions abi p, RespectsRoles p f.execute := by
  intro f hf
  simp only [createAllowListFunctions, List.mem_cons, List.not_mem_nil, or_false] at hf
  rcases hf with rfl | rfl | rfl | rfl | rfl
  · exact respectsRoles_readAllowList abi p
  all_goals exact respectsRoles_roleSetter abi p _ (by unfold IsRole; decide)

/-- **Dispatch keeps the step.** A precompile with no fallback whose functions
all respect the roles respects them. -/
theorem respectsRoles_run (p : Address) (c : StatefulPrecompileWithFunctionSelectors)
    (hfb : c.fallback = none) (h : ∀ f ∈ c.functions, RespectsRoles p f.execute) :
    RespectsRoles p c.run := by
  intro evm caller addr input suppliedGas readOnly s
  rcases c.step_run evm caller addr input suppliedGas readOnly s with
    ⟨e, he⟩ | ⟨f, hf, he⟩ | ⟨fallback, hfb', -⟩
  · rw [he]
    exact .of_sameRoles (Std.Refl.refl s)
  · rw [he]
    exact h f hf evm caller addr _ suppliedGas readOnly s
  · rw [hfb] at hfb'
    cases hfb'

/-! ## The five precompiles -/

inductive AllowListPrecompile where
  | deployerAllowList
  | txAllowList
  | feeManager
  | nativeMinter
  | rewardManager
  deriving DecidableEq, Repr

/-- What the precompiles take from outside the model: their ABIs and the
blackhole address. -/
structure PrecompileParams where
  allowList : AllowListABI
  feeManager : FeeManager.FeeManagerABI
  nativeMinter : NativeMinter.NativeMinterABI
  rewardManager : RewardManager.RewardManagerABI
  blackholeAddr : Address

def AllowListPrecompile.contractAddress : AllowListPrecompile → Address
  | .deployerAllowList => DeployerAllowList.ContractAddress
  | .txAllowList => TxAllowList.ContractAddress
  | .feeManager => FeeManager.ContractAddress
  | .nativeMinter => NativeMinter.ContractAddress
  | .rewardManager => RewardManager.ContractAddress

def AllowListPrecompile.create (params : PrecompileParams) :
    AllowListPrecompile → Except PrecompileError StatefulPrecompileWithFunctionSelectors
  | .deployerAllowList => DeployerAllowList.contractDeployerAllowListPrecompile params.allowList
  | .txAllowList => TxAllowList.txAllowListPrecompile params.allowList
  | .feeManager => FeeManager.createFeeManagerPrecompile params.allowList params.feeManager
  | .nativeMinter => NativeMinter.createNativeMinterPrecompile params.allowList params.nativeMinter
  | .rewardManager => RewardManager.createRewardManagerPrecompile params.blackholeAddr
      params.allowList params.rewardManager

theorem respectsRoles_of_new {p : Address} {functions : List StatefulPrecompileFunction}
    {c : StatefulPrecompileWithFunctionSelectors}
    (hc : newStatefulPrecompileContract none functions = .ok c)
    (h : ∀ f ∈ functions, RespectsRoles p f.execute) : RespectsRoles p c.run := by
  obtain ⟨hfb, hfns⟩ := newStatefulPrecompileContract_ok hc
  exact respectsRoles_run p c hfb (hfns ▸ h)

theorem respectsRoles_create (params : PrecompileParams) (pc : AllowListPrecompile)
    {c : StatefulPrecompileWithFunctionSelectors} (hc : pc.create params = .ok c) :
    RespectsRoles pc.contractAddress c.run := by
  have hallow := respectsRoles_allowListFunctions params.allowList
  cases pc with
  | deployerAllowList => exact respectsRoles_of_new hc (hallow _)
  | txAllowList => exact respectsRoles_of_new hc (hallow _)
  | feeManager =>
    refine respectsRoles_of_new hc fun f hf => ?_
    simp only [List.mem_append, List.mem_cons, List.not_mem_nil, or_false] at hf
    rcases hf with hf | rfl | rfl | rfl
    · exact hallow _ f hf
    · exact respectsRoles_of_keeps (FeeManager.keeps_getFeeConfig _)
    · exact respectsRoles_of_keeps (FeeManager.keeps_getFeeConfigLastChangedAtFn _)
    · exact respectsRoles_of_keeps fun evm caller addr input suppliedGas readOnly =>
        FeeManager.keeps_setFeeConfig _ evm caller addr input suppliedGas readOnly _
  | nativeMinter =>
    refine respectsRoles_of_new hc fun f hf => ?_
    simp only [List.mem_append, List.mem_cons, List.not_mem_nil, or_false] at hf
    rcases hf with hf | rfl
    · exact hallow _ f hf
    · exact respectsRoles_of_keeps (NativeMinter.keeps_mintNativeCoin _ _)
  | rewardManager =>
    refine respectsRoles_of_new hc fun f hf => ?_
    simp only [List.mem_append, List.mem_cons, List.not_mem_nil, or_false] at hf
    rcases hf with hf | rfl | rfl | rfl | rfl | rfl
    · exact hallow _ f hf
    · exact respectsRoles_of_keeps (RewardManager.keeps_allowFeeRecipients _)
    · exact respectsRoles_of_keeps (RewardManager.keeps_areFeeRecipientsAllowed _)
    · exact respectsRoles_of_keeps (RewardManager.keeps_currentRewardAddress _)
    · exact respectsRoles_of_keeps fun evm caller addr input suppliedGas readOnly =>
        RewardManager.keeps_disableRewards _ evm caller addr input suppliedGas readOnly _
    · exact respectsRoles_of_keeps fun evm caller addr input suppliedGas readOnly =>
        RewardManager.keeps_setRewardAddress _ evm caller addr input suppliedGas readOnly _

/-! ## Runs of calls -/

/-- One `Run` of a precompile: its environment, caller, input, gas and flag. -/
structure Call where
  evm : AccessibleState
  caller : Address
  input : List UInt8
  suppliedGas : UInt64
  readOnly : Bool

def Call.run (c : StatefulPrecompileWithFunctionSelectors) (addr : Address) (call : Call) :
    Exec (List UInt8 × UInt64) :=
  c.run call.evm call.caller addr call.input call.suppliedGas call.readOnly

def runCalls (c : StatefulPrecompileWithFunctionSelectors) (addr : Address) :
    List Call → StateDB → StateDB
  | [], s => s
  | call :: calls, s => runCalls c addr calls (step (call.run c addr) s).2

theorem rolesValid_runCalls {p : Address} {c : StatefulPrecompileWithFunctionSelectors}
    (hc : RespectsRoles p c.run) (calls : List Call) {s : StateDB} (hs : RolesValid p s) :
    RolesValid p (runCalls c p calls s) := by
  induction calls generalizing s with
  | nil => exact hs
  | cons call calls ih =>
    exact ih ((hc call.evm call.caller p call.input call.suppliedGas call.readOnly s).rolesValid hs)

theorem rolesValid_configure (cfg : AllowListConfig) (p : Address) {s : StateDB}
    (hs : RolesValid p s) : RolesValid p (cfg.configure p s) := by
  have hloop : ∀ (role : Role), IsRole role → ∀ (addrs : List Address) (st : StateDB),
      RolesValid p st → RolesValid p (addrs.foldl (fun st a => setAllowListRole st p a role) st) := by
    intro role hrole addrs
    induction addrs with
    | nil => exact fun _ h => h
    | cons b addrs ih =>
      intro st hst
      refine ih _ fun a => ?_
      rw [getAllowListStatus_setAllowListRole]
      by_cases hab : a = b
      · simp only [hab, and_self, if_true]
        exact hrole
      · simp only [hab, and_false, if_false]
        exact hst a
  exact hloop _ (by unfold IsRole; decide) _ _ (hloop _ (by unfold IsRole; decide) _ _
    (hloop _ (by unfold IsRole; decide) _ _ hs))

/-- What the allow-list invariant says at state `s` about the next call:
(a) every role slot holds a role before and after it, (b) and (d) it is a
`RoleStep`, and (c) if the caller is not an admin, it changes nobody's
standing as admin or manager. -/
structure RoleInvariantAt (p : Address) (c : StatefulPrecompileWithFunctionSelectors)
    (s : StateDB) (call : Call) : Prop where
  valid : RolesValid p s
  valid_after : RolesValid p (step (call.run c p) s).2
  roleStep : RoleStep p call.caller call.readOnly s (step (call.run c p) s).1
    (step (call.run c p) s).2
  privileged : getAllowListStatus s p call.caller ≠ AdminRole → ∀ a,
    (IsPrivileged (getAllowListStatus (step (call.run c p) s).2 p a) ↔
      IsPrivileged (getAllowListStatus s p a))

/-- **The allow-list role invariant.** For each of the five allow-list
precompiles and every choice of its ABI decoders, from the state `Configure`
leaves on storage whose role slots hold roles (such as empty storage), after
any sequence of calls the invariant holds for the next call, whatever its
caller, input, gas and read-only flag. -/
theorem allowList_role_invariant (params : PrecompileParams) (pc : AllowListPrecompile)
    (c : StatefulPrecompileWithFunctionSelectors) (hc : pc.create params = .ok c)
    (cfg : AllowListConfig) (s₀ : StateDB) (h₀ : RolesValid pc.contractAddress s₀)
    (calls : List Call) (call : Call) :
    RoleInvariantAt pc.contractAddress c
      (runCalls c pc.contractAddress calls (cfg.configure pc.contractAddress s₀)) call := by
  have hrun := respectsRoles_create params pc hc
  have hs := rolesValid_runCalls hrun calls (rolesValid_configure cfg pc.contractAddress h₀)
  have hstep := hrun call.evm call.caller pc.contractAddress call.input call.suppliedGas
    call.readOnly (runCalls c pc.contractAddress calls (cfg.configure pc.contractAddress s₀))
  exact ⟨hs, hstep.rolesValid hs, hstep, hstep.privileged_iff⟩

def emptyStateDB : StateDB := ⟨fun _ _ => 0, fun _ => 0, fun _ => false, []⟩

/-- Selectors `0x00000000` to `0x00000004` per ABI and decoders that reject
every input. -/
def rejectingParams : PrecompileParams where
  allowList := ⟨fun m => [0, 0, 0, match m with
    | .readAllowList => 0 | .setAdmin => 1 | .setEnabled => 2 | .setNone => 3 | .setManager => 4],
    fun _ _ _ => .error "abi"⟩
  feeManager := ⟨fun _ => [1, 0, 0, 0], fun _ _ => .error "abi"⟩
  nativeMinter := ⟨fun _ => [2, 0, 0, 0], fun _ _ => .error "abi"⟩
  rewardManager := ⟨fun _ => [3, 0, 0, 0], fun _ _ => .error "abi"⟩
  blackholeAddr := 0

theorem allowList_role_invariant_from_empty_storage :
    ∃ c, AllowListPrecompile.deployerAllowList.create rejectingParams = .ok c ∧
      RolesValid DeployerAllowList.ContractAddress emptyStateDB ∧
      RoleInvariantAt DeployerAllowList.ContractAddress c
        (runCalls c DeployerAllowList.ContractAddress []
          ((⟨[1], [], [2]⟩ : AllowListConfig).configure DeployerAllowList.ContractAddress
            emptyStateDB))
        ⟨⟨none, 0, 0⟩, 1, [0, 0, 0, 2], 50000, false⟩ := by
  have h₀ : RolesValid DeployerAllowList.ContractAddress emptyStateDB :=
    fun _ => .inl rfl
  exact ⟨_, rfl, h₀, allowList_role_invariant rejectingParams .deployerAllowList _ rfl
    ⟨[1], [], [2]⟩ emptyStateDB h₀ [] _⟩

end LuxEvm.Precompile
