import LuxEvm.Common
import LuxEvm.CommonType
import LuxEvm.Lib.StateRel

/-!
# Stateful precompiles

A stateful precompile reads its 4-byte function selector, looks the function
up among those registered at construction, checks that the function is
activated, and runs it on the rest of the input. A function returns output and
remaining gas, or an error with the gas it leaves; in both cases the state it
wrote stays behind, so its writes are modelled in `ExceptT` over `StateM`.

Only what the precompiles touch is kept of the state database: storage words,
balances, account existence and the log list. ABI decoding (`accounts/abi`)
is left abstract: decoders are parameters of the precompiles that use them,
and every result below holds for every decoder.
-/

set_option autoImplicit false

namespace LuxEvm.Precompile
open Lib.StateRel CommonType

/-- The events the precompiles emit, with their arguments; the ABI layout of
topics and data is not modelled. -/
inductive Event where
  | roleSet (role : Hash) (account caller : Address) (oldRole : Hash)
  | feeConfigChanged (sender : Address) (oldFeeConfig newFeeConfig : FeeConfig)
  | nativeCoinMinted (sender recipient : Address) (amount : ℤ)
  | feeRecipientsAllowed (sender : Address)
  | rewardAddressChanged (sender oldRewardAddress newRewardAddress : Address)
  | rewardsDisabled (sender : Address)
  deriving DecidableEq, Repr

structure Log where
  address : Address
  event : Event
  blockNumber : UInt64
  deriving DecidableEq, Repr

structure StateDB where
  storage : Address → Hash → Hash
  balance : Address → ℕ
  accountExists : Address → Bool
  logs : List Log

namespace StateDB

def getState (s : StateDB) (addr : Address) (key : Hash) : Hash := s.storage addr key

def setState (s : StateDB) (addr : Address) (key value : Hash) : StateDB :=
  { s with storage := Function.update s.storage addr (Function.update (s.storage addr) key value) }

def addLog (s : StateDB) (log : Log) : StateDB := { s with logs := s.logs ++ [log] }

def exist (s : StateDB) (a : Address) : Bool := s.accountExists a

def createAccount (s : StateDB) (a : Address) : StateDB :=
  { s with accountExists := Function.update s.accountExists a true,
           balance := Function.update s.balance a 0 }

/-- `AddBalance` with a `uint256` amount: the balance wraps at `2^256`. -/
def addBalance (s : StateDB) (a : Address) (amount : ℕ) : StateDB :=
  { s with balance := Function.update s.balance a ((s.balance a+amount) % 2^256) }

@[simp] theorem getState_setState (s : StateDB) (addr addr' : Address) (key key' value : Hash) :
    (s.setState addr key value).getState addr' key' =
      if addr' = addr ∧ key' = key then value else s.getState addr' key' := by
  by_cases ha : addr' = addr
  · subst ha
    by_cases hk : key' = key
    · simp [getState, setState, hk]
    · simp [getState, setState, hk]
  · simp [getState, setState, ha]

@[simp] theorem storage_addLog (s : StateDB) (log : Log) : (s.addLog log).storage = s.storage :=
  rfl

@[simp] theorem storage_createAccount (s : StateDB) (a : Address) :
    (s.createAccount a).storage = s.storage := rfl

@[simp] theorem storage_addBalance (s : StateDB) (a : Address) (amount : ℕ) :
    (s.addBalance a amount).storage = s.storage := rfl

@[simp] theorem getState_storage (s : StateDB) (addr : Address) (key : Hash) :
    s.storage addr key = s.getState addr key := rfl

end StateDB

/-- `contract.AccessibleState`, reduced to the chain config's Durango time and
the block context. -/
structure AccessibleState where
  durangoTimestamp : Option UInt64
  timestamp : UInt64
  blockNumber : ℕ

def isDurangoActivated (evm : AccessibleState) : Bool :=
  isTimestampForked evm.durangoTimestamp evm.timestamp

inductive PrecompileError where
  | outOfGas
  | writeProtection
  | duplicatedFunctionSelector (selector : List UInt8)
  | missingFunctionSelector (inputLen : ℕ)
  | invalidFunctionSelector (selector : List UInt8)
  | nonActivatedFunctionSelector (selector : List UInt8)
  | abi (reason : String)
  | invalidRole
  | invalidModifyAllowListInputLength (inputLen : ℕ)
  | invalidReadAllowListInputLength (inputLen : ℕ)
  | cannotModifyAllowList (modifyAddress : Address) (fromRole toRole : Hash)
  | invalidFeeConfigInputLength (inputLen : ℕ)
  | cannotChangeFee (caller : Address)
  | cannotVerifyFeeConfig (e : FeeConfigError)
  | invalidMintInputLength (inputLen : ℕ)
  | cannotMint (caller : Address)
  | cannotAllowFeeRecipients (caller : Address)
  | cannotSetRewardAddress (caller : Address)
  | cannotDisableRewards (caller : Address)
  | emptyRewardAddress
  deriving DecidableEq, Repr

/-- A precompile computation: on failure the error carries the gas left. -/
abbrev Exec (α : Type) := Prog StateDB (PrecompileError × UInt64) α

abbrev RunStatefulPrecompileFunc :=
  AccessibleState → Address → Address → List UInt8 → UInt64 → Bool → Exec (List UInt8 × UInt64)

def WriteGasCostPerSlot : UInt64 := 20000
def ReadGasCostPerSlot : UInt64 := 5000
def LogGas : UInt64 := 375
def LogTopicGas : UInt64 := 375
def LogDataGas : UInt64 := 8

def deductGas (suppliedGas requiredGas : UInt64) : Except PrecompileError UInt64 :=
  if suppliedGas < requiredGas then .error .outOfGas else .ok (suppliedGas-requiredGas)

theorem toNat_of_deductGas_ok {suppliedGas requiredGas remainingGas : UInt64}
    (h : deductGas suppliedGas requiredGas = .ok remainingGas) :
    remainingGas.toNat+requiredGas.toNat = suppliedGas.toNat := by
  unfold deductGas at h
  split_ifs at h with hlt
  cases h
  have hle : requiredGas.toNat ≤ suppliedGas.toNat := UInt64.le_iff_toNat_le.mp (UInt64.not_lt.mp hlt)
  rw [UInt64.toNat_sub_of_le _ _ (UInt64.not_lt.mp hlt)]
  omega

/-- `if err != nil { return nil, remainingGas, err }`. -/
def orFail {α : Type} (x : Except PrecompileError α) (remainingGas : UInt64) : Exec α :=
  match x with
  | .error err => throw (err, remainingGas)
  | .ok a => pure a

/-- `if cond { return nil, remainingGas, err }`. -/
def failIf (cond : Bool) (err : PrecompileError) (remainingGas : UInt64) : Exec Unit :=
  if cond then throw (err, remainingGas) else pure ()

/-- The event block every state-changing function runs after Durango: charge
the event's gas, then log it at the current block. -/
def emitEvent (evm : AccessibleState) (remainingGas eventGasCost : UInt64) (address : Address)
    (event : Event) : Exec UInt64 :=
  if isDurangoActivated evm then do
    let remainingGas ← orFail (deductGas remainingGas eventGasCost) 0
    modify (·.addLog ⟨address, event, UInt64.ofNat evm.blockNumber⟩)
    pure remainingGas
  else pure remainingGas

@[simp] theorem step_orFail_ok {α : Type} (a : α) (remainingGas : UInt64) (s : StateDB) :
    step (orFail (.ok a) remainingGas) s = (.ok a, s) := rfl

@[simp] theorem step_orFail_error {α : Type} (err : PrecompileError) (remainingGas : UInt64)
    (s : StateDB) : step (orFail (.error err : Except PrecompileError α) remainingGas) s =
      (.error (err, remainingGas), s) := rfl

theorem step_orFail_eq_ok {α : Type} {x : Except PrecompileError α} {remainingGas : UInt64}
    {s s' : StateDB} {a : α} : step (orFail x remainingGas) s = (.ok a, s') ↔ x = .ok a ∧ s' = s := by
  cases x <;> simp [orFail, eq_comm]

theorem keeps_orFail {α : Type} (R : StateDB → StateDB → Prop) [Std.Refl R]
    (x : Except PrecompileError α) (remainingGas : UInt64) : Keeps R (orFail x remainingGas) := by
  cases x with
  | error err => exact keeps_throw R _
  | ok a => exact keeps_pure R a

@[simp] theorem step_failIf_false (err : PrecompileError) (remainingGas : UInt64) (s : StateDB) :
    step (failIf false err remainingGas) s = (.ok (), s) := rfl

@[simp] theorem step_failIf_true (err : PrecompileError) (remainingGas : UInt64) (s : StateDB) :
    step (failIf true err remainingGas) s = (.error (err, remainingGas), s) := rfl

theorem step_failIf_eq_ok {cond : Bool} {err : PrecompileError} {remainingGas : UInt64}
    {s s' : StateDB} {u : Unit} : step (failIf cond err remainingGas) s = (.ok u, s') ↔
      cond = false ∧ s' = s := by
  cases cond <;> simp [failIf, eq_comm]

theorem keeps_failIf (R : StateDB → StateDB → Prop) [Std.Refl R] (cond : Bool)
    (err : PrecompileError) (remainingGas : UInt64) : Keeps R (failIf cond err remainingGas) := by
  cases cond with
  | false => exact keeps_pure R ()
  | true => exact keeps_throw R _

theorem step_emitEvent (evm : AccessibleState) (remainingGas eventGasCost : UInt64)
    (address : Address) (event : Event) (s : StateDB) :
    ∃ logs, (step (emitEvent evm remainingGas eventGasCost address event) s).2 =
      { s with logs := logs } := by
  unfold emitEvent
  cases isDurangoActivated evm with
  | false => exact ⟨s.logs, rfl⟩
  | true =>
    cases deductGas remainingGas eventGasCost with
    | error err => exact ⟨s.logs, by simp [step_bind]⟩
    | ok g => exact ⟨(s.addLog _).logs, by simp [step_bind]; rfl⟩

/-- The ABI encoding of static outputs: one 32-byte word per value. -/
def packWords (values : List ℕ) : List UInt8 := values.flatMap (Lib.ByteString.encode 32)

structure StatefulPrecompileFunction where
  selector : List UInt8
  execute : RunStatefulPrecompileFunc
  activation : Option (AccessibleState → Bool)

def StatefulPrecompileFunction.isActivated (f : StatefulPrecompileFunction)
    (evm : AccessibleState) : Bool :=
  match f.activation with
  | none => true
  | some activation => activation evm

def SelectorLen : ℕ := 4

/-- `statefulPrecompileWithFunctionSelectors`: the function map keyed by
selector, so no two functions share one. -/
structure StatefulPrecompileWithFunctionSelectors where
  fallback : Option RunStatefulPrecompileFunc
  functions : List StatefulPrecompileFunction
  selectors_nodup : (functions.map StatefulPrecompileFunction.selector).Nodup

/-- The first selector already seen, scanning in order as the constructor
fills its map. -/
def findDuplicate : List (List UInt8) → List (List UInt8) → Option (List UInt8)
  | _, [] => none
  | seen, sel :: sels => if sel ∈ seen then some sel else findDuplicate (sel :: seen) sels

theorem nodup_of_findDuplicate_eq_none (seen sels : List (List UInt8))
    (h : findDuplicate seen sels = none) : sels.Nodup ∧ ∀ sel ∈ sels, sel ∉ seen := by
  induction sels generalizing seen with
  | nil => simp
  | cons sel sels ih =>
    by_cases hs : sel ∈ seen
    · simp [findDuplicate, hs] at h
    · rw [findDuplicate, if_neg hs] at h
      obtain ⟨hnd, hfresh⟩ := ih (sel :: seen) h
      refine ⟨List.nodup_cons.mpr ⟨fun hm => hfresh sel hm (by simp), hnd⟩, ?_⟩
      intro x hx
      rcases List.mem_cons.mp hx with rfl | hx
      · exact hs
      · exact fun hm => hfresh x hx (List.mem_cons_of_mem _ hm)

def newStatefulPrecompileContract (fallback : Option RunStatefulPrecompileFunc)
    (functions : List StatefulPrecompileFunction) :
    Except PrecompileError StatefulPrecompileWithFunctionSelectors :=
  match h : findDuplicate [] (functions.map StatefulPrecompileFunction.selector) with
  | some sel => .error (.duplicatedFunctionSelector sel)
  | none => .ok ⟨fallback, functions, (nodup_of_findDuplicate_eq_none _ _ h).1⟩

theorem newStatefulPrecompileContract_ok {fallback : Option RunStatefulPrecompileFunc}
    {functions : List StatefulPrecompileFunction} {c : StatefulPrecompileWithFunctionSelectors}
    (h : newStatefulPrecompileContract fallback functions = .ok c) :
    c.fallback = fallback ∧ c.functions = functions := by
  unfold newStatefulPrecompileContract at h
  split at h
  · cases h
  · cases h
    exact ⟨rfl, rfl⟩

namespace StatefulPrecompileWithFunctionSelectors

/-- The selector path of `Run`: an input shorter than a selector, an unknown
selector and a function not yet activated are errors. -/
def dispatch (c : StatefulPrecompileWithFunctionSelectors) : RunStatefulPrecompileFunc :=
  fun evm caller addr input suppliedGas readOnly =>
    if input.length < SelectorLen then
      throw (.missingFunctionSelector input.length, suppliedGas)
    else
      let selector := input.take SelectorLen
      match c.functions.find? (·.selector == selector) with
      | none => throw (.invalidFunctionSelector selector, suppliedGas)
      | some function =>
        if !function.isActivated evm then
          throw (.nonActivatedFunctionSelector selector, suppliedGas)
        else function.execute evm caller addr (input.drop SelectorLen) suppliedGas readOnly

def run (c : StatefulPrecompileWithFunctionSelectors) : RunStatefulPrecompileFunc :=
  fun evm caller addr input suppliedGas readOnly =>
    match c.fallback, input with
    | some fallback, [] => fallback evm caller addr [] suppliedGas readOnly
    | _, _ => c.dispatch evm caller addr input suppliedGas readOnly

section Dispatch

variable (c : StatefulPrecompileWithFunctionSelectors) (evm : AccessibleState)
  (caller addr : Address) (input : List UInt8) (suppliedGas : UInt64) (readOnly : Bool)
  (s : StateDB)

theorem step_dispatch :
    (∃ e, step (c.dispatch evm caller addr input suppliedGas readOnly) s = (.error e, s)) ∨
    (∃ f ∈ c.functions, step (c.dispatch evm caller addr input suppliedGas readOnly) s =
      step (f.execute evm caller addr (input.drop SelectorLen) suppliedGas readOnly) s) := by
  by_cases hlen : input.length < SelectorLen
  · exact .inl ⟨_, by simp only [dispatch, if_pos hlen]; rfl⟩
  cases hf : c.functions.find? (·.selector == input.take SelectorLen) with
  | none => exact .inl ⟨_, by simp only [dispatch, if_neg hlen, hf]; rfl⟩
  | some f =>
    by_cases hact : f.isActivated evm
    · refine .inr ⟨f, List.mem_of_find?_eq_some hf, ?_⟩
      simp only [dispatch, if_neg hlen, hf, hact, Bool.not_true, Bool.false_eq_true, if_false]
    · refine .inl ⟨(.nonActivatedFunctionSelector (input.take SelectorLen), suppliedGas), ?_⟩
      simp only [dispatch, if_neg hlen, hf, hact, Bool.not_false, if_true]
      rfl

/-- **Dispatch.** A call either fails before touching the state, or is exactly
one registered function run on the input after the selector, or the fallback
run on no input. -/
theorem step_run :
    (∃ e, step (c.run evm caller addr input suppliedGas readOnly) s = (.error e, s)) ∨
    (∃ f ∈ c.functions, step (c.run evm caller addr input suppliedGas readOnly) s =
      step (f.execute evm caller addr (input.drop SelectorLen) suppliedGas readOnly) s) ∨
    (∃ fallback, c.fallback = some fallback ∧
      step (c.run evm caller addr input suppliedGas readOnly) s =
        step (fallback evm caller addr [] suppliedGas readOnly) s) := by
  cases hfb : c.fallback with
  | none =>
    have hrun : c.run evm caller addr input suppliedGas readOnly =
        c.dispatch evm caller addr input suppliedGas readOnly := by
      simp only [run, hfb]
    rw [hrun]
    exact (step_dispatch c evm caller addr input suppliedGas readOnly s).imp id .inl
  | some fallback =>
    cases input with
    | nil => exact .inr (.inr ⟨fallback, rfl, by simp only [run, hfb]⟩)
    | cons b bs =>
      have hrun : c.run evm caller addr (b :: bs) suppliedGas readOnly =
          c.dispatch evm caller addr (b :: bs) suppliedGas readOnly := by
        simp only [run, hfb]
      rw [hrun]
      exact (step_dispatch c evm caller addr (b :: bs) suppliedGas readOnly s).imp id .inl

end Dispatch

end StatefulPrecompileWithFunctionSelectors

end LuxEvm.Precompile
