import LuxEvm.Precompile.AllowList

/-!
# The fee manager

The fee manager keeps the fee configuration in eight storage words under the
keys `Hash{1}` … `Hash{8}` and the block of its last change under
`Hash{'l','c','a'}`; enabled addresses may replace the configuration. None of
these keys is an address key, so storing a configuration leaves every role in
place.
-/

set_option autoImplicit false

namespace LuxEvm.Precompile.FeeManager
open Lib.StateRel CommonType

def ContractAddress : Address := 0x13F01

def minFeeConfigFieldKey : ℕ := 1
def gasLimitKey : ℕ := 1
def targetBlockRateKey : ℕ := 2
def minBaseFeeKey : ℕ := 3
def targetGasKey : ℕ := 4
def baseFeeChangeDenominatorKey : ℕ := 5
def minBlockGasCostKey : ℕ := 6
def maxBlockGasCostKey : ℕ := 7
def blockGasCostStepKey : ℕ := 8
def numFeeConfigField : ℕ := 8

def feeConfigInputLen : ℕ := HashLength*numFeeConfigField

def SetFeeConfigGasCost : UInt64 := WriteGasCostPerSlot*(8+1)
def GetFeeConfigGasCost : UInt64 := ReadGasCostPerSlot*8
def GetLastChangedAtGasCost : UInt64 := ReadGasCostPerSlot
def FeeConfigChangedEventGasCost : UInt64 :=
  GetFeeConfigGasCost+LogGas+LogTopicGas*2+2*(32*8)*LogDataGas

/-- `common.Hash{byte(i)}`, the key of fee config field `i`. -/
def feeConfigKey (i : ℕ) : Hash := hashOfPrefix [UInt8.ofNat i]

def feeConfigLastChangedAtKey : Hash := hashOfPrefix (['l', 'c', 'a'].map Char.toUInt8)

inductive FeeManagerMethod where
  | getFeeConfig
  | getFeeConfigLastChangedAt
  | setFeeConfig
  deriving DecidableEq, Repr

/-- `FeeConfigABIStruct`: the eight `uint256` arguments of `setFeeConfig`. -/
structure FeeConfigABIStruct where
  gasLimit : ℤ
  targetBlockRate : ℤ
  minBaseFee : ℤ
  targetGas : ℤ
  baseFeeChangeDenominator : ℤ
  minBlockGasCost : ℤ
  maxBlockGasCost : ℤ
  blockGasCostStep : ℤ

structure FeeManagerABI where
  methodID : FeeManagerMethod → List UInt8
  unpackSetFeeConfig : List UInt8 → Bool → Except String FeeConfigABIStruct

def getFeeManagerStatus (stateDB : StateDB) (address : Address) : Role :=
  getAllowListStatus stateDB ContractAddress address

def getStoredFeeConfig (stateDB : StateDB) : FeeConfig :=
  let val (i : ℕ) : ℕ := (stateDB.getState ContractAddress (feeConfigKey i)).toNat
  { gasLimit := some (val gasLimitKey)
    -- `val.Big().Uint64()` keeps the low 64 bits
    targetBlockRate := UInt64.ofNat (val targetBlockRateKey)
    minBaseFee := some (val minBaseFeeKey)
    targetGas := some (val targetGasKey)
    baseFeeChangeDenominator := some (val baseFeeChangeDenominatorKey)
    minBlockGasCost := some (val minBlockGasCostKey)
    maxBlockGasCost := some (val maxBlockGasCostKey)
    blockGasCostStep := some (val blockGasCostStepKey) }

def getFeeConfigLastChangedAt (stateDB : StateDB) : ℕ :=
  (stateDB.getState ContractAddress feeConfigLastChangedAtKey).toNat

/-- The word `StoreFeeConfig` writes for field `i`; `Verify` has ruled out a
missing field before it is read. -/
def feeConfigInput (feeConfig : FeeConfig) (i : ℕ) : Hash :=
  if i = gasLimitKey then bigToHash (feeConfig.gasLimit.getD 0)
  else if i = targetBlockRateKey then bigToHash feeConfig.targetBlockRate.toNat
  else if i = minBaseFeeKey then bigToHash (feeConfig.minBaseFee.getD 0)
  else if i = targetGasKey then bigToHash (feeConfig.targetGas.getD 0)
  else if i = baseFeeChangeDenominatorKey then bigToHash (feeConfig.baseFeeChangeDenominator.getD 0)
  else if i = minBlockGasCostKey then bigToHash (feeConfig.minBlockGasCost.getD 0)
  else if i = maxBlockGasCostKey then bigToHash (feeConfig.maxBlockGasCost.getD 0)
  else bigToHash (feeConfig.blockGasCostStep.getD 0)

def storeFeeConfig (stateDB : StateDB) (feeConfig : FeeConfig) (blockNumber : ℕ) :
    Except PrecompileError StateDB :=
  match feeConfig.verify with
  | .error e => .error (.cannotVerifyFeeConfig e)
  | .ok () =>
    let stateDB := (List.range' minFeeConfigFieldKey numFeeConfigField).foldl
      (fun st i => st.setState ContractAddress (feeConfigKey i) (feeConfigInput feeConfig i))
      stateDB
    .ok (stateDB.setState ContractAddress feeConfigLastChangedAtKey (bigToHash blockNumber))

def unpackSetFeeConfigInput (abi : FeeManagerABI) (input : List UInt8) (useStrictMode : Bool) :
    Except PrecompileError FeeConfig :=
  if useStrictMode && input.length != feeConfigInputLen then
    .error (.invalidFeeConfigInputLength input.length)
  else do
    let inputStruct ← (abi.unpackSetFeeConfig input useStrictMode).mapError .abi
    pure { gasLimit := some inputStruct.gasLimit
           targetBlockRate := UInt64.ofNat inputStruct.targetBlockRate.natAbs
           minBaseFee := some inputStruct.minBaseFee
           targetGas := some inputStruct.targetGas
           baseFeeChangeDenominator := some inputStruct.baseFeeChangeDenominator
           minBlockGasCost := some inputStruct.minBlockGasCost
           maxBlockGasCost := some inputStruct.maxBlockGasCost
           blockGasCostStep := some inputStruct.blockGasCostStep }

def setFeeConfig (abi : FeeManagerABI) : RunStatefulPrecompileFunc :=
  fun evm caller _ input suppliedGas readOnly => do
    let remainingGas ← orFail (deductGas suppliedGas SetFeeConfigGasCost) 0
    failIf readOnly .writeProtection remainingGas
    let useStrictMode := !isDurangoActivated evm
    let feeConfig ← orFail (unpackSetFeeConfigInput abi input useStrictMode) remainingGas
    let stateDB ← get
    let callerStatus := getFeeManagerStatus stateDB caller
    failIf (!callerStatus.isEnabled) (.cannotChangeFee caller) remainingGas
    let remainingGas ← emitEvent evm remainingGas FeeConfigChangedEventGasCost ContractAddress
      (.feeConfigChanged caller (getStoredFeeConfig stateDB) feeConfig)
    let stateDB ← get
    let stateDB ← orFail (storeFeeConfig stateDB feeConfig evm.blockNumber) remainingGas
    set stateDB
    pure ([], remainingGas)

def getFeeConfig : RunStatefulPrecompileFunc :=
  fun _ _ _ _ suppliedGas _ => do
    let remainingGas ← orFail (deductGas suppliedGas GetFeeConfigGasCost) 0
    let stateDB ← get
    let feeConfig := getStoredFeeConfig stateDB
    let word (x : Option ℤ) : ℕ := (x.getD 0).toNat
    pure (packWords [word feeConfig.gasLimit, feeConfig.targetBlockRate.toNat,
      word feeConfig.minBaseFee, word feeConfig.targetGas, word feeConfig.baseFeeChangeDenominator,
      word feeConfig.minBlockGasCost, word feeConfig.maxBlockGasCost,
      word feeConfig.blockGasCostStep], remainingGas)

def getFeeConfigLastChangedAtFn : RunStatefulPrecompileFunc :=
  fun _ _ _ _ suppliedGas _ => do
    let remainingGas ← orFail (deductGas suppliedGas GetLastChangedAtGasCost) 0
    let stateDB ← get
    pure (packWords [getFeeConfigLastChangedAt stateDB], remainingGas)

def createFeeManagerPrecompile (allowListABI : AllowListABI) (abi : FeeManagerABI) :
    Except PrecompileError StatefulPrecompileWithFunctionSelectors :=
  newStatefulPrecompileContract none (createAllowListFunctions allowListABI ContractAddress ++
    [⟨abi.methodID .getFeeConfig, getFeeConfig, none⟩,
     ⟨abi.methodID .getFeeConfigLastChangedAt, getFeeConfigLastChangedAtFn, none⟩,
     ⟨abi.methodID .setFeeConfig, setFeeConfig abi, none⟩])

/-! ## The fee config keys are not address keys -/

theorem addressKey_ne_feeConfigKey (a : Address) (i : ℕ) (hi : i ∈ List.range' 1 8) :
    addressKey a ≠ feeConfigKey i := by
  have hne : UInt8.ofNat i ≠ 0 := by
    rw [List.mem_range'_1] at hi
    intro h
    have h0 := congrArg UInt8.toNat h
    simp only [UInt8.toNat_ofNat', UInt8.toNat_zero, Nat.reducePow] at h0
    omega
  exact addressKey_ne_hashOfPrefix a _ [] hne (by decide)

theorem addressKey_ne_feeConfigLastChangedAtKey (a : Address) :
    addressKey a ≠ feeConfigLastChangedAtKey :=
  addressKey_ne_hashOfPrefix a _ _ (by decide) (by decide)

theorem sameRoles_storeFeeConfig (p : Address) {stateDB stateDB' : StateDB} {feeConfig : FeeConfig}
    {blockNumber : ℕ} (h : storeFeeConfig stateDB feeConfig blockNumber = .ok stateDB') :
    SameRoles p stateDB stateDB' := by
  unfold storeFeeConfig at h
  split at h
  · cases h
  · cases h
    -- each of the eight field writes, then the last-changed-at write, misses every role slot
    have hfold : ∀ (keys : List ℕ) (st : StateDB), (∀ i ∈ keys, i ∈ List.range' 1 8) →
        SameRoles p st (keys.foldl (fun st i => st.setState ContractAddress (feeConfigKey i)
          (feeConfigInput feeConfig i)) st) := by
      intro keys
      induction keys with
      | nil => intro st _; exact Std.Refl.refl st
      | cons i keys ih =>
        intro st hkeys
        refine trans_of (SameRoles p) ?_ (ih _ fun j hj => hkeys j (List.mem_cons_of_mem _ hj))
        exact sameRoles_setState p _ _ _ st fun _ a =>
          addressKey_ne_feeConfigKey a i (hkeys i List.mem_cons_self)
    refine trans_of (SameRoles p) (hfold _ stateDB fun i hi => hi) ?_
    exact sameRoles_setState p _ _ _ _ fun _ a => addressKey_ne_feeConfigLastChangedAtKey a

/-! ## Storing a configuration and reading it back -/

def FitsWord (x : Option ℤ) : Prop := ∃ v ∈ x, 0 ≤ v ∧ v < 2^256

/-- What `Verify` establishes of the fields `StoreFeeConfig` writes. -/
structure Storable (f : FeeConfig) : Prop where
  gasLimit : FitsWord f.gasLimit
  minBaseFee : FitsWord f.minBaseFee
  targetGas : FitsWord f.targetGas
  baseFeeChangeDenominator : FitsWord f.baseFeeChangeDenominator
  minBlockGasCost : FitsWord f.minBlockGasCost
  maxBlockGasCost : FitsWord f.maxBlockGasCost
  blockGasCostStep : FitsWord f.blockGasCostStep

theorem natAbs_lt_of_checkByteLens {f : FeeConfig} {a b c d e g k : ℤ}
    (h : f.checkByteLens a b c d e g k = .ok ()) :
    a.natAbs < 2^256 ∧ b.natAbs < 2^256 ∧ c.natAbs < 2^256 ∧ d.natAbs < 2^256 ∧
      e.natAbs < 2^256 ∧ g.natAbs < 2^256 ∧ k.natAbs < 2^256 := by
  unfold FeeConfig.checkByteLens at h
  simp only [↓ite_error_eq_ok] at h
  obtain ⟨h1, -, h3, h4, h5, h6, h7, h8, -⟩ := h
  exact ⟨natAbs_lt_of_not_isBiggerThanHashLen h1, natAbs_lt_of_not_isBiggerThanHashLen h3,
    natAbs_lt_of_not_isBiggerThanHashLen h4, natAbs_lt_of_not_isBiggerThanHashLen h5,
    natAbs_lt_of_not_isBiggerThanHashLen h6, natAbs_lt_of_not_isBiggerThanHashLen h7,
    natAbs_lt_of_not_isBiggerThanHashLen h8⟩

theorem storable_of_verify {f : FeeConfig} (h : f.verify = .ok ()) : Storable f := by
  simp only [FeeConfig.verify, bind_eq_ok, required_eq_ok] at h
  obtain ⟨gasLimit, hg, minBaseFee, hb, targetGas, ht, d, hd, lo, hlo, hi, hhi, step, hs, h⟩ := h
  simp only [↓ite_throw_bind_eq_ok] at h
  obtain ⟨h1, -, h3, h4, h5, h6, h7, h8, -, h⟩ := h
  obtain ⟨hg', hb', ht', hd', hlo', hhi', hs'⟩ := natAbs_lt_of_checkByteLens h
  exact ⟨⟨gasLimit, hg, by omega, by omega⟩, ⟨minBaseFee, hb, by omega, by omega⟩,
    ⟨targetGas, ht, by omega, by omega⟩, ⟨d, hd, by omega, by omega⟩, ⟨lo, hlo, by omega, by omega⟩,
    ⟨hi, hhi, by omega, by omega⟩, ⟨step, hs, by omega, by omega⟩⟩

theorem toNat_bigToHash_of_fitsWord {x : Option ℤ} (hx : FitsWord x) :
    some ((bigToHash (x.getD 0)).toNat : ℤ) = x := by
  obtain ⟨v, hv, h0, hlt⟩ := hx
  rw [Option.mem_def] at hv
  subst hv
  rw [Option.getD_some, bigToHash, BitVec.toNat_ofNat, Nat.mod_eq_of_lt (by omega)]
  congr 1
  omega

theorem feeConfigKey_injOn : ∀ i ∈ List.range' 1 8, ∀ j ∈ List.range' 1 8,
    feeConfigKey i = feeConfigKey j → i = j := by
  decide

theorem feeConfigKey_ne_feeConfigLastChangedAtKey :
    ∀ i ∈ List.range' 1 8, feeConfigKey i ≠ feeConfigLastChangedAtKey := by
  decide

section Writes
variable (a : Address) (k v : ℕ → Hash)

theorem getState_foldl_setState_of_not_mem (keys : List ℕ) (s : StateDB) (a' : Address)
    (key : Hash) (h : a' ≠ a ∨ ∀ i ∈ keys, k i ≠ key) :
    (keys.foldl (fun st i => st.setState a (k i) (v i)) s).getState a' key = s.getState a' key := by
  induction keys generalizing s with
  | nil => rfl
  | cons i keys ih =>
    rw [List.foldl_cons, ih _ (h.imp_right fun h j hj => h j (List.mem_cons_of_mem i hj)),
      StateDB.getState_setState]
    have hmiss : ¬(a' = a ∧ key = k i) := by
      rintro ⟨rfl, rfl⟩
      rcases h with h | h
      · exact h rfl
      · exact h i List.mem_cons_self rfl
    rw [if_neg hmiss]

theorem getState_foldl_setState_of_mem (keys : List ℕ) (s : StateDB) (j : ℕ) (hj : j ∈ keys)
    (hinj : ∀ i ∈ keys, k i = k j → i = j) :
    (keys.foldl (fun st i => st.setState a (k i) (v i)) s).getState a (k j) = v j := by
  induction keys generalizing s with
  | nil => cases hj
  | cons i keys ih =>
    rw [List.foldl_cons]
    by_cases hjk : j ∈ keys
    · exact ih _ hjk fun i' hi' => hinj i' (List.mem_cons_of_mem i hi')
    · -- `j` is this write, and no later write shares its key
      have hji : j = i := by
        rcases List.mem_cons.mp hj with h | h
        · exact h
        · exact absurd h hjk
      subst hji
      rw [getState_foldl_setState_of_not_mem a k v keys _ a (k j) (.inr fun i' hi' he =>
        hjk (hinj i' (List.mem_cons_of_mem j hi') he ▸ hi')), StateDB.getState_setState]
      simp

theorem setState_with_storage (s : StateDB) (key value : Hash) (storage : Address → Hash → Hash) :
    { s.setState a key value with storage := storage } = { s with storage := storage } := rfl

theorem foldl_setState_eq_with_storage (keys : List ℕ) (s : StateDB) :
    { keys.foldl (fun st i => st.setState a (k i) (v i)) s with storage := s.storage } = s := by
  induction keys generalizing s with
  | nil => rfl
  | cons i keys ih =>
    rw [List.foldl_cons]
    have := ih (s.setState a (k i) (v i))
    rw [StateDB.mk.injEq] at this ⊢
    exact ⟨rfl, this.2.1, this.2.2.1, this.2.2.2⟩

end Writes

theorem storeFeeConfig_of_verify {s : StateDB} {fc : FeeConfig} {blockNumber : ℕ}
    (h : fc.verify = .ok ()) :
    storeFeeConfig s fc blockNumber = .ok (((List.range' minFeeConfigFieldKey numFeeConfigField).foldl
      (fun st i => st.setState ContractAddress (feeConfigKey i) (feeConfigInput fc i)) s).setState
        ContractAddress feeConfigLastChangedAtKey (bigToHash blockNumber)) := by
  simp [storeFeeConfig, h]

theorem storeFeeConfig_of_verify_error {s : StateDB} {fc : FeeConfig} {blockNumber : ℕ}
    {e : FeeConfigError} (h : fc.verify = .error e) :
    storeFeeConfig s fc blockNumber = .error (.cannotVerifyFeeConfig e) := by
  simp [storeFeeConfig, h]

theorem getState_storeFeeConfig_feeConfigKey {s s' : StateDB} {fc : FeeConfig} {blockNumber : ℕ}
    (h : storeFeeConfig s fc blockNumber = .ok s') (i : ℕ) (hi : i ∈ List.range' 1 8) :
    s'.getState ContractAddress (feeConfigKey i) = feeConfigInput fc i := by
  unfold storeFeeConfig at h
  split at h
  · cases h
  · cases h
    rw [StateDB.getState_setState, if_neg fun h => feeConfigKey_ne_feeConfigLastChangedAtKey i hi h.2]
    exact getState_foldl_setState_of_mem _ _ _ _ _ i hi fun j hj => feeConfigKey_injOn j hj i hi

theorem getStoredFeeConfig_storeFeeConfig {s s' : StateDB} {fc : FeeConfig} {blockNumber : ℕ}
    (h : storeFeeConfig s fc blockNumber = .ok s') : getStoredFeeConfig s' = fc := by
  have hv : fc.verify = .ok () := by
    cases hver : fc.verify with
    | error e => rw [storeFeeConfig_of_verify_error hver] at h; cases h
    | ok u => rfl
  have hS := storable_of_verify hv
  have hread := getState_storeFeeConfig_feeConfigKey h
  obtain ⟨gasLimit, targetBlockRate, minBaseFee, targetGas, d, lo, hi, step⟩ := fc
  simp only [getStoredFeeConfig, hread gasLimitKey (by decide), hread targetBlockRateKey (by decide),
    hread minBaseFeeKey (by decide), hread targetGasKey (by decide),
    hread baseFeeChangeDenominatorKey (by decide), hread minBlockGasCostKey (by decide),
    hread maxBlockGasCostKey (by decide), hread blockGasCostStepKey (by decide)]
  simp only [feeConfigInput, gasLimitKey, targetBlockRateKey, minBaseFeeKey, targetGasKey,
    baseFeeChangeDenominatorKey, minBlockGasCostKey, maxBlockGasCostKey, blockGasCostStepKey]
  simp only [↓reduceIte, OfNat.ofNat_ne_one, Nat.succ_ne_self, FeeConfig.mk.injEq]
  refine ⟨toNat_bigToHash_of_fitsWord hS.gasLimit, ?_, toNat_bigToHash_of_fitsWord hS.minBaseFee,
    toNat_bigToHash_of_fitsWord hS.targetGas, toNat_bigToHash_of_fitsWord hS.baseFeeChangeDenominator,
    toNat_bigToHash_of_fitsWord hS.minBlockGasCost, toNat_bigToHash_of_fitsWord hS.maxBlockGasCost,
    toNat_bigToHash_of_fitsWord hS.blockGasCostStep⟩
  -- the `uint64` target block rate comes back through its low 64 bits
  rw [bigToHash, BitVec.toNat_ofNat, Int.natAbs_natCast,
    Nat.mod_eq_of_lt (lt_trans targetBlockRate.toNat_lt (by norm_num)), UInt64.ofNat_toNat]

theorem getFeeConfigLastChangedAt_storeFeeConfig {s s' : StateDB} {fc : FeeConfig}
    {blockNumber : ℕ} (h : storeFeeConfig s fc blockNumber = .ok s') :
    getFeeConfigLastChangedAt s' = blockNumber % 2^256 := by
  unfold storeFeeConfig at h
  split at h
  · cases h
  · cases h
    simp [getFeeConfigLastChangedAt, bigToHash]

theorem getState_storeFeeConfig_of_ne {s s' : StateDB} {fc : FeeConfig} {blockNumber : ℕ}
    (h : storeFeeConfig s fc blockNumber = .ok s') (addr : Address) (key : Hash)
    (hkey : addr ≠ ContractAddress ∨ (key ∉ (List.range' minFeeConfigFieldKey numFeeConfigField).map
      feeConfigKey ∧ key ≠ feeConfigLastChangedAtKey)) :
    s'.getState addr key = s.getState addr key := by
  unfold storeFeeConfig at h
  split at h
  · cases h
  · cases h
    have hlast : ¬(addr = ContractAddress ∧ key = feeConfigLastChangedAtKey) := by
      rintro ⟨rfl, rfl⟩
      rcases hkey with h | h
      · exact h rfl
      · exact h.2 rfl
    rw [StateDB.getState_setState, if_neg hlast]
    refine getState_foldl_setState_of_not_mem _ _ _ _ _ _ _ (hkey.imp_right fun h i hi he => ?_)
    exact h.1 (List.mem_map.mpr ⟨i, hi, he⟩)

theorem storeFeeConfig_round_trip (s : StateDB) (fc : FeeConfig) (blockNumber : ℕ)
    (hbn : blockNumber < 2^256) :
    (fc.verify = .ok () → ∃ s', storeFeeConfig s fc blockNumber = .ok s' ∧
      (getStoredFeeConfig s').equal fc = true ∧ getFeeConfigLastChangedAt s' = blockNumber ∧
      (∀ addr key, addr ≠ ContractAddress ∨
          (key ∉ (List.range' minFeeConfigFieldKey numFeeConfigField).map feeConfigKey ∧
            key ≠ feeConfigLastChangedAtKey) →
        s'.getState addr key = s.getState addr key) ∧
      { s' with storage := s.storage } = s) ∧
    ∀ e, fc.verify = .error e → storeFeeConfig s fc blockNumber = .error (.cannotVerifyFeeConfig e) := by
  refine ⟨fun hv => ?_, fun e he => storeFeeConfig_of_verify_error he⟩
  have hstore := @storeFeeConfig_of_verify s fc blockNumber hv
  refine ⟨_, hstore, ?_, ?_, fun addr key hkey => getState_storeFeeConfig_of_ne hstore addr key hkey, ?_⟩
  · rw [FeeConfig.equal_iff]
    exact getStoredFeeConfig_storeFeeConfig hstore
  · rw [getFeeConfigLastChangedAt_storeFeeConfig hstore, Nat.mod_eq_of_lt hbn]
  · -- the last write, like the eight before it, changes storage only
    rw [setState_with_storage]
    exact foldl_setState_eq_with_storage ContractAddress feeConfigKey (feeConfigInput fc) _ s

/-- A configuration within every bound `Verify` checks. -/
def sampleFeeConfig : FeeConfig :=
  ⟨some 8000000, 2, some 25000000000, some 15000000, some 36, some 0, some 1000000, some 200000⟩

theorem storeFeeConfig_round_trip_sample :
    ∃ s', storeFeeConfig ⟨fun _ _ => 0, fun _ => 0, fun _ => false, []⟩ sampleFeeConfig 7 = .ok s' ∧
      getFeeConfigLastChangedAt s' = 7 :=
  ((storeFeeConfig_round_trip ⟨fun _ _ => 0, fun _ => 0, fun _ => false, []⟩ sampleFeeConfig 7
    (by decide)).1 rfl).imp fun _ h => ⟨h.1, h.2.2.1⟩

/-! ## No fee manager function touches a role -/

section Footprint

variable (p : Address) (evm : AccessibleState) (caller addr : Address) (input : List UInt8)
  (suppliedGas : UInt64) (readOnly : Bool)

theorem keeps_setFeeConfig (abi : FeeManagerABI) :
    Keeps (SameRoles p) (setFeeConfig abi evm caller addr input suppliedGas readOnly) := by
  refine keeps_bind (SameRoles p) (keeps_orFail _ _ _) fun remainingGas => ?_
  refine keeps_bind (SameRoles p) (keeps_failIf _ _ _ _) fun _ => ?_
  refine keeps_bind (SameRoles p) (keeps_orFail _ _ _) fun feeConfig => ?_
  refine keeps_bind (SameRoles p) (keeps_get _) fun s => ?_
  refine keeps_bind (SameRoles p) (keeps_failIf _ _ _ _) fun _ => ?_
  refine keeps_bind (SameRoles p) (keeps_emitEvent p _ _ _ _ _) fun remainingGas => ?_
  refine keeps_get_bind (SameRoles p) fun s => ?_
  cases h : storeFeeConfig s feeConfig evm.blockNumber with
  | error err =>
    simp only [step_bind, step_orFail_error]
    exact Std.Refl.refl s
  | ok s' =>
    simp only [step_bind, step_orFail_ok, step_set, step_pure]
    exact sameRoles_storeFeeConfig p h

theorem keeps_getFeeConfig :
    Keeps (SameRoles p) (getFeeConfig evm caller addr input suppliedGas readOnly) := by
  refine keeps_bind (SameRoles p) (keeps_orFail _ _ _) fun remainingGas => ?_
  exact keeps_bind (SameRoles p) (keeps_get _) fun s => keeps_pure _ _

theorem keeps_getFeeConfigLastChangedAtFn :
    Keeps (SameRoles p) (getFeeConfigLastChangedAtFn evm caller addr input suppliedGas readOnly) := by
  refine keeps_bind (SameRoles p) (keeps_orFail _ _ _) fun remainingGas => ?_
  exact keeps_bind (SameRoles p) (keeps_get _) fun s => keeps_pure _ _

end Footprint

end LuxEvm.Precompile.FeeManager
