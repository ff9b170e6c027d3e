import LuxEvm.Predicate
import LuxEvm.Warp.Config
import LuxEvm.Lib.MachineInt
import Mathlib.Algebra.Order.BigOperators.Group.List

/-!
# Intrinsic gas

`IntrinsicGas` charges a transaction before it runs: a base cost, a price per
byte of data, a price per word of init code for a creation under Durango, and
a price per access-list tuple, which a predicater address sets itself through
`PredicateGas`. The sum is kept in a `uint64`: the data charges are guarded by
division pre-checks, the tuple charges by `SafeAdd`, and the two unchecked
products of the plain access-list charge cannot wrap for access lists of fewer
than `2^32` tuples and keys.

Over every data payload, access list and set of rules, `IntrinsicGas` returns
the exact sum of the charges when it fits a word and `ErrGasUintOverflow` when
it does not; a predicater's error is returned as it is, unless a charge added
before it already overflowed (`intrinsicGas_exact`).
-/

set_option autoImplicit false

namespace LuxEvm.Core
open Lib.MachineInt LuxEvm.Predicate

/-! ## The gas schedule of `params` -/

def TxGas : UInt64 := 21000
def TxGasContractCreation : UInt64 := 53000
def TxDataZeroGas : UInt64 := 4
def TxDataNonZeroGasFrontier : UInt64 := 68
def TxDataNonZeroGasEIP2028 : UInt64 := 16
def InitCodeWordGas : UInt64 := 2
def TxAccessListAddressGas : UInt64 := 2400
def TxAccessListStorageKeyGas : UInt64 := 1900

/-- `precompileconfig.Predicater`: the gas of a predicate, or its error. -/
structure Predicater (ε : Type) where
  predicateGas : List UInt8 → Except ε UInt64

/-- `params.RulesExtra`, the fields `IntrinsicGas` reads. `PredicatersExist`
is set to `len(Predicaters) > 0` where the rules are built. -/
structure RulesExtra (ε : Type) where
  isDurango : Bool
  predicatersExist : Bool
  predicaters : Address → Option (Predicater ε)
  exist_of_predicater : ∀ a p, predicaters a = some p → predicatersExist = true

/-- `params.Rules`, with the extra rules `GetRulesExtra` returns for them. -/
structure Rules (ε : Type) where
  isHomestead : Bool
  isIstanbul : Bool
  extra : RulesExtra ε

/-- The errors of `IntrinsicGas`: `ErrGasUintOverflow`, or a predicater's. -/
inductive IntrinsicGasError (ε : Type) where
  | gasUintOverflow
  | predicate (err : ε)
  deriving DecidableEq, Repr

section Model

variable {ε : Type}

/-- `AccessList.StorageKeys`: the number of keys of all tuples. -/
def storageKeys (accessList : List AccessTuple) : ℕ :=
  (accessList.map fun tuple => tuple.storageKeys.length).sum

/-- `toWordSize`: the number of 32-byte words, saturated near the top. -/
def toWordSize (size : UInt64) : UInt64 :=
  if size > MaxUint64 - 31 then MaxUint64 / 32 + 1 else (size + 31) / 32

/-- `gas += n * c` behind the guard `(MaxUint64 - gas) / c < n`, the shape of
each data charge. -/
def chargeChecked (gas n c : UInt64) : Except (IntrinsicGasError ε) UInt64 :=
  if (MaxUint64 - gas) / c < n then .error .gasUintOverflow else .ok (gas + n * c)

/-- `SafeAdd(gas, x)`, failing with `ErrGasUintOverflow` on a carry. -/
def addChecked (gas x : UInt64) : Except (IntrinsicGasError ε) UInt64 :=
  let (totalGas, overflow) := safeAdd gas x
  if overflow then .error .gasUintOverflow else .ok totalGas

/-- One tuple of `accessListGas` when predicaters exist. -/
def accessTupleStep (rulesExtra : RulesExtra ε) (gas : UInt64) (accessTuple : AccessTuple) :
    Except (IntrinsicGasError ε) UInt64 :=
  match rulesExtra.predicaters accessTuple.address with
  | none =>
    -- unchecked, as the source explains: a tuple's own cost cannot wrap
    let accessTupleGas := TxAccessListAddressGas +
      UInt64.ofNat accessTuple.storageKeys.length * TxAccessListStorageKeyGas
    addChecked gas accessTupleGas
  | some predicaterContract =>
    match predicaterContract.predicateGas (hashSliceToBytes accessTuple.storageKeys) with
    | .error err => .error (.predicate err)
    | .ok predicateGas => addChecked gas predicateGas

/-- `accessListGas`. -/
def accessListGas (rules : Rules ε) (accessList : List AccessTuple) :
    Except (IntrinsicGasError ε) UInt64 :=
  let rulesExtra := rules.extra
  if !rulesExtra.predicatersExist then
    let gas : UInt64 := 0
    let gas := gas + UInt64.ofNat accessList.length * TxAccessListAddressGas
    let gas := gas + UInt64.ofNat (storageKeys accessList) * TxAccessListStorageKeyGas
    .ok gas
  else accessList.foldlM (accessTupleStep rulesExtra) 0

/-- The data charges of `IntrinsicGas`, from the base cost `gas`: the non-zero
bytes, the zero bytes, and the init-code words of a creation under Durango. -/
def dataGas (data : List UInt8) (isContractCreation : Bool) (rules : Rules ε) (gas : UInt64) :
    Except (IntrinsicGasError ε) UInt64 := do
  let dataLen := UInt64.ofNat data.length
  if dataLen > 0 then
    let nz : UInt64 := data.foldl (fun nz byt => if byt ≠ 0 then nz + 1 else nz) 0
    let nonZeroGas := if rules.isIstanbul then TxDataNonZeroGasEIP2028 else TxDataNonZeroGasFrontier
    let gas ← chargeChecked gas nz nonZeroGas
    let z := dataLen - nz
    let gas ← chargeChecked gas z TxDataZeroGas
    if isContractCreation && rules.extra.isDurango then
      chargeChecked gas (toWordSize dataLen) InitCodeWordGas
    else pure gas
  else pure gas

/-- `IntrinsicGas`; a nil access list is `none`. -/
def intrinsicGas (data : List UInt8) (accessList : Option (List AccessTuple))
    (isContractCreation : Bool) (rules : Rules ε) : Except (IntrinsicGasError ε) UInt64 := do
  let gas := if isContractCreation && rules.isHomestead then TxGasContractCreation else TxGas
  let gas ← dataGas data isContractCreation rules gas
  match accessList with
  | none => pure gas
  | some accessList =>
    let accessListGas ← accessListGas rules accessList
    addChecked gas accessListGas

/-! ## The exact charges -/

def exactDataCharge (data : List UInt8) (isContractCreation : Bool) (rules : Rules ε) : ℕ :=
  data.countP (· ≠ 0) * (if rules.isIstanbul then 16 else 68) +
    (data.length - data.countP (· ≠ 0)) * 4 +
    (if isContractCreation && rules.extra.isDurango then (data.length + 31) / 32 * 2 else 0)

def exactDataGas (data : List UInt8) (isContractCreation : Bool) (rules : Rules ε) : ℕ :=
  (if isContractCreation && rules.isHomestead then 53000 else 21000) +
    exactDataCharge data isContractCreation rules

def tupleGas (rules : Rules ε) (accessTuple : AccessTuple) : Except ε ℕ :=
  match rules.extra.predicaters accessTuple.address with
  | some predicaterContract =>
    UInt64.toNat <$> predicaterContract.predicateGas (hashSliceToBytes accessTuple.storageKeys)
  | none => .ok (2400 + accessTuple.storageKeys.length * 1900)

end Model

/-! ## The data charges are exact -/

section Data

variable {ε : Type}

theorem toNat_foldl_countNonZero (data : List UInt8) :
    ∀ nz : UInt64, nz.toNat + data.length < 2^64 →
      (data.foldl (fun nz byt => if byt ≠ 0 then nz + 1 else nz) nz).toNat =
        nz.toNat + data.countP (· ≠ 0) := by
  induction data with
  | nil => intro nz _; simp
  | cons byt data ih =>
    intro nz hnz
    simp only [List.length_cons] at hnz
    rw [List.foldl_cons, List.countP_cons]
    by_cases hb : byt = 0
    · rw [if_neg (not_not.mpr hb), ih nz (by omega)]
      simp [hb]
    · have hstep : (nz + 1).toNat = nz.toNat + 1 := by
        rw [UInt64.toNat_add, UInt64.toNat_one, Nat.mod_eq_of_lt (by omega)]
      rw [if_pos hb, ih (nz + 1) (by omega), hstep]
      simp [hb]
      omega

theorem toNat_toWordSize {n : ℕ} (h : n < 2^64) :
    (toWordSize (UInt64.ofNat n)).toNat = (n + 31) / 32 := by
  have hn : (UInt64.ofNat n).toNat = n := UInt64.toNat_ofNat_of_lt' h
  have htop : (MaxUint64 - 31).toNat = 2^64 - 32 := rfl
  unfold toWordSize
  split_ifs with hbig
  · -- within 31 of the top the count is already `2^59`
    have hlt : 2^64 - 32 < n := by
      rw [← htop, ← hn]
      exact UInt64.lt_iff_toNat_lt.mp hbig
    have hsat : (MaxUint64 / 32 + 1).toNat = 2^59 := rfl
    rw [hsat]
    omega
  · have hle : n ≤ 2^64 - 32 := by
      rw [← htop, ← hn]
      exact UInt64.le_iff_toNat_le.mp (UInt64.not_lt.mp hbig)
    rw [UInt64.toNat_div, UInt64.toNat_add, hn, Nat.mod_eq_of_lt (by simp; omega)]
    rfl

theorem chargeChecked_bind {α : Type} {g : ℕ} (hg : g < 2^64) {n c : UInt64} (hc : 0 < c.toNat)
    (k : UInt64 → Except (IntrinsicGasError ε) α) :
    (chargeChecked (UInt64.ofNat g) n c >>= k) =
      if g + n.toNat * c.toNat < 2^64 then k (UInt64.ofNat (g + n.toNat * c.toNat))
      else .error .gasUintOverflow := by
  have hgw : (UInt64.ofNat g).toNat = g := UInt64.toNat_ofNat_of_lt' hg
  unfold chargeChecked
  by_cases h : g + n.toNat * c.toNat < 2^64
  · have hsum : UInt64.ofNat g + n * c = UInt64.ofNat (g + n.toNat * c.toNat) := by
      rw [← UInt64.toNat_inj, toNat_add_mul_of_lt (by rw [hgw]; exact h), hgw,
        UInt64.toNat_ofNat_of_lt' h]
    rw [if_neg (fun hlt => absurd ((div_sub_lt_iff hc).mp hlt) (by omega)), if_pos h, hsum]
    rfl
  · rw [if_pos ((div_sub_lt_iff hc).mpr (by omega)), if_neg h]
    rfl

theorem chargeChecked_eq {g : ℕ} (hg : g < 2^64) {n c : UInt64} (hc : 0 < c.toNat) :
    chargeChecked (UInt64.ofNat g) n c =
      if g + n.toNat * c.toNat < 2^64 then .ok (ε := IntrinsicGasError ε) (UInt64.ofNat (g + n.toNat * c.toNat))
      else .error .gasUintOverflow := by
  rw [← bind_pure (chargeChecked (UInt64.ofNat g) n c), chargeChecked_bind hg hc]
  rfl

theorem toNat_nonZeroGas (rules : Rules ε) :
    (if rules.isIstanbul then TxDataNonZeroGasEIP2028 else TxDataNonZeroGasFrontier).toNat =
      if rules.isIstanbul then 16 else 68 := by
  split <;> rfl

theorem dataGas_eq (data : List UInt8) (isContractCreation : Bool) (rules : Rules ε)
    {g : ℕ} (hg : g < 2^64) (hlen : data.length < 2^64) :
    dataGas data isContractCreation rules (UInt64.ofNat g) =
      if g + exactDataCharge data isContractCreation rules < 2^64 then
        .ok (UInt64.ofNat (g + exactDataCharge data isContractCreation rules))
      else .error .gasUintOverflow := by
  by_cases h0 : data.length = 0
  · -- no data: only the base is charged
    have hnil : data = [] := List.eq_nil_of_length_eq_zero h0
    subst hnil
    have hcharge : exactDataCharge [] isContractCreation rules = 0 := by simp [exactDataCharge]
    rw [hcharge, Nat.add_zero, if_pos hg]
    rfl
  have hlenw : (UInt64.ofNat data.length).toNat = data.length := UInt64.toNat_ofNat_of_lt' hlen
  have hcle : data.countP (· ≠ 0) ≤ data.length := List.countP_le_length
  have hnz := toNat_foldl_countNonZero data 0 (by simpa using hlen)
  rw [UInt64.toNat_zero, Nat.zero_add] at hnz
  have hpos : UInt64.ofNat data.length > 0 := by
    rw [gt_iff_lt, UInt64.lt_iff_toNat_lt, hlenw, UInt64.toNat_zero]
    omega
  have hz : (UInt64.ofNat data.length -
      data.foldl (fun nz byt => if byt ≠ 0 then nz + 1 else nz) 0).toNat =
        data.length - data.countP (· ≠ 0) := by
    rw [UInt64.toNat_sub_of_le _ _ (UInt64.le_iff_toNat_le.mpr (by rw [hnz, hlenw]; exact hcle)),
      hnz, hlenw]
  have hnzg : 0 < (if rules.isIstanbul then TxDataNonZeroGasEIP2028 else TxDataNonZeroGasFrontier).toNat := by
    rw [toNat_nonZeroGas]
    split <;> decide
  unfold dataGas exactDataCharge
  simp only [hpos, if_true]
  -- the three charges in turn: each overflows, or the next starts from the exact sum
  rw [chargeChecked_bind hg hnzg, toNat_nonZeroGas, hnz]
  by_cases h1 : g + data.countP (· ≠ 0) * (if rules.isIstanbul then 16 else 68) < 2^64
  · rw [if_pos h1, chargeChecked_bind h1 (by decide), hz,
      show TxDataZeroGas.toNat = 4 from rfl]
    have hwords := toNat_toWordSize hlen
    generalize data.countP (· ≠ 0) = nz at *
    generalize (if rules.isIstanbul then 16 else 68) = nzg at *
    by_cases h2 : g + nz * nzg + (data.length - nz) * 4 < 2^64
    · rw [if_pos h2]
      cases isContractCreation && rules.extra.isDurango
      · simp only [Bool.false_eq_true, ↓reduceIte, Nat.add_zero]
        rw [if_pos (by omega)]
        exact congrArg (fun x => Except.ok (UInt64.ofNat x)) (by omega)
      · simp only [↓reduceIte]
        rw [chargeChecked_eq h2 (by decide), hwords, show InitCodeWordGas.toNat = 2 from rfl]
        by_cases h3 : g + nz * nzg + (data.length - nz) * 4 + (data.length + 31) / 32 * 2 < 2^64
        · rw [if_pos h3, if_pos (by omega)]
          exact congrArg (fun x => Except.ok (UInt64.ofNat x)) (by omega)
        · rw [if_neg h3, if_neg (by omega)]
    · rw [if_neg h2, if_neg (by omega)]
  · rw [if_neg h1, if_neg (by omega)]

end Data

/-! ## The access-list charges are exact -/

section AccessList

variable {ε : Type}

theorem addChecked_eq {a : ℕ} (ha : a < 2^64) (x : UInt64) :
    addChecked (ε := ε) (UInt64.ofNat a) x =
      if a + x.toNat < 2^64 then .ok (UInt64.ofNat (a + x.toNat)) else .error .gasUintOverflow := by
  have haw : (UInt64.ofNat a).toNat = a := UInt64.toNat_ofNat_of_lt' ha
  unfold addChecked
  by_cases h : a + x.toNat < 2^64
  · have hc : (safeAdd (UInt64.ofNat a) x).2 = false := by
      rw [safeAdd_snd_eq_false, haw]
      exact h
    have hsum : (safeAdd (UInt64.ofNat a) x).1 = UInt64.ofNat (a + x.toNat) := by
      rw [← UInt64.toNat_inj, toNat_safeAdd_fst (by rw [haw]; exact h), haw,
        UInt64.toNat_ofNat_of_lt' h]
    simp only [hc, hsum, if_pos h]
    rfl
  · have hc : (safeAdd (UInt64.ofNat a) x).2 = true := by
      by_contra hne
      exact h (haw ▸ safeAdd_snd_eq_false.mp (Bool.eq_false_iff.mpr hne))
    simp only [hc, if_neg h]
    rfl

theorem accessTupleStep_of_ok (rules : Rules ε) {t : AccessTuple} {n : ℕ}
    (ht : tupleGas rules t = .ok n) (hk : t.storageKeys.length < 2^32) {a : ℕ} (ha : a < 2^64) :
    accessTupleStep rules.extra (UInt64.ofNat a) t =
      if a + n < 2^64 then .ok (UInt64.ofNat (a + n)) else .error .gasUintOverflow := by
  unfold accessTupleStep
  unfold tupleGas at ht
  cases hp : rules.extra.predicaters t.address with
  | none =>
    rw [hp] at ht
    cases ht
    have hcost : (TxAccessListAddressGas +
        UInt64.ofNat t.storageKeys.length * TxAccessListStorageKeyGas).toNat =
          2400 + t.storageKeys.length * 1900 := by
      rw [UInt64.toNat_add, UInt64.toNat_mul, UInt64.toNat_ofNat_of_lt' (lt_trans hk (by decide))]
      simp only [TxAccessListAddressGas, TxAccessListStorageKeyGas, UInt64.reduceToNat]
      omega
    dsimp only
    rw [addChecked_eq ha, hcost]
  | some p =>
    rw [hp] at ht
    dsimp only at ht ⊢
    cases hg : p.predicateGas (hashSliceToBytes t.storageKeys) with
    | error e =>
      rw [hg] at ht
      cases ht
    | ok x =>
      rw [hg] at ht
      cases ht
      dsimp only
      rw [addChecked_eq ha]

theorem accessTupleStep_of_error (rules : Rules ε) {t : AccessTuple} {e : ε}
    (ht : tupleGas rules t = .error e) (gas : UInt64) :
    accessTupleStep rules.extra gas t = .error (.predicate e) := by
  unfold accessTupleStep
  unfold tupleGas at ht
  cases hp : rules.extra.predicaters t.address with
  | none =>
    rw [hp] at ht
    cases ht
  | some p =>
    rw [hp] at ht
    dsimp only at ht ⊢
    cases hg : p.predicateGas (hashSliceToBytes t.storageKeys) with
    | error e' =>
      rw [hg] at ht
      cases ht
      rfl
    | ok x =>
      rw [hg] at ht
      cases ht

theorem foldlM_accessTupleStep_of_ok (rules : Rules ε) {l : List AccessTuple} {ns : List ℕ}
    (hns : List.Forall₂ (fun t n => tupleGas rules t = .ok n) l ns)
    (hk : ∀ t ∈ l, t.storageKeys.length < 2^32) :
    ∀ {a : ℕ}, a < 2^64 → l.foldlM (accessTupleStep rules.extra) (UInt64.ofNat a) =
      if a + ns.sum < 2^64 then .ok (UInt64.ofNat (a + ns.sum)) else .error .gasUintOverflow := by
  induction hns with
  | nil =>
    intro a ha
    rw [List.foldlM_nil, List.sum_nil, Nat.add_zero, if_pos ha]
    rfl
  | @cons t n l ns ht _ ih =>
    intro a ha
    rw [List.foldlM_cons, accessTupleStep_of_ok rules ht (hk t (by simp)) ha, List.sum_cons]
    -- the partial sums only grow, so an early overflow is an overflow of the whole
    by_cases h : a + n < 2^64
    · rw [if_pos h]
      simp only [← Nat.add_assoc]
      exact ih (fun t ht => hk t (by simp [ht])) h
    · rw [if_neg h, if_neg (by omega)]
      rfl

theorem foldlM_accessTupleStep_of_error (rules : Rules ε) {oks rest : List AccessTuple}
    {t : AccessTuple} {ns : List ℕ} {e : ε}
    (hns : List.Forall₂ (fun t n => tupleGas rules t = .ok n) oks ns)
    (ht : tupleGas rules t = .error e) (hk : ∀ t ∈ oks, t.storageKeys.length < 2^32) :
    ∀ {a : ℕ}, a < 2^64 → (oks ++ t :: rest).foldlM (accessTupleStep rules.extra) (UInt64.ofNat a) =
      if a + ns.sum < 2^64 then .error (.predicate e) else .error .gasUintOverflow := by
  induction hns with
  | nil =>
    intro a ha
    rw [List.nil_append, List.foldlM_cons, accessTupleStep_of_error rules ht, List.sum_nil,
      Nat.add_zero, if_pos ha]
    rfl
  | @cons t' n l ns ht' _ ih =>
    intro a ha
    rw [List.cons_append, List.foldlM_cons, accessTupleStep_of_ok rules ht' (hk t' (by simp)) ha,
      List.sum_cons]
    by_cases h : a + n < 2^64
    · rw [if_pos h]
      simp only [← Nat.add_assoc]
      exact ih (fun t ht => hk t (by simp [ht])) h
    · rw [if_neg h, if_neg (by omega)]
      rfl

theorem tupleGas_of_not_exist {rules : Rules ε} (h : rules.extra.predicatersExist = false)
    (t : AccessTuple) : tupleGas rules t = .ok (2400 + t.storageKeys.length * 1900) := by
  unfold tupleGas
  cases hp : rules.extra.predicaters t.address with
  | none => rfl
  | some p => exact absurd (rules.extra.exist_of_predicater _ _ hp) (by rw [h]; decide)

theorem predicatersExist_of_tupleGas_error {rules : Rules ε} {t : AccessTuple} {e : ε}
    (ht : tupleGas rules t = .error e) : rules.extra.predicatersExist = true := by
  cases h : rules.extra.predicatersExist
  · rw [tupleGas_of_not_exist h] at ht
    cases ht
  · rfl

theorem sum_of_not_exist {rules : Rules ε} (h : rules.extra.predicatersExist = false)
    {l : List AccessTuple} {ns : List ℕ}
    (hns : List.Forall₂ (fun t n => tupleGas rules t = .ok n) l ns) :
    ns.sum = l.length * 2400 + storageKeys l * 1900 := by
  induction hns with
  | nil => rfl
  | @cons t n l ns ht _ ih =>
    rw [tupleGas_of_not_exist h] at ht
    cases ht
    simp only [List.sum_cons, ih, List.length_cons, storageKeys, List.map_cons]
    ring

/-- Without predicaters the two unchecked products cannot wrap for fewer than
`2^32` tuples and keys. -/
theorem accessListGas_of_not_exist {rules : Rules ε} (h : rules.extra.predicatersExist = false)
    {l : List AccessTuple} (hl : l.length < 2^32) (hk : storageKeys l < 2^32) :
    accessListGas rules l = .ok (UInt64.ofNat (l.length * 2400 + storageKeys l * 1900)) := by
  unfold accessListGas
  simp only [h, Bool.not_false, if_true]
  congr 1
  rw [← UInt64.toNat_inj, UInt64.toNat_ofNat_of_lt' (by change _ < 18446744073709551616; omega)]
  simp only [UInt64.toNat_add, UInt64.toNat_mul, UInt64.toNat_zero,
    UInt64.toNat_ofNat_of_lt' (lt_trans hl (by decide)),
    UInt64.toNat_ofNat_of_lt' (lt_trans hk (by decide)),
    TxAccessListAddressGas, TxAccessListStorageKeyGas, UInt64.reduceToNat]
  omega

theorem length_storageKeys_le {l : List AccessTuple} {t : AccessTuple} (ht : t ∈ l) :
    t.storageKeys.length ≤ storageKeys l :=
  List.le_sum_of_mem (List.mem_map_of_mem ht)

end AccessList

/-! ## `IntrinsicGas` is exact -/

section Exact

variable {ε : Type}

theorem intrinsicGas_eq (data : List UInt8) (accessList : Option (List AccessTuple))
    (isContractCreation : Bool) (rules : Rules ε) (hdata : data.length < 2^64) :
    intrinsicGas data accessList isContractCreation rules =
      if exactDataGas data isContractCreation rules < 2^64 then
        match accessList with
        | none => .ok (UInt64.ofNat (exactDataGas data isContractCreation rules))
        | some l => accessListGas rules l >>= addChecked (UInt64.ofNat (exactDataGas data isContractCreation rules))
      else .error .gasUintOverflow := by
  have hbase : (if isContractCreation && rules.isHomestead then TxGasContractCreation else TxGas) =
      UInt64.ofNat (if isContractCreation && rules.isHomestead then 53000 else 21000) := by
    split <;> rfl
  unfold intrinsicGas
  rw [hbase]
  dsimp only
  rw [dataGas_eq data isContractCreation rules (by split <;> decide) hdata]
  unfold exactDataGas
  generalize (if (isContractCreation && rules.isHomestead) = true then 53000 else 21000) +
    exactDataCharge data isContractCreation rules = gas
  by_cases h : gas < 2^64
  · rw [if_pos h, if_pos h]
    cases accessList <;> rfl
  · rw [if_neg h, if_neg h]
    rfl

theorem accessListGas_bind_of_ok {rules : Rules ε} {gas : ℕ} (hgas : gas < 2^64) {l : List AccessTuple}
    (hl : l.length < 2^32) (hk : storageKeys l < 2^32) {ns : List ℕ}
    (hns : List.Forall₂ (fun t n => tupleGas rules t = .ok n) l ns) :
    accessListGas rules l >>= addChecked (UInt64.ofNat gas) =
      if gas + ns.sum < 2^64 then .ok (UInt64.ofNat (gas + ns.sum)) else .error .gasUintOverflow := by
  have hkt : ∀ t ∈ l, t.storageKeys.length < 2^32 :=
    fun t ht => lt_of_le_of_lt (length_storageKeys_le ht) hk
  cases hex : rules.extra.predicatersExist
  · -- no predicaters: the plain charge, whose products cannot wrap
    have hsum := sum_of_not_exist hex hns
    rw [accessListGas_of_not_exist hex hl hk, ← hsum]
    exact addChecked_eq hgas _ |>.trans (by
      rw [UInt64.toNat_ofNat_of_lt' (by rw [hsum]; change _ < 18446744073709551616; omega)])
  · -- the predicater loop adds the tuple charges with `SafeAdd`
    unfold accessListGas
    simp only [hex, Bool.not_true, Bool.false_eq_true, if_false]
    rw [show (0 : UInt64) = UInt64.ofNat 0 from rfl,
      foldlM_accessTupleStep_of_ok rules hns hkt (show 0 < 2^64 by decide), Nat.zero_add]
    by_cases hsum : ns.sum < 2^64
    · rw [if_pos hsum]
      exact addChecked_eq hgas _ |>.trans (by rw [UInt64.toNat_ofNat_of_lt' hsum])
    · rw [if_neg hsum, if_neg (by omega)]
      rfl

theorem accessListGas_bind_of_error {rules : Rules ε} {gas : ℕ} {oks rest : List AccessTuple}
    {t : AccessTuple} {ns : List ℕ} {e : ε} (hk : storageKeys (oks ++ t :: rest) < 2^32)
    (hns : List.Forall₂ (fun t n => tupleGas rules t = .ok n) oks ns) (ht : tupleGas rules t = .error e) :
    accessListGas rules (oks ++ t :: rest) >>= addChecked (UInt64.ofNat gas) =
      if ns.sum < 2^64 then .error (.predicate e) else .error .gasUintOverflow := by
  have hkt : ∀ t ∈ oks, t.storageKeys.length < 2^32 :=
    fun t' ht' => lt_of_le_of_lt (length_storageKeys_le (List.mem_append_left _ ht')) hk
  unfold accessListGas
  simp only [predicatersExist_of_tupleGas_error ht, Bool.not_true, Bool.false_eq_true, if_false]
  rw [show (0 : UInt64) = UInt64.ofNat 0 from rfl,
    foldlM_accessTupleStep_of_error rules hns ht hkt (show 0 < 2^64 by decide), Nat.zero_add]
  by_cases hsum : ns.sum < 2^64
  · rw [if_pos hsum]
    rfl
  · rw [if_neg hsum]
    rfl

/-- **`IntrinsicGas` is exact or rejected.** For every data payload, access
list of fewer than `2^32` tuples and keys, creation flag and rules: when every
tuple's charge is known, `IntrinsicGas` returns `ErrGasUintOverflow` exactly
when the exact sum of the charges exceeds `2^64 - 1` and otherwise that sum;
when the predicater of a tuple fails, it returns that error unless the
charges before it already overflowed. A Go slice's length fits a `uint64`. -/
theorem intrinsicGas_exact (data : List UInt8) (accessList : Option (List AccessTuple))
    (isContractCreation : Bool) (rules : Rules ε) (hdata : data.length < 2^64)
    (hal : ∀ l, accessList = some l → l.length < 2^32 ∧ storageKeys l < 2^32) :
    (∀ ns : List ℕ, List.Forall₂ (fun t n => tupleGas rules t = .ok n) (accessList.getD []) ns →
      intrinsicGas data accessList isContractCreation rules =
        if exactDataGas data isContractCreation rules + ns.sum < 2^64 then
          .ok (UInt64.ofNat (exactDataGas data isContractCreation rules + ns.sum))
        else .error .gasUintOverflow) ∧
    ∀ (oks rest : List AccessTuple) (t : AccessTuple) (ns : List ℕ) (e : ε),
      accessList = some (oks ++ t :: rest) →
      List.Forall₂ (fun t n => tupleGas rules t = .ok n) oks ns → tupleGas rules t = .error e →
      intrinsicGas data accessList isContractCreation rules =
        if exactDataGas data isContractCreation rules < 2^64 ∧ ns.sum < 2^64 then
          .error (.predicate e)
        else .error .gasUintOverflow := by
  rw [intrinsicGas_eq data accessList isContractCreation rules hdata]
  generalize exactDataGas data isContractCreation rules = gas
  constructor
  · intro ns hns
    by_cases hgas : gas < 2^64
    · rw [if_pos hgas]
      cases accessList with
      | none =>
        rw [List.forall₂_nil_left_iff.mp hns, List.sum_nil, Nat.add_zero, if_pos hgas]
      | some l =>
        obtain ⟨hl, hk⟩ := hal l rfl
        exact accessListGas_bind_of_ok hgas hl hk hns
    · rw [if_neg hgas, if_neg (by omega)]
  · intro oks rest t ns e hacc hns ht
    subst hacc
    by_cases hgas : gas < 2^64
    · rw [if_pos hgas]
      refine (accessListGas_bind_of_error (hal _ rfl).2 hns ht).trans ?_
      by_cases hsum : ns.sum < 2^64
      · rw [if_pos hsum, if_pos ⟨hgas, hsum⟩]
      · rw [if_neg hsum, if_neg (fun h => hsum h.2)]
    · rw [if_neg hgas, if_neg (fun h => hgas h.1)]

def plainRules : Rules Empty :=
  ⟨true, true, ⟨false, false, fun _ => none, fun _ _ h => nomatch h⟩⟩

def warpRules : Rules Warp.PredicateGasError :=
  ⟨true, true, ⟨true, true,
    fun a => if a = Warp.ContractAddress then some ⟨Warp.predicateGas Warp.warpParsers⟩ else none,
    fun _ _ _ => rfl⟩⟩

/-- A call with one non-zero byte whose access list holds a plain tuple with
one key and the sample Warp message as a predicate: `21016`, `2400 + 1900` for
the tuple, and for the predicate a signature verification, `100` a byte of its
`192` packed bytes and `500` for its one signer. -/
theorem intrinsicGas_exact_warp_predicate :
    intrinsicGas [1] (some [⟨0, [0]⟩,
      ⟨Warp.ContractAddress, bytesToHashSlice (packPredicate Warp.sampleEnvelope.bytes)⟩]) false
      warpRules = .ok 245016 := by
  have hwarp : tupleGas warpRules
      ⟨Warp.ContractAddress, bytesToHashSlice (packPredicate Warp.sampleEnvelope.bytes)⟩ = .ok 219700 := by
    have hlen : (packPredicate Warp.sampleEnvelope.bytes).length = 192 := by
      rw [length_packPredicate]
      decide +kernel
    have hgas := Warp.predicateGas_eq_ok (unpackPredicate_packPredicate _)
      (Warp.parseEnvelope_bytes _ Warp.sampleEnvelope_wellFormed) Warp.parsePayload_sampleEnvelope
      (by decide) (by rw [hlen]; decide) (by decide)
    rw [hlen] at hgas
    simp only [tupleGas, warpRules, if_pos, hashSliceToBytes_bytesToHashSlice_packPredicate, hgas]
    rfl
  have hal : ∀ l, some [⟨0, [0]⟩,
      ⟨Warp.ContractAddress, bytesToHashSlice (packPredicate Warp.sampleEnvelope.bytes)⟩] = some l →
      l.length < 2^32 ∧ storageKeys l < 2^32 := by
    rintro _ ⟨⟩
    exact ⟨by decide, by decide +kernel⟩
  rw [(intrinsicGas_exact [1] _ false warpRules (by decide) hal).1 [4300, 219700]
    (.cons rfl (.cons hwarp .nil))]
  decide +kernel

end Exact

end LuxEvm.Core
