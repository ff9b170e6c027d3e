import LuxEvm.Header.BlockGasCost
import Mathlib.Algebra.Order.Floor.Div
import Mathlib.Data.Rat.Floor

/-!
# The block fee

`Finalize` checks a block's gas cost against the one its parent implies, then
`verifyBlockFee` checks that the block paid for it: the effective tips, each
times its transaction's gas, buy at least the block gas cost at the block's base
fee. The purchase is a floor division by the base fee, so the check is exactly
`cost * baseFee ≤ Σ tip * gas` (`verifyBlockFee_eq_ok_iff`).

`EstimateRequiredTip` is the ceiling of `cost * baseFee / gasUsed`: the least tip
which, paid by every transaction alike, passes the check. One unit less fails
whenever the cost is positive.
-/

set_option autoImplicit false

namespace LuxEvm.Consensus

open CommonType Fee Lib.StateRel

/-- A receipt, with the field the fee check reads. -/
structure Receipt where
  gasUsed : UInt64

inductive BlockFeeError (ε : Type) where
  | invalidBaseFee (baseFee : Option ℤ)
  | invalidBlockGasCost (blockGasCost : Option ℤ)
  /-- `EffectiveGasTip` failed -/
  | tip (err : ε)
  /-- a run-time panic: a receipt without its transaction -/
  | indexOutOfRange
  | insufficientBlockGas (expected got : ℤ)

section BlockFee

variable {Tx ε : Type} (effectiveGasTip : Tx → ℤ → Except ε ℤ)

/-- The loop of `verifyBlockFee`: for each receipt, its transaction's effective tip
times the gas it used. -/
def totalBlockFee (baseFee : ℤ) : List Tx → List Receipt → Except (BlockFeeError ε) ℤ
  | _, [] => .ok 0
  | [], _ :: _ => .error .indexOutOfRange
  | tx :: txs, receipt :: receipts => do
    let txFeePremium ← (effectiveGasTip tx baseFee).mapError .tip
    let totalBlockFee ← totalBlockFee baseFee txs receipts
    return txFeePremium * receipt.gasUsed.toNat + totalBlockFee

/-- `DummyEngine.verifyBlockFee`: the gas the tips buy at the base fee covers the
required block gas cost. -/
def verifyBlockFee (modeSkipBlockFee : Bool) (baseFee requiredBlockGasCost : Option ℤ)
    (txs : List Tx) (receipts : List Receipt) : Except (BlockFeeError ε) Unit :=
  if modeSkipBlockFee then .ok ()
  else
    match baseFee with
    | none => .error (.invalidBaseFee none)
    | some baseFee =>
      if baseFee ≤ 0 then .error (.invalidBaseFee (some baseFee))
      else
        match requiredBlockGasCost with
        | none => .error (.invalidBlockGasCost none)
        | some requiredBlockGasCost =>
          -- `IsUint64`
          if requiredBlockGasCost < 0 ∨ 2^64 ≤ requiredBlockGasCost then
            .error (.invalidBlockGasCost (some requiredBlockGasCost))
          else
            match totalBlockFee effectiveGasTip baseFee txs receipts with
            | .error e => .error e
            | .ok totalBlockFee =>
              let blockGas := totalBlockFee / baseFee
              if blockGas < requiredBlockGasCost then
                .error (.insufficientBlockGas requiredBlockGasCost blockGas)
              else .ok ()

inductive FinalizeError (ε : Type) where
  | panic (p : Panic)
  | invalidBlockGasCost (blockGasCost expectedBlockGasCost : Option ℕ)
  | blockFee (e : BlockFeeError ε)

/-- `DummyEngine.Finalize`, with the fee config `GetFeeConfigAt` gives for the
parent: the block's gas cost is the one its parent implies (a missing cost counts
as a zero one), and after EVM activation the block paid for it. -/
def finalize (modeSkipHeader modeSkipBlockFee : Bool) (config : HeaderExtra.ChainConfig)
    (feeConfig : FeeConfig) (block parent : Header) (txs : List Tx) (receipts : List Receipt) :
    Except (FinalizeError ε) Unit :=
  if modeSkipHeader then .ok ()
  else
    match Fee.blockGasCost config feeConfig parent block.time with
    | .error p => .error (.panic p)
    | .ok expectedBlockGasCost =>
      let blockGasCost :=
        if block.blockGasCost = none ∧ expectedBlockGasCost = some 0 then some 0
        else block.blockGasCost
      if blockGasCost ≠ expectedBlockGasCost then
        .error (.invalidBlockGasCost blockGasCost expectedBlockGasCost)
      else if config.isEVM block.time then
        (verifyBlockFee effectiveGasTip modeSkipBlockFee (block.baseFee.map (↑))
          (blockGasCost.map (↑)) txs receipts).mapError .blockFee
      else .ok ()

def blockFeePaid (tips : List ℤ) (receipts : List Receipt) : ℤ :=
  (List.zipWith (fun t (r : Receipt) => t * (r.gasUsed.toNat : ℤ)) tips receipts).sum

def gasUsedTotal (receipts : List Receipt) : ℕ := (receipts.map fun r => r.gasUsed.toNat).sum

/-! ## The tips the block paid -/

theorem totalBlockFee_eq {baseFee : ℤ} {txs : List Tx} {tips : List ℤ}
    (htips : List.Forall₂ (fun tx t => effectiveGasTip tx baseFee = .ok t) txs tips)
    (receipts : List Receipt) (hlen : txs.length = receipts.length) :
    totalBlockFee effectiveGasTip baseFee txs receipts = .ok (blockFeePaid tips receipts) := by
  induction htips generalizing receipts with
  | nil =>
    cases receipts with
    | nil => rfl
    | cons r rs => simp at hlen
  | @cons tx t txs tips htip _ ih =>
    cases receipts with
    | nil => simp at hlen
    | cons r rs =>
      simp only [List.length_cons, Nat.add_right_cancel_iff] at hlen
      simp [totalBlockFee, htip, ih rs hlen, blockFeePaid]

theorem blockFeePaid_ge {tips : List ℤ} {receipts : List Receipt} (k : ℤ)
    (hlen : tips.length = receipts.length) (h : ∀ t ∈ tips, k ≤ t) :
    k * gasUsedTotal receipts ≤ blockFeePaid tips receipts := by
  induction tips generalizing receipts with
  | nil =>
    cases receipts with
    | nil => simp [blockFeePaid, gasUsedTotal]
    | cons r rs => simp at hlen
  | cons t tips ih =>
    cases receipts with
    | nil => simp at hlen
    | cons r rs =>
      simp only [List.length_cons, Nat.add_right_cancel_iff] at hlen
      have hrest := ih hlen fun t' ht' => h t' (List.mem_cons_of_mem t ht')
      have ht : k * r.gasUsed.toNat ≤ t * r.gasUsed.toNat :=
        mul_le_mul_of_nonneg_right (h t List.mem_cons_self) (Int.natCast_nonneg _)
      simp only [blockFeePaid, gasUsedTotal, List.zipWith_cons_cons, List.sum_cons, List.map_cons,
        Nat.cast_add, mul_add] at hrest ⊢
      exact add_le_add ht hrest

theorem blockFeePaid_of_forall_eq {tips : List ℤ} {receipts : List Receipt} (k : ℤ)
    (hlen : tips.length = receipts.length) (h : ∀ t ∈ tips, t = k) :
    blockFeePaid tips receipts = k * gasUsedTotal receipts := by
  induction tips generalizing receipts with
  | nil =>
    cases receipts with
    | nil => simp [blockFeePaid, gasUsedTotal]
    | cons r rs => simp at hlen
  | cons t tips ih =>
    cases receipts with
    | nil => simp at hlen
    | cons r rs =>
      simp only [List.length_cons, Nat.add_right_cancel_iff] at hlen
      have hrest := ih hlen fun t' ht' => h t' (List.mem_cons_of_mem t ht')
      simp only [blockFeePaid, gasUsedTotal, List.zipWith_cons_cons, List.sum_cons, List.map_cons,
        Nat.cast_add, mul_add] at hrest ⊢
      rw [hrest, h t List.mem_cons_self]

/-! ## The check -/

/-- **The fee check is an exact inequality**: for every positive base fee, cost
that is a word, and transactions whose tips are all defined. -/
theorem verifyBlockFee_eq_ok_iff {baseFee : ℤ} (hb : 0 < baseFee) {blockGasCost : ℕ}
    (hc : blockGasCost < 2^64) {txs : List Tx} {tips : List ℤ}
    (htips : List.Forall₂ (fun tx t => effectiveGasTip tx baseFee = .ok t) txs tips)
    (receipts : List Receipt) (hlen : txs.length = receipts.length) :
    verifyBlockFee effectiveGasTip false (some baseFee) (some blockGasCost) txs receipts = .ok () ↔
      blockGasCost * baseFee ≤ blockFeePaid tips receipts := by
  have hword : ¬((blockGasCost : ℤ) < 0 ∨ 2^64 ≤ (blockGasCost : ℤ)) := by omega
  simp only [verifyBlockFee, Bool.false_eq_true, ↓reduceIte, not_le.mpr hb, hword,
    totalBlockFee_eq effectiveGasTip htips receipts hlen]
  rw [← Int.le_ediv_iff_mul_le hb]
  split_ifs with hlt
  · simp only [false_iff, not_le]
    exact hlt
  · simp only [true_iff]
    exact not_lt.mp hlt

/-- **`Finalize` accepts exactly the blocks that carry the exact gas cost their
parent implies and pay for it**, for every verified fee config whose step fits a
word, after EVM activation. -/
theorem finalize_eq_ok_iff (config : HeaderExtra.ChainConfig) (feeConfig : FeeConfig)
    (block parent : Header) (hv : feeConfig.verify = .ok ()) (hevm : config.isEVM block.time = true)
    {lo hi step : ℤ} (hlo : feeConfig.minBlockGasCost = some lo)
    (hhi : feeConfig.maxBlockGasCost = some hi) (hstep : feeConfig.blockGasCostStep = some step)
    (hstep64 : step < 2^64) (hparent : ∀ p ∈ parent.blockGasCost, p ≤ hi) {baseFee : ℕ}
    (hb : 0 < baseFee) (hbase : block.baseFee = some baseFee) {txs : List Tx} {tips : List ℤ}
    (htips : List.Forall₂ (fun tx t => effectiveGasTip tx baseFee = .ok t) txs tips)
    (receipts : List Receipt) (hlen : txs.length = receipts.length) :
    finalize effectiveGasTip false false config feeConfig block parent txs receipts = .ok () ↔
      ∃ cost : ℕ, (cost : ℤ) = exactBlockGasCost lo hi step feeConfig.targetBlockRate.toNat
          (block.time.toNat - parent.time.toNat) parent.blockGasCost ∧
        (block.blockGasCost = some cost ∨ block.blockGasCost = none ∧ cost = 0) ∧
        (cost * baseFee : ℤ) ≤ blockFeePaid tips receipts := by
  obtain ⟨cost, hcost, hval⟩ :=
    blockGasCost_eq_exact config feeConfig parent block.time hv hevm hlo hhi hstep hstep64 hparent
  have hcost64 : cost < 2^64 := by
    have hle := exactBlockGasCost_le ((FeeConfig.inRange_of_verify hv).blockGasCost lo hlo hi hhi).2.1
      step feeConfig.targetBlockRate.toNat (block.time.toNat - parent.time.toNat) parent.blockGasCost
    have := ((FeeConfig.inRange_of_verify hv).blockGasCost lo hlo hi hhi).2.2
    omega
  have hcheck := verifyBlockFee_eq_ok_iff effectiveGasTip (by exact_mod_cast hb) hcost64 htips
    receipts hlen
  have hexact : ∀ c : ℕ, ((c : ℤ) = exactBlockGasCost lo hi step feeConfig.targetBlockRate.toNat
      (block.time.toNat - parent.time.toNat) parent.blockGasCost ↔ c = cost) := fun c => by
    rw [← hval, Nat.cast_inj]
  simp only [hexact, exists_eq_left, finalize, Bool.false_eq_true, ↓reduceIte, hcost, hevm, hbase,
    Option.map_some]
  cases hbc : block.blockGasCost with
  | none =>
    by_cases h0 : cost = 0
    · subst h0
      simpa [mapError_eq_ok] using hcheck
    · simp [h0]
  | some c =>
    by_cases hc : c = cost
    · subst hc
      simp [mapError_eq_ok, hcheck]
    · simp [hc]

end BlockFee

/-! ## The required tip -/

theorem ceil_div_eq_add_pred_div (a g : ℕ) (hg : 0 < g) : ⌈(a : ℚ) / g⌉₊ = (a + g - 1) / g := by
  rw [← Nat.ceilDiv_eq_add_pred_div]
  refine eq_of_forall_ge_iff fun n => ?_
  rw [Nat.ceil_le, ceilDiv_le_iff_le_mul hg, div_le_iff₀ (by exact_mod_cast hg), mul_comm]
  exact_mod_cast Iff.rfl

/-- After EVM activation, with both fee fields and some gas used, the estimate is
`⌈blockGasCost * baseFee / gasUsed⌉`. -/
theorem estimateRequiredTip_eq (config : HeaderExtra.ChainConfig) (header : Header)
    (hevm : config.isEVM header.time = true) {baseFee blockGasCost : ℕ}
    (hb : header.baseFee = some baseFee) (hc : header.blockGasCost = some blockGasCost)
    (hg : 0 < header.gasUsed.toNat) :
    estimateRequiredTip config header =
      .ok (some ⌈((blockGasCost * baseFee : ℕ) : ℚ) / header.gasUsed.toNat⌉₊) := by
  simp only [estimateRequiredTip, hevm, Bool.not_true, Bool.false_eq_true, ↓reduceIte, hb, hc,
    Nat.pos_iff_ne_zero.mp hg]
  rw [ceil_div_eq_add_pred_div _ _ hg]

theorem ceil_div_bounds (a g : ℕ) (hg : 0 < g) :
    a ≤ ⌈(a : ℚ) / g⌉₊ * g ∧ (0 < a → (⌈(a : ℚ) / g⌉₊ - 1) * g < a) := by
  have hg' : (0 : ℚ) < g := by exact_mod_cast hg
  constructor
  · have h := Nat.le_ceil ((a : ℚ) / g)
    rw [div_le_iff₀ hg'] at h
    exact_mod_cast h
  · intro ha
    have hpos : 0 < ⌈(a : ℚ) / g⌉₊ := Nat.ceil_pos.mpr (by positivity)
    have hlt : ⌈(a : ℚ) / g⌉₊ - 1 < ⌈(a : ℚ) / g⌉₊ := by omega
    have h := Nat.lt_ceil.mp hlt
    rw [lt_div_iff₀ hg'] at h
    exact_mod_cast h

section RequiredTip

variable {Tx ε : Type} (effectiveGasTip : Tx → ℤ → Except ε ℤ)

theorem block_fee_check_and_required_tip {baseFee blockGasCost : ℕ} (hb : 0 < baseFee)
    (hc : blockGasCost < 2^64) {txs : List Tx} {tips : List ℤ}
    (htips : List.Forall₂ (fun tx t => effectiveGasTip tx baseFee = .ok t) txs tips)
    (receipts : List Receipt) (hlen : txs.length = receipts.length) :
    (verifyBlockFee effectiveGasTip false (some baseFee) (some blockGasCost) txs receipts = .ok () ↔
      (blockGasCost * baseFee : ℤ) ≤ blockFeePaid tips receipts) ∧
    ∀ (config : HeaderExtra.ChainConfig) (header : Header), config.isEVM header.time = true →
      header.baseFee = some baseFee → header.blockGasCost = some blockGasCost →
      0 < header.gasUsed.toNat → gasUsedTotal receipts = header.gasUsed.toNat →
      estimateRequiredTip config header =
          .ok (some ⌈((blockGasCost * baseFee : ℕ) : ℚ) / header.gasUsed.toNat⌉₊) ∧
        ((∀ t ∈ tips, (⌈((blockGasCost * baseFee : ℕ) : ℚ) / header.gasUsed.toNat⌉₊ : ℤ) ≤ t) →
          verifyBlockFee effectiveGasTip false (some baseFee) (some blockGasCost) txs receipts =
            .ok ()) ∧
        (0 < blockGasCost →
          (∀ t ∈ tips, t = (⌈((blockGasCost * baseFee : ℕ) : ℚ) / header.gasUsed.toNat⌉₊ : ℤ) - 1) →
          verifyBlockFee effectiveGasTip false (some baseFee) (some blockGasCost) txs receipts ≠
            .ok ()) := by
  have hcheck := verifyBlockFee_eq_ok_iff effectiveGasTip (by exact_mod_cast hb) hc htips receipts hlen
  have htlen : tips.length = receipts.length := htips.length_eq.symm.trans hlen
  refine ⟨hcheck, fun config header hevm hbase hcost hg hgas => ?_⟩
  obtain ⟨hcover, hleast⟩ := ceil_div_bounds (blockGasCost * baseFee) header.gasUsed.toNat hg
  set E := ⌈((blockGasCost * baseFee : ℕ) : ℚ) / header.gasUsed.toNat⌉₊
  refine ⟨estimateRequiredTip_eq config header hevm hbase hcost hg, fun hge => ?_, fun hpos heq => ?_⟩
  · -- every transaction tipping at least the estimate covers the fee
    rw [hcheck]
    calc (blockGasCost * baseFee : ℤ) = ((blockGasCost * baseFee : ℕ) : ℤ) := by push_cast; rfl
      _ ≤ E * gasUsedTotal receipts := by rw [hgas]; exact_mod_cast hcover
      _ ≤ blockFeePaid tips receipts := blockFeePaid_ge E htlen hge
  · -- every transaction tipping one unit less falls short
    have hlt := hleast (Nat.mul_pos hpos hb)
    have hE : 1 ≤ E := by
      by_contra h0
      simp only [not_le, Nat.lt_one_iff] at h0
      simp [h0] at hcover
      omega
    rw [Ne, hcheck, blockFeePaid_of_forall_eq _ htlen heq, not_le]
    calc ((E : ℤ) - 1) * gasUsedTotal receipts = ((E - 1 : ℕ) : ℤ) * header.gasUsed.toNat := by
          rw [hgas, Nat.cast_sub hE, Nat.cast_one]
      _ < ((blockGasCost * baseFee : ℕ) : ℤ) := by exact_mod_cast hlt
      _ = blockGasCost * baseFee := by push_cast; rfl

theorem block_fee_check_one_transaction :
    (verifyBlockFee (fun (t : ℤ) _ => (.ok t : Except Unit ℤ)) false (some 1) (some 1) [1] [⟨1⟩] =
      .ok () ↔ ((1 : ℕ) * (1 : ℕ) : ℤ) ≤ blockFeePaid [1] [⟨1⟩]) :=
  (block_fee_check_and_required_tip (fun (t : ℤ) _ => (.ok t : Except Unit ℤ)) (by decide)
    (by decide) (List.Forall₂.cons rfl .nil) [⟨1⟩] rfl).1

end RequiredTip

end LuxEvm.Consensus
