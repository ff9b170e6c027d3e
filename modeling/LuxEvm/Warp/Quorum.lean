import LuxEvm.Warp.Config
import Mathlib.Data.UInt
import Mathlib.Algebra.Order.BigOperators.Group.List
import Mathlib.Algebra.Group.Action.Defs

/-!
# The quorum `VerifyPredicate` checks

Over exact integers, the quorum a Warp message needs is stated on the
validator set alone: the keys that parse, each once in byte order, weigh the
summed weight of the validators holding them, the bitset selects keys by
position, and the selected weight must reach the quorum numerator's share of
the total weight of all validators.

The canonical set the code builds is exactly these keys, each with its weight
modulo `2^64`, whatever order the validator map is visited in. Its weight
check is then the exact quorum as long as the total weight stays below `2^64`.
-/

set_option autoImplicit false

namespace LuxEvm.Warp
open Lib.ByteString Lib.StateRel Predicate

/-! ## The quorum over exact integers -/

section Spec
variable {κ : Type} (parsePublicKey : List UInt8 → Except String κ)

/-- Whether the loop keeps an output's key: it is nonempty and parses. -/
def keepsKey (output : ValidatorOutput) : Bool :=
  output.publicKey.length > 0 && (parsePublicKey output.publicKey).isOk

/-- The keys of the canonical set: each key that is kept, once, in byte order. -/
def canonicalKeys (vdrOutputs : List ValidatorOutput) : List (List UInt8) :=
  (((vdrOutputs.filter (keepsKey parsePublicKey)).map (·.publicKey)).dedup).insertionSort keyLE

def exactKeyWeight (vdrOutputs : List ValidatorOutput) (k : List UInt8) : ℕ :=
  ((vdrOutputs.filter (·.publicKey = k)).map (·.weight.toNat)).sum

def exactTotalWeight (vdrOutputs : List ValidatorOutput) : ℕ :=
  (vdrOutputs.map (·.weight.toNat)).sum

/-- The weight of the entries a bitset selects: entry `i` counts when bit `i`
is set. -/
def selectedWeight (signers : Bits) (weights : List ℕ) : ℕ :=
  (((List.range signers.bitLen).filter signers.contains).map (weights.getD · 0)).sum

/-- The quorum over exact integers: `q * total ≤ 100 * signed`. -/
def ReachesQuorum (quorumNumerator : UInt64) (signers : Bits) (vdrOutputs : List ValidatorOutput) :
    Prop :=
  quorumNumerator.toNat*exactTotalWeight vdrOutputs ≤ WarpQuorumDenominator.toNat*
    selectedWeight signers ((canonicalKeys parsePublicKey vdrOutputs).map (exactKeyWeight vdrOutputs))

end Spec

/-! ## Byte order -/

instance : Std.Total keyLE := ⟨fun a b => compare_ne_gt_total a b⟩

instance : IsTrans (List UInt8) keyLE := ⟨fun _ _ _ hab hbc => compare_ne_gt_trans hab hbc⟩

instance : Std.Antisymm keyLE := ⟨fun _ _ hab hba => eq_of_compare_ne_gt hab hba⟩

theorem insertionSort_keyLE_eq_of_perm {xs ys : List (List UInt8)} (h : xs.Perm ys) :
    xs.insertionSort keyLE = ys.insertionSort keyLE := by
  apply List.Perm.eq_of_pairwise' (List.pairwise_insertionSort keyLE xs)
    (List.pairwise_insertionSort keyLE ys)
  exact (List.perm_insertionSort keyLE xs).trans (h.trans (List.perm_insertionSort keyLE ys).symm)

/-! ## Building and aggregating -/

theorem toNat_ofNat_of_lt {n : ℕ} (h : n < 2^64) : (UInt64.ofNat n).toNat = n := by
  rw [UInt64.toNat_ofNat']
  exact Nat.mod_eq_of_lt h

theorem sum_eq_ofNat (xs : List UInt64) : xs.sum = UInt64.ofNat (xs.map UInt64.toNat).sum := by
  induction xs with
  | nil => rfl
  | cons x xs ih => rw [List.sum_cons, ih, List.map_cons, List.sum_cons, UInt64.ofNat_add,
      UInt64.ofNat_toNat]

section Aggregate
variable {κ : Type} (parsePublicKey : List UInt8 → Except String κ)

theorem toValidator_weight (output : ValidatorOutput) :
    (toValidator parsePublicKey output).weight = output.weight := by
  unfold toValidator
  split_ifs
  · split <;> rfl
  · rfl

theorem toValidator_publicKeyBytes (output : ValidatorOutput) :
    (toValidator parsePublicKey output).publicKeyBytes =
      if keepsKey parsePublicKey output then output.publicKey else [] := by
  unfold toValidator keepsKey
  by_cases hl : output.publicKey.length > 0
  · cases hp : parsePublicKey output.publicKey <;> simp [hl, Except.isOk, Except.toBool]
  · simp [hl]

theorem toValidator_publicKey (output : ValidatorOutput)
    (h : (toValidator parsePublicKey output).publicKeyBytes ≠ []) :
    (toValidator parsePublicKey output).publicKey =
      (parsePublicKey (toValidator parsePublicKey output).publicKeyBytes).toOption := by
  unfold toValidator at h ⊢
  by_cases hl : output.publicKey.length > 0
  · cases hp : parsePublicKey output.publicKey <;> simp_all [Except.toOption]
  · simp_all

theorem keepsKey_of_publicKeyBytes {output : ValidatorOutput} {k : List UInt8}
    (h : (toValidator parsePublicKey output).publicKeyBytes = k) (hk : k ≠ []) :
    keepsKey parsePublicKey output = true ∧ output.publicKey = k := by
  rw [toValidator_publicKeyBytes] at h
  by_cases hkeep : keepsKey parsePublicKey output
  · exact ⟨hkeep, by simpa [hkeep] using h⟩
  · simp [hkeep] at h
    exact absurd h hk

theorem buildValidators_eq (vdrOutputs : List ValidatorOutput) :
    buildValidators parsePublicKey vdrOutputs =
      (vdrOutputs.map (toValidator parsePublicKey), (vdrOutputs.map (·.weight)).sum) := by
  have key : ∀ (l : List ValidatorOutput) (acc : List (Validator κ) × UInt64),
      l.foldl (fun acc output => (acc.1 ++ [toValidator parsePublicKey output], acc.2+output.weight))
        acc = (acc.1 ++ l.map (toValidator parsePublicKey), acc.2+(l.map (·.weight)).sum) := by
    intro l
    induction l with
    | nil => intro acc; simp
    | cons output l ih =>
      intro acc
      rw [List.foldl_cons, ih]
      simp [add_assoc]
  rw [buildValidators, key]
  simp

end Aggregate

section Entries
variable {κ : Type}

theorem aggregateByPublicKey_append (vs : List (Validator κ)) (v : Validator κ) :
    aggregateByPublicKey (vs ++ [v]) = aggregateStep (aggregateByPublicKey vs) v := by
  simp [aggregateByPublicKey]

theorem aggregateByPublicKey_fst (vs : List (Validator κ)) (k : List UInt8) (hk : k ≠ []) :
    (aggregateByPublicKey vs).1 k = ((vs.filter (·.publicKeyBytes = k)).map (·.weight)).sum := by
  induction vs using List.reverseRecOn with
  | nil => rfl
  | append_singleton vs v ih =>
    rw [aggregateByPublicKey_append, List.filter_append, List.map_append, List.sum_append, ← ih]
    unfold aggregateStep
    by_cases hv : v.publicKeyBytes.length = 0
    · have hne : v.publicKeyBytes ≠ k := by
        intro h
        rw [h, List.length_eq_zero_iff] at hv
        exact hk hv
      simp [hv, hne]
    · by_cases hvk : v.publicKeyBytes = k
      · subst hvk
        simp [hv]
      · simp [hv, hvk, Function.update_of_ne (Ne.symm hvk)]

/-- What `pkeyToValidator` holds after a run of the aggregation loop over
`vs`: each nonempty key of `vs` once, with a validator of `vs` holding it. -/
structure KeyedEntries (vs : List (Validator κ)) (entries : List (List UInt8 × Validator κ)) :
    Prop where
  nodup : (entries.map Prod.fst).Nodup
  mem_keys : ∀ k, k ∈ entries.map Prod.fst ↔ ∃ v ∈ vs, v.publicKeyBytes = k ∧ k ≠ []
  entry : ∀ e ∈ entries, e.2 ∈ vs ∧ e.2.publicKeyBytes = e.1

theorem lookup_isSome_iff (entries : List (List UInt8 × Validator κ)) (k : List UInt8) :
    (entries.lookup k).isSome = true ↔ k ∈ entries.map Prod.fst := by
  rw [List.lookup_isSome_iff]
  simp only [beq_iff_eq, List.mem_map]
  constructor
  · rintro ⟨p, hp, rfl⟩
    exact ⟨p, hp, rfl⟩
  · rintro ⟨p, hp, rfl⟩
    exact ⟨p, hp, rfl⟩

theorem KeyedEntries.of_present {vs : List (Validator κ)}
    {entries : List (List UInt8 × Validator κ)} (inv : KeyedEntries vs entries) (v : Validator κ)
    (hv : v.publicKeyBytes = [] ∨ v.publicKeyBytes ∈ entries.map Prod.fst) :
    KeyedEntries (vs ++ [v]) entries := by
  refine ⟨inv.nodup, fun k => ?_, fun e he => ?_⟩
  · rw [inv.mem_keys]
    constructor
    · rintro ⟨w, hw, hwk⟩
      exact ⟨w, List.mem_append_left _ hw, hwk⟩
    · rintro ⟨w, hw, hwk, hk⟩
      rcases List.mem_append.mp hw with hw | hw
      · exact ⟨w, hw, hwk, hk⟩
      · rw [List.mem_singleton.mp hw] at hwk
        rcases hv with hv | hv
        · exact absurd (hwk ▸ hv) hk
        · exact (inv.mem_keys k).mp (hwk ▸ hv)
  · exact ⟨List.mem_append_left _ (inv.entry e he).1, (inv.entry e he).2⟩

theorem KeyedEntries.push {vs : List (Validator κ)} {entries : List (List UInt8 × Validator κ)}
    (inv : KeyedEntries vs entries) (v : Validator κ) (hne : v.publicKeyBytes ≠ [])
    (hin : v.publicKeyBytes ∉ entries.map Prod.fst) :
    KeyedEntries (vs ++ [v]) (entries ++ [(v.publicKeyBytes, v)]) := by
  refine ⟨?_, fun k => ?_, fun e he => ?_⟩
  · simp only [List.map_append, List.map_cons, List.map_nil]
    rw [List.nodup_append]
    refine ⟨inv.nodup, List.nodup_singleton _, ?_⟩
    intro a ha b hb
    rw [List.mem_singleton.mp hb]
    rintro rfl
    exact hin ha
  · simp only [List.map_append, List.map_cons, List.map_nil, List.mem_append, List.mem_singleton,
      inv.mem_keys]
    constructor
    · rintro (⟨w, hw, hwk⟩ | rfl)
      · exact ⟨w, .inl hw, hwk⟩
      · exact ⟨v, .inr rfl, rfl, hne⟩
    · rintro ⟨w, hw | rfl, hwk, hk⟩
      · exact .inl ⟨w, hw, hwk, hk⟩
      · exact .inr hwk.symm
  · rcases List.mem_append.mp he with he | he
    · exact ⟨List.mem_append_left _ (inv.entry e he).1, (inv.entry e he).2⟩
    · rw [List.mem_singleton.mp he]
      exact ⟨List.mem_append_right _ (List.mem_singleton_self v), rfl⟩

theorem KeyedEntries.step {vs : List (Validator κ)} {entries : List (List UInt8 × Validator κ)}
    (inv : KeyedEntries vs entries) (pkeyToWeight : List UInt8 → UInt64) (v : Validator κ) :
    KeyedEntries (vs ++ [v]) (aggregateStep (pkeyToWeight, entries) v).2 := by
  unfold aggregateStep
  by_cases hv : v.publicKeyBytes.length = 0
  · simp only [hv, if_true]
    exact inv.of_present v (.inl (List.length_eq_zero_iff.mp hv))
  · simp only [hv, if_false]
    by_cases hin : v.publicKeyBytes ∈ entries.map Prod.fst
    · simp only [(lookup_isSome_iff entries _).mpr hin, if_true]
      exact inv.of_present v (.inr hin)
    · have hnone : (entries.lookup v.publicKeyBytes).isSome = false :=
        Bool.eq_false_iff.mpr fun h => hin ((lookup_isSome_iff _ _).mp h)
      simp only [hnone, Bool.false_eq_true, if_false]
      exact inv.push v (fun h => hv (by rw [h]; rfl)) hin
theorem keyedEntries_aggregateByPublicKey (vs : List (Validator κ)) :
    KeyedEntries vs (aggregateByPublicKey vs).2 := by
  induction vs using List.reverseRecOn with
  | nil => exact ⟨List.nodup_nil, by simp [aggregateByPublicKey], by simp [aggregateByPublicKey]⟩
  | append_singleton vs v ih =>
    rw [aggregateByPublicKey_append]
    exact ih.step _ v

end Entries

/-! ## The canonical set -/

section Canonical
variable {κ : Type} (parsePublicKey : List UInt8 → Except String κ)

theorem mem_canonicalKeys (vdrOutputs : List ValidatorOutput) (k : List UInt8) :
    k ∈ canonicalKeys parsePublicKey vdrOutputs ↔
      ∃ output ∈ vdrOutputs, keepsKey parsePublicKey output = true ∧ output.publicKey = k := by
  simp [canonicalKeys, List.mem_insertionSort, List.mem_dedup, and_assoc]

theorem ne_nil_of_keepsKey {output : ValidatorOutput} (h : keepsKey parsePublicKey output = true) :
    output.publicKey ≠ [] := by
  intro hnil
  simp [keepsKey, hnil] at h

theorem publicKeyBytes_eq_iff {output₀ : ValidatorOutput} (h₀ : keepsKey parsePublicKey output₀ = true)
    (output : ValidatorOutput) :
    (toValidator parsePublicKey output).publicKeyBytes = output₀.publicKey ↔
      output.publicKey = output₀.publicKey := by
  constructor
  · intro h
    exact (keepsKey_of_publicKeyBytes parsePublicKey h (ne_nil_of_keepsKey parsePublicKey h₀)).2
  · intro h
    have hkeep : keepsKey parsePublicKey output = true := by
      rw [← h₀]
      simp only [keepsKey, h]
    rw [toValidator_publicKeyBytes, if_pos hkeep, h]

theorem aggregate_weight (vdrOutputs : List ValidatorOutput) {output₀ : ValidatorOutput}
    (h₀ : keepsKey parsePublicKey output₀ = true) :
    (aggregateByPublicKey (vdrOutputs.map (toValidator parsePublicKey))).1 output₀.publicKey =
      UInt64.ofNat (exactKeyWeight vdrOutputs output₀.publicKey) := by
  rw [aggregateByPublicKey_fst _ _ (ne_nil_of_keepsKey parsePublicKey h₀), List.filter_map,
    List.map_map, sum_eq_ofNat, List.map_map]
  have hf : (vdrOutputs.filter ((fun v => decide (v.publicKeyBytes = output₀.publicKey)) ∘
      toValidator parsePublicKey)) = vdrOutputs.filter (·.publicKey = output₀.publicKey) := by
    apply List.filter_congr
    intro output _
    simp only [Function.comp_apply, publicKeyBytes_eq_iff parsePublicKey h₀ output]
  rw [hf, exactKeyWeight]
  congr 2
  apply List.map_congr_left
  intro output _
  simp [toValidator_weight]

/-- **The canonical set.** The code's canonical set is the list of canonical
keys, each with its parsed key and its summed weight modulo `2^64`. -/
theorem canonicalValidators_eq (vdrOutputs : List ValidatorOutput) :
    canonicalValidators (aggregateByPublicKey (buildValidators parsePublicKey vdrOutputs).1) =
      (canonicalKeys parsePublicKey vdrOutputs).map fun k =>
        ⟨(parsePublicKey k).toOption, k, UInt64.ofNat (exactKeyWeight vdrOutputs k)⟩ := by
  rw [buildValidators_eq]
  have inv := keyedEntries_aggregateByPublicKey (vdrOutputs.map (toValidator parsePublicKey))
  generalize hagg : aggregateByPublicKey (vdrOutputs.map (toValidator parsePublicKey)) = agg at inv
  have hkept : ∀ k ∈ agg.2.map Prod.fst,
      ∃ output ∈ vdrOutputs, keepsKey parsePublicKey output = true ∧ output.publicKey = k := by
    intro k hk
    obtain ⟨v, hv, hvk, hk0⟩ := (inv.mem_keys k).mp hk
    obtain ⟨output, ho, rfl⟩ := List.mem_map.mp hv
    exact ⟨output, ho, keepsKey_of_publicKeyBytes parsePublicKey hvk hk0⟩
  have hentries : agg.2.map (fun e => {e.2 with weight := agg.1 e.1}) =
      (agg.2.map Prod.fst).map fun k =>
        (⟨(parsePublicKey k).toOption, k, UInt64.ofNat (exactKeyWeight vdrOutputs k)⟩ :
          Validator κ) := by
    rw [List.map_map]
    apply List.map_congr_left
    rintro ⟨k, v⟩ he
    obtain ⟨hv, hvk⟩ := inv.entry _ he
    dsimp only at hv hvk
    obtain ⟨output₀, -, hkeep, rfl⟩ := hkept k (List.mem_map_of_mem he)
    obtain ⟨output, -, rfl⟩ := List.mem_map.mp hv
    have hne : (toValidator parsePublicKey output).publicKeyBytes ≠ [] := by
      rw [hvk]
      exact ne_nil_of_keepsKey parsePublicKey hkeep
    rw [← hagg, aggregate_weight parsePublicKey vdrOutputs hkeep]
    simp only [Function.comp_apply]
    rw [← hvk, ← toValidator_publicKey parsePublicKey output hne]
  have hkeys : (agg.2.map Prod.fst).insertionSort keyLE = canonicalKeys parsePublicKey vdrOutputs := by
    apply insertionSort_keyLE_eq_of_perm
    apply (List.perm_ext_iff_of_nodup inv.nodup (List.nodup_dedup _)).mpr
    intro k
    rw [List.mem_dedup]
    constructor
    · intro hk
      obtain ⟨output, ho, hkeep, rfl⟩ := hkept k hk
      exact List.mem_map.mpr ⟨output, List.mem_filter.mpr ⟨ho, hkeep⟩, rfl⟩
    · intro hk
      obtain ⟨output, ho, rfl⟩ := List.mem_map.mp hk
      obtain ⟨ho, hkeep⟩ := List.mem_filter.mp ho
      apply (inv.mem_keys _).mpr
      refine ⟨toValidator parsePublicKey output, List.mem_map_of_mem ho, ?_,
        ne_nil_of_keepsKey parsePublicKey hkeep⟩
      rw [toValidator_publicKeyBytes, if_pos hkeep]
  rw [canonicalValidators, hentries, ← hkeys]
  exact (List.map_insertionSort keyLE (fun a b : Validator κ => keyLE a.publicKeyBytes b.publicKeyBytes)
    _ _ fun _ _ _ _ => Iff.rfl).symm

theorem canonicalKeys_perm {vdrOutputs vdrOutputs' : List ValidatorOutput}
    (h : vdrOutputs.Perm vdrOutputs') :
    canonicalKeys parsePublicKey vdrOutputs = canonicalKeys parsePublicKey vdrOutputs' :=
  insertionSort_keyLE_eq_of_perm ((h.filter _).map _).dedup

theorem exactKeyWeight_perm {vdrOutputs vdrOutputs' : List ValidatorOutput}
    (h : vdrOutputs.Perm vdrOutputs') (k : List UInt8) :
    exactKeyWeight vdrOutputs k = exactKeyWeight vdrOutputs' k :=
  ((h.filter _).map _).sum_eq

theorem totalWeight_perm {vdrOutputs vdrOutputs' : List ValidatorOutput}
    (h : vdrOutputs.Perm vdrOutputs') :
    (buildValidators parsePublicKey vdrOutputs).2 = (buildValidators parsePublicKey vdrOutputs').2 := by
  rw [buildValidators_eq, buildValidators_eq]
  exact (h.map _).sum_eq

theorem canonicalValidators_perm {vdrOutputs vdrOutputs' : List ValidatorOutput}
    (h : vdrOutputs.Perm vdrOutputs') :
    canonicalValidators (aggregateByPublicKey (buildValidators parsePublicKey vdrOutputs).1) =
      canonicalValidators (aggregateByPublicKey (buildValidators parsePublicKey vdrOutputs').1) := by
  rw [canonicalValidators_eq, canonicalValidators_eq, canonicalKeys_perm parsePublicKey h]
  simp only [exactKeyWeight_perm h]

end Canonical

/-- **Iteration order.** The signature check gives one verdict for every
order in which the validator map is visited. -/
theorem verifySignatures_perm {κ σ : Type} (wv : WarpVerifier κ σ) (quorumNumerator : UInt64)
    (warpMsg : Envelope) {vdrOutputs vdrOutputs' : List ValidatorOutput}
    (h : vdrOutputs.Perm vdrOutputs') :
    verifySignatures wv quorumNumerator warpMsg vdrOutputs =
      verifySignatures wv quorumNumerator warpMsg vdrOutputs' := by
  unfold verifySignatures
  dsimp only
  rw [canonicalValidators_perm wv.parsePublicKey h, totalWeight_perm wv.parsePublicKey h]

/-! ## The signed weight -/

section SignedWeight
variable {κ : Type}

theorem foldlM_signedWeightStep (signers : Bits) (validators : List (Validator κ)) (is : List ℕ)
    (weight : UInt64) (his : ∀ i ∈ is, signers.contains i = true → i < validators.length) :
    is.foldlM (signedWeightStep signers validators) weight =
      if weight.toNat+((is.filter signers.contains).map
          ((validators.map (·.weight.toNat)).getD · 0)).sum < 2^64 then
        .ok (UInt64.ofNat (weight.toNat+((is.filter signers.contains).map
          ((validators.map (·.weight.toNat)).getD · 0)).sum))
      else .error .weightOverflow := by
  induction is generalizing weight with
  | nil =>
    simp only [List.foldlM_nil, List.filter_nil, List.map_nil, List.sum_nil, Nat.add_zero,
      if_pos (UInt64.toNat_lt weight), UInt64.ofNat_toNat]
    rfl
  | cons i is ih =>
    have his' : ∀ j ∈ is, signers.contains j = true → j < validators.length :=
      fun j hj => his j (List.mem_cons_of_mem i hj)
    rw [List.foldlM_cons]
    by_cases hc : signers.contains i = true
    · -- a set bit within the list adds its validator's weight, unless that overflows
      have hi : i < validators.length := his i List.mem_cons_self hc
      have hw : (validators.map (·.weight.toNat)).getD i 0 = validators[i].weight.toNat := by
        simp [hi]
      simp only [signedWeightStep, hc, Bool.not_true, Bool.false_eq_true, if_false,
        List.getElem?_eq_getElem hi, safeAdd, List.filter_cons_of_pos hc, List.map_cons,
        List.sum_cons, hw]
      by_cases hov : 2^64 ≤ weight.toNat+validators[i].weight.toNat
      · have hs : ¬weight.toNat+(validators[i].weight.toNat+((is.filter signers.contains).map
            ((validators.map (·.weight.toNat)).getD · 0)).sum) < 2^64 := by omega
        simp only [hov, decide_true, if_true, if_neg hs]
        rfl
      · have hadd : (weight+validators[i].weight).toNat = weight.toNat+validators[i].weight.toNat := by
          rw [UInt64.toNat_add]
          exact Nat.mod_eq_of_lt (by omega)
        simp only [hov, decide_false, Bool.false_eq_true, if_false]
        show is.foldlM (signedWeightStep signers validators) (weight+validators[i].weight) = _
        rw [ih _ his', hadd, Nat.add_assoc]
    · simp only [Bool.not_eq_true] at hc
      simp only [signedWeightStep, hc, Bool.not_false, if_true,
        List.filter_cons_of_neg (by simp [hc] : ¬signers.contains i = true)]
      exact ih _ his'

theorem beamSignedWeight_eq (beam : BitSetSignature) (validators : List (Validator κ))
    (h : beam.signers.highestSetBit ≤ validators.length) :
    beamSignedWeight beam validators =
      if selectedWeight beam.signers (validators.map (·.weight.toNat)) < 2^64 then
        .ok (UInt64.ofNat (selectedWeight beam.signers (validators.map (·.weight.toNat))))
      else .error .weightOverflow := by
  have his : ∀ i ∈ List.range beam.signers.bitLen, beam.signers.contains i = true →
      i < validators.length :=
    fun i _ hc => lt_of_lt_of_le (lt_bitLen_of_contains hc) h
  simp only [beamSignedWeight, gt_iff_lt, not_lt.mpr h, if_false,
    foldlM_signedWeightStep _ _ _ _ his, selectedWeight]
  simp

theorem selectedWeight_le_sum (signers : Bits) (ws : List ℕ) : selectedWeight signers ws ≤ ws.sum := by
  have hrange : ∀ n, ((List.range n).map (ws.getD · 0)).sum = (ws.take n).sum := by
    intro n
    induction n with
    | zero => simp
    | succ n ih =>
      rw [List.range_succ, List.map_append, List.sum_append, ih, List.take_add_one, List.sum_append,
        List.map_singleton, List.sum_singleton, List.getD_eq_getElem?_getD]
      cases ws[n]? <;> simp
  calc selectedWeight signers ws
      ≤ ((List.range signers.bitLen).map (ws.getD · 0)).sum :=
        (List.filter_sublist.map _).sum_le_sum fun _ _ => Nat.zero_le _
    _ = (ws.take signers.bitLen).sum := hrange _
    _ ≤ ws.sum := (List.take_sublist _ _).sum_le_sum fun _ _ => Nat.zero_le _

end SignedWeight

/-! ## The weight check -/

theorem exactKeyWeight_le (vdrOutputs : List ValidatorOutput) (k : List UInt8) :
    exactKeyWeight vdrOutputs k ≤ exactTotalWeight vdrOutputs :=
  (List.filter_sublist.map _).sum_le_sum fun _ _ => Nat.zero_le _

theorem sum_exactKeyWeight_le (vdrOutputs : List ValidatorOutput) (keys : List (List UInt8))
    (hkeys : keys.Nodup) :
    (keys.map (exactKeyWeight vdrOutputs)).sum ≤ exactTotalWeight vdrOutputs := by
  induction vdrOutputs with
  | nil =>
    have hzero : exactKeyWeight [] = fun _ => 0 := rfl
    simp [hzero, exactTotalWeight]
  | cons output vdrOutputs ih =>
    have hsplit : exactKeyWeight (output :: vdrOutputs) = fun k =>
        (if output.publicKey = k then output.weight.toNat else 0)+exactKeyWeight vdrOutputs k := by
      funext k
      by_cases h : output.publicKey = k <;> simp [exactKeyWeight, h]
    have hone : (keys.map fun k => if output.publicKey = k then output.weight.toNat else 0).sum ≤
        output.weight.toNat := by
      rw [List.sum_map_eq_nsmul_single output.publicKey _ fun k hk _ => by simp [Ne.symm hk]]
      have hcount := (@List.nodup_iff_count_le_one _ instBEqOfDecidableEq _ keys).mp hkeys
        output.publicKey
      simp only [if_true, smul_eq_mul]
      exact Nat.le_trans (Nat.mul_le_mul_right _ hcount) (Nat.one_mul _).le
    rw [hsplit, List.sum_map_add]
    simp only [exactTotalWeight, List.map_cons, List.sum_cons] at ih ⊢
    omega

section Verify
variable {κ σ : Type} (wv : WarpVerifier κ σ)

theorem verifyQuorum_ok_iff (hw : wv.verifyWeight = documentedVerifyWeight) (quorumNumerator : UInt64)
    (beam : BitSetSignature) (totalWeight : UInt64) (canonical : List (Validator κ)) :
    verifyQuorum wv quorumNumerator beam totalWeight canonical = .ok () ↔
      beam.signers.highestSetBit ≤ canonical.length ∧
      selectedWeight beam.signers (canonical.map (·.weight.toNat)) < 2^64 ∧
      quorumNumerator.toNat*totalWeight.toNat ≤
        WarpQuorumDenominator.toNat*selectedWeight beam.signers (canonical.map (·.weight.toNat)) := by
  unfold verifyQuorum
  by_cases hb : beam.signers.highestSetBit ≤ canonical.length
  · rw [beamSignedWeight_eq beam canonical hb]
    by_cases hs : selectedWeight beam.signers (canonical.map (·.weight.toNat)) < 2^64
    · have hq : ∀ a b c d : ℕ, a*b ≤ c*d ↔ b*a ≤ d*c := by
        intro a b c d
        rw [Nat.mul_comm a, Nat.mul_comm c]
      rw [if_pos hs, mapError_ok, ok_bind, hw, documentedVerifyWeight, toNat_ofNat_of_lt hs]
      by_cases hv : totalWeight.toNat*quorumNumerator.toNat ≤
          selectedWeight beam.signers (canonical.map (·.weight.toNat))*WarpQuorumDenominator.toNat
      · rw [if_pos hv, mapError_ok]
        exact iff_of_true rfl ⟨hb, hs, (hq _ _ _ _).mp hv⟩
      · rw [if_neg hv, mapError_error]
        exact iff_of_false (by rintro ⟨⟩) fun h => hv ((hq _ _ _ _).mpr h.2.2)
    · rw [if_neg hs, mapError_error, error_bind]
      exact iff_of_false (by rintro ⟨⟩) fun h => hs h.2.1
  · have herr : beamSignedWeight beam canonical = .error (.signerIndexExceeds
        (beam.signers.highestSetBit-1) canonical.length) := by
      simp [beamSignedWeight, lt_of_not_ge hb]
    rw [herr, mapError_error, error_bind]
    exact iff_of_false (by rintro ⟨⟩) fun h => hb h.1

/-- **The weight check is the exact quorum below `2^64`.** While the weights
of the validator set sum below `2^64`, the weight check passes exactly when
the bitset stays within the canonical keys and the exact quorum holds. -/
theorem verifyQuorum_iff_reachesQuorum (hw : wv.verifyWeight = documentedVerifyWeight)
    (quorumNumerator : UInt64) (beam : BitSetSignature) (vdrOutputs : List ValidatorOutput)
    (hsum : exactTotalWeight vdrOutputs < 2^64) :
    verifyQuorum wv quorumNumerator beam (buildValidators wv.parsePublicKey vdrOutputs).2
        (canonicalValidators (aggregateByPublicKey (buildValidators wv.parsePublicKey vdrOutputs).1)) =
      .ok () ↔
    beam.signers.highestSetBit ≤ (canonicalKeys wv.parsePublicKey vdrOutputs).length ∧
      ReachesQuorum wv.parsePublicKey quorumNumerator beam.signers vdrOutputs := by
  have hweights : (canonicalValidators (aggregateByPublicKey
      (buildValidators wv.parsePublicKey vdrOutputs).1)).map (·.weight.toNat) =
      (canonicalKeys wv.parsePublicKey vdrOutputs).map (exactKeyWeight vdrOutputs) := by
    rw [canonicalValidators_eq, List.map_map]
    apply List.map_congr_left
    intro k _
    exact toNat_ofNat_of_lt (lt_of_le_of_lt (exactKeyWeight_le _ _) hsum)
  have htotal : (buildValidators wv.parsePublicKey vdrOutputs).2.toNat = exactTotalWeight vdrOutputs := by
    rw [buildValidators_eq, sum_eq_ofNat, List.map_map]
    exact toNat_ofNat_of_lt hsum
  have hnodup : (canonicalKeys wv.parsePublicKey vdrOutputs).Nodup :=
    (List.perm_insertionSort keyLE _).nodup_iff.mpr (List.nodup_dedup _)
  -- the selected keys are distinct, so their weights stay below the total
  have hsel : selectedWeight beam.signers ((canonicalKeys wv.parsePublicKey vdrOutputs).map
      (exactKeyWeight vdrOutputs)) < 2^64 :=
    calc _ ≤ ((canonicalKeys wv.parsePublicKey vdrOutputs).map (exactKeyWeight vdrOutputs)).sum :=
          selectedWeight_le_sum _ _
      _ ≤ exactTotalWeight vdrOutputs := sum_exactKeyWeight_le _ _ hnodup
      _ < 2^64 := hsum
  have hlen : (canonicalValidators (aggregateByPublicKey
      (buildValidators wv.parsePublicKey vdrOutputs).1)).length =
      (canonicalKeys wv.parsePublicKey vdrOutputs).length := by
    rw [canonicalValidators_eq, List.length_map]
  rw [verifyQuorum_ok_iff wv hw, hweights, htotal, hlen, ReachesQuorum]
  constructor
  · rintro ⟨hb, -, hq⟩
    exact ⟨hb, hq⟩
  · rintro ⟨hb, hq⟩
    exact ⟨hb, hsel, hq⟩

end Verify

/-! ## `VerifyPredicate` -/

theorem quorumNumeratorOrDefault_bounds (c : Config) (isDurango : UInt64 → Bool)
    (h : c.verify isDurango = .ok ()) :
    WarpQuorumNumeratorMinimum ≤ c.quorumNumeratorOrDefault ∧
      c.quorumNumeratorOrDefault ≤ WarpQuorumDenominator := by
  unfold Config.verify at h
  split_ifs at h with h₁ h₂ h₃
  unfold Config.quorumNumeratorOrDefault
  by_cases h0 : c.quorumNumerator = 0
  · simp only [h0, bne_self_eq_false, Bool.false_eq_true, if_false]
    decide
  · simp only [Bool.and_eq_true, bne_iff_ne, ne_eq, h0, not_false_eq_true, true_and,
      decide_eq_true_eq] at h₃
    simp only [h0, bne_iff_ne, ne_eq, not_false_eq_true, if_true]
    rw [gt_iff_lt, UInt64.lt_iff_toNat_lt] at h₂
    rw [UInt64.lt_iff_toNat_lt] at h₃
    rw [UInt64.le_iff_toNat_le, UInt64.le_iff_toNat_le]
    omega

structure ValidatorState.SameSets (a b : ValidatorState) : Prop where
  getNetworkID : a.getNetworkID = b.getNetworkID
  getValidatorSet : ∀ height chainID,
    a.getValidatorSet height chainID = b.getValidatorSet height chainID ∨
    ∃ l l', a.getValidatorSet height chainID = .ok l ∧ b.getValidatorSet height chainID = .ok l' ∧
      l.Perm l'

/-- **Iteration order.** `VerifyPredicate` gives one verdict for validator
states that report the same sets in different orders. -/
theorem verifyPredicate_sameSets {κ σ : Type} (c : Config) (parsers : WarpParsers)
    (wv : WarpVerifier κ σ) (primaryNetworkID platformChainID : Hash) (ctx : PredicateContext)
    {a b : ValidatorState} (hab : a.SameSets b) (predicateBytes : List UInt8) :
    c.verifyPredicate parsers wv primaryNetworkID platformChainID {ctx with validatorState := some a}
      predicateBytes =
    c.verifyPredicate parsers wv primaryNetworkID platformChainID {ctx with validatorState := some b}
      predicateBytes := by
  unfold Config.verifyPredicate
  cases unpackPredicate predicateBytes with
  | error e => rfl
  | ok unpacked =>
    simp only [mapError_ok, ok_bind]
    cases parsers.parseEnvelope unpacked with
    | error e => rfl
    | ok warpMsg =>
      simp only [mapError_ok, ok_bind, hab.getNetworkID]
      split
      · rfl
      · cases b.getNetworkID warpMsg.message.sourceChainID with
        | error e => rfl
        | ok sourceNetworkID =>
          simp only [mapError_ok, ok_bind]
          rcases hab.getValidatorSet ctx.pChainHeight (c.requestedChainID primaryNetworkID
            platformChainID sourceNetworkID warpMsg.message.sourceChainID ctx.chainID) with
            h | ⟨l, l', hl, hl', hperm⟩
          · rw [h]
          · rw [hl, hl', mapError_ok, mapError_ok, ok_bind, ok_bind,
              verifySignatures_perm wv _ warpMsg hperm]

/-! ## A total weight past `2^64` -/

/-- The compressed generator of BLS12-381's `G1`, the public key of the
secret key `1`. -/
def sampleKey : List UInt8 :=
  [0x97, 0xf1, 0xd3, 0xa7, 0x31, 0x97, 0xd7, 0x94, 0x26, 0x95, 0x63, 0x8c,
  0x4f, 0xa9, 0xac, 0x0f, 0xc3, 0x68, 0x8c, 0x4f, 0x97, 0x74, 0xb9, 0x05,
  0xa1, 0x4e, 0x3a, 0x3f, 0x17, 0x1b, 0xac, 0x58, 0x6c, 0x55, 0xe8, 0x3f,
  0xf9, 0x7a, 0x1a, 0xef, 0xfb, 0x3a, 0xf0, 0x0a, 0xdb, 0x22, 0xc6, 0xbb]

/-- The BLS operations of `luxfi/warp` as far as the sample exercises them: a
public key is its 48 compressed bytes, a signature its `BLSSignatureLen`
bytes, keys aggregate as their bytes in order, and a signature verifies when it
is one of `signed`, those the key holders made. `Message.ID()`, a digest not
computed here, is taken as `0` for the one message verified. -/
def blsVerifier (signed : List (List UInt8 × List UInt8 × List UInt8)) :
    WarpVerifier (List UInt8) (List UInt8) where
  parsePublicKey bs := if bs.length = 48 then .ok bs else .error "invalid public key length"
  aggregatePublicKeys pks := if pks = [] then .error "no public keys" else .ok pks.flatten
  signatureFromBytes bs :=
    if bs.length = BLSSignatureLen then .ok bs else .error "invalid signature length"
  verify pk sig bytes := signed.contains (pk, sig, bytes)
  beamSigningBytes d := encode 32 d.toNat
  messageID _ := 0
  verifyWeight := documentedVerifyWeight

def sampleVerifier : WarpVerifier (List UInt8) (List UInt8) :=
  blsVerifier [(sampleKey, sampleSignature, encode 32 0)]

/-- A validator with a key and weight `1`, and a keyless one of weight
`2^64-1`. -/
def wrappingValidatorSet : List ValidatorOutput := [⟨sampleKey, 1⟩, ⟨[], 0xFFFFFFFFFFFFFFFF⟩]

def wrappingContext : PredicateContext where
  networkID := 0
  validatorState := some ⟨fun _ => .ok 0, fun _ _ => .ok wrappingValidatorSet⟩
  chainID := 0
  pChainHeight := 0

/-- The total weight `2^64` wraps to `0`, so the sample envelope, signed by
the holder of `1` of it, passes the default quorum of `67%`. -/
theorem verifyPredicate_accepts_below_quorum :
    Config.verifyPredicate ⟨none, 0, false⟩ warpParsers sampleVerifier 0 0
      wrappingContext (packPredicate sampleEnvelope.bytes) = .ok () ∧
    exactTotalWeight wrappingValidatorSet = 2^64 ∧
    ¬ReachesQuorum sampleVerifier.parsePublicKey WarpDefaultQuorumNumerator ⟨1⟩
      wrappingValidatorSet := by
  refine ⟨?_, rfl, ?_⟩
  · unfold Config.verifyPredicate
    rw [unpackPredicate_packPredicate, mapError_ok, ok_bind, parseEnvelope_bytes _ sampleEnvelope_wellFormed,
      mapError_ok, ok_bind]
    decide
  · unfold ReachesQuorum
    decide

end LuxEvm.Warp
