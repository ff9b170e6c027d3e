import LuxEvm.Params.PrecompileUpgrade
import LuxEvm.Lib.Schedule

/-!
# Verified upgrade schedules

What `verifyPrecompileUpgrades` guarantees of each precompile key. The upgrades of
a key run its state machine (`Alternates`): each has a timestamp after the one
before and flips the key between enabled and disabled. The run starts from the
state the genesis config leaves, which the verifier records as enabled whatever
that config's own `Disable` says, or from disabled when there is none. So the
configs of a key are in activation order, and those due by a time alternate
from the first one on.

A genesis config that itself disables the precompile passes, and its schedule
then starts with a disable (`verified_schedule_starts_disabled`); with enabled
genesis configs the active configs alternate from enabled, and the precompile is
enabled exactly when an odd number of them are due.
-/

set_option autoImplicit false

namespace LuxEvm.Extras

open Lib.StateRel

section Alternation

variable {κ π : Type}

def CanFollow : Option LastUpgradeData → UInt64 → Bool → Prop
  | none, _, disable => disable = false
  | some l, timestamp, disable => l.blockTimestamp < timestamp ∧ disable = !l.disabled

/-- The upgrades of one key, in order, each following the one before. -/
def Alternates : Option LastUpgradeData → List (PrecompileConfig κ π) → Prop
  | _, [] => True
  | last, u :: rest => ∃ ts, u.timestamp = some ts ∧ CanFollow last ts u.isDisabled ∧
      Alternates (some ⟨ts, u.isDisabled⟩) rest

/-- When a config takes effect; `⊤` when never. -/
def PrecompileConfig.activationTime (c : PrecompileConfig κ π) : WithTop ℕ :=
  match c.timestamp with
  | none => ⊤
  | some ts => WithTop.some ts.toNat

def disabledIn : Option LastUpgradeData → Bool
  | none => true
  | some l => l.disabled

theorem Alternates.after {l : LastUpgradeData} {us : List (PrecompileConfig κ π)}
    (h : Alternates (some l) us) : ∀ u ∈ us, ∃ ts, u.timestamp = some ts ∧ l.blockTimestamp < ts := by
  induction us generalizing l with
  | nil => simp
  | cons u rest ih =>
    obtain ⟨ts, hts, ⟨hlt, -⟩, hrest⟩ := h
    intro v hv
    rcases List.mem_cons.mp hv with rfl | hv
    · exact ⟨ts, hts, hlt⟩
    · obtain ⟨ts', hts', hlt'⟩ := ih hrest v hv
      exact ⟨ts', hts', UInt64.lt_trans hlt hlt'⟩

theorem activationTime_lt {u v : PrecompileConfig κ π} {ts ts' : UInt64} (hu : u.timestamp = some ts)
    (hv : v.timestamp = some ts') (h : ts < ts') : u.activationTime < v.activationTime := by
  simp only [PrecompileConfig.activationTime, hu, hv]
  exact WithTop.coe_lt_coe.mpr (UInt64.lt_iff_toNat_lt.mp h)

theorem Alternates.pairwise_lt {last : Option LastUpgradeData} {us : List (PrecompileConfig κ π)}
    (h : Alternates last us) : us.Pairwise fun x y => x.activationTime < y.activationTime := by
  induction us generalizing last with
  | nil => exact List.Pairwise.nil
  | cons u rest ih =>
    obtain ⟨ts, hts, -, hrest⟩ := h
    refine List.Pairwise.cons (fun v hv => ?_) (ih hrest)
    obtain ⟨ts', hts', hlt⟩ := hrest.after v hv
    exact activationTime_lt hts hts' hlt

theorem Alternates.inOrder {last : Option LastUpgradeData} {us : List (PrecompileConfig κ π)}
    (h : Alternates last us) : Lib.Schedule.InOrder PrecompileConfig.activationTime us :=
  h.pairwise_lt.imp fun hlt => Or.inr hlt.le

theorem Alternates.isDisabled_getElem {last : Option LastUpgradeData}
    {us : List (PrecompileConfig κ π)} (h : Alternates last us) (i : ℕ) (hi : i < us.length) :
    us[i].isDisabled = (disabledIn last ^^ (i % 2 == 0)) := by
  induction us generalizing last i with
  | nil => simp at hi
  | cons u rest ih =>
    obtain ⟨ts, -, hflip, hrest⟩ := h
    have hu : u.isDisabled = !disabledIn last := by
      cases last with
      | none => exact hflip
      | some l => exact hflip.2
    cases i with
    | zero => simp [hu]
    | succ i =>
      have hpar : ((i+1) % 2 == 0) = !(i % 2 == 0) := by
        rcases Nat.mod_two_eq_zero_or_one i with h2 | h2 <;> simp [h2, Nat.succ_mod_two_eq_zero_iff]
      rw [List.getElem_cons_succ, ih hrest i (by simpa using hi), hpar]
      show (u.isDisabled ^^ (i % 2 == 0)) = (disabledIn last ^^ !(i % 2 == 0))
      rw [hu]
      cases disabledIn last <;> cases i % 2 == 0 <;> rfl

theorem Alternates.filter_forked_of_lt {l : LastUpgradeData} {us : List (PrecompileConfig κ π)}
    (h : Alternates (some l) us) {t : UInt64} (ht : t < l.blockTimestamp) :
    us.filter (fun u => isTimestampForked u.timestamp t) = [] := by
  refine List.filter_eq_nil_iff.mpr fun v hv => ?_
  obtain ⟨ts', hts', hlt⟩ := h.after v hv
  have : ¬ ts' ≤ t := fun hle => UInt64.lt_irrefl t (UInt64.lt_of_lt_of_le (UInt64.lt_trans ht hlt) hle)
  simp [isTimestampForked, hts', this]

theorem Alternates.filter_forked {last : Option LastUpgradeData} {us : List (PrecompileConfig κ π)}
    (h : Alternates last us) (t : UInt64) :
    Alternates last (us.filter fun u => isTimestampForked u.timestamp t) := by
  induction us generalizing last with
  | nil => trivial
  | cons u rest ih =>
    obtain ⟨ts, hts, hflip, hrest⟩ := h
    by_cases hdue : ts ≤ t
    · rw [List.filter_cons_of_pos (by simp [isTimestampForked, hts, hdue])]
      exact ⟨ts, hts, hflip, ih hrest⟩
    · rw [List.filter_cons_of_neg (by simp [isTimestampForked, hts, hdue]),
        hrest.filter_forked_of_lt (UInt64.not_le.mp hdue)]
      trivial

end Alternation

section Verify

variable {κ π : Type} [DecidableEq κ] (verifyConfig : PrecompileConfig κ π → Except String Unit)

omit [DecidableEq κ] in
theorem checkUpgrade_spec {i : ℕ} {last : Option LastUpgradeData} {prev : Option UInt64}
    {u : PrecompileConfig κ π} {ts : UInt64} (h : checkUpgrade i last prev u = .ok ts) :
    u.timestamp = some ts ∧ (∀ p ∈ prev, p ≤ ts) ∧ CanFollow last ts u.isDisabled := by
  cases hts : u.timestamp with
  | none => simp [checkUpgrade, hts] at h
  | some t =>
    -- a failed check throws, so `h` keeps the checks that passed
    cases prev <;> cases last <;> simp only [checkUpgrade, hts] at h <;> split_ifs at h <;>
      cases h <;> refine ⟨rfl, ?_, ?_⟩ <;> simp_all [CanFollow, UInt64.not_lt, UInt64.not_le]
    all_goals exact Bool.eq_not_iff.mpr (Ne.symm ‹_›)

theorem verifyUpgrades_cons {i : ℕ} {last : κ → Option LastUpgradeData} {prev : Option UInt64}
    {u : PrecompileConfig κ π} {rest : List (PrecompileConfig κ π)}
    (h : verifyUpgrades verifyConfig i last prev (u :: rest) = .ok ()) :
    ∃ ts, checkUpgrade i (last u.key) prev u = .ok ts ∧ verifyConfig u = .ok () ∧
      verifyUpgrades verifyConfig (i+1) (Function.update last u.key (some ⟨ts, u.isDisabled⟩))
        (some ts) rest = .ok () := by
  simp only [verifyUpgrades] at h
  cases hc : checkUpgrade i (last u.key) prev u with
  | error e => simp [hc] at h
  | ok ts =>
    cases hv : verifyConfig u with
    | error e => simp [hc, hv] at h
    | ok _ => exact ⟨ts, rfl, rfl, by simpa [hc, hv] using h⟩

/-- **The upgrades of every key run its state machine.** -/
theorem alternates_of_verifyUpgrades {i : ℕ} {last : κ → Option LastUpgradeData}
    {prev : Option UInt64} {us : List (PrecompileConfig κ π)}
    (h : verifyUpgrades verifyConfig i last prev us = .ok ()) (k : κ) :
    Alternates (last k) (us.filter (·.key = k)) := by
  induction us generalizing i last prev with
  | nil => trivial
  | cons u rest ih =>
    obtain ⟨ts, hc, -, hrest⟩ := verifyUpgrades_cons verifyConfig h
    obtain ⟨hts, -, hflip⟩ := checkUpgrade_spec hc
    have ih' := ih hrest
    by_cases hk : u.key = k
    · subst hk
      rw [List.filter_cons_of_pos (by simp)]
      exact ⟨ts, hts, hflip, by simpa using ih'⟩
    · rw [List.filter_cons_of_neg (by simpa using hk)]
      simpa [Function.update_of_ne (Ne.symm hk)] using ih'

def genesisLast (entries : List (κ × PrecompileConfig κ π)) (k : κ) : Option LastUpgradeData :=
  ((entries.lookup k).bind PrecompileConfig.timestamp).map fun ts => ⟨ts, false⟩

theorem verifyGenesis_spec {entries : List (κ × PrecompileConfig κ π)}
    (hn : (entries.map Prod.fst).Nodup) {last last' : κ → Option LastUpgradeData}
    (h : verifyGenesis verifyConfig entries last = .ok last') (k : κ) :
    last' k = ((entries.lookup k).bind PrecompileConfig.timestamp).elim (last k)
      fun ts => some ⟨ts, false⟩ := by
  induction entries generalizing last with
  | nil =>
    simp only [verifyGenesis, Except.ok.injEq] at h
    simp [h]
  | cons e rest ih =>
    obtain ⟨key, config⟩ := e
    rw [List.map_cons, List.nodup_cons] at hn
    simp only [verifyGenesis] at h
    cases hv : verifyConfig config with
    | error err => simp [hv] at h
    | ok _ =>
      simp only [hv, mapError_ok, ok_bind] at h
      by_cases hk : k = key
      · -- the entry for `k`, the only one
        subst hk
        have hnone : rest.lookup k = none := by
          refine List.lookup_eq_none_iff.mpr fun p hp => ?_
          have hmem : p.1 ∈ rest.map Prod.fst := List.mem_map_of_mem hp
          have hne : p.1 ≠ k := fun he => hn.1 (he ▸ hmem)
          exact bne_iff_ne.mpr (Ne.symm hne)
        cases hts : config.timestamp with
        | none => simp [hts] at h; simp [ih hn.2 h, hnone, hts]
        | some ts => simp [hts] at h; simp [ih hn.2 h, hnone, hts]
      · have hlookup : ((key, config) :: rest).lookup k = rest.lookup k := by
          rw [List.lookup_cons, beq_false_of_ne hk]
        rw [hlookup]
        cases hts : config.timestamp with
        | none => simp only [hts] at h; exact ih hn.2 h
        | some ts =>
          simp only [hts] at h
          rw [ih hn.2 h, Function.update_of_ne hk]

theorem verifyPrecompileUpgrades_ok {c : ChainConfig κ π}
    (h : c.verifyPrecompileUpgrades verifyConfig = .ok ()) (k : κ) :
    Alternates (genesisLast c.genesisPrecompiles.entries k) (c.precompileUpgrades.filter (·.key = k)) := by
  simp only [ChainConfig.verifyPrecompileUpgrades] at h
  cases hg : verifyGenesis verifyConfig c.genesisPrecompiles.entries (fun _ => none) with
  | error e => simp [hg] at h
  | ok last =>
    simp only [hg, ok_bind] at h
    have hlast := verifyGenesis_spec verifyConfig c.genesisPrecompiles.nodup hg k
    have : last k = genesisLast c.genesisPrecompiles.entries k := by
      rw [hlast, genesisLast]
      cases (c.genesisPrecompiles.entries.lookup k).bind PrecompileConfig.timestamp <;> rfl
    rw [← this]
    exact alternates_of_verifyUpgrades verifyConfig h k

/-- **The configs of a key are in activation order.** The genesis config, if it has a
timestamp, comes before every upgrade of its key. -/
theorem inOrder_configsOf {c : ChainConfig κ π} (h : c.verifyPrecompileUpgrades verifyConfig = .ok ())
    (k : κ) : Lib.Schedule.InOrder PrecompileConfig.activationTime (c.configsOf k c.precompileUpgrades) := by
  have halt := verifyPrecompileUpgrades_ok verifyConfig h k
  rw [ChainConfig.configsOf]
  cases hg : c.genesisPrecompiles.entries.lookup k with
  | none => simpa using halt.inOrder
  | some g =>
    refine List.Pairwise.cons (fun u hu => ?_) halt.inOrder
    cases hts : g.timestamp with
    | none => exact Or.inl (by simp [PrecompileConfig.activationTime, hts])
    | some ts =>
      have halt' : Alternates (some ⟨ts, false⟩) (c.precompileUpgrades.filter (·.key = k)) := by
        simpa [genesisLast, hg, hts] using halt
      obtain ⟨ts', hts', hlt⟩ := halt'.after u hu
      exact Or.inr (activationTime_lt hts hts' hlt).le

end Verify

theorem isForkTransition_eq {κ π : Type} (c : PrecompileConfig κ π) (parent : Option UInt64)
    (current : UInt64) :
    isForkTransition c.timestamp parent current =
      Lib.Schedule.transition PrecompileConfig.activationTime (parent.map UInt64.toNat)
        current.toNat c := by
  cases hts : c.timestamp <;> cases parent <;>
    simp [isForkTransition, Lib.Schedule.transition, isTimestampForked,
      PrecompileConfig.activationTime, hts, UInt64.le_iff_toNat_le]

section Active

variable {κ π : Type} [DecidableEq κ] (verifyConfig : PrecompileConfig κ π → Except String Unit)

/-- With genesis configs that enable, the configs of a module active at `t` run its
state machine from disabled: they alternate from an enabled one. -/
theorem alternates_getActivatingPrecompileConfigs {c : ChainConfig κ π} {r : Registry κ}
    (h : c.verifyPrecompileUpgrades verifyConfig = .ok ()) {m : Module κ} (hm : m ∈ r.modules)
    (hgenesis : ∀ g ∈ c.genesisPrecompiles.entries.lookup m.configKey, g.timestamp ≠ none →
      g.isDisabled = false) (t : UInt64) :
    Alternates none (c.getActivatingPrecompileConfigs r m.address none t c.precompileUpgrades) := by
  have hfork : ∀ u : PrecompileConfig κ π,
      isForkTransition u.timestamp none t = isTimestampForked u.timestamp t := fun u => by
    simp [isForkTransition]
  rw [c.getActivatingPrecompileConfigs_eq r hm, List.filter_congr fun u _ => hfork u,
    ChainConfig.configsOf, List.filter_append]
  have halt := verifyPrecompileUpgrades_ok verifyConfig h m.configKey
  cases hg : c.genesisPrecompiles.entries.lookup m.configKey with
  | none =>
    rw [show genesisLast c.genesisPrecompiles.entries m.configKey = none by simp [genesisLast, hg]]
      at halt
    simpa using halt.filter_forked t
  | some g =>
    rw [Option.toList_some]
    cases hts : g.timestamp with
    | none =>
      rw [show genesisLast c.genesisPrecompiles.entries m.configKey = none by
        simp [genesisLast, hg, hts]] at halt
      rw [List.filter_cons_of_neg (by simp [isTimestampForked, hts]), List.filter_nil,
        List.nil_append]
      exact halt.filter_forked t
    | some ts =>
      rw [show genesisLast c.genesisPrecompiles.entries m.configKey = some ⟨ts, false⟩ by
        simp [genesisLast, hg, hts]] at halt
      have hen : g.isDisabled = false := hgenesis g hg (by simp [hts])
      by_cases hdue : ts ≤ t
      · -- the genesis config is the first of the run
        rw [List.filter_cons_of_pos (by simp [isTimestampForked, hts, hdue]), List.filter_nil,
          List.singleton_append]
        exact ⟨ts, hts, hen, by simpa [hen] using halt.filter_forked t⟩
      · -- nothing of the key is due yet
        rw [List.filter_cons_of_neg (by simp [isTimestampForked, hts, hdue]), List.filter_nil,
          List.nil_append, halt.filter_forked_of_lt (UInt64.not_le.mp hdue)]
        trivial

/-- The precompile is enabled at `t` exactly when an odd number of its configs are due. -/
theorem isPrecompileEnabled_iff_odd {c : ChainConfig κ π} {r : Registry κ}
    (h : c.verifyPrecompileUpgrades verifyConfig = .ok ()) {m : Module κ} (hm : m ∈ r.modules)
    (hgenesis : ∀ g ∈ c.genesisPrecompiles.entries.lookup m.configKey, g.timestamp ≠ none →
      g.isDisabled = false) (t : UInt64) :
    c.isPrecompileEnabled r m.address t = true ↔
      (c.getActivatingPrecompileConfigs r m.address none t c.precompileUpgrades).length % 2 = 1 := by
  have halt := alternates_getActivatingPrecompileConfigs verifyConfig h hm hgenesis t
  rw [ChainConfig.isPrecompileEnabled, ChainConfig.getActivePrecompileConfig]
  generalize c.getActivatingPrecompileConfigs r m.address none t c.precompileUpgrades = A at halt ⊢
  rw [List.getLast?_eq_getElem?]
  cases hlen : A.length with
  | zero => simp [List.length_eq_zero_iff.mp hlen]
  | succ n =>
    have hu := halt.isDisabled_getElem n (by omega)
    rw [Nat.add_sub_cancel, List.getElem?_eq_getElem (by omega)]
    simp only [disabledIn] at hu
    simp only [hu]
    rcases Nat.mod_two_eq_zero_or_one n with h2 | h2 <;> simp [h2, Nat.add_mod]

end Active

section GenesisDisable

/-- `txallowlist.Module`. -/
def txAllowListModule : Module String := ⟨"txAllowListConfig", 0x10301, false⟩

def txAllowListRegistry : Registry String := ⟨[txAllowListModule], by decide, by decide⟩

def disabledTxAllowList : PrecompileConfig String Unit := ⟨"txAllowListConfig", ⟨some 0, true⟩, ()⟩

def reenabledTxAllowList : PrecompileConfig String Unit := ⟨"txAllowListConfig", ⟨some 10, false⟩, ()⟩

def genesisDisabledConfig (upgrades : List (PrecompileConfig String Unit)) : ChainConfig String Unit :=
  ⟨⟨[("txAllowListConfig", disabledTxAllowList)], by decide⟩, upgrades⟩

/-- `AllowListConfig.Verify` on a config with no addresses: nothing to reject. -/
def verifyEmptyAllowList : PrecompileConfig String Unit → Except String Unit := fun _ => .ok ()

/-- A genesis config that disables its precompile passes verification; the configs
active at time 0 are then that one disable, an odd number, with the precompile
not enabled. Enabling the precompile after it is refused. -/
theorem verified_schedule_starts_disabled :
    (genesisDisabledConfig []).verifyPrecompileUpgrades verifyEmptyAllowList = .ok () ∧
      (genesisDisabledConfig []).getActivatingPrecompileConfigs txAllowListRegistry
        txAllowListModule.address none 0 [] = [disabledTxAllowList] ∧
      disabledTxAllowList.isDisabled = true ∧
      (genesisDisabledConfig []).isPrecompileEnabled txAllowListRegistry
        txAllowListModule.address 0 = false ∧
      (genesisDisabledConfig [reenabledTxAllowList]).verifyPrecompileUpgrades verifyEmptyAllowList =
        .error (.disableShouldBe "txAllowListConfig" 0 true) := by
  decide

end GenesisDisable

end LuxEvm.Extras
