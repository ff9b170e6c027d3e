import LuxEvm.Params.UpgradeSchedule

/-!
# Precompile activation over a run of blocks

`ApplyPrecompileActivations` applies, in each block, the configs that activate
between the parent's time and the block's: module by module in registry order, and
each module's configs in schedule order. A disable self-destructs the module's
account and finalises the state at once; any other config marks the account (nonce
1, one byte of code) and runs the module's `Configure`. At genesis (no parent) the
`AlwaysOn` modules are marked first, whatever their configs.

However time is split into blocks, a module of a verified schedule gets exactly the
configs one block from genesis to the last time would give it, in the same order
(`appliedTo_eq`). When configurators write only their own module's storage, the
module's account after the run is the replay of those configs (`account_run`), so it
is marked exactly when the last of them enables the precompile.
-/

set_option autoImplicit false

namespace LuxEvm.Core

open Extras Lib.StateRel

/-- An account as the activations see it; balances are left out, which only the
native minter's initial mint writes. -/
@[ext] structure Account where
  nonce : UInt64
  code : List UInt8
  storage : Hash → Hash

def Account.empty : Account := ⟨0, [], fun _ => 0⟩

/-- The precompile marker: nonce 1 and the code byte `0x01`. -/
def Account.Marked (acct : Account) : Prop := acct.nonce = 1 ∧ acct.code = [0x1]

instance : DecidablePred Account.Marked := fun _ => inferInstanceAs (Decidable (_ ∧ _))

structure StateDB where
  accounts : Address → Account

namespace StateDB

def setNonce (s : StateDB) (a : Address) (nonce : UInt64) : StateDB :=
  ⟨Function.update s.accounts a { s.accounts a with nonce := nonce }⟩

def setCode (s : StateDB) (a : Address) (code : List UInt8) : StateDB :=
  ⟨Function.update s.accounts a { s.accounts a with code := code }⟩

/-- `SelfDestruct`, with the `Finalise(true)` that follows it: the account is deleted. -/
def selfDestruct (s : StateDB) (a : Address) : StateDB :=
  ⟨Function.update s.accounts a Account.empty⟩

/-- `SetNonce(a, 1)` and `SetCode(a, {0x1})`. -/
def mark (s : StateDB) (a : Address) : StateDB := (s.setNonce a 1).setCode a [0x1]

@[simp] theorem accounts_mark (s : StateDB) (a a' : Address) :
    (s.mark a).accounts a' =
      if a' = a then { s.accounts a with nonce := 1, code := [0x1] } else s.accounts a' := by
  by_cases h : a' = a
  · subst h
    simp [mark, setNonce, setCode]
  · simp [mark, setNonce, setCode, h]

@[simp] theorem accounts_selfDestruct (s : StateDB) (a a' : Address) :
    (s.selfDestruct a).accounts a' = if a' = a then Account.empty else s.accounts a' := by
  by_cases h : a' = a
  · subst h
    simp [selfDestruct]
  · simp [selfDestruct, h]

end StateDB

/-- `contract.ConfigurationBlockContext`. -/
structure BlockContext where
  number : ℕ
  timestamp : UInt64
  deriving DecidableEq, Repr

inductive ActivationError (κ : Type) where
  /-- "could not configure precompile, name: %s, reason: %w" -/
  | couldNotConfigure (name : κ) (reason : String)
  deriving DecidableEq, Repr

section Activation

variable {κ π : Type} [DecidableEq κ] (c : ChainConfig κ π) (r : Registry κ)
  (configure : Module κ → PrecompileConfig κ π → BlockContext → StateDB → Except String StateDB)

/-- One activating config of a module. -/
def applyActivation (blockContext : BlockContext) (s : StateDB) (module : Module κ)
    (activatingConfig : PrecompileConfig κ π) : Except (ActivationError κ) StateDB :=
  if activatingConfig.isDisabled then .ok (s.selfDestruct module.address)
  else
    (configure module activatingConfig blockContext (s.mark module.address)).mapError
      (.couldNotConfigure module.configKey)

/-- The genesis marker of the `AlwaysOn` modules. -/
def markAlwaysOn (parentTimestamp : Option UInt64) (s : StateDB) : StateDB :=
  match parentTimestamp with
  | none => r.alwaysOnModules.foldl (fun s module => s.mark module.address) s
  | some _ => s

def applyPrecompileActivations (parentTimestamp : Option UInt64) (blockContext : BlockContext)
    (s : StateDB) : Except (ActivationError κ) StateDB :=
  r.modules.foldlM
    (fun s module =>
      (c.getActivatingPrecompileConfigs r module.address parentTimestamp blockContext.timestamp
        c.precompileUpgrades).foldlM
        (fun s activatingConfig => applyActivation configure blockContext s module activatingConfig) s)
    (markAlwaysOn r parentTimestamp s)

/-- Blocks processed one after another, the first after `parentTimestamp` (none: at
genesis). -/
def runActivations : Option UInt64 → List BlockContext → StateDB → Except (ActivationError κ) StateDB
  | _, [], s => .ok s
  | parentTimestamp, blockContext :: rest, s => do
    let s ← applyPrecompileActivations c r configure parentTimestamp blockContext s
    runActivations (some blockContext.timestamp) rest s

/-- The configs a block applies, module by module. -/
def activations (parentTimestamp : Option UInt64) (timestamp : UInt64) :
    List (Module κ × PrecompileConfig κ π) :=
  r.modules.flatMap fun module =>
    (c.getActivatingPrecompileConfigs r module.address parentTimestamp timestamp
      c.precompileUpgrades).map (module, ·)

def applied : Option UInt64 → List BlockContext →
    List (BlockContext × Module κ × PrecompileConfig κ π)
  | _, [] => []
  | parentTimestamp, b :: rest =>
    (activations c r parentTimestamp b.timestamp).map (b, ·) ++ applied (some b.timestamp) rest

def appliedTo (m : Module κ) (parentTimestamp : Option UInt64) (blocks : List BlockContext) :
    List (BlockContext × PrecompileConfig κ π) :=
  ((applied c r parentTimestamp blocks).filter (·.2.1 = m)).map fun e => (e.1, e.2.2)

end Activation

/-! ## The applied configs -/

section Applied

variable {κ π : Type} [DecidableEq κ] (c : ChainConfig κ π) (r : Registry κ)

theorem filter_flatMap_pairs_of_not_mem {μ γ : Type} [DecidableEq μ] (g : μ → List γ) {m : μ}
    {l : List μ} (hm : m ∉ l) : ((l.flatMap fun m' => (g m').map (m', ·)).filter (·.1 = m)) = [] := by
  refine List.filter_eq_nil_iff.mpr fun e he => ?_
  obtain ⟨m', hm', he'⟩ := List.mem_flatMap.mp he
  obtain ⟨x, -, rfl⟩ := List.mem_map.mp he'
  have : m' ≠ m := fun h => hm (h ▸ hm')
  simpa using this

theorem filter_flatMap_pairs {μ γ : Type} [DecidableEq μ] (g : μ → List γ) {m : μ} {l : List μ}
    (hl : l.Nodup) (hm : m ∈ l) :
    ((l.flatMap fun m' => (g m').map (m', ·)).filter (·.1 = m)).map Prod.snd = g m := by
  induction l with
  | nil => simp at hm
  | cons m' l ih =>
    obtain ⟨hm'l, hl⟩ := List.nodup_cons.mp hl
    rw [List.flatMap_cons, List.filter_append, List.map_append]
    by_cases he : m' = m
    · subst he
      rw [filter_flatMap_pairs_of_not_mem g hm'l, List.filter_eq_self.mpr (by simp)]
      simp [Function.comp_def]
    · rw [List.filter_eq_nil_iff.mpr (by simp [he]), ih hl ((List.mem_cons.mp hm).resolve_left
        (Ne.symm he))]
      rfl

theorem activations_filter {m : Module κ} (hm : m ∈ r.modules) (parentTimestamp : Option UInt64)
    (timestamp : UInt64) :
    ((activations c r parentTimestamp timestamp).filter (·.1 = m)).map Prod.snd =
      c.getActivatingPrecompileConfigs r m.address parentTimestamp timestamp c.precompileUpgrades :=
  filter_flatMap_pairs (fun module : Module κ => c.getActivatingPrecompileConfigs r module.address
    parentTimestamp timestamp c.precompileUpgrades) (List.Nodup.of_map Module.address r.nodup_address) hm

/-- Over a run, a module gets, block by block, its configs that activate in each. -/
theorem appliedTo_eq_perBlock {m : Module κ} (hm : m ∈ r.modules) (parentTimestamp : Option UInt64)
    (blocks : List BlockContext) :
    (appliedTo c r m parentTimestamp blocks).map Prod.snd =
      Lib.Schedule.perBlock PrecompileConfig.activationTime (c.configsOf m.configKey c.precompileUpgrades)
        (parentTimestamp.map UInt64.toNat) (blocks.map fun b => b.timestamp.toNat) := by
  induction blocks generalizing parentTimestamp with
  | nil => rfl
  | cons b rest ih =>
    have hblock := activations_filter c r hm parentTimestamp b.timestamp
    rw [c.getActivatingPrecompileConfigs_eq r hm] at hblock
    simp only [appliedTo, applied, List.filter_append, List.map_append, List.map_map] at ih ⊢
    rw [ih (some b.timestamp), List.map_cons, Lib.Schedule.perBlock, Option.map_some]
    congr 1
    rw [List.filter_map, List.map_map, ← List.filter_congr fun u _ => isForkTransition_eq u _ _]
    simpa [Function.comp_def] using hblock

/-- **Splitting time into blocks does not change what a module gets.** For a
verified schedule, a run over non-decreasing times applies to each module exactly
its configs that activate from genesis to the last time, in order. -/
theorem appliedTo_eq (verifyConfig : PrecompileConfig κ π → Except String Unit)
    (hv : c.verifyPrecompileUpgrades verifyConfig = .ok ()) {m : Module κ} (hm : m ∈ r.modules)
    (b : BlockContext) (bs : List BlockContext)
    (hts : ((b :: bs).map BlockContext.timestamp).Pairwise (· ≤ ·)) :
    (appliedTo c r m none (b :: bs)).map Prod.snd =
      c.getActivatingPrecompileConfigs r m.address none ((b :: bs).getLast (List.cons_ne_nil b bs)).timestamp
        c.precompileUpgrades := by
  have hnat : (b.timestamp.toNat :: bs.map fun b => b.timestamp.toNat).Pairwise (· ≤ ·) := by
    show ((b :: bs).map fun b => b.timestamp.toNat).Pairwise (· ≤ ·)
    rw [List.pairwise_map]
    rw [List.pairwise_map] at hts
    exact hts.imp fun h => UInt64.le_iff_toNat_le.mp h
  rw [appliedTo_eq_perBlock c r hm, List.map_cons, Option.map_none,
    Lib.Schedule.perBlock_eq (inOrder_configsOf verifyConfig hv m.configKey) _ _ hnat none (by simp),
    c.getActivatingPrecompileConfigs_eq r hm]
  refine List.filter_congr fun u _ => ?_
  rw [isForkTransition_eq, Option.map_none]
  congr 2
  exact List.getLast_map (f := fun b => b.timestamp.toNat) (l := b :: bs) (by simp)

end Applied

/-! ## The account of a module -/

section Account

variable {κ π : Type} [DecidableEq κ]
  (configure : Module κ → PrecompileConfig κ π → BlockContext → StateDB → Except String StateDB)
  (configureStorage : Module κ → PrecompileConfig κ π → BlockContext → (Hash → Hash) → Hash → Hash)

/-- How the configurators of this repository touch the state: `Configure` writes
storage at its own module's address only, as a function of that storage, the config
and the block, and changes no nonce or code. -/
structure ConfiguresOwnStorage : Prop where
  nonce : ∀ {m cfg b s s'}, configure m cfg b s = .ok s' → ∀ a,
    (s'.accounts a).nonce = (s.accounts a).nonce
  code : ∀ {m cfg b s s'}, configure m cfg b s = .ok s' → ∀ a,
    (s'.accounts a).code = (s.accounts a).code
  storage_other : ∀ {m cfg b s s'}, configure m cfg b s = .ok s' → ∀ a, a ≠ m.address →
    (s'.accounts a).storage = (s.accounts a).storage
  storage_own : ∀ {m cfg b s s'}, configure m cfg b s = .ok s' →
    (s'.accounts m.address).storage = configureStorage m cfg b (s.accounts m.address).storage

def replayStep (m : Module κ) (acct : Account) (e : BlockContext × PrecompileConfig κ π) : Account :=
  if e.2.isDisabled then Account.empty else ⟨1, [0x1], configureStorage m e.2 e.1 acct.storage⟩

def replayAccount (m : Module κ) (acct : Account) (configs : List (BlockContext × PrecompileConfig κ π)) :
    Account :=
  configs.foldl (replayStep configureStorage m) acct

variable {configure configureStorage}

theorem account_applyActivation (hloc : ConfiguresOwnStorage configure configureStorage)
    {b : BlockContext} {s s' : StateDB} {m m' : Module κ} {cfg : PrecompileConfig κ π}
    (h : applyActivation configure b s m' cfg = .ok s') (hne : m' ≠ m → m'.address ≠ m.address) :
    s'.accounts m.address =
      if m' = m then replayStep configureStorage m (s.accounts m.address) (b, cfg)
      else s.accounts m.address := by
  unfold applyActivation at h
  by_cases hd : cfg.isDisabled
  · -- a disable deletes the account of `m'` only
    simp only [hd, ↓reduceIte, Except.ok.injEq] at h
    subst h
    by_cases he : m' = m
    · subst he
      simp [replayStep, hd]
    · simp [he, Ne.symm (hne he)]
  · cases hc : configure m' cfg b (s.mark m'.address) with
    | error e => simp [hd, hc] at h
    | ok s'' =>
      simp only [hd, Bool.false_eq_true, ↓reduceIte, hc, mapError_ok, Except.ok.injEq] at h
      subst h
      by_cases he : m' = m
      · subst he
        refine Account.ext ?_ ?_ ?_
        · simp [hloc.nonce hc, replayStep, hd]
        · simp [hloc.code hc, replayStep, hd]
        · simp [hloc.storage_own hc, replayStep, hd]
      · have ha : m.address ≠ m'.address := Ne.symm (hne he)
        refine Account.ext ?_ ?_ ?_
        · simp [hloc.nonce hc, he, ha]
        · simp [hloc.code hc, he, ha]
        · simp [hloc.storage_other hc _ ha, he, ha]

theorem account_foldlM (hloc : ConfiguresOwnStorage configure configureStorage) (m : Module κ)
    (E : List (BlockContext × Module κ × PrecompileConfig κ π))
    (hE : ∀ e ∈ E, e.2.1 ≠ m → e.2.1.address ≠ m.address) {s0 s : StateDB}
    (h : E.foldlM (fun s e => applyActivation configure e.1 s e.2.1 e.2.2) s0 = .ok s) :
    s.accounts m.address = replayAccount configureStorage m (s0.accounts m.address)
      ((E.filter (·.2.1 = m)).map fun e => (e.1, e.2.2)) := by
  induction E generalizing s0 with
  | nil =>
    simp only [List.foldlM_nil, pure_eq_ok, Except.ok.injEq] at h
    simp [h, replayAccount]
  | cons e E ih =>
    rw [List.foldlM_cons] at h
    cases h1 : applyActivation configure e.1 s0 e.2.1 e.2.2 with
    | error err => simp [h1] at h
    | ok s1 =>
      simp only [h1, ok_bind] at h
      have hstep := account_applyActivation hloc h1 (hE e (List.mem_cons_self ..))
      rw [ih (fun e he => hE e (List.mem_cons_of_mem _ he)) h, hstep]
      by_cases he : e.2.1 = m
      · simp [he, replayAccount]
      · simp [he]

omit [DecidableEq κ] in
theorem accounts_foldl_mark {L : List (Module κ)} {a : Address} (hne : ∀ m' ∈ L, m'.address ≠ a)
    (s : StateDB) : (L.foldl (fun s module => s.mark module.address) s).accounts a = s.accounts a := by
  induction L generalizing s with
  | nil => rfl
  | cons m' L ih =>
    rw [List.foldl_cons, ih (fun m'' hm'' => hne m'' (List.mem_cons_of_mem _ hm''))]
    simp [Ne.symm (hne m' (List.mem_cons_self ..))]

omit [DecidableEq κ] in
theorem accounts_markAlwaysOn (r : Registry κ) {m : Module κ} (hm : m ∈ r.modules)
    (halways : m.alwaysOn = false) (parentTimestamp : Option UInt64) (s : StateDB) :
    (markAlwaysOn r parentTimestamp s).accounts m.address = s.accounts m.address := by
  cases parentTimestamp with
  | some _ => rfl
  | none =>
    refine accounts_foldl_mark (fun m' hm' => ?_) s
    obtain ⟨hm'r, hon⟩ := List.mem_filter.mp hm'
    exact r.address_ne_of_ne hm hm'r fun he => by simp [he, halways] at hon

omit [DecidableEq κ] in
theorem marked_replayStep (m : Module κ) (acct : Account) (e : BlockContext × PrecompileConfig κ π) :
    (replayStep configureStorage m acct e).Marked ↔ e.2.isDisabled = false := by
  cases hd : e.2.isDisabled <;> simp [replayStep, hd, Account.Marked, Account.empty]

end Account

/-! ## The run -/

section Run

variable {κ π : Type} [DecidableEq κ] (c : ChainConfig κ π) (r : Registry κ)
  (configure : Module κ → PrecompileConfig κ π → BlockContext → StateDB → Except String StateDB)

theorem foldlM_nested {μ γ σ ε : Type} (g : μ → List γ) (f : σ → μ → γ → Except ε σ)
    (l : List μ) (s : σ) :
    l.foldlM (fun s module => (g module).foldlM (fun s x => f s module x) s) s =
      (l.flatMap fun module => (g module).map (module, ·)).foldlM (fun s e => f s e.1 e.2) s := by
  induction l generalizing s with
  | nil => rfl
  | cons module l ih =>
    rw [List.foldlM_cons, List.flatMap_cons, List.foldlM_append, List.foldlM_map]
    congr 1
    funext s'
    exact ih s'

theorem applyPrecompileActivations_eq (parentTimestamp : Option UInt64) (b : BlockContext)
    (s : StateDB) :
    applyPrecompileActivations c r configure parentTimestamp b s =
      (activations c r parentTimestamp b.timestamp).foldlM
        (fun s e => applyActivation configure b s e.1 e.2) (markAlwaysOn r parentTimestamp s) :=
  foldlM_nested _ (fun s module cfg => applyActivation configure b s module cfg) _ _

/-- A run is one loop over what it applies, after the genesis marker. -/
theorem runActivations_eq (parentTimestamp : Option UInt64) (b : BlockContext)
    (bs : List BlockContext) (s : StateDB) :
    runActivations c r configure parentTimestamp (b :: bs) s =
      (applied c r parentTimestamp (b :: bs)).foldlM
        (fun s e => applyActivation configure e.1 s e.2.1 e.2.2) (markAlwaysOn r parentTimestamp s) := by
  induction bs generalizing parentTimestamp b s with
  | nil =>
    simp only [runActivations, applyPrecompileActivations_eq, applied, List.append_nil,
      List.foldlM_map]
    cases (activations c r parentTimestamp b.timestamp).foldlM
      (fun s e => applyActivation configure b s e.1 e.2) (markAlwaysOn r parentTimestamp s) <;> rfl
  | cons b' bs ih =>
    rw [runActivations, applyPrecompileActivations_eq, applied, List.foldlM_append, List.foldlM_map]
    congr 1
    funext s'
    exact ih (some b.timestamp) b' s'

theorem module_mem_of_mem_applied {parentTimestamp : Option UInt64} {blocks : List BlockContext}
    {e : BlockContext × Module κ × PrecompileConfig κ π} (he : e ∈ applied c r parentTimestamp blocks) :
    e.2.1 ∈ r.modules := by
  induction blocks generalizing parentTimestamp with
  | nil => simp [applied] at he
  | cons b rest ih =>
    rcases List.mem_append.mp he with he | he
    · obtain ⟨e', he', rfl⟩ := List.mem_map.mp he
      obtain ⟨module, hmod, he''⟩ := List.mem_flatMap.mp he'
      obtain ⟨cfg, -, rfl⟩ := List.mem_map.mp he''
      exact hmod
    · exact ih he

variable {c r configure}

/-- **The account of a module after a run is its replay over the configs applied to
it.** -/
theorem account_run {configureStorage : Module κ → PrecompileConfig κ π → BlockContext →
      (Hash → Hash) → Hash → Hash}
    (hloc : ConfiguresOwnStorage configure configureStorage) {m : Module κ} (hm : m ∈ r.modules)
    (parentTimestamp : Option UInt64) (b : BlockContext) (bs : List BlockContext) {s0 s : StateDB}
    (h : runActivations c r configure parentTimestamp (b :: bs) s0 = .ok s) :
    s.accounts m.address = replayAccount configureStorage m
      ((markAlwaysOn r parentTimestamp s0).accounts m.address) (appliedTo c r m parentTimestamp (b :: bs)) := by
  rw [runActivations_eq] at h
  exact account_foldlM hloc m _ (fun e he hne =>
    r.address_ne_of_ne hm (module_mem_of_mem_applied c r he) hne) h

end Run

/-! ## Splitting time into blocks -/

section Split

variable {κ π : Type} [DecidableEq κ]

omit [DecidableEq κ] in
theorem marked_replayAccount_concat
    {configureStorage : Module κ → PrecompileConfig κ π → BlockContext → (Hash → Hash) → Hash → Hash}
    (m : Module κ) (acct : Account) (L : List (BlockContext × PrecompileConfig κ π))
    (e : BlockContext × PrecompileConfig κ π) :
    (replayAccount configureStorage m acct (L ++ [e])).Marked ↔ e.2.isDisabled = false := by
  rw [replayAccount, List.foldl_concat]
  exact marked_replayStep m _ e

theorem precompile_activation_independent_of_blocks
    (verifyConfig : PrecompileConfig κ π → Except String Unit) (c : ChainConfig κ π) (r : Registry κ)
    (configure : Module κ → PrecompileConfig κ π → BlockContext → StateDB → Except String StateDB)
    (configureStorage : Module κ → PrecompileConfig κ π → BlockContext → (Hash → Hash) → Hash → Hash)
    (hv : c.verifyPrecompileUpgrades verifyConfig = .ok ())
    (hloc : ConfiguresOwnStorage configure configureStorage)
    (m : Module κ) (hm : m ∈ r.modules) (halways : m.alwaysOn = false)
    (b : BlockContext) (bs : List BlockContext)
    (hts : ((b :: bs).map BlockContext.timestamp).Pairwise (· ≤ ·))
    (s0 s : StateDB) (hinit : ¬ (s0.accounts m.address).Marked)
    (hrun : runActivations c r configure none (b :: bs) s0 = .ok s) :
    (appliedTo c r m none (b :: bs)).map Prod.snd =
        c.getActivatingPrecompileConfigs r m.address none
          ((b :: bs).getLast (List.cons_ne_nil b bs)).timestamp c.precompileUpgrades ∧
      s.accounts m.address =
        replayAccount configureStorage m (s0.accounts m.address) (appliedTo c r m none (b :: bs)) ∧
      ((s.accounts m.address).Marked ↔
        c.isPrecompileEnabled r m.address ((b :: bs).getLast (List.cons_ne_nil b bs)).timestamp = true) ∧
      (∀ cfg ∈ ((appliedTo c r m none (b :: bs)).map Prod.snd).getLast?, cfg.isDisabled = true →
        s.accounts m.address = Account.empty) := by
  have happlied := appliedTo_eq c r verifyConfig hv hm b bs hts
  have hacct : s.accounts m.address =
      replayAccount configureStorage m (s0.accounts m.address) (appliedTo c r m none (b :: bs)) := by
    rw [account_run hloc hm none b bs hrun, accounts_markAlwaysOn r hm halways]
  refine ⟨happlied, hacct, ?_, ?_⟩
  · -- marked exactly when the last config applied is an enable
    rw [ChainConfig.isPrecompileEnabled, ChainConfig.getActivePrecompileConfig, ← happlied, hacct]
    rcases List.eq_nil_or_concat' (appliedTo c r m none (b :: bs)) with hnil | ⟨L, e, he⟩
    · simp [hnil, replayAccount, hinit]
    · rw [he, marked_replayAccount_concat]
      simp
  · -- a disable last leaves the account deleted
    intro cfg hcfg hd
    rcases List.eq_nil_or_concat' (appliedTo c r m none (b :: bs)) with hnil | ⟨L, e, he⟩
    · simp [hnil] at hcfg
    · rw [he, List.map_append, List.map_singleton, List.getLast?_concat, Option.mem_some_iff] at hcfg
      rw [hacct, he, replayAccount, List.foldl_concat, replayStep, hcfg, hd, if_pos rfl]

/-- The DEX settlement module, `AlwaysOn` at `0x9999`. -/
def lxSettleModule : Module String := ⟨"LXSettle", 0x9999, true⟩

def lxSettleRegistry : Registry String := ⟨[lxSettleModule], by decide, by decide⟩

def noPrecompiles : ChainConfig String Unit := ⟨⟨[], by decide⟩, []⟩

def configureNothing : Module String → PrecompileConfig String Unit → BlockContext → StateDB →
    Except String StateDB :=
  fun _ _ _ s => .ok s

def emptyStateDB : StateDB := ⟨fun _ => Account.empty⟩

/-- At genesis an `AlwaysOn` module is marked active with no config of its own, and
`IsPrecompileEnabled` does not count it. -/
theorem alwaysOn_marked_without_config :
    noPrecompiles.verifyPrecompileUpgrades (fun _ => .ok ()) = .ok () ∧
      lxSettleModule ∈ lxSettleRegistry.modules ∧
      ∃ s, runActivations noPrecompiles lxSettleRegistry configureNothing none [⟨0, 0⟩] emptyStateDB =
          .ok s ∧ (s.accounts lxSettleModule.address).Marked ∧
        noPrecompiles.isPrecompileEnabled lxSettleRegistry lxSettleModule.address 0 = false := by
  refine ⟨by decide, by decide, _, rfl, ?_, by decide⟩
  decide

theorem configuresOwnStorage_configureNothing :
    ConfiguresOwnStorage configureNothing fun _ _ _ storage => storage where
  nonce h _ := by cases h; rfl
  code h _ := by cases h; rfl
  storage_other h _ _ := by cases h; rfl
  storage_own h := by cases h; rfl

def enabledTxAllowList : PrecompileConfig String Unit := ⟨"txAllowListConfig", ⟨some 0, false⟩, ()⟩

def disabledTxAllowListAtFive : PrecompileConfig String Unit := ⟨"txAllowListConfig", ⟨some 5, true⟩, ()⟩

def txAllowListSchedule : ChainConfig String Unit :=
  ⟨⟨[("txAllowListConfig", enabledTxAllowList)], by decide⟩, [disabledTxAllowListAtFive]⟩

theorem precompile_activation_independent_of_blocks_three_blocks :
    ∃ s, runActivations txAllowListSchedule txAllowListRegistry configureNothing none
        [⟨0, 0⟩, ⟨1, 3⟩, ⟨2, 7⟩] emptyStateDB = .ok s ∧
      ((s.accounts txAllowListModule.address).Marked ↔
        txAllowListSchedule.isPrecompileEnabled txAllowListRegistry txAllowListModule.address 7 = true) :=
  ⟨_, rfl, (precompile_activation_independent_of_blocks verifyEmptyAllowList txAllowListSchedule
    txAllowListRegistry configureNothing (fun _ _ _ storage => storage) (by decide)
    configuresOwnStorage_configureNothing txAllowListModule (by decide) rfl ⟨0, 0⟩ [⟨1, 3⟩, ⟨2, 7⟩]
    (by decide) emptyStateDB _ (by decide) rfl).2.2.1⟩

end Split

end LuxEvm.Core
