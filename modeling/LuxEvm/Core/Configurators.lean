import LuxEvm.Core.PrecompileActivation
import LuxEvm.Precompile.ConfigEqual
import LuxEvm.Precompile.FeeManager
import LuxEvm.Precompile.NativeMinter

/-!
# The repository's configurators

Each precompile module's `configurator.Configure` type-asserts the config and
writes the storage of its own contract address: the allow list roles, the fee
config with its last-changed block, the reward address slot. The native
minter's initial mint writes balances, which the activations do not see, and
Warp's writes nothing. Run on the storage of the activation state, the
configurators of all six config types form one `configure` that
`ConfiguresOwnStorage` holds of (`configuresOwnStorage_configure`), so the
replay theorem of `PrecompileActivation` applies to the repository's modules.
-/

set_option autoImplicit false

namespace LuxEvm.Core
open Extras CommonType Precompile Lib.StateRel

/-! ## Writes at one address -/

section Writes

/-- `f` changes storage at `addr` only, to `g` of what was there. -/
def WritesAt (addr : Address) (g : (Hash → Hash) → Hash → Hash)
    (f : Precompile.StateDB → Precompile.StateDB) : Prop :=
  ∀ s, (f s).storage = Function.update s.storage addr (g (s.storage addr))

variable {addr : Address}

theorem writesAt_setState (addr : Address) (key value : Hash) :
    WritesAt addr (Function.update · key value) (·.setState addr key value) := fun _ => rfl

theorem writesAt_of_storage_eq {f : Precompile.StateDB → Precompile.StateDB}
    (hf : ∀ s, (f s).storage = s.storage) : WritesAt addr id f := fun s => by
  rw [hf, id, Function.update_eq_self]

theorem WritesAt.comp {g g' : (Hash → Hash) → Hash → Hash} {f f' : Precompile.StateDB → Precompile.StateDB}
    (hf : WritesAt addr g f) (hf' : WritesAt addr g' f') : WritesAt addr (g' ∘ g) (f' ∘ f) := fun s => by
  rw [Function.comp_apply, hf', hf, Function.update_self, Function.update_idem, Function.comp_apply]

theorem WritesAt.ite {c : Prop} [Decidable c] {g₁ g₂ : (Hash → Hash) → Hash → Hash}
    {f₁ f₂ : Precompile.StateDB → Precompile.StateDB} (h₁ : WritesAt addr g₁ f₁) (h₂ : WritesAt addr g₂ f₂) :
    WritesAt addr (if c then g₁ else g₂) fun s => if c then f₁ s else f₂ s := fun s => by
  split_ifs
  · exact h₁ s
  · exact h₂ s

theorem writesAt_foldl {β : Type} (l : List β) {step : Precompile.StateDB → β → Precompile.StateDB}
    {gstep : (Hash → Hash) → β → Hash → Hash} (h : ∀ b, WritesAt addr (gstep · b) (step · b)) :
    WritesAt addr (fun st => l.foldl gstep st) (fun s => l.foldl step s) := by
  induction l with
  | nil => exact writesAt_of_storage_eq fun _ => rfl
  | cons b l ih => exact (h b).comp ih

theorem writesAt_allowListConfigure (addr : Address) (c : AllowListConfig) :
    ∃ g, WritesAt addr g (c.configure addr) := by
  have hrole : ∀ role : Role, ∀ b : Address,
      WritesAt addr (Function.update · (addressKey b) role.hash) (setAllowListRole · addr b role) :=
    fun role b => writesAt_setState _ _ _
  exact ⟨_, ((writesAt_foldl _ (hrole EnabledRole)).comp (writesAt_foldl _ (hrole AdminRole))).comp
    (writesAt_foldl _ (hrole ManagerRole))⟩

/-- A configurator that writes the storage of `addr` only, and whose failing
does not depend on the state it runs on. -/
structure WritesOwn (addr : Address) (f : Precompile.StateDB → Except String Precompile.StateDB) :
    Prop where
  writes : ∃ g : (Hash → Hash) → Hash → Hash, ∀ s s', f s = .ok s' → s'.storage = Function.update s.storage addr (g (s.storage addr))
  ok_of_ok : ∀ {s s'} t, f s = .ok s' → ∃ t', f t = .ok t'

theorem WritesOwn.of_writesAt {g : (Hash → Hash) → Hash → Hash} {f : Precompile.StateDB → Precompile.StateDB}
    (hf : WritesAt addr g f) : WritesOwn addr fun s => .ok (f s) where
  writes := ⟨g, fun s _ h => by cases h; exact hf s⟩
  ok_of_ok t _ := ⟨f t, rfl⟩

theorem WritesOwn.map {f : Precompile.StateDB → Except String Precompile.StateDB}
    {g : (Hash → Hash) → Hash → Hash} {f' : Precompile.StateDB → Precompile.StateDB}
    (hf : WritesOwn addr f) (hf' : WritesAt addr g f') : WritesOwn addr fun s => f' <$> f s where
  writes := by
    obtain ⟨g₀, hg₀⟩ := hf.writes
    refine ⟨g ∘ g₀, fun s s' h => ?_⟩
    obtain ⟨s₁, hs₁, rfl⟩ := map_eq_ok.mp h
    rw [hf', hg₀ s s₁ hs₁, Function.update_self, Function.update_idem, Function.comp_apply]
  ok_of_ok t h := by
    obtain ⟨s₁, hs₁, -⟩ := map_eq_ok.mp h
    obtain ⟨t₁, ht₁⟩ := hf.ok_of_ok t hs₁
    exact ⟨f' t₁, by rw [ht₁]; rfl⟩

end Writes

/-! ## The configurators -/

theorem writesOwn_storeFeeConfig (msg : String) (feeConfig : FeeConfig) (blockNumber : ℕ) :
    WritesOwn FeeManager.ContractAddress fun s =>
      (FeeManager.storeFeeConfig s feeConfig blockNumber).mapError fun _ => msg where
  writes := by
    have hfold := writesAt_foldl (List.range' FeeManager.minFeeConfigFieldKey FeeManager.numFeeConfigField)
      (fun i => writesAt_setState FeeManager.ContractAddress (FeeManager.feeConfigKey i)
        (FeeManager.feeConfigInput feeConfig i))
    obtain ⟨g, hg⟩ := (WritesOwn.of_writesAt (hfold.comp (writesAt_setState FeeManager.ContractAddress
      FeeManager.feeConfigLastChangedAtKey (bigToHash blockNumber)))).writes
    refine ⟨g, fun s s' h => hg s s' ?_⟩
    unfold FeeManager.storeFeeConfig at h
    split at h
    · cases h
    · exact h
  ok_of_ok t h := by
    unfold FeeManager.storeFeeConfig at h ⊢
    split at h
    · cases h
    · exact ⟨_, rfl⟩

/-- `nativeminter` `Configure`'s loop: `AddBalance(to, FromBig(amount))` for
every present amount of `InitialMint`. -/
def mintInitial (initialMint : List (Address × Option ℤ)) (s : Precompile.StateDB) : Precompile.StateDB :=
  initialMint.foldl (fun s (recipient, amount) =>
    match amount with
    | some amount => s.addBalance recipient (amount % 2^256).toNat
    | none => s) s

theorem storage_mintInitial (initialMint : List (Address × Option ℤ)) (s : Precompile.StateDB) :
    (mintInitial initialMint s).storage = s.storage := by
  induction initialMint generalizing s with
  | nil => rfl
  | cons e rest ih =>
    obtain ⟨recipient, amount⟩ := e
    cases amount <;> exact ih _

/-- The `Configure` of each config type's module, with the chain config's fee
config and `AllowedFeeRecipients`. -/
def configureFields (chainFeeConfig : FeeConfig) (allowedFeeRecipients : Bool) (blackholeAddr : Address)
    (blockContext : BlockContext) : ConfigFields → Precompile.StateDB → Except String Precompile.StateDB
  | .txAllowList allowList, s => .ok (allowList.configure TxAllowList.ContractAddress s)
  | .deployerAllowList allowList, s => .ok (allowList.configure DeployerAllowList.ContractAddress s)
  | .feeManager allowList initialFeeConfig, s =>
    let stored := match initialFeeConfig with
      | some feeConfig => (FeeManager.storeFeeConfig s feeConfig blockContext.number).mapError
          fun _ => "cannot configure given initial fee config"
      | none => (FeeManager.storeFeeConfig s chainFeeConfig blockContext.number).mapError
          fun _ => "cannot configure fee config in chain config"
    (allowList.configure FeeManager.ContractAddress ·) <$> stored
  | .nativeMinter allowList initialMint, s =>
    .ok (allowList.configure NativeMinter.ContractAddress (mintInitial initialMint s))
  | .rewardManager allowList initialRewardConfig, s =>
    .ok (RewardManager.configure allowedFeeRecipients blackholeAddr allowList initialRewardConfig s)
  | .warp _ _, s => .ok s

/-- The module each config type belongs to, as its `module.go` registers it. -/
def moduleOf : ConfigFields → Module String
  | .txAllowList _ => ⟨"txAllowListConfig", TxAllowList.ContractAddress, false⟩
  | .deployerAllowList _ => ⟨"contractDeployerAllowListConfig", DeployerAllowList.ContractAddress, false⟩
  | .feeManager _ _ => ⟨"feeManagerConfig", FeeManager.ContractAddress, false⟩
  | .nativeMinter _ _ => ⟨"contractNativeMinterConfig", NativeMinter.ContractAddress, false⟩
  | .rewardManager _ _ => ⟨"rewardManagerConfig", RewardManager.ContractAddress, false⟩
  | .warp _ _ => ⟨"warpConfig", Warp.ContractAddress, false⟩

theorem writesOwn_configureFields (chainFeeConfig : FeeConfig) (allowedFeeRecipients : Bool)
    (blackholeAddr : Address) (blockContext : BlockContext) (fields : ConfigFields) :
    WritesOwn (moduleOf fields).address
      (configureFields chainFeeConfig allowedFeeRecipients blackholeAddr blockContext fields) := by
  cases fields with
  | txAllowList allowList =>
    obtain ⟨g, hg⟩ := writesAt_allowListConfigure TxAllowList.ContractAddress allowList
    exact WritesOwn.of_writesAt hg
  | deployerAllowList allowList =>
    obtain ⟨g, hg⟩ := writesAt_allowListConfigure DeployerAllowList.ContractAddress allowList
    exact WritesOwn.of_writesAt hg
  | feeManager allowList initialFeeConfig =>
    -- both branches store a fee config; only the error text differs
    obtain ⟨g, hg⟩ := writesAt_allowListConfigure FeeManager.ContractAddress allowList
    cases initialFeeConfig with
    | some feeConfig => exact (writesOwn_storeFeeConfig _ feeConfig blockContext.number).map hg
    | none => exact (writesOwn_storeFeeConfig _ chainFeeConfig blockContext.number).map hg
  | nativeMinter allowList initialMint =>
    obtain ⟨g, hg⟩ := writesAt_allowListConfigure NativeMinter.ContractAddress allowList
    exact WritesOwn.of_writesAt ((writesAt_of_storage_eq (storage_mintInitial initialMint)).comp hg)
  | rewardManager allowList initialRewardConfig =>
    obtain ⟨g, hg⟩ := writesAt_allowListConfigure RewardManager.ContractAddress allowList
    have hset := writesAt_setState RewardManager.ContractAddress RewardManager.rewardAddressStorageKey
    cases initialRewardConfig with
    | some i => exact WritesOwn.of_writesAt ((WritesAt.ite (hset _) (WritesAt.ite (hset _) (hset _))).comp hg)
    | none => exact WritesOwn.of_writesAt ((WritesAt.ite (hset _) (hset _)).comp hg)
  | warp quorumNumerator requirePrimaryNetworkSigners =>
    exact WritesOwn.of_writesAt (writesAt_of_storage_eq fun _ => rfl)

/-! ## On the activation state -/

def precompileView (s : StateDB) : Precompile.StateDB :=
  ⟨fun a => (s.accounts a).storage, fun _ => 0, fun _ => false, []⟩

def withStorage (s : StateDB) (p : Precompile.StateDB) : StateDB :=
  ⟨fun a => { s.accounts a with storage := p.storage a }⟩

section Configure

variable (chainFeeConfig : FeeConfig) (allowedFeeRecipients : Bool) (blackholeAddr : Address)

/-- `configurator.Configure` of module `m`: a config of another type is
refused, and the configurator runs on the storage of the activation state. -/
def configure (m : Module String) (cfg : ModuleConfig) (blockContext : BlockContext) (s : StateDB) :
    Except String StateDB :=
  if moduleOf cfg.fields ≠ m then .error "expected config type"
  else withStorage s <$>
    configureFields chainFeeConfig allowedFeeRecipients blackholeAddr blockContext cfg.fields
      (precompileView s)

/-- What `configure` leaves in its module's storage, from the storage there. -/
def configureStorage (m : Module String) (cfg : ModuleConfig) (blockContext : BlockContext)
    (storage : Hash → Hash) : Hash → Hash :=
  match configure chainFeeConfig allowedFeeRecipients blackholeAddr m cfg blockContext
      ⟨Function.update (fun _ => Account.empty) m.address ⟨0, [], storage⟩⟩ with
  | .ok s' => (s'.accounts m.address).storage
  | .error _ => storage

variable {chainFeeConfig allowedFeeRecipients blackholeAddr}

theorem configure_eq_ok {m : Module String} {cfg : ModuleConfig} {b : BlockContext} {s s' : StateDB}
    (h : configure chainFeeConfig allowedFeeRecipients blackholeAddr m cfg b s = .ok s') :
    moduleOf cfg.fields = m ∧ ∃ p, configureFields chainFeeConfig allowedFeeRecipients blackholeAddr b
      cfg.fields (precompileView s) = .ok p ∧ s' = withStorage s p := by
  unfold configure at h
  split_ifs at h with hm
  obtain ⟨p, hp, rfl⟩ := map_eq_ok.mp h
  exact ⟨not_not.mp hm, p, hp, rfl⟩

/-- **The repository's configurators write their own module's storage only.** -/
theorem configuresOwnStorage_configure :
    ConfiguresOwnStorage (configure chainFeeConfig allowedFeeRecipients blackholeAddr)
      (configureStorage chainFeeConfig allowedFeeRecipients blackholeAddr) where
  nonce h _ := by
    obtain ⟨-, p, -, rfl⟩ := configure_eq_ok h
    rfl
  code h _ := by
    obtain ⟨-, p, -, rfl⟩ := configure_eq_ok h
    rfl
  storage_other h a ha := by
    obtain ⟨rfl, p, hp, rfl⟩ := configure_eq_ok h
    obtain ⟨g, hg⟩ := (writesOwn_configureFields chainFeeConfig allowedFeeRecipients blackholeAddr _ _).writes
    show p.storage a = _
    rw [hg _ _ hp, Function.update_of_ne ha]
    rfl
  storage_own {m cfg b s s'} h := by
    obtain ⟨rfl, p, hp, rfl⟩ := configure_eq_ok h
    have hw := writesOwn_configureFields chainFeeConfig allowedFeeRecipients blackholeAddr b cfg.fields
    obtain ⟨g, hg⟩ := hw.writes
    generalize hst : (s.accounts (moduleOf cfg.fields).address).storage = st
    generalize hs₀ : (⟨Function.update (fun _ => Account.empty) (moduleOf cfg.fields).address ⟨0, [], st⟩⟩ :
      StateDB) = s₀
    obtain ⟨q, hq⟩ := hw.ok_of_ok (precompileView s₀) hp
    have hrun : configure chainFeeConfig allowedFeeRecipients blackholeAddr (moduleOf cfg.fields) cfg b s₀ =
        .ok (withStorage s₀ q) := by
      rw [configure, if_neg (not_not.mpr rfl), hq]
      rfl
    show p.storage _ = _
    rw [configureStorage, hs₀, hrun]
    show _ = q.storage _
    rw [hg _ _ hp, hg _ _ hq, Function.update_self, Function.update_self, ← hs₀]
    simp [precompileView, ← hst]

/-- Over every run of blocks, a module's account under the repository's
configurators is the replay of the configs applied to it. -/
theorem account_run_configure {c : ChainConfig String ConfigFields} {r : Registry String}
    {m : Module String} (hm : m ∈ r.modules) (parentTimestamp : Option UInt64) (b : BlockContext)
    (bs : List BlockContext) {s0 s : StateDB}
    (h : runActivations c r (configure chainFeeConfig allowedFeeRecipients blackholeAddr) parentTimestamp
      (b :: bs) s0 = .ok s) :
    s.accounts m.address = replayAccount (configureStorage chainFeeConfig allowedFeeRecipients blackholeAddr) m
      ((markAlwaysOn r parentTimestamp s0).accounts m.address) (appliedTo c r m parentTimestamp (b :: bs)) :=
  account_run configuresOwnStorage_configure hm parentTimestamp b bs h

end Configure

end LuxEvm.Core
