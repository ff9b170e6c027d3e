import LuxEvm.Parallel.ConflictEdges

/-!
# Sharded settlement of DEX fills

`SettleSharded` assigns each fill to the shard of its market, then routes to
a serial tail every fill one of whose accounts trades under markets of two
shards. A first pass notes, per account, the one shard it was seen on, or `-1`
once it was seen on a second; a second pass routes. Over every fill list and
shard count the routing is a partition of the fills that keeps their order,
each per-shard list holds fills of its own shard, and no account of a
per-shard fill trades in another shard's list (`settleSharded_routing`): the
shard goroutines share no account.

The settlement function of a fill is its `Apply` field; here it is a function
of the fill passed alongside.
-/

set_option autoImplicit false

namespace LuxEvm.Parallel
open Lib.ByteString

/-- `Fill`, without its `Apply`. -/
structure Fill where
  maker : Address
  taker : Address
  market : Address
  index : ℤ
  deriving DecidableEq, Repr

/-- `fillRWSet`: both accounts and the market are read and written. -/
def fillRWSet (f : Fill) : TxReadWriteSet :=
  let slots := [f.maker, f.taker, f.market].map addressKey
  ⟨slots, slots⟩

def rwSetsForFills (fills : List Fill) : List TxReadWriteSet := fills.map fillRWSet

def fnvOffsetBasis : UInt64 := 1469598103934665603
def fnvPrime : UInt64 := 1099511628211

/-- `shardOf`: FNV-1a over the address's 20 bytes, modulo the shard count.
`uint64(shards)` is exact for every slice length. -/
def shardOf (a : Address) (shards : ℕ) : ℕ :=
  ((encode 20 a.toNat).foldl (fun h b => (h ^^^ b.toUInt64) * fnvPrime) fnvOffsetBasis).toNat % shards

def fillShard (f : Fill) (shards : ℕ) : ℕ := shardOf f.market shards

/-- `note`: an account's first shard is kept; a second, different one demotes
it to `-1`, which is never promoted back. -/
def note (acctShard : Address → Option ℤ) (a : Address) (s : ℤ) : Address → Option ℤ :=
  match acctShard a with
  | none => Function.update acctShard a (some s)
  | some prev => if prev ≠ s ∧ prev ≠ -1 then Function.update acctShard a (some (-1)) else acctShard

/-- Pass 1 of `SettleSharded`. -/
def noteFills (shards : ℕ) (fills : List Fill) : Address → Option ℤ :=
  fills.foldl (fun acctShard f =>
    let s := fillShard f shards
    note (note acctShard f.maker s) f.taker s) fun _ => none

/-- `isCross`: a missing account reads as shard `0`. -/
def isCross (acctShard : Address → Option ℤ) (a : Address) : Bool := (acctShard a).getD 0 == -1

structure Routing where
  perShard : List (List Fill)
  cross : List Fill
  intraShard : ℕ
  crossShard : ℕ

/-- One fill of pass 2. -/
def routeStep (shards : ℕ) (acctShard : Address → Option ℤ) (r : Routing) (f : Fill) : Routing :=
  if isCross acctShard f.maker || isCross acctShard f.taker then
    { r with cross := r.cross ++ [f], crossShard := r.crossShard+1 }
  else { r with perShard := r.perShard.modify (fillShard f shards) (· ++ [f]), intraShard := r.intraShard+1 }

/-- Passes 1 and 2 of `SettleSharded`. -/
def routeFills (shards : ℕ) (fills : List Fill) : Routing :=
  fills.foldl (routeStep shards (noteFills shards fills)) ⟨List.replicate shards [], [], 0, 0⟩

/-- `ShardResult`. -/
structure ShardResult where
  shards : ℕ
  intraShard : ℕ
  crossShard : ℕ
  conflicts : ℕ
  crossShardCfl : ℕ
  deriving DecidableEq, Repr

inductive SettleError (ε : Type) where
  | noShardStates
  | shardFill (shard : ℕ) (index : ℤ) (e : ε)
  | crossShardFill (index : ℤ) (e : ε)
  deriving DecidableEq, Repr

/-- A shard's fills applied in order, stopping at the first error. `Apply`
mutates the state it is given and may fail part way, so it returns the state
it leaves along with its error. -/
def applyFills {σ ε : Type} (apply : Fill → σ → σ × Option ε) : σ → List Fill → σ × Option (Fill × ε)
  | s, [] => (s, none)
  | s, f :: rest =>
    match apply f s with
    | (s', some e) => (s', some (f, e))
    | (s', none) => applyFills apply s' rest

/-- What `SettleSharded` returns, and the shard states and base it leaves. -/
structure SettleOutcome (σ ε : Type) where
  result : ShardResult
  err : Option (SettleError ε)
  shardStates : List σ
  base : σ

/-- `SettleSharded`. The shard goroutines touch their own states only, so
they run here one after another; the first shard in index order that failed
reports its error. -/
def settleSharded {σ ε : Type} (apply : Fill → σ → σ × Option ε) (base : σ) (shardStates : List σ)
    (fills : List Fill) : SettleOutcome σ ε :=
  let shards := shardStates.length
  if shards = 0 then ⟨⟨0, 0, 0, 0, 0⟩, some .noShardStates, shardStates, base⟩
  else
    let conflicts := (detectConflicts (rwSetsForFills fills) []).2
    let r := routeFills shards fills
    let res : ShardResult := ⟨shards, r.intraShard, r.crossShard, conflicts, 0⟩
    let runs := (shardStates.zip r.perShard).map fun (st, shardFills) => applyFills apply st shardFills
    let shardStates := runs.map (·.1)
    let shardErr := (runs.zipIdx.findSome? fun (run, s) => run.2.map (s, ·)).map
      fun (s, f, e) => SettleError.shardFill s f.index e
    match shardErr with
    | some err => ⟨res, some err, shardStates, base⟩
    | none =>
      if r.cross.length = 0 then ⟨res, none, shardStates, base⟩
      else
        let res := { res with crossShardCfl := (detectConflicts (rwSetsForFills r.cross) []).2 }
        let (base, crossErr) := applyFills apply base r.cross
        ⟨res, crossErr.map fun (f, e) => .crossShardFill f.index e, shardStates, base⟩

/-! ## Pass 1: the accounts that span two shards -/

theorem note_of_none {acctShard : Address → Option ℤ} {a : Address} {s : ℤ} (h : acctShard a = none) :
    note acctShard a s = Function.update acctShard a (some s) := by
  simp [note, h]

theorem note_of_some {acctShard : Address → Option ℤ} {a : Address} {s prev : ℤ}
    (h : acctShard a = some prev) :
    note acctShard a s =
      if prev ≠ s ∧ prev ≠ -1 then Function.update acctShard a (some (-1)) else acctShard := by
  simp [note, h]

theorem note_of_ne {acctShard : Address → Option ℤ} {a b : Address} {s : ℤ} (hab : a ≠ b) :
    note acctShard b s a = acctShard a := by
  rcases h : acctShard b with _ | prev
  · rw [note_of_none h, Function.update_of_ne hab]
  · rw [note_of_some h]
    split_ifs
    · exact Function.update_of_ne hab _ _
    · rfl

section Routing
variable (shards : ℕ)

/-- The (account, shard) pairs pass 1 notes, in order. -/
def sightings (fills : List Fill) : List (Address × ℕ) :=
  fills.flatMap fun f => [(f.maker, fillShard f shards), (f.taker, fillShard f shards)]

theorem noteFills_eq (fills : List Fill) :
    noteFills shards fills = (sightings shards fills).foldl (fun m p => note m p.1 p.2) fun _ => none := by
  unfold noteFills sightings
  rw [List.foldl_flatMap]
  rfl

/-- What pass 1's entry `v` for account `a` says after the sightings `seen`:
missing only if `a` was not seen, `-1` or the shard of every sighting, and `-1`
once `a` was seen on two shards. -/
structure AcctOk (seen : List (Address × ℕ)) (a : Address) (v : Option ℤ) : Prop where
  unseen : v = none → ∀ s, (a, s) ∉ seen
  sighted : ∀ s, (a, s) ∈ seen → v = some (-1) ∨ v = some (s : ℤ)
  spans : ∀ s s', s ≠ s' → (a, s) ∈ seen → (a, s') ∈ seen → v = some (-1)

theorem mem_concat_pair {seen : List (Address × ℕ)} {a b : Address} {s t : ℕ} :
    (a, t) ∈ seen ++ [(b, s)] ↔ (a, t) ∈ seen ∨ (a = b ∧ t = s) := by
  simp

theorem AcctOk.frame {seen : List (Address × ℕ)} {a b : Address} {v : Option ℤ}
    (h : AcctOk seen a v) (hab : a ≠ b) (s : ℕ) : AcctOk (seen ++ [(b, s)]) a v := by
  have hmem : ∀ t, (a, t) ∈ seen ++ [(b, s)] ↔ (a, t) ∈ seen := fun t => by
    simp [hab]
  refine ⟨fun hv t => ?_, fun t ht => h.sighted t ((hmem t).mp ht),
    fun t t' hne ht ht' => h.spans t t' hne ((hmem t).mp ht) ((hmem t').mp ht')⟩
  rw [hmem]
  exact h.unseen hv t

theorem AcctOk.cross (seen : List (Address × ℕ)) (a : Address) : AcctOk seen a (some (-1)) :=
  ⟨fun h => (nomatch h), fun _ _ => .inl rfl, fun _ _ _ _ _ => rfl⟩

theorem AcctOk.first {seen : List (Address × ℕ)} {b : Address} (h : AcctOk seen b none) (s : ℕ) :
    AcctOk (seen ++ [(b, s)]) b (some (s : ℤ)) := by
  have hnew : ∀ t, (b, t) ∈ seen ++ [(b, s)] → t = s := fun t ht => by
    rcases mem_concat_pair.mp ht with ht | ⟨-, rfl⟩
    · exact absurd ht (h.unseen rfl t)
    · rfl
  exact ⟨fun hv => (nomatch hv), fun t ht => .inr (congrArg _ (congrArg _ (hnew t ht).symm)),
    fun t t' hne ht ht' => absurd ((hnew t ht).trans (hnew t' ht').symm) hne⟩

theorem AcctOk.again {seen : List (Address × ℕ)} {b : Address} {s : ℕ}
    (h : AcctOk seen b (some (s : ℤ))) : AcctOk (seen ++ [(b, s)]) b (some (s : ℤ)) := by
  have hnew : ∀ t, (b, t) ∈ seen ++ [(b, s)] → t = s := fun t ht => by
    rcases mem_concat_pair.mp ht with ht | ⟨-, rfl⟩
    · rcases h.sighted t ht with h' | h'
      · have := Option.some.inj h'
        omega
      · exact_mod_cast (Option.some.inj h').symm
    · rfl
  exact ⟨fun hv => (nomatch hv), fun t ht => .inr (congrArg _ (congrArg _ (hnew t ht).symm)),
    fun t t' hne ht ht' => absurd ((hnew t ht).trans (hnew t' ht').symm) hne⟩

/-- What pass 1 knows after the sightings `seen`. -/
abbrev NoteInv (seen : List (Address × ℕ)) (acctShard : Address → Option ℤ) : Prop :=
  ∀ a, AcctOk seen a (acctShard a)

theorem NoteInv.init : NoteInv [] fun _ => none :=
  fun _ => ⟨fun _ _ h => (nomatch h), fun _ h => (nomatch h), fun _ _ _ h => (nomatch h)⟩

theorem NoteInv.step {seen : List (Address × ℕ)} {acctShard : Address → Option ℤ}
    (inv : NoteInv seen acctShard) (b : Address) (s : ℕ) :
    NoteInv (seen ++ [(b, s)]) (note acctShard b (s : ℤ)) := by
  intro a
  by_cases hab : a = b
  · subst hab
    -- the three branches of `note`: set, demote, keep
    rcases hprev : acctShard a with _ | prev
    · rw [note_of_none hprev, Function.update_self]
      exact AcctOk.first (hprev ▸ inv a) s
    · rw [note_of_some hprev]
      split_ifs with hps
      · rw [Function.update_self]
        exact AcctOk.cross _ a
      · -- kept: `prev` is `-1` already, or it is `s`
        have hkeep : prev = -1 ∨ prev = s := by tauto
        rcases hkeep with hp | hp
        · rw [hprev, hp]
          exact AcctOk.cross _ a
        · rw [hprev, hp]
          exact AcctOk.again (hp ▸ hprev ▸ inv a)
  · rw [note_of_ne hab]
    exact (inv a).frame hab s

theorem NoteInv.run (l : List (Address × ℕ)) :
    ∀ {seen : List (Address × ℕ)} {acctShard : Address → Option ℤ}, NoteInv seen acctShard →
      NoteInv (seen ++ l) (l.foldl (fun m p => note m p.1 p.2) acctShard) := by
  induction l with
  | nil => intro seen acctShard inv; simpa using inv
  | cons p l ih =>
    intro seen acctShard inv
    have := ih (inv.step p.1 p.2)
    rwa [List.append_assoc, List.singleton_append] at this

theorem isCross_noteFills {fills : List Fill} {a : Address} {s s' : ℕ} (hne : s ≠ s')
    (hs : (a, s) ∈ sightings shards fills) (hs' : (a, s') ∈ sightings shards fills) :
    isCross (noteFills shards fills) a = true := by
  have inv := NoteInv.run (sightings shards fills) NoteInv.init
  rw [List.nil_append, ← noteFills_eq] at inv
  simp [isCross, (inv a).spans s s' hne hs hs']

/-! ## Pass 2: the routing -/

theorem flatten_modify_append_perm {α : Type} {L : List (List α)} {k : ℕ} (hk : k < L.length)
    (x : α) : (L.modify k (· ++ [x])).flatten.Perm (L.flatten ++ [x]) := by
  have hsplit : L = L.take k ++ L[k] :: L.drop (k+1) := by
    rw [← List.drop_eq_getElem_cons hk, List.take_append_drop]
  rw [List.modify_eq_take_cons_drop hk]
  conv_rhs => rw [hsplit]
  simp only [List.flatten_append, List.flatten_cons, List.append_assoc]
  exact List.Perm.append_left _ (List.Perm.append_left _ List.perm_append_comm)

theorem getElem?_modify_append_eq_some {α : Type} {L : List (List α)} {k s : ℕ} {x : α}
    {l : List α} (h : (L.modify k (· ++ [x]))[s]? = some l) :
    ∃ l₀, L[s]? = some l₀ ∧ l = if k = s then l₀ ++ [x] else l₀ := by
  rw [List.getElem?_modify] at h
  obtain ⟨l₀, hl₀, rfl⟩ := Option.map_eq_some_iff.mp h
  exact ⟨l₀, hl₀, rfl⟩

variable (acctShard : Address → Option ℤ)

/-- What pass 2 has built after routing the fills `done`: the per-shard lists
and the tail split `done` and keep its order, each per-shard list holds fills
of its shard whose accounts pass 1 left shard-local, and every fill is
counted once. -/
structure RouteInv (done : List Fill) (r : Routing) : Prop where
  length : r.perShard.length = shards
  perm : (r.perShard.flatten ++ r.cross).Perm done
  sublist : ∀ (s : ℕ) (l : List Fill), r.perShard[s]? = some l → l.Sublist done
  cross_sublist : r.cross.Sublist done
  shard : ∀ (s : ℕ) (l : List Fill), r.perShard[s]? = some l → ∀ f ∈ l, fillShard f shards = s
  shardLocal : ∀ (s : ℕ) (l : List Fill), r.perShard[s]? = some l → ∀ f ∈ l,
    isCross acctShard f.maker = false ∧ isCross acctShard f.taker = false
  count : r.intraShard + r.crossShard = done.length

theorem RouteInv.init : RouteInv shards acctShard [] ⟨List.replicate shards [], [], 0, 0⟩ := by
  have hnil : ∀ s l, (List.replicate shards ([] : List Fill))[s]? = some l → l = [] :=
    fun s l h => List.eq_of_mem_replicate (List.mem_of_getElem? h)
  refine ⟨List.length_replicate, ?_, ?_, List.nil_sublist _, ?_, ?_, rfl⟩
  · simp
  · intro s l h
    rw [hnil s l h]
  · intro s l h f hf
    rw [hnil s l h] at hf
    cases hf
  · intro s l h f hf
    rw [hnil s l h] at hf
    cases hf

section Step
variable {shards acctShard} {done : List Fill} {r : Routing}

theorem RouteInv.toCross (inv : RouteInv shards acctShard done r) (f : Fill) :
    RouteInv shards acctShard (done ++ [f]) { r with cross := r.cross ++ [f], crossShard := r.crossShard+1 } where
  length := inv.length
  perm := by
    rw [← List.append_assoc]
    exact inv.perm.append_right [f]
  sublist s l h := (inv.sublist s l h).trans (List.sublist_append_left done [f])
  cross_sublist := inv.cross_sublist.append (List.Sublist.refl [f])
  shard := inv.shard
  shardLocal := inv.shardLocal
  count := by
    simp only [List.length_append, List.length_singleton]
    have := inv.count
    omega

theorem RouteInv.toShard (inv : RouteInv shards acctShard done r) (f : Fill)
    (hk : fillShard f shards < shards)
    (hmaker : isCross acctShard f.maker = false) (htaker : isCross acctShard f.taker = false) :
    RouteInv shards acctShard (done ++ [f])
      { r with perShard := r.perShard.modify (fillShard f shards) (· ++ [f]), intraShard := r.intraShard+1 } := by
  have hk' : fillShard f shards < r.perShard.length := by
    rw [inv.length]
    exact hk
  have hnew : ∀ s l, (r.perShard.modify (fillShard f shards) (· ++ [f]))[s]? = some l →
      ∃ l₀, r.perShard[s]? = some l₀ ∧ (l = l₀ ∧ fillShard f shards ≠ s ∨
        l = l₀ ++ [f] ∧ fillShard f shards = s) := by
    intro s l h
    obtain ⟨l₀, hl₀, hl⟩ := getElem?_modify_append_eq_some h
    refine ⟨l₀, hl₀, ?_⟩
    split_ifs at hl with hks
    · exact .inr ⟨hl, hks⟩
    · exact .inl ⟨hl, hks⟩
  refine ⟨?_, ?_, ?_, ?_, ?_, ?_, ?_⟩ <;> dsimp only
  · rw [List.length_modify, inv.length]
  · -- perm: the new fill moves past the tail
    calc List.Perm ((r.perShard.modify (fillShard f shards) (· ++ [f])).flatten ++ r.cross)
          (r.perShard.flatten ++ [f] ++ r.cross) :=
          (flatten_modify_append_perm hk' f).append_right _
      List.Perm _ (r.perShard.flatten ++ r.cross ++ [f]) := by
          simp only [List.append_assoc]
          exact List.Perm.append_left _ List.perm_append_comm
      List.Perm _ (done ++ [f]) := inv.perm.append_right [f]
  · intro s l h
    obtain ⟨l₀, hl₀, ⟨rfl, -⟩ | ⟨rfl, -⟩⟩ := hnew s l h
    · exact (inv.sublist s _ hl₀).trans (List.sublist_append_left done [f])
    · exact (inv.sublist s l₀ hl₀).append (List.Sublist.refl [f])
  · exact inv.cross_sublist.trans (List.sublist_append_left done [f])
  · intro s l h g hg
    obtain ⟨l₀, hl₀, ⟨rfl, -⟩ | ⟨rfl, hks⟩⟩ := hnew s l h
    · exact inv.shard s _ hl₀ g hg
    · rcases List.mem_append.mp hg with hg | hg
      · exact inv.shard s l₀ hl₀ g hg
      · rw [List.mem_singleton.mp hg]
        exact hks
  · intro s l h g hg
    obtain ⟨l₀, hl₀, ⟨rfl, -⟩ | ⟨rfl, -⟩⟩ := hnew s l h
    · exact inv.shardLocal s _ hl₀ g hg
    · rcases List.mem_append.mp hg with hg | hg
      · exact inv.shardLocal s l₀ hl₀ g hg
      · rw [List.mem_singleton.mp hg]
        exact ⟨hmaker, htaker⟩
  · simp only [List.length_append, List.length_singleton]
    have := inv.count
    omega

end Step

theorem fillShard_lt (f : Fill) {shards : ℕ} (hs : 0 < shards) : fillShard f shards < shards :=
  Nat.mod_lt _ hs

theorem RouteInv.step {done : List Fill} {r : Routing} (hs : 0 < shards)
    (inv : RouteInv shards acctShard done r) (f : Fill) :
    RouteInv shards acctShard (done ++ [f]) (routeStep shards acctShard r f) := by
  unfold routeStep
  split_ifs with hc
  · exact inv.toCross f
  · simp only [Bool.or_eq_true, not_or, Bool.not_eq_true] at hc
    exact inv.toShard f (fillShard_lt f hs) hc.1 hc.2

theorem RouteInv.run (hs : 0 < shards) (l : List Fill) :
    ∀ {done : List Fill} {r : Routing}, RouteInv shards acctShard done r →
      RouteInv shards acctShard (done ++ l) (l.foldl (routeStep shards acctShard) r) := by
  induction l with
  | nil => intro done r inv; simpa using inv
  | cons f l ih =>
    intro done r inv
    have := ih (inv.step shards acctShard hs f)
    rwa [List.append_assoc, List.singleton_append] at this

theorem routeFills_inv (hs : 0 < shards) (fills : List Fill) :
    RouteInv shards (noteFills shards fills) fills (routeFills shards fills) := by
  have inv := RouteInv.run shards (noteFills shards fills) hs fills (RouteInv.init shards _)
  rwa [List.nil_append] at inv

theorem mem_sightings {fills : List Fill} {f : Fill} (hf : f ∈ fills) {a : Address}
    (ha : a ∈ [f.maker, f.taker]) : (a, fillShard f shards) ∈ sightings shards fills := by
  unfold sightings
  rw [List.mem_flatMap]
  refine ⟨f, hf, ?_⟩
  rcases List.mem_pair.mp ha with rfl | rfl <;> simp

/-- Two fills routed to different shards share no account: one that both
trade in was seen on two shards, so pass 1 made it cross-shard and pass 2
sent both to the tail. -/
theorem routeFills_disjoint (hs : 0 < shards) {fills : List Fill} {s s' : ℕ} (hne : s ≠ s')
    {l l' : List Fill} (hl : (routeFills shards fills).perShard[s]? = some l)
    (hl' : (routeFills shards fills).perShard[s']? = some l') {f f' : Fill} (hf : f ∈ l)
    (hf' : f' ∈ l') : [f.maker, f.taker].Disjoint [f'.maker, f'.taker] := by
  intro a ha ha'
  have inv := routeFills_inv shards hs fills
  have hshards : fillShard f shards ≠ fillShard f' shards := by
    rw [inv.shard s l hl f hf, inv.shard s' l' hl' f' hf']
    exact hne
  have hcross : isCross (noteFills shards fills) a = true :=
    isCross_noteFills shards hshards (mem_sightings shards ((inv.sublist s l hl).subset hf) ha)
      (mem_sightings shards ((inv.sublist s' l' hl').subset hf') ha')
  have hlocal := inv.shardLocal s l hl f hf
  rcases List.mem_pair.mp ha with rfl | rfl
  · exact absurd hcross (by rw [hlocal.1]; decide)
  · exact absurd hcross (by rw [hlocal.2]; decide)

end Routing

/-- The counts `SettleSharded` reports are pass 2's, whichever way it returns. -/
theorem settleSharded_result {σ ε : Type} (apply : Fill → σ → σ × Option ε) (base : σ)
    {shardStates : List σ} (h : shardStates ≠ []) (fills : List Fill) :
    (settleSharded apply base shardStates fills).result.intraShard =
        (routeFills shardStates.length fills).intraShard ∧
      (settleSharded apply base shardStates fills).result.crossShard =
        (routeFills shardStates.length fills).crossShard := by
  have hlen : shardStates.length ≠ 0 := fun h0 => h (List.eq_nil_of_length_eq_zero h0)
  unfold settleSharded
  simp only [hlen, if_false]
  split
  · exact ⟨rfl, rfl⟩
  · split <;> exact ⟨rfl, rfl⟩

/-- **The routing of `SettleSharded` is a race-free partition.** For every
shard count and fill list: every fill goes to exactly one per-shard list or
the tail and is counted once, each list keeps the input order, each per-shard
list holds fills of its market's shard, and no maker or taker trades in two
shards' lists. -/
theorem settleSharded_routing (shards : ℕ) (hs : 0 < shards) (fills : List Fill) :
    (∀ {σ ε : Type} (apply : Fill → σ → σ × Option ε) (base : σ) (shardStates : List σ),
        shardStates.length = shards →
        (settleSharded apply base shardStates fills).result.intraShard +
          (settleSharded apply base shardStates fills).result.crossShard = fills.length) ∧
      (routeFills shards fills).perShard.length = shards ∧
      ((routeFills shards fills).perShard.flatten ++ (routeFills shards fills).cross).Perm fills ∧
      (routeFills shards fills).cross.Sublist fills ∧
      (∀ (s : ℕ) (l : List Fill), (routeFills shards fills).perShard[s]? = some l →
        l.Sublist fills ∧ ∀ f ∈ l, shardOf f.market shards = s) ∧
      ∀ (s s' : ℕ) (l l' : List Fill) (f f' : Fill), s ≠ s' →
        (routeFills shards fills).perShard[s]? = some l →
        (routeFills shards fills).perShard[s']? = some l' → f ∈ l → f' ∈ l' →
        [f.maker, f.taker].Disjoint [f'.maker, f'.taker] := by
  have inv := routeFills_inv shards hs fills
  refine ⟨?_, inv.length, inv.perm, inv.cross_sublist,
    fun s l hl => ⟨inv.sublist s l hl, inv.shard s l hl⟩,
    fun s s' l l' f f' hne hl hl' hf hf' => routeFills_disjoint shards hs hne hl hl' hf hf'⟩
  intro σ ε apply base shardStates hlen
  have hne : shardStates ≠ [] := by
    rintro rfl
    exact absurd hlen.symm (Nat.pos_iff_ne_zero.mp hs)
  obtain ⟨hintra, hcross⟩ := settleSharded_result apply base hne fills
  rw [hintra, hcross, hlen]
  exact inv.count

def sampleFills : List Fill := [⟨1, 2, 10, 0⟩, ⟨2, 3, 11, 1⟩, ⟨4, 5, 10, 2⟩]

theorem settleSharded_routing_sample :
    0 < 2 ∧ ((routeFills 2 sampleFills).perShard.flatten ++ (routeFills 2 sampleFills).cross).Perm
      sampleFills :=
  ⟨by decide, (settleSharded_routing 2 (by decide) sampleFills).2.2.1⟩

end LuxEvm.Parallel
