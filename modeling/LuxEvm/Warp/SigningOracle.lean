import LuxEvm.Warp.Backend
import Mathlib.Data.Set.Function

/-!
# The warp signing oracle signs authorized messages only

A message is authorized after a history of events when it was logged by the
warp precompile in a block being accepted, is a configured off-chain message,
or carries a block hash the block client reported as accepted, or an uptime
claim the validator reader confirmed, at some request of the history.

Every entry of the signature cache, the message cache, the off-chain table and
the database is kept under the message ID of an authorized message. `Verify`
passes a message whenever some entry is kept under its ID, so what is signed
is the requested message only because no two messages of the run share an ID:
the message ID, `Keccak256(msg.ID())`, is taken to be collision free on the
messages a run mentions (`CollisionFree`). Under that hypothesis every
signature returned, across restarts and evictions, is the signature of the
requested message, and that message is authorized
(`signing_oracle_signs_only_authorized`).
-/

set_option autoImplicit false

namespace LuxEvm.Warp

def Event.reports : Event → Option Reports
  | .getMessageSignature _ r => some r
  | .getBlockSignature _ r => some r
  | _ => none

section Spec

variable {σ : Type} (env : BackendEnv σ) (offchainMessages : List (List UInt8))

/-- `msg` was parsed from a warp log of the block accepted by `e`. -/
def Logged (e : Event) (msg : UnsignedMessage) : Prop :=
  ∃ warpActive logs, e = .acceptBlock warpActive logs ∧
    ∃ log ∈ logs, log.address = ContractAddress ∧ env.unpackLog log.data = .ok msg

def Mentioned (hist : List Event) (msg : UnsignedMessage) : Prop :=
  (∃ e ∈ hist, Logged env e msg ∨ e.requested env = some msg) ∨
    ∃ b ∈ offchainMessages, env.parseMessage b = .ok msg

/-- The messages a signature may be returned for after the events `hist`. -/
def Authorized (hist : List Event) (msg : UnsignedMessage) : Prop :=
  (∃ e ∈ hist, Logged env e msg) ∨
  (∃ b ∈ offchainMessages, env.parseMessage b = .ok msg) ∨
  (∃ blockID, env.parsePayload msg.payload = .ok (.hash blockID) ∧
    ∃ r ∈ hist.filterMap Event.reports, r.blockAccepted blockID = true) ∨
  (∃ payload validationID totalUptime,
    env.parsePayload msg.payload = .ok (.addressedCall [] payload) ∧
    env.parseAddressed payload = .ok (.validatorUptime validationID totalUptime) ∧
    ∃ r ∈ hist.filterMap Event.reports, ∃ current,
      r.uptimeSeconds validationID = some current ∧ totalUptime ≤ current)

def Known (hist : List Event) (id : Hash) : Prop :=
  ∃ m, Mentioned env offchainMessages hist m ∧ Authorized env offchainMessages hist m ∧
    env.messageID m = id

/-- No two messages the history mentions share a message ID. -/
def CollisionFree (hist : List Event) : Prop :=
  Set.InjOn env.messageID {m | Mentioned env offchainMessages hist m}

/-- What the backend keeps: everything under the ID of a known message, and a
cached signature is the signature of that message. -/
structure SignerInv (hist : List Event) (st : BackendState σ) : Prop where
  signatures : ∀ id sig, st.signatureCache id = some sig →
    ∃ m, Mentioned env offchainMessages hist m ∧ Authorized env offchainMessages hist m ∧
      env.messageID m = id ∧ env.sign m = some sig
  stored : ∀ id bytes, st.db id = some bytes → Known env offchainMessages hist id
  cached : ∀ id msg, st.messageCache id = some msg → Known env offchainMessages hist id
  offchain : ∀ id msg, st.offchainAddressedCallMsgs id = some msg →
    Known env offchainMessages hist id

variable {env offchainMessages}

theorem Mentioned.append {hist : List Event} {msg : UnsignedMessage}
    (h : Mentioned env offchainMessages hist msg) (more : List Event) :
    Mentioned env offchainMessages (hist ++ more) msg := by
  rcases h with ⟨e, he, h⟩ | h
  · exact Or.inl ⟨e, List.mem_append_left more he, h⟩
  · exact Or.inr h

theorem Authorized.append {hist : List Event} {msg : UnsignedMessage}
    (h : Authorized env offchainMessages hist msg) (more : List Event) :
    Authorized env offchainMessages (hist ++ more) msg := by
  have hr : ∀ r ∈ hist.filterMap Event.reports, r ∈ (hist ++ more).filterMap Event.reports := by
    intro r hr
    rw [List.filterMap_append]
    exact List.mem_append_left _ hr
  rcases h with ⟨e, he, h⟩ | h | ⟨b, hp, r, hrm, hb⟩ | ⟨p, v, t, hp, ha, r, hrm, hu⟩
  · exact Or.inl ⟨e, List.mem_append_left more he, h⟩
  · exact Or.inr (Or.inl h)
  · exact Or.inr (Or.inr (Or.inl ⟨b, hp, r, hr r hrm, hb⟩))
  · exact Or.inr (Or.inr (Or.inr ⟨p, v, t, hp, ha, r, hr r hrm, hu⟩))

theorem Known.append {hist : List Event} {id : Hash} (h : Known env offchainMessages hist id)
    (more : List Event) : Known env offchainMessages (hist ++ more) id := by
  obtain ⟨m, hm, ha, hid⟩ := h
  exact ⟨m, hm.append more, ha.append more, hid⟩

theorem CollisionFree.of_append {hist : List Event} (more : List Event)
    (h : CollisionFree env offchainMessages (hist ++ more)) : CollisionFree env offchainMessages hist :=
  Set.InjOn.mono (fun _ hm => Mentioned.append hm more) h

theorem mentioned_requested {hist : List Event} {e : Event} {msg : UnsignedMessage}
    (h : e.requested env = some msg) : Mentioned env offchainMessages (hist ++ [e]) msg :=
  Or.inl ⟨e, List.mem_append_right hist (List.mem_singleton_self _), Or.inr h⟩

theorem mem_reports_append {hist : List Event} {e : Event} {r : Reports}
    (h : e.reports = some r) : r ∈ (hist ++ [e]).filterMap Event.reports := by
  rw [List.filterMap_append]
  exact List.mem_append_right _ (List.mem_filterMap.mpr ⟨e, (List.mem_singleton_self _), h⟩)

theorem SignerInv.append {hist : List Event} {st : BackendState σ}
    (h : SignerInv env offchainMessages hist st) (more : List Event) :
    SignerInv env offchainMessages (hist ++ more) st := by
  refine ⟨fun id sig hs => ?_, fun id b hs => (h.stored id b hs).append more,
    fun id m hs => (h.cached id m hs).append more, fun id m hs => (h.offchain id m hs).append more⟩
  obtain ⟨m, hm, ha, hid, hsig⟩ := h.signatures id sig hs
  exact ⟨m, hm.append more, ha.append more, hid, hsig⟩

theorem Known.authorized {hist : List Event} {msg : UnsignedMessage}
    (hinj : CollisionFree env offchainMessages hist)
    (h : Known env offchainMessages hist (env.messageID msg))
    (hmsg : Mentioned env offchainMessages hist msg) : Authorized env offchainMessages hist msg := by
  obtain ⟨m, hm, ha, hid⟩ := h
  rw [← hinj hm hmsg hid]
  exact ha

end Spec

section Init

variable {σ : Type} (env : BackendEnv σ)

theorem initOffChainLoop_spec (msgs : List (List UInt8)) :
    ∀ (i : ℕ) (acc res : Hash → Option UnsignedMessage), initOffChainLoop env i acc msgs = .ok res →
      ∀ id msg, res id = some msg →
        acc id = some msg ∨ ∃ b ∈ msgs, env.parseMessage b = .ok msg ∧ env.messageID msg = id := by
  induction msgs with
  | nil =>
    intro i acc res h id msg hres
    simp only [initOffChainLoop, Except.ok.injEq] at h
    subst h
    exact Or.inl hres
  | cons b rest ih =>
    intro i acc res h id msg hres
    simp only [initOffChainLoop] at h
    split at h
    · cases h
    · rename_i m hparse
      split_ifs at h
      split at h
      · cases h
      · rcases ih _ _ res h id msg hres with hacc | ⟨b', hb', hp⟩
        · by_cases hid : id = env.messageID m
          · subst hid
            rw [Function.update_self] at hacc
            cases hacc
            exact Or.inr ⟨b, List.mem_cons_self, hparse, rfl⟩
          · rw [Function.update_of_ne hid] at hacc
            exact Or.inl hacc
        · exact Or.inr ⟨b', List.mem_cons_of_mem b hb', hp⟩

theorem SignerInv.newBackend {offchainMessages : List (List UInt8)} {st : BackendState σ}
    (h : newBackend env (fun _ => none) offchainMessages = .ok st) :
    SignerInv env offchainMessages [] st := by
  unfold LuxEvm.Warp.newBackend at h
  split at h
  · cases h
  · rename_i msgs hloop
    cases h
    refine ⟨(fun _ _ h => nomatch h), (fun _ _ h => nomatch h), (fun _ _ h => nomatch h), ?_⟩
    intro id msg hmsg
    rcases initOffChainLoop_spec env offchainMessages 0 _ msgs hloop id msg hmsg with h | ⟨b, hb, hp, hid⟩
    · cases h
    · exact ⟨msg, Or.inr ⟨b, hb, hp⟩, Or.inr (Or.inl ⟨b, hb, hp⟩), hid⟩

end Init

section Steps

variable {σ : Type} {env : BackendEnv σ} {offchainMessages : List (List UInt8)}
  {hist : List Event} {st : BackendState σ}

theorem SignerInv.signMessage (h : SignerInv env offchainMessages hist st) {msg : UnsignedMessage}
    (hm : Mentioned env offchainMessages hist msg) (ha : Authorized env offchainMessages hist msg) :
    SignerInv env offchainMessages hist (signMessage env st msg).1 ∧
      ∀ sig, (signMessage env st msg).2 = .ok sig → env.sign msg = some sig := by
  cases hsign : env.sign msg with
  | none =>
    rw [signMessage_none env hsign]
    exact ⟨h, fun _ h => by cases h⟩
  | some sig =>
    rw [signMessage_some env hsign]
    refine ⟨⟨fun id s hs => ?_, h.stored, h.cached, h.offchain⟩, fun s hs => ?_⟩
    · dsimp only at hs
      by_cases hid : id = env.messageID msg
      · subst hid
        rw [Function.update_self] at hs
        cases hs
        exact ⟨msg, hm, ha, rfl, hsign⟩
      · rw [Function.update_of_ne hid] at hs
        exact h.signatures id s hs
    · cases hs
      rfl

theorem SignerInv.addMessage (h : SignerInv env offchainMessages hist st) {msg : UnsignedMessage}
    (hm : Mentioned env offchainMessages hist msg) (ha : Authorized env offchainMessages hist msg) :
    SignerInv env offchainMessages hist (addMessage env st msg).1 := by
  have hstored : SignerInv env offchainMessages hist
      { st with db := Function.update st.db (env.messageID msg) (some (env.messageBytes msg)) } := by
    refine ⟨h.signatures, fun id b hb => ?_, h.cached, h.offchain⟩
    dsimp only at hb
    by_cases hid : id = env.messageID msg
    · exact ⟨msg, hm, ha, hid.symm⟩
    · rw [Function.update_of_ne hid] at hb
      exact h.stored id b hb
  rw [addMessage_fst]
  exact (hstored.signMessage hm ha).1

theorem SignerInv.acceptLogs {warpActive : Bool} {logs : List Log}
    (h : SignerInv env offchainMessages (hist ++ [.acceptBlock warpActive logs]) st)
    (rest : List Log) (hrest : ∀ log ∈ rest, log ∈ logs) :
    SignerInv env offchainMessages (hist ++ [.acceptBlock warpActive logs])
      (acceptLogs env warpActive st rest).1 := by
  induction rest generalizing st with
  | nil => exact h
  | cons log rest ih =>
    have hrest' : ∀ l ∈ rest, l ∈ logs := fun l hl => hrest l (List.mem_cons_of_mem log hl)
    unfold LuxEvm.Warp.acceptLogs
    split_ifs with hwarp
    · cases hunpack : env.unpackLog log.data with
      | error e => exact h
      | ok msg =>
        -- a message logged by the warp precompile in the block being accepted
        have hlogged : Logged env (.acceptBlock warpActive logs) msg :=
          ⟨warpActive, logs, rfl, log, hrest log List.mem_cons_self, hwarp.2, hunpack⟩
        have hm : Mentioned env offchainMessages (hist ++ [.acceptBlock warpActive logs]) msg :=
          Or.inl ⟨_, List.mem_append_right hist (List.mem_singleton_self _), Or.inl hlogged⟩
        have ha : Authorized env offchainMessages (hist ++ [.acceptBlock warpActive logs]) msg :=
          Or.inl ⟨_, List.mem_append_right hist (List.mem_singleton_self _), hlogged⟩
        have hadd := h.addMessage hm ha
        dsimp only
        split
        · rename_i st' e heq
          rw [heq] at hadd
          exact hadd
        · rename_i st' heq
          rw [heq] at hadd
          exact ih hadd hrest'
    · exact ih h hrest'

theorem SignerInv.getMessage (h : SignerInv env offchainMessages hist st) (id : Hash) :
    SignerInv env offchainMessages hist (getMessage env st id).1 ∧
      ∀ m, (getMessage env st id).2 = .ok m → Known env offchainMessages hist id := by
  unfold LuxEvm.Warp.getMessage
  cases hc : st.messageCache id with
  | some m => exact ⟨h, fun _ _ => h.cached id m hc⟩
  | none =>
    dsimp only
    cases ho : st.offchainAddressedCallMsgs id with
    | some m => exact ⟨h, fun _ _ => h.offchain id m ho⟩
    | none =>
      dsimp only
      cases hd : st.db id with
      | none => exact ⟨h, fun _ h => by cases h⟩
      | some bytes =>
        have hk := h.stored id bytes hd
        dsimp only
        cases env.parseMessage bytes with
        | error e => exact ⟨h, fun _ h => by cases h⟩
        | ok m =>
          refine ⟨⟨h.signatures, h.stored, fun id' m' hm' => ?_, h.offchain⟩, fun _ _ => hk⟩
          dsimp only at hm'
          by_cases hid : id' = id
          · subst hid
            exact hk
          · rw [Function.update_of_ne hid] at hm'
            exact h.cached id' m' hm'

theorem authorized_of_verifyPayload {e : Event} {r : Reports} (he : e.reports = some r)
    {msg : UnsignedMessage} (hv : verifyPayload env r msg = .ok ()) :
    Authorized env offchainMessages (hist ++ [e]) msg := by
  have hr : r ∈ (hist ++ [e]).filterMap Event.reports := mem_reports_append he
  unfold verifyPayload at hv
  cases hp : env.parsePayload msg.payload with
  | error err =>
    rw [hp] at hv
    cases hv
  | ok payload =>
    rw [hp] at hv
    cases payload with
    | other => cases hv
    | hash blockID =>
      dsimp only at hv
      unfold verifyBlockMessage at hv
      split_ifs at hv with hacc
      exact Or.inr (Or.inr (Or.inl ⟨blockID, hp, r, hr, hacc⟩))
    | addressedCall src inner =>
      dsimp only at hv
      unfold verifyOffchainAddressedCall at hv
      cases hpa : env.parseAddressed inner with
      | error err =>
        rw [hpa] at hv
        cases hv
      | ok parsed =>
        rw [hpa] at hv
        dsimp only at hv
        split_ifs at hv with hsrc
        have hnil : src = [] := not_not.mp hsrc
        subst hnil
        cases parsed with
        | other => cases hv
        | validatorUptime vid total =>
          dsimp only at hv
          unfold verifyUptimeMessage at hv
          cases hu : r.uptimeSeconds vid with
          | none =>
            rw [hu] at hv
            cases hv
          | some current =>
            rw [hu] at hv
            dsimp only at hv
            split_ifs at hv with hlt
            exact Or.inr (Or.inr (Or.inr ⟨inner, vid, total, hp, hpa, r, hr, current, hu,
              UInt64.not_lt.mp hlt⟩))

theorem SignerInv.verify {e : Event} {r : Reports} (he : e.reports = some r)
    (h : SignerInv env offchainMessages hist st) {msg : UnsignedMessage}
    (hinj : CollisionFree env offchainMessages (hist ++ [e]))
    (hmsg : Mentioned env offchainMessages (hist ++ [e]) msg) :
    SignerInv env offchainMessages hist (verify env r st msg).1 ∧
      ((verify env r st msg).2 = .ok () → Authorized env offchainMessages (hist ++ [e]) msg) := by
  obtain ⟨hg, hfound⟩ := h.getMessage (env.messageID msg)
  unfold LuxEvm.Warp.verify
  split
  · -- a known message is stored under the requested message's ID
    rename_i st' m heq
    rw [heq] at hg hfound
    exact ⟨hg, fun _ => ((hfound m rfl).append [e]).authorized hinj hmsg⟩
  · rename_i st' heq
    rw [heq] at hg
    exact ⟨hg, fun h => by cases h⟩
  · rename_i st' heq
    rw [heq] at hg
    exact ⟨hg, authorized_of_verifyPayload he⟩

theorem SignerInv.getMessageSignature (h : SignerInv env offchainMessages hist st)
    {msg : UnsignedMessage} {r : Reports}
    (hinj : CollisionFree env offchainMessages (hist ++ [.getMessageSignature msg r])) :
    SignerInv env offchainMessages (hist ++ [.getMessageSignature msg r])
        (getMessageSignature env r st msg).1 ∧
      ∀ sig, (getMessageSignature env r st msg).2 = .ok sig →
        env.sign msg = some sig ∧
          Authorized env offchainMessages (hist ++ [.getMessageSignature msg r]) msg := by
  have hmsg : Mentioned env offchainMessages (hist ++ [.getMessageSignature msg r]) msg :=
    mentioned_requested rfl
  unfold LuxEvm.Warp.getMessageSignature
  cases hc : st.signatureCache (env.messageID msg) with
  | some sig =>
    obtain ⟨m, hm, ha, hid, hsig⟩ := h.signatures _ sig hc
    have hm' := hm.append [.getMessageSignature msg r]
    have heq := hinj hm' hmsg hid
    subst heq
    exact ⟨h.append _, fun s hs => by
      cases hs
      exact ⟨hsig, ha.append _⟩⟩
  | none =>
    obtain ⟨hv, hauth⟩ := h.verify rfl hinj hmsg
    dsimp only
    split
    · rename_i st' e heq
      rw [heq] at hv
      exact ⟨hv.append _, fun _ hs => by cases hs⟩
    · rename_i st' heq
      rw [heq] at hv hauth
      have ha := hauth rfl
      obtain ⟨hs1, hs2⟩ := (hv.append [.getMessageSignature msg r]).signMessage hmsg ha
      exact ⟨hs1, fun sig hs => ⟨hs2 sig hs, ha⟩⟩

theorem SignerInv.getBlockSignature (h : SignerInv env offchainMessages hist st)
    {blockID : Hash} {r : Reports}
    (hinj : CollisionFree env offchainMessages (hist ++ [.getBlockSignature blockID r])) :
    SignerInv env offchainMessages (hist ++ [.getBlockSignature blockID r])
        (getBlockSignature env r st blockID).1 ∧
      ∀ sig, (getBlockSignature env r st blockID).2 = .ok sig →
        env.sign (blockMessage env blockID) = some sig ∧
          Authorized env offchainMessages (hist ++ [.getBlockSignature blockID r])
            (blockMessage env blockID) := by
  have hmsg : Mentioned env offchainMessages (hist ++ [.getBlockSignature blockID r])
      (blockMessage env blockID) := mentioned_requested rfl
  unfold LuxEvm.Warp.getBlockSignature
  dsimp only
  cases hc : st.signatureCache (env.messageID (blockMessage env blockID)) with
  | some sig =>
    obtain ⟨m, hm, ha, hid, hsig⟩ := h.signatures _ sig hc
    have heq := hinj (hm.append [.getBlockSignature blockID r]) hmsg hid
    subst heq
    exact ⟨h.append _, fun s hs => by
      cases hs
      exact ⟨hsig, ha.append _⟩⟩
  | none =>
    unfold verifyBlockMessage
    split_ifs with hacc
    · -- the block client reports the block accepted: its hash payload is authorized
      have ha : Authorized env offchainMessages (hist ++ [.getBlockSignature blockID r])
          (blockMessage env blockID) :=
        Or.inr (Or.inr (Or.inl ⟨blockID, env.parsePayload_hashPayload blockID, r,
          mem_reports_append rfl, hacc⟩))
      obtain ⟨hs1, hs2⟩ := (h.append [.getBlockSignature blockID r]).signMessage hmsg ha
      exact ⟨hs1, fun sig hs => ⟨hs2 sig hs, ha⟩⟩
    · exact ⟨h.append _, fun _ hs => by cases hs⟩

theorem SignerInv.step (h : SignerInv env offchainMessages hist st) (e : Event)
    (hinj : CollisionFree env offchainMessages (hist ++ [e])) :
    SignerInv env offchainMessages (hist ++ [e]) (LuxEvm.Warp.step env st e).1 ∧
      ∀ sig, (LuxEvm.Warp.step env st e).2 = some (.ok sig) →
        ∃ msg, e.requested env = some msg ∧ env.sign msg = some sig ∧
          Authorized env offchainMessages (hist ++ [e]) msg := by
  cases e with
  | acceptBlock warpActive logs =>
    exact ⟨(h.append _).acceptLogs logs (fun _ hl => hl), fun _ hs => by cases hs⟩
  | restart =>
    refine ⟨⟨(fun _ _ hs => by cases hs), (fun id b hb => (h.stored id b hb).append _),
      (fun _ _ hm => by cases hm), (fun id m hm => (h.offchain id m hm).append _)⟩,
      fun _ hs => by cases hs⟩
  | evictSignature id =>
    refine ⟨⟨fun id' sig hs => ?_, fun id b hb => (h.stored id b hb).append _,
      fun id m hm => (h.cached id m hm).append _, fun id m hm => (h.offchain id m hm).append _⟩,
      fun _ hs => by cases hs⟩
    by_cases hid : id' = id
    · subst hid
      simp only [LuxEvm.Warp.step, Function.update_self] at hs
      cases hs
    · simp only [LuxEvm.Warp.step, Function.update_of_ne hid] at hs
      exact ((h.append [.evictSignature id]).signatures id' sig hs)
  | evictMessage id =>
    refine ⟨⟨fun id sig hs => ((h.append _).signatures id sig hs), fun id b hb =>
      (h.stored id b hb).append _, fun id' m hm => ?_, fun id m hm => (h.offchain id m hm).append _⟩,
      fun _ hs => by cases hs⟩
    by_cases hid : id' = id
    · subst hid
      simp only [LuxEvm.Warp.step, Function.update_self] at hm
      cases hm
    · simp only [LuxEvm.Warp.step, Function.update_of_ne hid] at hm
      exact (h.cached id' m hm).append _
  | getMessageSignature msg r =>
    obtain ⟨h1, h2⟩ := h.getMessageSignature hinj
    exact ⟨h1, fun sig hs => ⟨msg, rfl, h2 sig (Option.some.inj hs)⟩⟩
  | getBlockSignature blockID r =>
    obtain ⟨h1, h2⟩ := h.getBlockSignature hinj
    exact ⟨h1, fun sig hs => ⟨blockMessage env blockID, rfl, h2 sig (Option.some.inj hs)⟩⟩

theorem SignerInv.run (events : List Event) :
    ∀ (hist : List Event) (st : BackendState σ), SignerInv env offchainMessages hist st →
      CollisionFree env offchainMessages (hist ++ events) →
      SignerInv env offchainMessages (hist ++ events) (LuxEvm.Warp.run env st events) := by
  induction events with
  | nil =>
    intro hist st h _
    rw [List.append_nil]
    exact h
  | cons e rest ih =>
    intro hist st h hinj
    rw [← List.singleton_append, ← List.append_assoc] at hinj ⊢
    exact ih (hist ++ [e]) _ (h.step e (hinj.of_append rest)).1 hinj

end Steps

section Sample

def sampleEnv : BackendEnv UnsignedMessage where
  networkID := 0
  sourceChainID := 1
  messageID _ := 0
  sign := some
  messageBytes := UnsignedMessage.bytes
  parseMessage := parseMessage
  unpackLog := parseMessage
  parsePayload := warpParsers.parsePayload
  parseAddressed := parseAddressed
  hashPayload := hashBytes
  parsePayload_hashPayload := parsePayload_hashBytes

def emptyBackend : BackendState UnsignedMessage :=
  ⟨fun _ => none, fun _ => none, fun _ => none, fun _ => none⟩

def acceptAllReports : Reports := ⟨fun _ => true, fun _ => none⟩

theorem mentioned_blockRequest {σ : Type} {env : BackendEnv σ} {blockID : Hash} {r : Reports}
    {m : UnsignedMessage} (h : Mentioned env [] [.getBlockSignature blockID r] m) :
    m = blockMessage env blockID := by
  rcases h with ⟨e, he, ⟨_, _, hlog, -⟩ | hreq⟩ | ⟨b, hb, -⟩
  · rw [List.mem_singleton] at he
    subst he
    cases hlog
  · rw [List.mem_singleton] at he
    subst he
    exact (Option.some.inj hreq).symm
  · cases hb

end Sample

theorem signing_oracle_signs_only_authorized {σ : Type} (env : BackendEnv σ)
    (offchainMessages : List (List UInt8)) (st0 : BackendState σ)
    (hinit : newBackend env (fun _ => none) offchainMessages = .ok st0)
    (pre : List Event) (e : Event) (post : List Event)
    (hcr : CollisionFree env offchainMessages (pre ++ e :: post))
    (sig : σ) (hsig : (step env (run env st0 pre) e).2 = some (.ok sig)) :
    ∃ msg, e.requested env = some msg ∧ env.sign msg = some sig ∧
      Authorized env offchainMessages (pre ++ [e]) msg := by
  rw [← List.singleton_append, ← List.append_assoc] at hcr
  have hpre : SignerInv env offchainMessages ([] ++ pre) (run env st0 pre) :=
    SignerInv.run pre [] st0 (SignerInv.newBackend env hinit) (by
      rw [List.nil_append]
      exact (hcr.of_append post).of_append [e])
  rw [List.nil_append] at hpre
  exact (hpre.step e (hcr.of_append post)).2 sig hsig

theorem signing_oracle_signs_only_authorized_block :
    ∃ msg, (Event.getBlockSignature 0 acceptAllReports).requested sampleEnv = some msg ∧
      sampleEnv.sign msg = some (blockMessage sampleEnv 0) ∧
      Authorized sampleEnv [] ([] ++ [Event.getBlockSignature 0 acceptAllReports]) msg :=
  signing_oracle_signs_only_authorized sampleEnv [] emptyBackend rfl []
    (Event.getBlockSignature 0 acceptAllReports) []
    (Set.Subsingleton.injOn (fun _ hx _ hy =>
      (mentioned_blockRequest hx).trans (mentioned_blockRequest hy).symm) _)
    _ rfl

end LuxEvm.Warp
