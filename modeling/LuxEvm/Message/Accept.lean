import LuxEvm.Message.Marshal

/-!
# What `Unmarshal` accepts

The converse of the round trip. A packer error is sticky: an unpack after one
records one too. So a decode that ends without an error had none at any step,
and each step moved past exactly the layout of what it returned (`Accepts`).
Threaded through the fields, the count loops and the seven layouts, a message
`Unmarshal` accepts is of the destination's type, has each integer field within
its Go type, and its version and layout are a prefix of the bytes read, which
`Marshal` writes back (`unmarshal_accepts_only_layouts`). Bytes after the layout
are never read, and `Unmarshal` does not reject them.
-/

set_option autoImplicit false

namespace LuxEvm.Message

open Lib.ByteString (value encode length_encode value_lt encode_value)

theorem append_prefix_of_drop {l e₁ e₂ : List UInt8} {o : ℕ} (h₁ : e₁ <+: l.drop o)
    (h₂ : e₂ <+: l.drop (o + e₁.length)) : e₁ ++ e₂ <+: l.drop o := by
  obtain ⟨t₁, ht₁⟩ := h₁
  obtain ⟨t₂, ht₂⟩ := h₂
  have hrest : l.drop (o + e₁.length) = t₁ := by rw [← List.drop_drop, ← ht₁, List.drop_left]
  refine ⟨t₂, ?_⟩
  rw [List.append_assoc, ht₂, hrest, ht₁]

namespace Packer

variable {α : Type}

/-- The unpack `f` reads only layouts `R` relates to its result: when it ends
without an error, it started without one and moved past bytes `enc` of the
unread ones with `R x enc`. -/
def Accepts (f : Packer → α × Packer) (R : α → List UInt8 → Prop) : Prop :=
  ∀ p : Packer, (f p).2.errored = false → p.errored = false ∧
    ∃ enc, R (f p).1 enc ∧ enc <+: p.bytes.drop p.offset ∧
      (f p).2 = { p with offset := p.offset + enc.length }

theorem accepts_unpackFixedBytes (size : ℕ) :
    Accepts (unpackFixedBytes size) fun bs enc => enc = bs ∧ bs.length = size := by
  intro p hp
  unfold unpackFixedBytes at hp ⊢
  split at hp
  · simp at hp
  · rename_i hs
    rw [if_neg hs]
    simp only [Bool.or_eq_true, decide_eq_true_eq, not_or, Bool.not_eq_true, not_lt] at hs
    simp only [remaining] at hs
    have hlen : ((p.bytes.drop p.offset).take size).length = size := by
      rw [List.length_take, List.length_drop]
      omega
    exact ⟨hs.1, _, ⟨rfl, hlen⟩, List.take_prefix _ _, by rw [hlen]⟩

theorem accepts_unpackUint (width : ℕ) :
    Accepts (unpackUint width) fun v enc => v < 256^width ∧ enc = encode width v := by
  intro p hp
  have hfix := accepts_unpackFixedBytes width p
  rcases hq : unpackFixedBytes width p with ⟨bs, q⟩
  rw [hq] at hfix
  simp only [unpackUint, hq] at hp ⊢
  obtain ⟨he, enc, ⟨rfl, hlen⟩, hpre, rfl⟩ := hfix hp
  exact ⟨he, _, ⟨hlen ▸ value_lt enc, by rw [← hlen, encode_value]⟩, hpre, rfl⟩

theorem accepts_unpackHash : Accepts unpackHash fun h enc => enc = encodeHash h := by
  intro p hp
  have hfix := accepts_unpackFixedBytes HashLength p
  rcases hq : unpackFixedBytes HashLength p with ⟨bs, q⟩
  rw [hq] at hfix
  simp only [unpackHash, hq] at hp ⊢
  obtain ⟨he, enc, ⟨rfl, hlen⟩, hpre, rfl⟩ := hfix hp
  have hlt : value enc < 2^256 := by
    have := value_lt enc
    rwa [hlen, show (256 : ℕ)^HashLength = 2^256 by norm_num [HashLength]] at this
  refine ⟨he, _, ?_, hpre, rfl⟩
  rw [encodeHash, BitVec.toNat_ofNat, Nat.mod_eq_of_lt hlt, ← hlen, encode_value]

theorem accepts_unpackBytes :
    Accepts unpackBytes fun bs enc => bs.length < 2^32 ∧ enc = encodeBytes bs := by
  intro p hp
  have hint := accepts_unpackUint 4 p
  rcases hq : unpackUint 4 p with ⟨size, q⟩
  rw [hq] at hint
  have hfix := accepts_unpackFixedBytes size q
  rcases hr : unpackFixedBytes size q with ⟨bs, r⟩
  rw [hr] at hfix
  dsimp only at hint hfix
  simp only [unpackBytes, unpackInt, hq, hr] at hp ⊢
  obtain ⟨hqe, e₂, ⟨rfl, hlen⟩, hpre₂, rfl⟩ := hfix hp
  obtain ⟨he, e₁, ⟨hsize, rfl⟩, hpre₁, rfl⟩ := hint hqe
  refine ⟨he, encode 4 size ++ e₂, ⟨?_, by rw [encodeBytes, hlen]⟩, append_prefix_of_drop hpre₁ hpre₂, ?_⟩
  · rw [hlen]
    exact hsize
  · simp only [List.length_append, Nat.add_assoc]

end Packer

section Accepts

variable {α β : Type}

/-- `d` reads only layouts `R` relates to its result: when a run ends without
an error, it started without one and the packer moved past bytes `enc` of the
unread ones with `R x enc`. -/
def Accepts (d : Decode α) (R : α → List UInt8 → Prop) : Prop :=
  ∀ s : DecodeState, (d.run s).2.packer.errored = false → s.packer.errored = false ∧
    ∃ enc, R (d.run s).1 enc ∧ enc <+: s.packer.bytes.drop s.packer.offset ∧
      (d.run s).2.packer = { s.packer with offset := s.packer.offset + enc.length }

theorem Accepts.mono {d : Decode α} {R R' : α → List UInt8 → Prop} (h : Accepts d R)
    (hR : ∀ x enc, R x enc → R' x enc) : Accepts d R' := fun s hs =>
  let ⟨he, enc, hx, hpre, hp⟩ := h s hs
  ⟨he, enc, hR _ _ hx, hpre, hp⟩

theorem Accepts.pure (x : α) : Accepts (Pure.pure x : Decode α) fun y enc => y = x ∧ enc = [] :=
  fun _ hs => ⟨hs, [], ⟨rfl, rfl⟩, List.nil_prefix, rfl⟩

theorem Accepts.bind {d : Decode α} {k : α → Decode β} {R₁ : α → List UInt8 → Prop}
    {R₂ : α → β → List UInt8 → Prop} (hd : Accepts d R₁) (hk : ∀ a, Accepts (k a) (R₂ a)) :
    Accepts (d >>= k) fun b enc => ∃ a e₁ e₂, R₁ a e₁ ∧ R₂ a b e₂ ∧ enc = e₁ ++ e₂ := by
  intro s hs
  rw [run_bind] at hs ⊢
  obtain ⟨hs₁, e₂, hR₂, hpre₂, hp₂⟩ := hk _ _ hs
  obtain ⟨hs₀, e₁, hR₁, hpre₁, hp₁⟩ := hd s hs₁
  rw [hp₁] at hpre₂
  refine ⟨hs₀, e₁ ++ e₂, ⟨_, e₁, e₂, hR₁, hR₂, rfl⟩, append_prefix_of_drop hpre₁ hpre₂, ?_⟩
  rw [hp₂, hp₁]
  simp only [List.length_append, Nat.add_assoc]

theorem Accepts.map (f : α → β) {d : Decode α} {R : α → List UInt8 → Prop} (h : Accepts d R) :
    Accepts (f <$> d) fun y enc => ∃ x, R x enc ∧ y = f x := fun s hs => by
  rw [run_map] at hs ⊢
  obtain ⟨he, enc, hx, hpre, hp⟩ := h s hs
  exact ⟨he, enc, ⟨_, hx, rfl⟩, hpre, hp⟩

theorem accepts_unpack {f : Packer → α × Packer} {R : α → List UInt8 → Prop}
    (hf : Packer.Accepts f R) : Accepts (unpack f) R := fun s hs => by
  rw [run_unpack] at hs ⊢
  exact hf s.packer hs

theorem accepts_make (capacity : ℕ) : Accepts (make capacity) fun _ enc => enc = [] :=
  fun _ hs => ⟨hs, [], rfl, List.nil_prefix, rfl⟩

theorem accepts_errored_ite {a b : Decode α} {Ra Rb : α → List UInt8 → Prop} (ha : Accepts a Ra)
    (hb : Accepts b Rb) : Accepts (do if ← errored then a else b) Rb := by
  intro s hs
  rw [run_errored_ite] at hs ⊢
  by_cases he : s.packer.errored = true
  · rw [if_pos he] at hs
    exact absurd (ha s hs).1 (by rw [he]; decide)
  · rw [if_neg he] at hs ⊢
    exact hb s hs

theorem accepts_unpackLoop {elem : Decode α} {R : α → List UInt8 → Prop} (hel : Accepts elem R)
    (count : ℕ) (acc : List α) :
    Accepts (unpackLoop elem count acc) fun ys enc =>
      ∃ xs es, ys = acc ++ xs ∧ xs.length = count ∧ List.Forall₂ R xs es ∧ enc = es.flatten := by
  induction count generalizing acc with
  | zero =>
    refine (Accepts.pure acc).mono ?_
    rintro ys enc ⟨rfl, rfl⟩
    exact ⟨[], [], (List.append_nil _).symm, rfl, .nil, rfl⟩
  | succ count ih =>
    refine (accepts_errored_ite (Accepts.pure acc) (hel.bind fun x => ih (acc ++ [x]))).mono ?_
    rintro ys enc ⟨x, e, _, hx, ⟨xs, es, rfl, hlen, hxs, rfl⟩, rfl⟩
    exact ⟨x :: xs, e :: es, by simp, by rw [List.length_cons, hlen], .cons hx hxs, rfl⟩

theorem accepts_unpackList {elem : Decode α} {R : α → List UInt8 → Prop} (hel : Accepts elem R) :
    Accepts (unpackList elem) fun xs enc =>
      ∃ es, xs.length < 2^32 ∧ List.Forall₂ R xs es ∧ enc = encode 4 xs.length ++ es.flatten := by
  refine ((accepts_unpack (Packer.accepts_unpackUint 4)).bind fun count =>
    (accepts_make count).bind fun _ => accepts_unpackLoop hel count []).mono ?_
  rintro xs enc ⟨count, _, _, ⟨hcount, rfl⟩, ⟨_, _, _, rfl, ⟨ys, es, rfl, hlen, hys, rfl⟩, rfl⟩, rfl⟩
  rw [List.nil_append]
  subst hlen
  exact ⟨es, hcount, hys, rfl⟩

end Accepts

theorem flatten_of_forall₂ {α : Type} {P : α → Prop} {f : α → List UInt8} {xs : List α}
    {es : List (List UInt8)} (h : List.Forall₂ (fun x e => P x ∧ e = f x) xs es) :
    es.flatten = xs.flatMap f := by
  induction h with
  | nil => rfl
  | cons hx _ ih => rw [List.flatten_cons, List.flatMap_cons, hx.2, ih]

/-! ### The messages -/

theorem accepts_bytesList :
    Accepts (unpackList (unpack Packer.unpackBytes)) fun xs enc => enc = encodeList encodeBytes xs := by
  refine (accepts_unpackList (accepts_unpack Packer.accepts_unpackBytes)).mono ?_
  rintro xs enc ⟨es, -, hes, rfl⟩
  rw [encodeList, flatten_of_forall₂ hes]

theorem accepts_unmarshalBlockRequest : Accepts unmarshalBlockRequest fun m enc =>
    m.height < 2^64 ∧ m.parents < 2^16 ∧ enc = encodeHash m.hash ++ encode 8 m.height ++ encode 2 m.parents := by
  refine ((accepts_unpack Packer.accepts_unpackHash).bind fun hash =>
    (accepts_unpack (Packer.accepts_unpackUint 8)).bind fun height =>
      (accepts_unpack (Packer.accepts_unpackUint 2)).bind fun parents => Accepts.pure _).mono ?_
  -- a hash's layout is substituted by its variable: unfolding `encodeHash` is costly
  rintro m enc ⟨hash, eh, _, heh, ⟨height, _, _, ⟨hh, rfl⟩, ⟨parents, _, _, ⟨hp, rfl⟩, ⟨rfl, rfl⟩,
    rfl⟩, rfl⟩, rfl⟩
  subst eh
  exact ⟨hh, hp, by simp⟩

theorem accepts_unmarshalBlockResponse :
    Accepts unmarshalBlockResponse fun m enc => enc = encodeList encodeBytes m.blocks := by
  refine (accepts_bytesList.bind fun blocks => Accepts.pure _).mono ?_
  rintro m enc ⟨blocks, _, _, rfl, ⟨rfl, rfl⟩, rfl⟩
  exact List.append_nil _

theorem accepts_unmarshalLeafsRequest : Accepts unmarshalLeafsRequest fun m enc =>
    m.limit < 2^16 ∧ enc = encodeValue (.leafsRequest m) := by
  refine ((accepts_unpack Packer.accepts_unpackHash).bind fun root =>
    (accepts_unpack Packer.accepts_unpackHash).bind fun account =>
      (accepts_unpack Packer.accepts_unpackBytes).bind fun start =>
        (accepts_unpack Packer.accepts_unpackBytes).bind fun endKey =>
          (accepts_unpack (Packer.accepts_unpackUint 2)).bind fun limit => Accepts.pure _).mono ?_
  rintro m enc ⟨root, er, _, her, ⟨account, ea, _, hea, ⟨start, _, _, ⟨-, rfl⟩, ⟨endKey, _, _, ⟨-, rfl⟩,
    ⟨limit, _, _, ⟨hl, rfl⟩, ⟨rfl, rfl⟩, rfl⟩, rfl⟩, rfl⟩, rfl⟩, rfl⟩
  subst er ea
  exact ⟨hl, by simp [encodeValue]⟩

theorem accepts_unmarshalLeafsResponse :
    Accepts unmarshalLeafsResponse fun m enc => enc = encodeValue (.leafsResponse m) := by
  refine (accepts_bytesList.bind fun keys => accepts_bytesList.bind fun vals =>
    accepts_bytesList.bind fun proofVals => Accepts.pure _).mono ?_
  rintro m enc ⟨keys, _, _, rfl, ⟨vals, _, _, rfl, ⟨proofVals, _, _, rfl, ⟨rfl, rfl⟩, rfl⟩, rfl⟩, rfl⟩
  simp [encodeValue]

theorem accepts_unmarshalCodeRequest :
    Accepts unmarshalCodeRequest fun m enc => enc = encodeList encodeHash m.hashes := by
  have hhashes : Accepts (unpackList (unpack Packer.unpackHash)) fun xs enc =>
      enc = encodeList encodeHash xs := by
    refine (accepts_unpackList (accepts_unpack Packer.accepts_unpackHash)).mono ?_
    rintro xs enc ⟨es, -, hes, rfl⟩
    have hes' : List.Forall₂ (fun x e => True ∧ e = encodeHash x) xs es :=
      hes.imp fun _ _ he => ⟨trivial, he⟩
    rw [encodeList, flatten_of_forall₂ hes']
  refine (hhashes.bind fun hashes => Accepts.pure _).mono ?_
  rintro m enc ⟨hashes, eh, _, heh, ⟨rfl, rfl⟩, rfl⟩
  subst eh
  exact List.append_nil _

theorem accepts_unmarshalCodeResponse :
    Accepts unmarshalCodeResponse fun m enc => enc = encodeList encodeBytes m.data := by
  refine (accepts_bytesList.bind fun data => Accepts.pure _).mono ?_
  rintro m enc ⟨data, _, _, rfl, ⟨rfl, rfl⟩, rfl⟩
  exact List.append_nil _

theorem accepts_unmarshalSyncSummary : Accepts unmarshalSyncSummary fun m enc =>
    m.blockNumber < 2^64 ∧ enc = encodeValue (.syncSummary m) := by
  refine ((accepts_unpack (Packer.accepts_unpackUint 8)).bind fun blockNumber =>
    (accepts_unpack Packer.accepts_unpackHash).bind fun blockHash =>
      (accepts_unpack Packer.accepts_unpackHash).bind fun blockRoot => Accepts.pure _).mono ?_
  rintro m enc ⟨blockNumber, _, _, ⟨hn, rfl⟩, ⟨blockHash, eh, _, heh, ⟨blockRoot, er, _, her, ⟨rfl, rfl⟩,
    rfl⟩, rfl⟩, rfl⟩
  subst eh er
  exact ⟨hn, by simp [encodeValue]⟩

theorem accepts_unmarshalValue (dest : Dest) : Accepts (unmarshalValue dest) fun m enc =>
    m.dest = dest ∧ m.InRange ∧ enc = encodeValue m := by
  cases dest with
  | blockRequest =>
    refine (accepts_unmarshalBlockRequest.map _).mono ?_
    rintro _ enc ⟨m, ⟨hh, hp, henc⟩, rfl⟩
    subst enc
    exact ⟨rfl, ⟨hh, hp⟩, rfl⟩
  | blockResponse =>
    refine (accepts_unmarshalBlockResponse.map _).mono ?_
    rintro _ enc ⟨m, henc, rfl⟩
    subst enc
    exact ⟨rfl, trivial, rfl⟩
  | leafsRequest =>
    refine (accepts_unmarshalLeafsRequest.map _).mono ?_
    rintro _ enc ⟨m, ⟨hl, henc⟩, rfl⟩
    subst enc
    exact ⟨rfl, hl, rfl⟩
  | leafsResponse =>
    refine (accepts_unmarshalLeafsResponse.map _).mono ?_
    rintro _ enc ⟨m, henc, rfl⟩
    subst enc
    exact ⟨rfl, trivial, rfl⟩
  | codeRequest =>
    refine (accepts_unmarshalCodeRequest.map _).mono ?_
    rintro _ enc ⟨m, henc, rfl⟩
    subst enc
    exact ⟨rfl, trivial, rfl⟩
  | codeResponse =>
    refine (accepts_unmarshalCodeResponse.map _).mono ?_
    rintro _ enc ⟨m, henc, rfl⟩
    subst enc
    exact ⟨rfl, trivial, rfl⟩
  | syncSummary =>
    refine (accepts_unmarshalSyncSummary.map _).mono ?_
    rintro _ enc ⟨m, ⟨hn, henc⟩, rfl⟩
    subst enc
    exact ⟨rfl, hn, rfl⟩

/-! ### `Unmarshal` -/

theorem accepts_unmarshalPacked {dest : Dest} {s : DecodeState} {v : ℕ} {m : Decoded}
    (h : ((unmarshalPacked dest).run s).1 = (v, .ok m)) :
    v = 0 ∧ m.dest = dest ∧ m.InRange ∧
      encode 2 0 ++ encodeValue m <+: s.packer.bytes.drop s.packer.offset := by
  have hend := errored_of_unmarshalPacked_eq_ok h
  simp only [unmarshalPacked, ↓run_errored_ite, run_ite, run_bind] at h hend
  generalize hr₁ : (unpack Packer.unpackShort).run s = r₁ at h hend
  obtain ⟨v₁, s₁⟩ := r₁
  generalize hr₂ : (unmarshalValue dest).run s₁ = r₂ at h hend
  obtain ⟨m₂, s₂⟩ := r₂
  split_ifs at h hend with h₁ h₂ h₃
  · cases h
  · cases h
  · cases h
  · simp only [run_pure, Prod.mk.injEq, Except.ok.injEq] at h hend
    obtain ⟨hv, rfl⟩ := h
    obtain ⟨hs₁, e₂, ⟨hdest, hrange, rfl⟩, hpre₂, -⟩ :=
      accepts_unmarshalValue dest s₁ (by rw [hr₂]; exact hend)
    obtain ⟨-, e₁, ⟨-, rfl⟩, hpre₁, hp₁⟩ :=
      accepts_unpack (f := Packer.unpackShort) (Packer.accepts_unpackUint 2) s (by rw [hr₁]; exact hs₁)
    rw [hr₁] at hp₁ hpre₁
    dsimp only at hp₁ hpre₁
    have hv₀ : v₁ = 0 := by simpa [version] using h₂
    rw [hr₂] at hdest hrange hpre₂
    rw [hp₁] at hpre₂
    dsimp only at hpre₂
    rw [hv₀] at hpre₁ hpre₂
    exact ⟨hv ▸ hv₀, hdest, hrange, append_prefix_of_drop hpre₁ hpre₂⟩

/-- What `Unmarshal` accepts fits its maximum size, has the version `0`, is of
the destination's type with its integer fields in range, and its layout is a
prefix of the bytes. -/
theorem unmarshal_eq_ok {bytes : List UInt8} {dest : Dest} {m : Decoded}
    (h : (unmarshal bytes dest).result = .ok m) :
    bytes.length ≤ maxMessageSize ∧ (unmarshal bytes dest).version = 0 ∧ m.dest = dest ∧
      m.InRange ∧ encode 2 0 ++ encodeValue m <+: bytes := by
  unfold unmarshal at h ⊢
  by_cases hshort : bytes.length < 2
  · rw [if_pos hshort] at h
    cases h
  rw [if_neg hshort] at h ⊢
  by_cases hlong : maxMessageSize < bytes.length
  · rw [if_pos hlong] at h
    cases h
  rw [if_neg hlong] at h ⊢
  dsimp only at h ⊢
  have hrun : ((unmarshalPacked dest).run ⟨⟨bytes, 0, false⟩, []⟩).1 =
      (((unmarshalPacked dest).run ⟨⟨bytes, 0, false⟩, []⟩).1.1, .ok m) := Prod.ext rfl h
  obtain ⟨hv, hdest, hrange, hpre⟩ := accepts_unmarshalPacked hrun
  dsimp only at hpre
  rw [List.drop_zero] at hpre
  exact ⟨by omega, hv, hdest, hrange, hpre⟩

theorem unmarshal_accepts_only_layouts (bytes : List UInt8) (dest : Dest) (m : Decoded)
    (h : (unmarshal bytes dest).result = .ok m) :
    (unmarshal bytes dest).version = 0 ∧ m.dest = dest ∧ m.InRange ∧
      encode 2 0 ++ encodeValue m <+: bytes ∧ marshal 0 m = .ok (encode 2 0 ++ encodeValue m) := by
  obtain ⟨hlen, hv, hdest, hrange, hpre⟩ := unmarshal_eq_ok h
  exact ⟨hv, hdest, hrange, hpre, marshal_eq_ok m (le_trans hpre.length_le hlen)⟩

/-- The sample block request followed by one byte the decoder never reads. -/
theorem unmarshal_accepts_only_layouts_sample :
    (unmarshal (encode 2 0 ++ encodeValue sampleBlockRequest ++ [7]) .blockRequest).result =
        .ok sampleBlockRequest ∧
      ((unmarshal (encode 2 0 ++ encodeValue sampleBlockRequest ++ [7]) .blockRequest).version = 0 ∧
        sampleBlockRequest.dest = .blockRequest ∧ sampleBlockRequest.InRange ∧
        encode 2 0 ++ encodeValue sampleBlockRequest <+: encode 2 0 ++ encodeValue sampleBlockRequest ++ [7] ∧
        marshal 0 sampleBlockRequest = .ok (encode 2 0 ++ encodeValue sampleBlockRequest)) :=
  have h : (unmarshal (encode 2 0 ++ encodeValue sampleBlockRequest ++ [7]) .blockRequest).result =
      .ok sampleBlockRequest := by rfl
  ⟨h, unmarshal_accepts_only_layouts _ .blockRequest sampleBlockRequest h⟩

/-! ## What `Marshal` accepts

Packing past `MaxSize` records an error and keeps the offset, so `Marshal`
succeeds exactly on the messages whose layout fits. -/

section PacksExactly

variable {maxSize : ℕ}

/-- `f` appends `enc` when it fits, and on a packer within `maxSize` stays
within it and records an error exactly when the packer had one or `enc` does
not fit. -/
structure PacksExactly (maxSize : ℕ) (f : Packer → Packer) (enc : List UInt8) : Prop where
  packs : Packs maxSize f enc
  overflows : ∀ p : Packer, p.offset ≤ maxSize → (f p).offset ≤ maxSize ∧
    (f p).errored = (p.errored || decide (maxSize < p.offset + enc.length))

theorem PacksExactly.comp {f g : Packer → Packer} {e₁ e₂ : List UInt8}
    (hf : PacksExactly maxSize f e₁) (hg : PacksExactly maxSize g e₂) :
    PacksExactly maxSize (fun p => g (f p)) (e₁ ++ e₂) := by
  refine ⟨hf.packs.comp hg.packs, fun p hp => ?_⟩
  obtain ⟨hfo, hfe⟩ := hf.overflows p hp
  obtain ⟨hgo, hge⟩ := hg.overflows (f p) hfo
  refine ⟨hgo, ?_⟩
  rw [hge, List.length_append]
  by_cases hfit : p.errored = false ∧ p.offset + e₁.length ≤ maxSize
  · rw [hf.packs p hfit.1 hfit.2]
    simp [hfit.1, Nat.add_assoc]
  · -- `f` records the error, and the whole layout does not fit either
    have herr : (f p).errored = true := by
      rw [hfe]
      cases he : p.errored <;> simp_all
    rw [herr, Bool.true_or]
    cases he : p.errored <;> simp_all
    omega

theorem packsExactly_packFixedBytes (bs : List UInt8) :
    PacksExactly maxSize (Packer.packFixedBytes maxSize bs) bs := by
  refine ⟨packs_packFixedBytes bs, fun p hp => ?_⟩
  unfold Packer.packFixedBytes
  split_ifs with h
  · exact ⟨hp, h.symm⟩
  · simp only [Bool.or_eq_true, decide_eq_true_eq, not_or, Bool.not_eq_true] at h
    simp [h.1, h.2]
    omega

theorem packsExactly_packUint (width v : ℕ) :
    PacksExactly maxSize (Packer.packUint maxSize width v) (encode width v) :=
  packsExactly_packFixedBytes _

theorem packsExactly_packBytes (bs : List UInt8) :
    PacksExactly maxSize (Packer.packBytes maxSize bs) (encodeBytes bs) :=
  (packsExactly_packUint 4 bs.length).comp (packsExactly_packFixedBytes bs)

theorem packsExactly_foldl {α : Type} {g : Packer → α → Packer} {enc : α → List UInt8}
    (xs : List α) (hg : ∀ x ∈ xs, PacksExactly maxSize (fun p => g p x) (enc x)) :
    PacksExactly maxSize (fun p => xs.foldl g p) (xs.flatMap enc) := by
  induction xs with
  | nil =>
    refine ⟨packs_foldl [] fun x hx => absurd hx List.not_mem_nil, fun p hp => ?_⟩
    simp [hp]
  | cons x xs ih =>
    exact (hg x List.mem_cons_self).comp (ih fun y hy => hg y (List.mem_cons_of_mem x hy))

theorem packsExactly_marshalBytesList (xs : List (List UInt8)) :
    PacksExactly maxSize (marshalBytesList maxSize xs) (encodeList encodeBytes xs) :=
  (packsExactly_packUint 4 xs.length).comp (packsExactly_foldl xs fun x _ => packsExactly_packBytes x)

theorem packsExactly_marshalValue (m : Decoded) :
    PacksExactly maxSize (marshalValue maxSize m) (encodeValue m) := by
  cases m with
  | blockRequest m =>
    exact ((packsExactly_packFixedBytes _).comp (packsExactly_packUint 8 _)).comp
      (packsExactly_packUint 2 _)
  | blockResponse m => exact packsExactly_marshalBytesList m.blocks
  | leafsRequest m =>
    exact ((((packsExactly_packFixedBytes _).comp (packsExactly_packFixedBytes _)).comp
      (packsExactly_packBytes _)).comp (packsExactly_packBytes _)).comp (packsExactly_packUint 2 _)
  | leafsResponse m =>
    exact ((packsExactly_marshalBytesList m.keys).comp (packsExactly_marshalBytesList m.vals)).comp
      (packsExactly_marshalBytesList m.proofVals)
  | codeRequest m =>
    exact (packsExactly_packUint 4 _).comp
      (packsExactly_foldl m.hashes fun h _ => packsExactly_packFixedBytes (encodeHash h))
  | codeResponse m => exact packsExactly_marshalBytesList m.data
  | syncSummary m =>
    exact ((packsExactly_packUint 8 _).comp (packsExactly_packFixedBytes _)).comp
      (packsExactly_packFixedBytes _)

end PacksExactly

theorem marshal_eq_error (m : Decoded) (hsize : maxMessageSize < (encode 2 0 ++ encodeValue m).length) :
    marshal 0 m = .error .insufficientLength := by
  rw [List.length_append, length_encode] at hsize
  obtain ⟨-, herr⟩ := (@packsExactly_marshalValue maxMessageSize m).overflows ⟨encode 2 0, 2, false⟩
    (by decide)
  have herr' : (marshalValue maxMessageSize m ⟨encode 2 0, 2, false⟩).errored = true := by
    rw [herr]
    simpa using hsize
  simp only [marshal, version, ne_eq, not_true_eq_false, if_false, packShort_version, herr']
  rfl

/-- `Marshal` with version `0` succeeds exactly on the messages whose layout
fits, and then writes the layout. -/
theorem marshal_eq_ok_iff (m : Decoded) (data : List UInt8) :
    marshal 0 m = .ok data ↔
      (encode 2 0 ++ encodeValue m).length ≤ maxMessageSize ∧ data = encode 2 0 ++ encodeValue m := by
  constructor
  · intro h
    by_cases hsize : (encode 2 0 ++ encodeValue m).length ≤ maxMessageSize
    · rw [marshal_eq_ok m hsize, Except.ok.injEq] at h
      exact ⟨hsize, h.symm⟩
    · rw [marshal_eq_error m (by omega)] at h
      cases h
  · rintro ⟨hsize, rfl⟩
    exact marshal_eq_ok m hsize

theorem length_encodeList_encodeBytes (xs : List (List UInt8)) :
    (encodeList encodeBytes xs).length = 4 + 4 * xs.length + (xs.map List.length).sum := by
  induction xs with
  | nil => simp [encodeList, length_encode]
  | cons x xs ih =>
    simp only [encodeList, List.length_append, length_encode, List.flatMap_cons, encodeBytes] at ih ⊢
    simp only [List.length_cons, List.map_cons, List.sum_cons]
    omega

end LuxEvm.Message
