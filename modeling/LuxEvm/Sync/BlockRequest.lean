import LuxEvm.Message.Accept
import LuxEvm.Lib.StateRel

/-!
# Serving and fetching ancestor blocks

`OnBlockRequest` walks back from the requested block through its parents, at
most `parentLimit` of them, until the context ends, the hash is empty, the
provider misses a block or the next block would take the response past
`targetMessageByteSize` bytes, and answers with the blocks' RLP encodings in a
`BlockResponse`. The client's `parseBlocks` accepts a response of at most the
requested count of blocks whose hashes chain back from the requested hash
(`parseBlocks_sound`).

The walk collects a prefix of the provider's chain (`FetchInv`), and the byte
target keeps every response of two blocks or more within the codec's size: the
handler drops a request only when it finds no block, an encoding fails or the
one block it found is too large (`onBlockRequest_eq_none_iff`). When the
provider serves each block under its own hash and parsing inverts encoding, the
client accepts every response of the handler and reads back the blocks served
(`parseBlocks_onBlockRequest`).
-/

set_option autoImplicit false

namespace LuxEvm.Sync

open Message
open Lib.ByteString (encode length_encode)

/-- `parentLimit` -/
def parentLimit : ℕ := 64

/-- `targetMessageByteSize`, `constants.MiB - constants.KiB` -/
def targetMessageByteSize : ℕ := 1048576 - 1024

/-- What the handler and the client read of a `*types.Block`: its hash, its
parent's hash, `EncodeRLP` and `ParseEthBlock`, the last two `none` on an
error. -/
structure BlockCodec (Blk : Type) where
  hash : Blk → Hash
  parentHash : Blk → Hash
  encodeRLP : Blk → Option (List UInt8)
  parseEthBlock : List UInt8 → Option Blk

/-- `height--` on a `uint64`. -/
def decrement (height : ℕ) : ℕ := (height + (2^64 - 1)) % 2^64

section Blocks

variable {Blk : Type} (c : BlockCodec Blk) (getBlock : Hash → ℕ → Option Blk)

/-! ## The handler -/

/-- The variables of `OnBlockRequest`'s loop. -/
structure Fetch where
  hash : Hash
  height : ℕ
  totalBytes : ℕ
  blocks : List (List UInt8)

inductive FetchStep where
  | next (s : Fetch)
  /-- `break` -/
  | stop
  /-- `EncodeRLP` failed: the handler returns `nil` -/
  | fail

/-- A round of `OnBlockRequest`'s loop; `cancelled` is `ctx.Err() != nil`. -/
def fetchStep (cancelled : Bool) (s : Fetch) : FetchStep :=
  if cancelled then .stop
  else if s.hash = 0 then .stop
  else
    match getBlock s.hash s.height with
    | none => .stop
    | some block =>
      match c.encodeRLP block with
      | none => .fail
      | some buf =>
        if targetMessageByteSize < buf.length + s.totalBytes ∧ s.blocks ≠ [] then .stop
        else .next ⟨c.parentHash block, decrement s.height, s.totalBytes + buf.length, s.blocks ++ [buf]⟩

/-- The loop of `OnBlockRequest` from round `i` with `n` rounds left; `ctxErr i`
is whether the context has ended by round `i`. -/
def fetchLoop (ctxErr : ℕ → Bool) : ℕ → ℕ → Fetch → Option (List (List UInt8))
  | 0, _, s => some s.blocks
  | n+1, i, s =>
    match fetchStep c getBlock (ctxErr i) s with
    | .next s' => fetchLoop ctxErr n (i+1) s'
    | .stop => some s.blocks
    | .fail => none

/-- The block encodings `OnBlockRequest` collects, for at most `parentLimit`
parents. -/
def fetchBlocks (ctxErr : ℕ → Bool) (req : BlockRequest) : Option (List (List UInt8)) :=
  let parents := if parentLimit < req.parents then parentLimit else req.parents
  fetchLoop c getBlock ctxErr parents 0 ⟨req.hash, req.height, 0, []⟩

/-- `OnBlockRequest`; `none` is the `nil` response that drops the request. -/
def onBlockRequest (ctxErr : ℕ → Bool) (req : BlockRequest) : Option (List UInt8) :=
  match fetchBlocks c getBlock ctxErr req with
  | none | some [] => none
  | some blocks =>
    match marshal version (.blockResponse ⟨blocks⟩) with
    | .ok bytes => some bytes
    | .error _ => none

/-! ## The client -/

/-- The errors of `parseBlocks`. -/
inductive BlocksError where
  /-- `errUnmarshalResponse`, with the codec's error, or `none` for `ParseEthBlock`'s -/
  | unmarshalResponse (err : Option CodecError)
  | emptyResponse
  | tooManyBlocks
  /-- `errHashMismatch`, with the block's hash and the one expected -/
  | hashMismatch (got expected : Hash)
  deriving DecidableEq, Repr

/-- The loop of `parseBlocks`: each block parses and has the hash expected of
it, and the next one is expected to be its parent. -/
def parseChain : Hash → List (List UInt8) → Except BlocksError (List Blk)
  | _, [] => .ok []
  | hash, blkBytes :: rest =>
    match c.parseEthBlock blkBytes with
    | none => .error (.unmarshalResponse none)
    | some block =>
      if c.hash block ≠ hash then .error (.hashMismatch (c.hash block) hash)
      else (block :: ·) <$> parseChain (c.parentHash block) rest

/-- `parseBlocks`: the blocks and their count. -/
def parseBlocks (req : BlockRequest) (data : List UInt8) : Except BlocksError (List Blk × ℕ) :=
  match (unmarshal data .blockResponse).result with
  | .error err => .error (.unmarshalResponse (some err))
  | .ok (.blockResponse response) =>
    if response.blocks = [] then .error .emptyResponse
    else if req.parents < response.blocks.length then .error .tooManyBlocks
    else (fun blocks => (blocks, blocks.length)) <$> parseChain c req.hash response.blocks
  -- `Unmarshal` into a `BlockResponse` decodes one: not taken
  | .ok _ => .error (.unmarshalResponse none)

/-! ## The provider's chain -/

/-- The provider's chain back from `hash` at `height`, at most `n` blocks, to the
first empty hash or missing block. -/
def chain : ℕ → Hash → ℕ → List Blk
  | 0, _, _ => []
  | n+1, hash, height =>
    if hash = 0 then []
    else
      match getBlock hash height with
      | none => []
      | some b => b :: chain n (c.parentHash b) (decrement height)

/-- Each block has the hash expected of it: the first `hash`, the next its
predecessor's parent hash. -/
def Linked : Hash → List Blk → Prop
  | _, [] => True
  | hash, b :: bs => c.hash b = hash ∧ Linked (c.parentHash b) bs

theorem chain_succ_of_getBlock {n : ℕ} {hash : Hash} {height : ℕ} {b : Blk} (h0 : hash ≠ 0)
    (hget : getBlock hash height = some b) :
    chain c getBlock (n+1) hash height = b :: chain c getBlock n (c.parentHash b) (decrement height) := by
  rw [chain, if_neg h0, hget]

theorem length_chain_le (n : ℕ) (hash : Hash) (height : ℕ) : (chain c getBlock n hash height).length ≤ n := by
  induction n generalizing hash height with
  | zero => simp [chain]
  | succ n ih =>
    rw [chain]
    split_ifs
    · simp
    · split
      · simp
      · exact Nat.succ_le_succ (ih _ _)

theorem Linked.initial {hash : Hash} {bs ys : List Blk} (h : Linked c hash bs) (hp : ys <+: bs) :
    Linked c hash ys := by
  induction ys generalizing hash bs with
  | nil => trivial
  | cons y ys ih =>
    obtain ⟨t, rfl⟩ := hp
    obtain ⟨hy, hrest⟩ := h
    exact ⟨hy, ih hrest ⟨t, rfl⟩⟩

theorem linked_chain (hget : ∀ h n b, getBlock h n = some b → c.hash b = h) (n : ℕ) (hash : Hash)
    (height : ℕ) : Linked c hash (chain c getBlock n hash height) := by
  induction n generalizing hash height with
  | zero => trivial
  | succ n ih =>
    rw [chain]
    split_ifs
    · trivial
    · split
      · trivial
      · rename_i b hb
        exact ⟨hget _ _ _ hb, ih _ _⟩

/-! ## The handler walks the provider's chain -/

theorem fetchStep_eq_next {cancelled : Bool} {s s' : Fetch} (h : fetchStep c getBlock cancelled s = .next s') :
    s.hash ≠ 0 ∧ ∃ block buf, getBlock s.hash s.height = some block ∧ c.encodeRLP block = some buf ∧
      (s.blocks ≠ [] → buf.length + s.totalBytes ≤ targetMessageByteSize) ∧
      s' = ⟨c.parentHash block, decrement s.height, s.totalBytes + buf.length, s.blocks ++ [buf]⟩ := by
  unfold fetchStep at h
  split_ifs at h with hc h0
  split at h
  · cases h
  · rename_i block hget
    split at h
    · cases h
    · rename_i buf henc
      split_ifs at h with hbig
      cases h
      refine ⟨h0, block, buf, hget, henc, fun hne => ?_, rfl⟩
      by_contra hle
      exact hbig ⟨by omega, hne⟩

/-- After `i` rounds from `hash₀` at `height₀`: the loop holds the encodings of
the first `i` blocks of the provider's chain, the chain goes on from its hash
and height, its byte count is the encodings' total, and two blocks or more are
within the byte target. -/
structure FetchInv (hash₀ : Hash) (height₀ i : ℕ) (s : Fetch) : Prop where
  rest : ∀ m, chain c getBlock (i + m) hash₀ height₀ =
    chain c getBlock i hash₀ height₀ ++ chain c getBlock m s.hash s.height
  encoded : List.Forall₂ (fun b e => c.encodeRLP b = some e) (chain c getBlock i hash₀ height₀) s.blocks
  total : s.totalBytes = (s.blocks.map List.length).sum
  within : 2 ≤ s.blocks.length → s.totalBytes ≤ targetMessageByteSize

variable {c getBlock}

theorem FetchInv.init (hash₀ : Hash) (height₀ : ℕ) :
    FetchInv c getBlock hash₀ height₀ 0 ⟨hash₀, height₀, 0, []⟩ where
  rest m := by simp [chain]
  encoded := by simp [chain]
  total := rfl
  within h := absurd h (by simp)

theorem FetchInv.step {hash₀ : Hash} {height₀ i : ℕ} {s s' : Fetch} {cancelled : Bool}
    (hinv : FetchInv c getBlock hash₀ height₀ i s) (h : fetchStep c getBlock cancelled s = .next s') :
    FetchInv c getBlock hash₀ height₀ (i+1) s' := by
  obtain ⟨h0, block, buf, hget, henc, hfit, rfl⟩ := fetchStep_eq_next c getBlock h
  have hnext : ∀ m, chain c getBlock (m+1) s.hash s.height =
      block :: chain c getBlock m (c.parentHash block) (decrement s.height) :=
    fun m => chain_succ_of_getBlock c getBlock h0 hget
  have hi : chain c getBlock (i+1) hash₀ height₀ = chain c getBlock i hash₀ height₀ ++ [block] := by
    rw [hinv.rest 1, hnext 0]
    rfl
  refine ⟨fun m => ?_, ?_, ?_, fun hlen => ?_⟩
  · rw [Nat.add_right_comm, Nat.add_assoc, hinv.rest (m+1), hnext m, hi, List.append_assoc]
    rfl
  · rw [hi]
    exact List.rel_append hinv.encoded (List.Forall₂.cons henc List.Forall₂.nil)
  · simp [hinv.total]
  · have hne : s.blocks ≠ [] := by
      rintro hnil
      simp [hnil] at hlen
    have := hfit hne
    dsimp only
    omega

theorem FetchInv.run {ctxErr : ℕ → Bool} {hash₀ : Hash} {height₀ : ℕ} {blocks : List (List UInt8)} :
    ∀ {n i : ℕ} {s : Fetch}, FetchInv c getBlock hash₀ height₀ i s →
      fetchLoop c getBlock ctxErr n i s = some blocks →
      ∃ j s', j ≤ i + n ∧ FetchInv c getBlock hash₀ height₀ j s' ∧ s'.blocks = blocks
  | 0, i, s, hinv, h => ⟨i, s, le_refl _, hinv, Option.some.inj h⟩
  | n+1, i, s, hinv, h => by
    rw [fetchLoop] at h
    split at h
    · rename_i s' hstep
      obtain ⟨j, s'', hj, hinv', hb⟩ := FetchInv.run (hinv.step hstep) h
      exact ⟨j, s'', by omega, hinv', hb⟩
    · exact ⟨i, s, by omega, hinv, Option.some.inj h⟩
    · cases h

theorem cap_eq_min (parents : ℕ) :
    (if parentLimit < parents then parentLimit else parents) = min parents parentLimit := by
  split_ifs with h <;> omega

/-- What `OnBlockRequest` collects: the encodings of a prefix of the provider's
chain of at most the capped count of blocks, two or more within the byte target. -/
theorem fetchBlocks_eq_some {ctxErr : ℕ → Bool} {req : BlockRequest} {blocks : List (List UInt8)}
    (h : fetchBlocks c getBlock ctxErr req = some blocks) :
    ∃ bs, bs <+: chain c getBlock (min req.parents parentLimit) req.hash req.height ∧
      List.Forall₂ (fun b e => c.encodeRLP b = some e) bs blocks ∧
      (2 ≤ blocks.length → (blocks.map List.length).sum ≤ targetMessageByteSize) := by
  rw [fetchBlocks, cap_eq_min] at h
  obtain ⟨j, s, hj, hinv, rfl⟩ := (FetchInv.init req.hash req.height).run h
  refine ⟨chain c getBlock j req.hash req.height,
    ⟨chain c getBlock (min req.parents parentLimit - j) s.hash s.height, ?_⟩, hinv.encoded, fun hlen => ?_⟩
  · rw [← hinv.rest, Nat.add_sub_cancel' (by omega)]
  · rw [← hinv.total]
    exact hinv.within hlen

/-! ## A sample chain -/

def sampleCodec : BlockCodec Hash where
  hash b := b
  parentHash b := b - 1
  encodeRLP b := if b.toNat < 256 then some [b.toNat.toUInt8] else none
  parseEthBlock
    | [x] => some (BitVec.ofNat 256 x.toNat)
    | _ => none

/-- A provider of the blocks below `5`. -/
def sampleProvider (hash : Hash) (_ : ℕ) : Option Hash := if hash.toNat < 5 then some hash else none

theorem sampleProvider_hash (h : Hash) (n : ℕ) (b : Hash) (hb : sampleProvider h n = some b) :
    sampleCodec.hash b = h := by
  unfold sampleProvider at hb
  split_ifs at hb
  cases hb
  rfl

theorem sampleCodec_parse_encode (b : Hash) (e : List UInt8) (he : sampleCodec.encodeRLP b = some e) :
    sampleCodec.parseEthBlock e = some b := by
  simp only [sampleCodec] at he
  split_ifs at he with hlt
  cases he
  show some (BitVec.ofNat 256 b.toNat.toUInt8.toNat) = some b
  congr 1
  apply BitVec.eq_of_toNat_eq
  simp [Nat.mod_eq_of_lt hlt]

def sampleBlocksResponse : List UInt8 := encode 2 0 ++ encodeValue (.blockResponse ⟨[[3], [2]]⟩)

/-! ## The client checks a linked chain -/

/-- The client's loop accepts exactly the linked blocks the entries parse to. -/
theorem parseChain_eq_ok_iff (hash : Hash) (rlps : List (List UInt8)) (bs : List Blk) :
    parseChain c hash rlps = .ok bs ↔
      Linked c hash bs ∧ List.Forall₂ (fun e b => c.parseEthBlock e = some b) rlps bs := by
  induction rlps generalizing hash bs with
  | nil => cases bs <;> simp [parseChain, Linked]
  | cons e rlps ih =>
    rw [parseChain]
    cases hp : c.parseEthBlock e with
    | none => cases bs <;> simp [hp]
    | some block =>
      dsimp only
      by_cases hh : c.hash block = hash
      · rw [if_neg (not_not.mpr hh), Lib.StateRel.map_eq_ok]
        cases bs with
        | nil => simp
        | cons b bs =>
          simp only [Linked, List.forall₂_cons, hp, Option.some.injEq, List.cons.injEq]
          constructor
          · rintro ⟨t, ht, rfl, rfl⟩
            obtain ⟨hl, hf⟩ := (ih _ _).mp ht
            exact ⟨⟨hh, hl⟩, rfl, hf⟩
          · rintro ⟨⟨-, hl⟩, rfl, hf⟩
            exact ⟨bs, (ih _ _).mpr ⟨hl, hf⟩, rfl, rfl⟩
      · -- the block is not the one expected
        rw [if_pos hh]
        cases bs with
        | nil => simp
        | cons b bs =>
          simp only [reduceCtorEq, false_iff, Linked, List.forall₂_cons, hp, Option.some.injEq]
          rintro ⟨⟨hb, -⟩, rfl, -⟩
          exact hh hb

theorem parseBlocks_eq_ok {req : BlockRequest} {data : List UInt8} {bs : List Blk} {n : ℕ}
    (h : parseBlocks c req data = .ok (bs, n)) :
    ∃ response : BlockResponse, (unmarshal data .blockResponse).result = .ok (.blockResponse response) ∧
      response.blocks ≠ [] ∧ response.blocks.length ≤ req.parents ∧
      parseChain c req.hash response.blocks = .ok bs ∧ n = bs.length := by
  unfold parseBlocks at h
  split at h
  · cases h
  · rename_i response hunm
    split_ifs at h with hempty hmany
    obtain ⟨ys, hys, hpair⟩ := Lib.StateRel.map_eq_ok.mp h
    obtain ⟨rfl, rfl⟩ := Prod.mk.inj hpair
    exact ⟨response, hunm, hempty, by omega, hys, rfl⟩
  · cases h

theorem parseBlocks_sound (req : BlockRequest) (data : List UInt8) (bs : List Blk) (n : ℕ)
    (h : parseBlocks c req data = .ok (bs, n)) :
    n = bs.length ∧ bs ≠ [] ∧ bs.length ≤ req.parents ∧ Linked c req.hash bs ∧
      ∃ rlps, encode 2 0 ++ encodeValue (.blockResponse ⟨rlps⟩) <+: data ∧
        List.Forall₂ (fun e b => c.parseEthBlock e = some b) rlps bs := by
  obtain ⟨response, hunm, hne, hcount, hchain, rfl⟩ := parseBlocks_eq_ok h
  obtain ⟨hlinked, hparsed⟩ := (parseChain_eq_ok_iff req.hash response.blocks bs).mp hchain
  obtain ⟨-, -, -, -, hpre⟩ := unmarshal_eq_ok hunm
  have hlen := hparsed.length_eq
  refine ⟨rfl, ?_, by omega, hlinked, response.blocks, hpre, hparsed⟩
  rintro rfl
  exact hne (List.length_eq_zero_iff.mp hlen)

theorem parseBlocks_sound_sample :
    parseBlocks sampleCodec ⟨3, 10, 2⟩ sampleBlocksResponse = .ok ([3, 2], 2) ∧
      (2 = [(3 : Hash), 2].length ∧ [(3 : Hash), 2] ≠ [] ∧ [(3 : Hash), 2].length ≤ 2 ∧
        Linked sampleCodec 3 [3, 2] ∧
        ∃ rlps, encode 2 0 ++ encodeValue (.blockResponse ⟨rlps⟩) <+: sampleBlocksResponse ∧
          List.Forall₂ (fun e b => sampleCodec.parseEthBlock e = some b) rlps [3, 2]) :=
  have h : parseBlocks sampleCodec ⟨3, 10, 2⟩ sampleBlocksResponse = .ok ([3, 2], 2) := by rfl
  ⟨h, parseBlocks_sound _ _ _ _ h⟩

/-! ## The handler's responses -/

theorem length_le_of_fetchBlocks {req : BlockRequest} {blocks : List (List UInt8)}
    {bs : List Blk} (hpre : bs <+: chain c getBlock (min req.parents parentLimit) req.hash req.height)
    (henc : List.Forall₂ (fun b e => c.encodeRLP b = some e) bs blocks) :
    blocks.length ≤ min req.parents parentLimit := by
  rw [← henc.length_eq]
  exact le_trans hpre.length_le (length_chain_le c getBlock _ _ _)

theorem onBlockRequest_eq_none_iff (ctxErr : ℕ → Bool) (req : BlockRequest) :
    onBlockRequest c getBlock ctxErr req = none ↔
      fetchBlocks c getBlock ctxErr req = none ∨ fetchBlocks c getBlock ctxErr req = some [] ∨
        ∃ e, fetchBlocks c getBlock ctxErr req = some [e] ∧ maxMessageSize < e.length + 10 := by
  unfold onBlockRequest
  rcases hf : fetchBlocks c getBlock ctxErr req with _ | _ | ⟨e, rest⟩
  · simp
  · simp
  · obtain ⟨bs, hpre, henc, hwithin⟩ := fetchBlocks_eq_some hf
    have hcount := length_le_of_fetchBlocks hpre henc
    have hlen : (encodeValue (.blockResponse ⟨e :: rest⟩)).length = _ :=
      length_encodeList_encodeBytes (e :: rest)
    simp only [List.length_cons, List.map_cons, List.sum_cons] at hlen hcount hwithin
    have hmax : maxMessageSize = 2031616 := rfl
    have htarget : targetMessageByteSize = 1047552 := rfl
    have hlimit : parentLimit = 64 := rfl
    simp only [version, reduceCtorEq, Option.some.injEq, List.cons.injEq, false_or]
    by_cases hfit : (encode 2 0 ++ encodeValue (.blockResponse ⟨e :: rest⟩)).length ≤ maxMessageSize
    · rw [marshal_eq_ok _ hfit]
      rw [List.length_append, length_encode, hlen] at hfit
      simp only [reduceCtorEq, false_iff]
      rintro ⟨_, ⟨rfl, rfl⟩, hbig⟩
      simp only [List.length_nil, List.map_nil, List.sum_nil] at hfit
      omega
    · rw [marshal_eq_error _ (by omega)]
      rw [List.length_append, length_encode, hlen] at hfit
      simp only [true_iff]
      -- two blocks or more stay within the byte target, and so within the codec's size
      cases rest with
      | nil =>
        simp only [List.length_nil, List.map_nil, List.sum_nil] at hfit
        exact ⟨e, ⟨rfl, rfl⟩, by omega⟩
      | cons e' rest' =>
        exfalso
        have := hwithin (by simp)
        simp only [List.length_cons, List.map_cons, List.sum_cons] at hfit this hcount
        omega

/-- Every response of the handler is one the client accepts, and it reads back
a non-empty prefix of the provider's chain of at most the capped count. -/
theorem parseBlocks_onBlockRequest (hget : ∀ h n b, getBlock h n = some b → c.hash b = h)
    (hparse : ∀ b e, c.encodeRLP b = some e → c.parseEthBlock e = some b)
    (ctxErr : ℕ → Bool) (req : BlockRequest) (data : List UInt8)
    (h : onBlockRequest c getBlock ctxErr req = some data) :
    ∃ bs, bs ≠ [] ∧ bs <+: chain c getBlock (min req.parents parentLimit) req.hash req.height ∧
      parseBlocks c req data = .ok (bs, bs.length) := by
  unfold onBlockRequest at h
  rcases hf : fetchBlocks c getBlock ctxErr req with _ | _ | ⟨e, rest⟩
  · simp [hf] at h
  · simp [hf] at h
  · simp only [hf, version] at h
    split at h
    · rename_i bytes hm
      cases h
      obtain ⟨hsize, rfl⟩ := (marshal_eq_ok_iff _ _).mp hm
      obtain ⟨bs, hpre, henc, -⟩ := fetchBlocks_eq_some hf
      have hunm := (unmarshal_layout (.blockResponse ⟨e :: rest⟩) trivial hsize).2
      have hcount := length_le_of_fetchBlocks hpre henc
      have hchain : parseChain c req.hash (e :: rest) = .ok bs :=
        (parseChain_eq_ok_iff _ _ _).mpr ⟨(linked_chain c getBlock hget _ _ _).initial c hpre,
          List.Forall₂.imp (fun e b hb => hparse b e hb) henc.flip⟩
      refine ⟨bs, ?_, hpre, ?_⟩
      · rintro rfl
        simp at henc
      · unfold parseBlocks
        simp only [Decoded.dest] at hunm
        rw [hunm]
        dsimp only
        rw [if_neg (List.cons_ne_nil _ _), if_neg (by omega), hchain]
        rfl
    · cases h

theorem parseBlocks_onBlockRequest_sample :
    onBlockRequest sampleCodec sampleProvider (fun _ => false) ⟨3, 10, 2⟩ = some sampleBlocksResponse ∧
      ∃ bs, bs ≠ [] ∧ bs <+: chain sampleCodec sampleProvider (min 2 parentLimit) 3 10 ∧
        parseBlocks sampleCodec ⟨3, 10, 2⟩ sampleBlocksResponse = .ok (bs, bs.length) :=
  have h : onBlockRequest sampleCodec sampleProvider (fun _ => false) ⟨3, 10, 2⟩ =
      some sampleBlocksResponse := by rfl
  ⟨h, parseBlocks_onBlockRequest sampleProvider_hash sampleCodec_parse_encode _ _ _ h⟩

end Blocks

end LuxEvm.Sync
