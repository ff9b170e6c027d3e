import LuxEvm.Message.Accept
import LuxEvm.Lib.StateRel
import Mathlib.Algebra.Order.BigOperators.Group.List

/-!
# Serving and fetching contract code

`OnCodeRequest` drops a request of more than `MaxCodeHashesPerRequest` hashes,
one that repeats a hash (`isUnique`, whose seen map agrees with `Nodup`) and
one for a code the store does not have, and otherwise answers with the codes in
the order asked. The client's `parseCode` accepts one code per requested hash,
each within `65536` bytes and hashing to its hash (`parseCode_sound`).

Over a store that keeps each code under its hash and within the client's size,
the handler answers exactly the requests of at most five distinct stored
hashes (`onCodeRequest_isSome_iff`), and the client accepts each answer and
reads back the stored codes (`parseCode_onCodeRequest`).
-/

set_option autoImplicit false

namespace LuxEvm.Sync

open Message
open Lib.ByteString (encode length_encode)

/-- `message.MaxCodeHashesPerRequest` -/
def maxCodeHashesPerRequest : ℕ := 5

/-- The largest code `parseCode` accepts. -/
def maxCodeSize : ℕ := 65536

/-! ## The handler -/

/-- The loop of `isUnique`, with `seen` the hashes before. -/
def isUniqueLoop : List Hash → List Hash → Bool
  | _, [] => true
  | seen, hash :: rest => if hash ∈ seen then false else isUniqueLoop (hash :: seen) rest

def isUnique (hashes : List Hash) : Bool := isUniqueLoop [] hashes

section Codes

variable (readCode : Hash → List UInt8) (keccak256 : List UInt8 → Hash)

/-- The loop of `OnCodeRequest`: `rawdb.ReadCode` of each hash, `none` at the
first one missing. -/
def readCodes : List Hash → Option (List (List UInt8))
  | [] => some []
  | hash :: rest => if readCode hash = [] then none else (readCode hash :: ·) <$> readCodes rest

/-- `OnCodeRequest`; `none` is the `nil` response that drops the request. -/
def onCodeRequest (req : CodeRequest) : Option (List UInt8) :=
  if maxCodeHashesPerRequest < req.hashes.length then none
  else if !isUnique req.hashes then none
  else
    match readCodes readCode req.hashes with
    | none => none
    | some codeBytes =>
      match marshal version (.codeResponse ⟨codeBytes⟩) with
      | .ok bytes => some bytes
      | .error _ => none

/-! ## The client -/

/-- The errors of `parseCode`. -/
inductive CodeError where
  /-- the codec's error, returned as it is -/
  | unmarshal (err : CodecError)
  /-- `errInvalidCodeResponseLen`, with the count received and the count requested -/
  | invalidCodeResponseLen (got requested : ℕ)
  /-- `errMaxCodeSizeExceeded`, with the hash and the size -/
  | maxCodeSizeExceeded (hash : Hash) (size : ℕ)
  /-- `errHashMismatch` for the code at an index, with its hash and the one expected -/
  | hashMismatch (index : ℕ) (got expected : Hash)
  deriving DecidableEq, Repr

/-- The loop of `parseCode` from index `i`, over each code and the hash asked
for it: the total size of the codes. -/
def checkCodes : ℕ → List (List UInt8 × Hash) → ℕ → Except CodeError ℕ
  | _, [], totalBytes => .ok totalBytes
  | i, (code, hash) :: rest, totalBytes =>
    if maxCodeSize < code.length then .error (.maxCodeSizeExceeded hash code.length)
    else if keccak256 code ≠ hash then .error (.hashMismatch i (keccak256 code) hash)
    else checkCodes (i+1) rest (totalBytes + code.length)

/-- `parseCode`: the codes and their total size. -/
def parseCode (req : CodeRequest) (data : List UInt8) : Except CodeError (List (List UInt8) × ℕ) :=
  match (unmarshal data .codeResponse).result with
  | .error err => .error (.unmarshal err)
  | .ok (.codeResponse response) =>
    if response.data.length ≠ req.hashes.length then
      .error (.invalidCodeResponseLen response.data.length req.hashes.length)
    else (fun totalBytes => (response.data, totalBytes)) <$> checkCodes keccak256 0 (response.data.zip req.hashes) 0
  -- `Unmarshal` into a `CodeResponse` decodes one: not taken
  | .ok _ => .error (.unmarshal .insufficientLength)

end Codes

/-! ## The handler's checks -/

theorem isUniqueLoop_iff (seen hashes : List Hash) :
    isUniqueLoop seen hashes = true ↔ hashes.Nodup ∧ ∀ h ∈ hashes, h ∉ seen := by
  induction hashes generalizing seen with
  | nil => simp [isUniqueLoop]
  | cons hash rest ih =>
    rw [isUniqueLoop, List.nodup_cons, List.forall_mem_cons]
    split_ifs with hseen
    · simp only [false_iff]
      rintro ⟨-, hnot, -⟩
      exact hnot hseen
    · rw [ih]
      constructor
      · rintro ⟨hnd, hfresh⟩
        exact ⟨⟨fun hmem => hfresh hash hmem List.mem_cons_self, hnd⟩, hseen,
          fun h hh hs => hfresh h hh (List.mem_cons_of_mem hash hs)⟩
      · rintro ⟨⟨hnotin, hnd⟩, -, hfresh⟩
        refine ⟨hnd, fun h hh hmem => ?_⟩
        rcases List.mem_cons.mp hmem with rfl | hs
        · exact hnotin hh
        · exact hfresh h hh hs

theorem isUnique_iff (hashes : List Hash) : isUnique hashes = true ↔ hashes.Nodup := by
  simp [isUnique, isUniqueLoop_iff]

section Codes

variable {readCode : Hash → List UInt8} {keccak256 : List UInt8 → Hash}

theorem readCodes_eq_some_iff (hashes : List Hash) (codes : List (List UInt8)) :
    readCodes readCode hashes = some codes ↔ (∀ h ∈ hashes, readCode h ≠ []) ∧ codes = hashes.map readCode := by
  induction hashes generalizing codes with
  | nil => simp [readCodes, eq_comm]
  | cons hash rest ih =>
    rw [readCodes]
    split_ifs with hmiss
    · simp [hmiss]
    · simp only [Option.map_eq_map, Option.map_eq_some_iff, ih, List.forall_mem_cons, List.map_cons]
      constructor
      · rintro ⟨t, ⟨hall, rfl⟩, rfl⟩
        exact ⟨⟨hmiss, hall⟩, rfl⟩
      · rintro ⟨⟨-, hall⟩, rfl⟩
        exact ⟨_, ⟨hall, rfl⟩, rfl⟩

/-! ## A sample store -/

def sampleStore (h : Hash) : List UInt8 := if h = 1 then [7] else if h = 2 then [8, 9] else []

def sampleKeccak (code : List UInt8) : Hash := BitVec.ofNat 256 code.length

theorem sampleStore_hash (h : Hash) (hne : sampleStore h ≠ []) : sampleKeccak (sampleStore h) = h := by
  unfold sampleStore at hne ⊢
  split_ifs at hne ⊢ with h1 h2
  · subst h1
    rfl
  · subst h2
    rfl
  · exact absurd rfl hne

theorem sampleStore_size (h : Hash) : (sampleStore h).length ≤ maxCodeSize := by
  unfold sampleStore
  split_ifs <;> decide

def sampleCodeResponse : List UInt8 := encode 2 0 ++ encodeValue (.codeResponse ⟨[[7], [8, 9]]⟩)

/-! ## The client checks each code against its hash -/

/-- The client's loop accepts exactly codes within the size that hash to the
hashes paired with them, and counts their bytes. -/
theorem checkCodes_eq_ok_iff (i : ℕ) (pairs : List (List UInt8 × Hash)) (total t : ℕ) :
    checkCodes keccak256 i pairs total = .ok t ↔
      (∀ p ∈ pairs, p.1.length ≤ maxCodeSize ∧ keccak256 p.1 = p.2) ∧
        t = total + (pairs.map fun p => p.1.length).sum := by
  induction pairs generalizing i total with
  | nil => simp [checkCodes, eq_comm]
  | cons p rest ih =>
    obtain ⟨code, hash⟩ := p
    rw [checkCodes, List.forall_mem_cons]
    split_ifs with hbig hmis
    · simp only [false_iff]
      rintro ⟨⟨⟨hle, -⟩, -⟩, -⟩
      omega
    · simp only [false_iff]
      rintro ⟨⟨⟨-, heq⟩, -⟩, -⟩
      exact hmis heq
    · rw [ih, List.map_cons, List.sum_cons]
      dsimp only
      constructor
      · rintro ⟨hall, rfl⟩
        exact ⟨⟨⟨by omega, not_not.mp hmis⟩, hall⟩, by omega⟩
      · rintro ⟨⟨-, hall⟩, rfl⟩
        exact ⟨hall, by omega⟩

theorem parseCode_eq_ok {req : CodeRequest} {data : List UInt8} {codes : List (List UInt8)} {t : ℕ}
    (h : parseCode keccak256 req data = .ok (codes, t)) :
    (unmarshal data .codeResponse).result = .ok (.codeResponse ⟨codes⟩) ∧
      codes.length = req.hashes.length ∧ checkCodes keccak256 0 (codes.zip req.hashes) 0 = .ok t := by
  unfold parseCode at h
  split at h
  · cases h
  · rename_i response hunm
    split_ifs at h with hlen
    obtain ⟨t', ht, hpair⟩ := Lib.StateRel.map_eq_ok.mp h
    obtain ⟨rfl, rfl⟩ := Prod.mk.inj hpair
    exact ⟨hunm, not_not.mp hlen, ht⟩
  · cases h

theorem forall₂_of_parseCode_eq_ok {req : CodeRequest} {data : List UInt8} {codes : List (List UInt8)}
    {t : ℕ} (h : parseCode keccak256 req data = .ok (codes, t)) :
    List.Forall₂ (fun code hash => code.length ≤ maxCodeSize ∧ keccak256 code = hash) codes req.hashes := by
  obtain ⟨-, hlen, hcheck⟩ := parseCode_eq_ok h
  obtain ⟨hall, -⟩ := (checkCodes_eq_ok_iff 0 _ 0 t).mp hcheck
  exact List.forall₂_iff_zip.mpr ⟨hlen, fun hab => hall _ hab⟩

theorem parseCode_sound (req : CodeRequest) (data : List UInt8) (codes : List (List UInt8)) (t : ℕ)
    (h : parseCode keccak256 req data = .ok (codes, t)) :
    List.Forall₂ (fun code hash => code.length ≤ maxCodeSize ∧ keccak256 code = hash) codes req.hashes ∧
      t = (codes.map List.length).sum ∧ encode 2 0 ++ encodeValue (.codeResponse ⟨codes⟩) <+: data := by
  obtain ⟨hunm, hlen, hcheck⟩ := parseCode_eq_ok h
  obtain ⟨-, rfl⟩ := (checkCodes_eq_ok_iff 0 _ 0 t).mp hcheck
  obtain ⟨-, -, -, -, hpre⟩ := unmarshal_eq_ok hunm
  have hfst : (codes.zip req.hashes).map (fun p => p.1.length) = codes.map List.length :=
    calc (codes.zip req.hashes).map (fun p => p.1.length)
        = ((codes.zip req.hashes).map Prod.fst).map List.length := by rw [List.map_map]; rfl
      _ = codes.map List.length := by rw [List.map_fst_zip (le_of_eq hlen)]
  refine ⟨forall₂_of_parseCode_eq_ok h, ?_, hpre⟩
  rw [Nat.zero_add, hfst]

theorem parseCode_sound_sample :
    parseCode sampleKeccak ⟨[1, 2]⟩ sampleCodeResponse = .ok ([[7], [8, 9]], 3) ∧
      (List.Forall₂ (fun code hash => code.length ≤ maxCodeSize ∧ sampleKeccak code = hash)
          ([[7], [8, 9]] : List (List UInt8)) ([1, 2] : List Hash) ∧
        3 = (([[7], [8, 9]] : List (List UInt8)).map List.length).sum ∧
        encode 2 0 ++ encodeValue (.codeResponse ⟨[[7], [8, 9]]⟩) <+: sampleCodeResponse) :=
  have h : parseCode sampleKeccak ⟨[1, 2]⟩ sampleCodeResponse = .ok ([[7], [8, 9]], 3) := by rfl
  ⟨h, parseCode_sound _ _ _ _ h⟩

/-! ## The handler's answers -/

/-- What an answer of the handler holds: the request passed its checks, and the
answer is the layout of the stored codes, within the codec's size. -/
theorem onCodeRequest_eq_some {req : CodeRequest} {data : List UInt8}
    (h : onCodeRequest readCode req = some data) :
    req.hashes.length ≤ maxCodeHashesPerRequest ∧ req.hashes.Nodup ∧ (∀ h ∈ req.hashes, readCode h ≠ []) ∧
      (encode 2 0 ++ encodeValue (.codeResponse ⟨req.hashes.map readCode⟩)).length ≤ maxMessageSize ∧
      data = encode 2 0 ++ encodeValue (.codeResponse ⟨req.hashes.map readCode⟩) := by
  unfold onCodeRequest at h
  split_ifs at h with hmany hdup
  split at h
  · cases h
  · rename_i codes hread
    obtain ⟨hall, rfl⟩ := (readCodes_eq_some_iff _ _).mp hread
    split at h
    · rename_i bytes hm
      cases h
      obtain ⟨hsize, rfl⟩ := (marshal_eq_ok_iff _ _).mp hm
      exact ⟨by omega, (isUnique_iff _).mp (by simpa using hdup), hall, hsize, rfl⟩
    · cases h

theorem onCodeRequest_isSome_iff (hsize : ∀ h, (readCode h).length ≤ maxCodeSize) (req : CodeRequest) :
    (onCodeRequest readCode req).isSome ↔
      req.hashes.length ≤ maxCodeHashesPerRequest ∧ req.hashes.Nodup ∧ ∀ h ∈ req.hashes, readCode h ≠ [] := by
  constructor
  · intro hs
    obtain ⟨data, hd⟩ := Option.isSome_iff_exists.mp hs
    obtain ⟨hcount, hnd, hall, -⟩ := onCodeRequest_eq_some hd
    exact ⟨hcount, hnd, hall⟩
  · rintro ⟨hcount, hnd, hall⟩
    -- at most five codes of at most `maxCodeSize` bytes fit the codec's size
    have hfit : (encode 2 0 ++ encodeValue (.codeResponse ⟨req.hashes.map readCode⟩)).length ≤
        maxMessageSize := by
      have hlen : (encodeValue (.codeResponse ⟨req.hashes.map readCode⟩)).length =
          4 + 4 * (req.hashes.map readCode).length + ((req.hashes.map readCode).map List.length).sum :=
        length_encodeList_encodeBytes _
      have hsum := List.sum_le_card_nsmul ((req.hashes.map readCode).map List.length) maxCodeSize
        (by simpa using fun h _ => hsize h)
      have hcode : maxCodeSize = 65536 := rfl
      rw [List.length_map, List.length_map, Nat.nsmul_eq_mul, hcode] at hsum
      rw [List.length_append, length_encode, hlen, List.length_map]
      have hmax : maxMessageSize = 2031616 := rfl
      have hper : maxCodeHashesPerRequest = 5 := rfl
      omega
    unfold onCodeRequest
    rw [if_neg (by omega), if_neg (by simpa using (isUnique_iff _).mpr hnd),
      (readCodes_eq_some_iff _ _).mpr ⟨hall, rfl⟩]
    simp only [version, marshal_eq_ok _ hfit, Option.isSome_some]

theorem onCodeRequest_isSome_iff_sample :
    (onCodeRequest sampleStore ⟨[2, 1]⟩).isSome ↔
      [(2 : Hash), 1].length ≤ maxCodeHashesPerRequest ∧ [(2 : Hash), 1].Nodup ∧
        ∀ h ∈ [(2 : Hash), 1], sampleStore h ≠ [] :=
  onCodeRequest_isSome_iff sampleStore_size _

/-- Over a store that keeps each code under its hash and within the client's
size, the client accepts every answer of the handler and reads back the stored
codes. -/
theorem parseCode_onCodeRequest (hstore : ∀ h, readCode h ≠ [] → keccak256 (readCode h) = h)
    (hsize : ∀ h, (readCode h).length ≤ maxCodeSize) (req : CodeRequest) (data : List UInt8)
    (h : onCodeRequest readCode req = some data) :
    parseCode keccak256 req data =
      .ok (req.hashes.map readCode, (req.hashes.map fun h => (readCode h).length).sum) := by
  obtain ⟨-, -, hall, hfit, rfl⟩ := onCodeRequest_eq_some h
  have hunm := (unmarshal_layout (.codeResponse ⟨req.hashes.map readCode⟩) trivial hfit).2
  simp only [Decoded.dest] at hunm
  have hcheck : checkCodes keccak256 0 ((req.hashes.map readCode).zip req.hashes) 0 =
      .ok ((req.hashes.map fun h => (readCode h).length).sum) := by
    rw [checkCodes_eq_ok_iff, ← List.map_prod_right_eq_zip]
    refine ⟨fun p hp => ?_, ?_⟩
    · obtain ⟨h, hh, rfl⟩ := List.mem_map.mp hp
      exact ⟨hsize h, hstore h (hall h hh)⟩
    · rw [List.map_map, Nat.zero_add]
      rfl
  unfold parseCode
  rw [hunm]
  dsimp only
  rw [if_neg (by simp), hcheck]
  rfl

theorem parseCode_onCodeRequest_sample :
    onCodeRequest sampleStore ⟨[1, 2]⟩ = some sampleCodeResponse ∧
      parseCode sampleKeccak ⟨[1, 2]⟩ sampleCodeResponse =
        .ok ([1, 2].map sampleStore, ([1, 2].map fun h => (sampleStore h).length).sum) :=
  have h : onCodeRequest sampleStore ⟨[1, 2]⟩ = some sampleCodeResponse := by rfl
  ⟨h, parseCode_onCodeRequest sampleStore_hash sampleStore_size _ _ h⟩

end Codes

end LuxEvm.Sync
