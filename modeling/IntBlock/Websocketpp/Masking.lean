import IntBlock.Websocketpp.Frame

/-!
# Masking

A client adds a key of four bytes to its payloads, over and over.  There are four
routines for it: byte by byte, or in words of eight bytes, all at once, or piece by piece
with a key of eight bytes that is turned after each piece.

## Main definitions

* `byteMask`, `wordMaskExact` — all at once.
* `byteMaskCirc`, `wordMaskCirc` — piece by piece.
* `masked k bs` — what they are for: the bytes `bs` with those of `k` added.

## Main results

* `maskChunks_eq` — **a payload can be masked in pieces of any sizes, by any routine.**
* `byteMask_byteMask` — masking undoes itself.
-/

namespace IntBlock
namespace Websocketpp

open Endian

/-- `reinterpret_cast<uint8_t *>(&x)[i]` -/
def byteAt {w : ℕ} (x : BitVec w) (i : ℕ) : Byte := x.extractLsb' (8 * i) 8

def prepareMaskingKey (key : BitVec 32) : BitVec 64 :=
  (key.setWidth 64 <<< 32) ||| key.setWidth 64

def circshiftPreparedKey (preparedKey : BitVec 64) (offset : ℕ) : BitVec 64 :=
  if offset = 0 then preparedKey
  else (preparedKey >>> (offset * 8)) ||| (preparedKey <<< ((8 - offset) * 8))

/-- The loop of `byte_mask`, at the index `keyIndex`. -/
def byteMaskFrom (key : BitVec 32) : ℕ → List Byte → List Byte
  | _, [] => []
  | keyIndex, b :: bs => (b ^^^ byteAt key keyIndex) :: byteMaskFrom key ((keyIndex + 1) % 4) bs

def byteMask (input : List Byte) (key : BitVec 32) (keyOffset : ℕ) : List Byte :=
  byteMaskFrom key (keyOffset % 4) input

def byteMaskCirc (input : List Byte) (preparedKey : BitVec 64) : List Byte × BitVec 64 :=
  (input.mapIdx fun i b => b ^^^ byteAt (preparedKey.setWidth 32) (i % 4),
    circshiftPreparedKey preparedKey (input.length % 4))

/-- `*reinterpret_cast<size_t *>(input)`, at whatever address. -/
def word (input : List Byte) : BitVec 64 := BitVec.ofNat 64 (value (input.take 8))

/-- `output_word[i] = input_word[i] ^ prepared_key`, for `n` words. -/
def wordMask (preparedKey : BitVec 64) : ℕ → List Byte → List Byte
  | 0, _ => []
  | n + 1, input =>
      image 8 (word input ^^^ preparedKey).toNat ++ wordMask preparedKey n (input.drop 8)

def wordMaskExact (input : List Byte) (key : BitVec 32) : List Byte :=
  let n := input.length / 8
  wordMask (prepareMaskingKey key) n input ++
    (input.drop (n * 8)).mapIdx fun i b => b ^^^ byteAt key ((n * 8 + i) % 4)

def wordMaskCirc (input : List Byte) (preparedKey : BitVec 64) : List Byte × BitVec 64 :=
  let n := input.length / 8
  let l := input.length - n * 8
  (wordMask preparedKey n input ++
      (input.drop (n * 8)).mapIdx fun i b => b ^^^ byteAt preparedKey i,
    circshiftPreparedKey preparedKey l)

/-! ### Adding a sequence of bytes -/

def masked (k : ℕ → Byte) (bs : List Byte) : List Byte := bs.mapIdx fun i b => b ^^^ k i

@[simp] theorem masked_nil (k : ℕ → Byte) : masked k [] = [] := rfl

theorem masked_cons (k : ℕ → Byte) (b : Byte) (bs : List Byte) :
    masked k (b :: bs) = (b ^^^ k 0) :: masked (fun i => k (i + 1)) bs := List.mapIdx_cons

@[simp] theorem length_masked (k : ℕ → Byte) (bs : List Byte) :
    (masked k bs).length = bs.length := List.length_mapIdx

theorem masked_append (k : ℕ → Byte) (bs bs' : List Byte) :
    masked k (bs ++ bs') = masked k bs ++ masked (fun i => k (bs.length + i)) bs' := by
  rw [masked, List.mapIdx_append]
  simp only [masked, Nat.add_comm]

theorem masked_congr {k k' : ℕ → Byte} {bs : List Byte} (h : ∀ i < bs.length, k i = k' i) :
    masked k bs = masked k' bs := by
  refine List.ext_getElem? fun i => ?_
  simp only [masked, List.getElem?_mapIdx]
  by_cases hi : i < bs.length
  · rw [h i hi]
  · rw [List.getElem?_eq_none (by omega)]
    rfl

/-- **Masking undoes itself.** -/
theorem masked_masked (k : ℕ → Byte) (bs : List Byte) : masked k (masked k bs) = bs := by
  refine List.ext_getElem? fun i => ?_
  simp only [masked, List.getElem?_mapIdx, Option.map_map]
  cases bs[i]? with
  | none => rfl
  | some b => simp

/-! ### The key, over and over -/

def keyStream (key : BitVec 32) (i : ℕ) : Byte := byteAt key (i % 4)

theorem keyStream_add (key : BitVec 32) {i j : ℕ} (h : i % 4 = j % 4) :
    keyStream key i = keyStream key j := by
  rw [keyStream, keyStream, h]

theorem byteMaskFrom_eq (key : BitVec 32) {keyIndex : ℕ} (h : keyIndex < 4) (bs : List Byte) :
    byteMaskFrom key keyIndex bs = masked (fun i => keyStream key (keyIndex + i)) bs := by
  induction bs generalizing keyIndex with
  | nil => rfl
  | cons b bs ih =>
    have hhead : byteAt key keyIndex = keyStream key (keyIndex + 0) := by
      rw [keyStream, Nat.add_zero, Nat.mod_eq_of_lt h]
    rw [byteMaskFrom, masked_cons, ih (Nat.mod_lt _ (by decide)), hhead]
    congr 1
    refine masked_congr fun i _ => ?_
    exact keyStream_add key (by omega)

theorem byteMask_eq (input : List Byte) (key : BitVec 32) (keyOffset : ℕ) :
    byteMask input key keyOffset = masked (fun i => keyStream key (keyOffset + i)) input := by
  rw [byteMask, byteMaskFrom_eq key (Nat.mod_lt _ (by decide))]
  refine masked_congr fun i _ => ?_
  exact keyStream_add key (by omega)

/-- **Masking a second time gives the payload back.** -/
theorem byteMask_byteMask (input : List Byte) (key : BitVec 32) (keyOffset : ℕ) :
    byteMask (byteMask input key keyOffset) key keyOffset = input := by
  rw [byteMask_eq, byteMask_eq, masked_masked]

/-! ### Prepared keys -/

theorem byteAt_xor (x y : BitVec 64) (i : ℕ) : byteAt (x ^^^ y) i = byteAt x i ^^^ byteAt y i := by
  ext j hj
  simp [byteAt]

/-- A byte of a key that has been turned. -/
theorem byteAt_circshift (p : BitVec 64) {offset i : ℕ} (hoffset : offset < 8) (hi : i < 8) :
    byteAt (circshiftPreparedKey p offset) i = byteAt p ((offset + i) % 8) := by
  unfold circshiftPreparedKey
  split_ifs with hzero
  · rw [hzero, Nat.zero_add, Nat.mod_eq_of_lt hi]
  · ext j hj
    simp only [byteAt, BitVec.getElem_extractLsb', BitVec.getLsbD_or, BitVec.getLsbD_ushiftRight,
      BitVec.getLsbD_shiftLeft]
    by_cases hwrap : offset + i < 8
    · have hlow : 8 * i + j < (8 - offset) * 8 := by omega
      rw [Nat.mod_eq_of_lt hwrap, show offset * 8 + (8 * i + j) = 8 * (offset + i) + j by ring]
      simp [hlow]
    · have hhigh : p.getLsbD (offset * 8 + (8 * i + j)) = false := BitVec.getLsbD_of_ge _ _ (by omega)
      have hlow : ¬8 * i + j < (8 - offset) * 8 := by omega
      have hmod : (offset + i) % 8 = offset + i - 8 := by omega
      have hindex : 8 * i + j - (8 - offset) * 8 = 8 * (offset + i - 8) + j := by omega
      have hlt : 8 * i + j < 64 := by omega
      rw [hhigh, hmod, hindex]
      simp [hlow, hlt]

theorem byteAt_prepareMaskingKey (key : BitVec 32) {i : ℕ} (hi : i < 8) :
    byteAt (prepareMaskingKey key) i = keyStream key i := by
  ext j hj
  simp only [keyStream, byteAt, prepareMaskingKey, BitVec.getElem_extractLsb', BitVec.getLsbD_or,
    BitVec.getLsbD_shiftLeft, BitVec.getLsbD_setWidth]
  by_cases hlow : 8 * i + j < 32
  · have hmod : i % 4 = i := by omega
    have hlt : 8 * i + j < 64 := by omega
    rw [hmod]
    simp [hlow, hlt]
  · have hmod : i % 4 = i - 4 := by omega
    have hindex : 8 * i + j - 32 = 8 * (i - 4) + j := by omega
    have hhigh : key.getLsbD (8 * i + j) = false := BitVec.getLsbD_of_ge _ _ (by omega)
    have hlt : 8 * i + j < 64 := by omega
    have hlt' : 8 * i + j - 32 < 64 := by omega
    rw [hmod, hhigh, ← hindex]
    simp [hlow, hlt, hlt']

/-- The key `p` stands for the bytes `keyStream key` from `n` on. -/
def Prepared (key : BitVec 32) (n : ℕ) (p : BitVec 64) : Prop :=
  ∀ i < 8, byteAt p i = keyStream key (n + i)

theorem prepared_prepareMaskingKey (key : BitVec 32) : Prepared key 0 (prepareMaskingKey key) := by
  intro i hi
  rw [byteAt_prepareMaskingKey key hi, Nat.zero_add]

theorem Prepared.circshift {key : BitVec 32} {n offset m : ℕ} {p : BitVec 64}
    (h : Prepared key n p) (hoffset : offset < 8) (hm : (n + offset) % 4 = m % 4) :
    Prepared key m (circshiftPreparedKey p offset) := by
  intro i hi
  rw [byteAt_circshift p hoffset hi, h _ (Nat.mod_lt _ (by decide))]
  exact keyStream_add key (by omega)

/-- The lower half of a prepared key has its first four bytes. -/
theorem byteAt_setWidth (p : BitVec 64) {i : ℕ} (hi : i < 4) :
    byteAt (p.setWidth 32) i = byteAt p i := by
  ext j hj
  have hlt : 8 * i + j < 32 := by omega
  simp [byteAt, hlt]

theorem Prepared.byteMaskCirc {key : BitVec 32} {n : ℕ} {p : BitVec 64} (h : Prepared key n p)
    (input : List Byte) :
    (byteMaskCirc input p).1 = masked (fun i => keyStream key (n + i)) input ∧
      Prepared key (n + input.length) (Websocketpp.byteMaskCirc input p).2 := by
  constructor
  · refine masked_congr fun i _ => ?_
    have hi : i % 4 < 4 := Nat.mod_lt _ (by decide)
    rw [byteAt_setWidth p hi, h _ (by omega)]
    exact keyStream_add key (by omega)
  · exact h.circshift (by omega) (by omega)

/-! ### Words -/

/-- Eight bytes are masked together as they are one by one. -/
theorem image_word (p : BitVec 64) {bs : List Byte} (h : bs.length = 8) :
    image 8 (word bs ^^^ p).toNat = masked (byteAt p) bs := by
  have hword : image 8 (word bs).toNat = bs := by
    have hvalue := value_lt bs
    rw [h] at hvalue
    rw [word, List.take_of_length_le (by omega), BitVec.toNat_ofNat, Nat.mod_eq_of_lt (by omega)]
    simpa [h] using image_value bs
  refine List.ext_getElem? fun i => ?_
  by_cases hi : i < 8
  · have hbyte : bs[i]? = some (byteAt (word bs) i) := by
      conv_lhs => rw [← hword]
      exact getElem?_image hi _
    rw [getElem?_image hi, masked, List.getElem?_mapIdx, hbyte, Option.map_some, ← byteAt_xor]
    rfl
  · rw [List.getElem?_eq_none (by simp; omega), List.getElem?_eq_none (by simp; omega)]

theorem wordMask_eq {key : BitVec 32} {n : ℕ} {p : BitVec 64} (h : Prepared key n p) (words : ℕ)
    {input : List Byte} (hlen : words * 8 ≤ input.length) :
    wordMask p words input = masked (fun i => keyStream key (n + i)) (input.take (words * 8)) := by
  induction words generalizing input with
  | zero => simp [wordMask]
  | succ words ih =>
    have htake : (input.take 8).length = 8 := by
      rw [List.length_take]
      omega
    have hsplit : input.take ((words + 1) * 8) = input.take 8 ++ (input.drop 8).take (words * 8) := by
      rw [show (words + 1) * 8 = 8 + words * 8 by ring, List.take_add]
    have hword : word input = word (input.take 8) := by
      rw [word, word, List.take_take, min_self]
    rw [wordMask, hword, image_word p htake, ih (by rw [List.length_drop]; omega), hsplit,
      masked_append, htake]
    congr 1
    · exact masked_congr fun i hi => h i (by omega)
    · refine masked_congr fun i _ => ?_
      exact keyStream_add key (by omega)

/-- The bytes behind the words. -/
theorem masked_take_append_drop (k : ℕ → Byte) {m : ℕ} {bs : List Byte} (h : m ≤ bs.length) :
    masked k (bs.take m) ++ masked (fun i => k (m + i)) (bs.drop m) = masked k bs := by
  have hlen : (bs.take m).length = m := by
    rw [List.length_take]
    omega
  conv_rhs => rw [← List.take_append_drop m bs, masked_append, hlen]

/-- **Words give what bytes give**, all at once. -/
theorem wordMaskExact_eq (input : List Byte) (key : BitVec 32) :
    wordMaskExact input key = byteMask input key 0 := by
  have hlen : input.length / 8 * 8 ≤ input.length := Nat.div_mul_le_self _ _
  rw [wordMaskExact, wordMask_eq (prepared_prepareMaskingKey key) _ hlen, byteMask_eq,
    ← masked_take_append_drop _ hlen]
  congr 1
  refine masked_congr fun i _ => ?_
  rw [Nat.zero_add]
  rfl

theorem Prepared.wordMaskCirc {key : BitVec 32} {n : ℕ} {p : BitVec 64} (h : Prepared key n p)
    (input : List Byte) :
    (wordMaskCirc input p).1 = masked (fun i => keyStream key (n + i)) input ∧
      Prepared key (n + input.length) (Websocketpp.wordMaskCirc input p).2 := by
  have hlen : input.length / 8 * 8 ≤ input.length := Nat.div_mul_le_self _ _
  constructor
  · unfold Websocketpp.wordMaskCirc
    dsimp only
    rw [wordMask_eq h _ hlen, ← masked_take_append_drop _ hlen]
    congr 1
    refine masked_congr fun i hi => ?_
    rw [List.length_drop] at hi
    rw [h i (by omega)]
    exact keyStream_add key (by omega)
  · exact h.circshift (by omega) (by omega)

/-! ### Pieces -/

/-- Masks pieces one after another, each by bytes or by words. -/
def maskChunks : BitVec 64 → List (Bool × List Byte) → List (List Byte)
  | _, [] => []
  | p, (byWords, chunk) :: chunks =>
      let r := if byWords then wordMaskCirc chunk p else byteMaskCirc chunk p
      r.1 :: maskChunks r.2 chunks

/-- **A payload is masked the same in pieces of any sizes**, by bytes or by words. -/
theorem maskChunks_eq (key : BitVec 32) (chunks : List (Bool × List Byte)) :
    (maskChunks (prepareMaskingKey key) chunks).flatten =
      byteMask (chunks.map Prod.snd).flatten key 0 := by
  have hfrom : ∀ (chunks : List (Bool × List Byte)) (n : ℕ) (p : BitVec 64), Prepared key n p →
      (maskChunks p chunks).flatten =
        masked (fun i => keyStream key (n + i)) (chunks.map Prod.snd).flatten := by
    intro chunks
    induction chunks with
    | nil => exact fun n p _ => rfl
    | cons c chunks ih =>
      intro n p hp
      obtain ⟨byWords, chunk⟩ := c
      have hchunk : ∃ r, r = (if byWords then wordMaskCirc chunk p else byteMaskCirc chunk p) ∧
          r.1 = masked (fun i => keyStream key (n + i)) chunk ∧
          Prepared key (n + chunk.length) r.2 := by
        cases byWords with
        | false => exact ⟨_, rfl, hp.byteMaskCirc chunk⟩
        | true => exact ⟨_, rfl, hp.wordMaskCirc chunk⟩
      obtain ⟨r, hr, hbytes, hnext⟩ := hchunk
      rw [maskChunks, ← hr, List.flatten_cons, hbytes, ih _ _ hnext, List.map_cons,
        List.flatten_cons, masked_append]
      simp only [Nat.add_assoc]
  rw [hfrom chunks 0 _ (prepared_prepareMaskingKey key), byteMask_eq]

end Websocketpp
end IntBlock
