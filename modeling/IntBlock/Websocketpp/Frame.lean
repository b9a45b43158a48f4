import IntBlock.Lib.Endian

/-!
# Frame headers

The two bytes every frame begins with, and the bytes that follow them: the size of the
payload where seven bits do not hold it, and the masking key.  The host is one of 64
bits with the lowest byte first.

## Main definitions

* `Opcode` — what a frame is.
* `BasicHeader`, `ExtendedHeader` — the two parts of a header, and what is read off them.
* `prepareHeader` — a header as it is sent.

## Main results

* `prepareHeader_eq` — the bytes of a header.
* `getPayloadSize_of_take`, `getMaskingKey_of_take` — **what was put into a header is
  read off it**, from the bytes that were sent alone.
-/

namespace IntBlock
namespace Websocketpp

open Endian

/-! ### Opcodes -/

inductive Opcode
  | continuation
  | text
  | binary
  | rsv3
  | rsv4
  | rsv5
  | rsv6
  | rsv7
  | close
  | ping
  | pong
  | controlRsvb
  | controlRsvc
  | controlRsvd
  | controlRsve
  | controlRsvf
  deriving DecidableEq, Repr

namespace Opcode

def value : Opcode → ℕ
  | continuation => 0x0
  | text => 0x1
  | binary => 0x2
  | rsv3 => 0x3
  | rsv4 => 0x4
  | rsv5 => 0x5
  | rsv6 => 0x6
  | rsv7 => 0x7
  | close => 0x8
  | ping => 0x9
  | pong => 0xA
  | controlRsvb => 0xB
  | controlRsvc => 0xC
  | controlRsvd => 0xD
  | controlRsve => 0xE
  | controlRsvf => 0xF

/-- `opcode::value(v)`, of four bits. -/
def ofValue : ℕ → Opcode
  | 0x0 => continuation
  | 0x1 => text
  | 0x2 => binary
  | 0x3 => rsv3
  | 0x4 => rsv4
  | 0x5 => rsv5
  | 0x6 => rsv6
  | 0x7 => rsv7
  | 0x8 => close
  | 0x9 => ping
  | 0xA => pong
  | 0xB => controlRsvb
  | 0xC => controlRsvc
  | 0xD => controlRsvd
  | 0xE => controlRsve
  | _ => controlRsvf

def reserved (v : Opcode) : Bool :=
  (rsv3.value ≤ v.value && v.value ≤ rsv7.value) ||
    (controlRsvb.value ≤ v.value && v.value ≤ controlRsvf.value)

def invalid (v : Opcode) : Bool := 0xF < v.value

def isControl (v : Opcode) : Bool := 0x8 ≤ v.value

/-- The type holds four bits. -/
@[simp] theorem invalid_eq (v : Opcode) : v.invalid = false := by cases v <;> rfl

end Opcode

/-! ### The basic header -/

namespace Limits

abbrev payloadSizeBasic : ℕ := 125

abbrev payloadSizeExtended : ℕ := 0xFFFF

abbrev closeReasonSize : ℕ := 123

end Limits

def bhb0Opcode : Byte := 0x0F
def bhb0Rsv3 : Byte := 0x10
def bhb0Rsv2 : Byte := 0x20
def bhb0Rsv1 : Byte := 0x40
def bhb0Fin : Byte := 0x80
def bhb1Payload : Byte := 0x7F
def bhb1Mask : Byte := 0x80

def payloadSizeCode16bit : Byte := 0x7E
def payloadSizeCode64bit : Byte := 0x7F

abbrev basicHeaderLength : ℕ := 2
abbrev maxExtendedHeaderLength : ℕ := 12

structure BasicHeader where
  b0 : Byte
  b1 : Byte
  deriving DecidableEq, Repr

namespace BasicHeader

/-- The seven bits for a size. -/
def basicValue (size : ℕ) : Byte :=
  if size ≤ Limits.payloadSizeBasic then BitVec.ofNat 8 size
  else if size ≤ Limits.payloadSizeExtended then payloadSizeCode16bit
  else payloadSizeCode64bit

/-- `basic_header(op, size, fin, mask, rsv1)`; nobody sets the other two bits. -/
def ofFrame (op : Opcode) (size : ℕ) (fin mask rsv1 : Bool) : BasicHeader where
  b0 := (if fin then bhb0Fin else 0) ||| (if rsv1 then bhb0Rsv1 else 0) |||
    (BitVec.ofNat 8 op.value &&& bhb0Opcode)
  b1 := (if mask then bhb1Mask else 0) ||| basicValue size

def getFin (h : BasicHeader) : Bool := h.b0 &&& bhb0Fin == bhb0Fin
def getRsv1 (h : BasicHeader) : Bool := h.b0 &&& bhb0Rsv1 == bhb0Rsv1
def getRsv2 (h : BasicHeader) : Bool := h.b0 &&& bhb0Rsv2 == bhb0Rsv2
def getRsv3 (h : BasicHeader) : Bool := h.b0 &&& bhb0Rsv3 == bhb0Rsv3

def getOpcode (h : BasicHeader) : Opcode := Opcode.ofValue (h.b0 &&& bhb0Opcode).toNat

def getMasked (h : BasicHeader) : Bool := h.b1 &&& bhb1Mask == bhb1Mask

def getBasicSize (h : BasicHeader) : Byte := h.b1 &&& bhb1Payload

def getMaskingKeyOffset (h : BasicHeader) : ℕ :=
  if h.getBasicSize = payloadSizeCode16bit then 2
  else if h.getBasicSize = payloadSizeCode64bit then 8
  else 0

def getHeaderLen (h : BasicHeader) : ℕ :=
  basicHeaderLength + h.getMaskingKeyOffset + if h.getMasked then 4 else 0

end BasicHeader

/-! ### The extended header -/

/-- An array of twelve bytes. -/
@[ext] structure ExtendedHeader where
  bytes : List Byte
  length_bytes : bytes.length = maxExtendedHeaderLength

namespace ExtendedHeader

/-- `extended_header()` -/
def zero : ExtendedHeader := ⟨List.replicate maxExtendedHeaderLength 0, List.length_replicate⟩

/-- `std::copy(src, src + n, bytes + offset)` -/
def copy (e : ExtendedHeader) (offset : ℕ) (src : List Byte)
    (h : offset + src.length ≤ maxExtendedHeaderLength) : ExtendedHeader where
  bytes := e.bytes.take offset ++ src ++ e.bytes.drop (offset + src.length)
  length_bytes := by
    have := e.length_bytes
    simp only [List.length_append, List.length_take, List.length_drop]
    omega

section Copy

variable {e : ExtendedHeader} {offset : ℕ} {src src' : List Byte}

theorem take_copy (h : offset + src.length ≤ maxExtendedHeaderLength) :
    (e.copy offset src h).bytes.take (offset + src.length) = e.bytes.take offset ++ src := by
  have hlen : (e.bytes.take offset ++ src).length = offset + src.length := by
    have := e.length_bytes
    rw [List.length_append, List.length_take]
    omega
  exact List.take_left' hlen

theorem drop_copy (h : offset + src.length ≤ maxExtendedHeaderLength) {n : ℕ}
    (hn : offset + src.length ≤ n) : (e.copy offset src h).bytes.drop n = e.bytes.drop n := by
  have hlen : (e.bytes.take offset ++ src).length = offset + src.length := by
    have := e.length_bytes
    rw [List.length_append, List.length_take]
    omega
  rw [copy, List.drop_append, List.drop_eq_nil_of_le (by omega), hlen, List.nil_append,
    List.drop_drop, Nat.add_sub_cancel' hn]

/-- Two pieces one behind the other are copied as one. -/
theorem copy_copy (h : offset + src.length ≤ maxExtendedHeaderLength)
    (h' : offset + src.length + src'.length ≤ maxExtendedHeaderLength)
    (h'' : offset + (src ++ src').length ≤ maxExtendedHeaderLength) :
    (e.copy offset src h).copy (offset + src.length) src' h' = e.copy offset (src ++ src') h'' := by
  apply ExtendedHeader.ext
  change (e.copy offset src h).bytes.take _ ++ src' ++ (e.copy offset src h).bytes.drop _ = _
  rw [take_copy, drop_copy h (by omega), copy]
  simp only [List.append_assoc, List.length_append, Nat.add_assoc]

end Copy

/-- Where the bytes of a size begin among the eight of `uint64_t`. -/
def payloadOffset (payloadSize : ℕ) : ℕ :=
  if payloadSize ≤ Limits.payloadSizeBasic then 8
  else if payloadSize ≤ Limits.payloadSizeExtended then 6
  else 0

def htonll (src : ℕ) : ℕ := swap 8 src

/-- The bytes `copy_payload` copies. -/
def sizeBytes (payloadSize : ℕ) : List Byte :=
  (image 8 (htonll payloadSize)).drop (payloadOffset payloadSize)

theorem length_sizeBytes (payloadSize : ℕ) :
    (sizeBytes payloadSize).length = 8 - payloadOffset payloadSize := by
  simp [sizeBytes]

/-- `extended_header(payload_size)` -/
def ofSize (payloadSize : ℕ) : ExtendedHeader :=
  zero.copy 0 (sizeBytes payloadSize) (by
    rw [length_sizeBytes, maxExtendedHeaderLength]
    omega)

/-- `extended_header(payload_size, masking_key)` -/
def ofSizeKey (payloadSize : ℕ) (maskingKey : BitVec 32) : ExtendedHeader :=
  (ofSize payloadSize).copy (8 - payloadOffset payloadSize) (image 4 maskingKey.toNat) (by
    rw [length_image, maxExtendedHeaderLength]
    omega)

def getExtendedSize (e : ExtendedHeader) : ℕ := swap 2 (value (e.bytes.take 2))

def getJumboSize (e : ExtendedHeader) : ℕ := swap 8 (value (e.bytes.take 8))

end ExtendedHeader

def prepareHeader (h : BasicHeader) (e : ExtendedHeader) : List Byte :=
  h.b0 :: h.b1 :: e.bytes.take (h.getHeaderLen - basicHeaderLength)

def getMaskingKey (h : BasicHeader) (e : ExtendedHeader) : BitVec 32 :=
  if h.getMasked = false then 0
  else BitVec.ofNat 32 (value ((e.bytes.drop h.getMaskingKeyOffset).take 4))

def getPayloadSize (h : BasicHeader) (e : ExtendedHeader) : ℕ :=
  if h.getBasicSize.toNat ≤ Limits.payloadSizeBasic then h.getBasicSize.toNat
  else if h.getBasicSize = payloadSizeCode16bit then e.getExtendedSize
  else e.getJumboSize

/-! ### Reading off a basic header -/

section OfFrame

variable (op : Opcode) (size : ℕ) (fin mask rsv1 : Bool)

open BasicHeader

@[simp] theorem getFin_ofFrame : (ofFrame op size fin mask rsv1).getFin = fin := by
  unfold getFin ofFrame
  dsimp only
  cases op <;> cases fin <;> cases rsv1 <;> decide

@[simp] theorem getRsv1_ofFrame : (ofFrame op size fin mask rsv1).getRsv1 = rsv1 := by
  unfold getRsv1 ofFrame
  dsimp only
  cases op <;> cases fin <;> cases rsv1 <;> decide

@[simp] theorem getRsv2_ofFrame : (ofFrame op size fin mask rsv1).getRsv2 = false := by
  unfold getRsv2 ofFrame
  dsimp only
  cases op <;> cases fin <;> cases rsv1 <;> decide

@[simp] theorem getRsv3_ofFrame : (ofFrame op size fin mask rsv1).getRsv3 = false := by
  unfold getRsv3 ofFrame
  dsimp only
  cases op <;> cases fin <;> cases rsv1 <;> decide

@[simp] theorem getOpcode_ofFrame : (ofFrame op size fin mask rsv1).getOpcode = op := by
  unfold getOpcode ofFrame
  dsimp only
  cases op <;> cases fin <;> cases rsv1 <;> decide

theorem basicValue_lt : (basicValue size).toNat < 128 := by
  unfold basicValue
  split_ifs with hbasic
  · rw [Limits.payloadSizeBasic] at hbasic
    rw [BitVec.toNat_ofNat]
    omega
  · decide
  · decide

/-- Seven bits beside the bit of the mask. -/
theorem mask_or (mask : Bool) {v : Byte} (hv : v.toNat < 128) :
    (((if mask then bhb1Mask else 0) ||| v) &&& bhb1Mask == bhb1Mask) = mask ∧
      ((if mask then bhb1Mask else 0) ||| v) &&& bhb1Payload = v := by
  have hall : ∀ mask : Bool, ∀ n < 128,
      (((if mask then bhb1Mask else 0) ||| BitVec.ofNat 8 n) &&& bhb1Mask == bhb1Mask) = mask ∧
        ((if mask then bhb1Mask else 0) ||| BitVec.ofNat 8 n) &&& bhb1Payload = BitVec.ofNat 8 n := by
    decide +kernel
  simpa using hall mask v.toNat hv

@[simp] theorem getMasked_ofFrame : (ofFrame op size fin mask rsv1).getMasked = mask :=
  (mask_or mask (basicValue_lt size)).1

@[simp] theorem getBasicSize_ofFrame :
    (ofFrame op size fin mask rsv1).getBasicSize = basicValue size :=
  (mask_or mask (basicValue_lt size)).2

theorem toNat_basicValue {size : ℕ} (h : size ≤ Limits.payloadSizeBasic) :
    (basicValue size).toNat = size := by
  rw [Limits.payloadSizeBasic] at h
  rw [basicValue, if_pos h, BitVec.toNat_ofNat, Nat.mod_eq_of_lt (by omega)]

/-- The size is in the header exactly as far as it is small. -/
theorem basicValue_cases (size : ℕ) :
    (size ≤ 125 ∧ (basicValue size).toNat = size ∧ basicValue size ≠ payloadSizeCode16bit ∧
      basicValue size ≠ payloadSizeCode64bit ∧ ExtendedHeader.payloadOffset size = 8) ∨
    (125 < size ∧ size ≤ 0xFFFF ∧ basicValue size = payloadSizeCode16bit ∧
      ExtendedHeader.payloadOffset size = 6) ∨
    (0xFFFF < size ∧ basicValue size = payloadSizeCode64bit ∧
      ExtendedHeader.payloadOffset size = 0) := by
  by_cases hbasic : size ≤ 125
  · left
    have htoNat := toNat_basicValue hbasic
    refine ⟨hbasic, htoNat, ?_, ?_, if_pos hbasic⟩
    · intro hcode
      rw [hcode, payloadSizeCode16bit] at htoNat
      simp at htoNat
      omega
    · intro hcode
      rw [hcode, payloadSizeCode64bit] at htoNat
      simp at htoNat
      omega
  · right
    by_cases hextended : size ≤ 0xFFFF
    · left
      refine ⟨by omega, hextended, ?_, ?_⟩
      · rw [basicValue, if_neg hbasic, if_pos hextended]
      · rw [ExtendedHeader.payloadOffset, if_neg hbasic, if_pos hextended]
    · right
      refine ⟨by omega, ?_, ?_⟩
      · rw [basicValue, if_neg hbasic, if_neg hextended]
      · rw [ExtendedHeader.payloadOffset, if_neg hbasic, if_neg hextended]

@[simp] theorem getMaskingKeyOffset_ofFrame :
    (ofFrame op size fin mask rsv1).getMaskingKeyOffset =
      8 - ExtendedHeader.payloadOffset size := by
  unfold getMaskingKeyOffset
  rw [getBasicSize_ofFrame]
  rcases basicValue_cases size with ⟨-, -, h16, h64, hoffset⟩ | ⟨-, -, h16, hoffset⟩ |
    ⟨-, h64, hoffset⟩
  · rw [if_neg h16, if_neg h64, hoffset]
  · rw [if_pos h16, hoffset]
  · rw [h64, if_neg (by decide), if_pos rfl, hoffset]

end OfFrame

/-! ### Reading off an extended header -/

namespace ExtendedHeader

/-- The size goes out with its highest byte first. -/
theorem sizeBytes_eq (size : ℕ) :
    sizeBytes size = (image 8 size).reverse.drop (payloadOffset size) := by
  rw [sizeBytes, htonll, image_swap]

theorem sizeBytes_extended {size : ℕ} (hgt : 125 < size) (hle : size ≤ 0xFFFF) :
    sizeBytes size = (image 2 size).reverse := by
  have himage := @image_add 2 size (by omega) 6
  rw [sizeBytes_eq, payloadOffset, if_neg (by simp [Limits.payloadSizeBasic, hgt]), if_pos hle,
    show image 8 size = _ from himage, List.reverse_append, List.reverse_replicate,
    List.drop_append_of_le_length (by simp)]
  simp

theorem sizeBytes_jumbo {size : ℕ} (h : 0xFFFF < size) :
    sizeBytes size = (image 8 size).reverse := by
  rw [sizeBytes_eq, payloadOffset,
    if_neg (by simp only [Limits.payloadSizeBasic]; omega),
    if_neg (by simp only [Limits.payloadSizeExtended]; omega), List.drop_zero]

/-- The bytes of a header with a mask, or of one without, that are sent. -/
theorem take_ofSize (size : ℕ) :
    (ofSize size).bytes.take (8 - payloadOffset size) = sizeBytes size := by
  rw [← length_sizeBytes, ofSize, copy]
  simp

theorem take_ofSizeKey (size : ℕ) (key : BitVec 32) :
    (ofSizeKey size key).bytes.take (8 - payloadOffset size + 4) =
      sizeBytes size ++ image 4 key.toNat := by
  have hlen : (sizeBytes size ++ image 4 key.toNat).length = 8 - payloadOffset size + 4 := by
    simp [length_sizeBytes]
  rw [ofSizeKey, copy]
  dsimp only
  rw [take_ofSize, ← hlen, List.take_left]

end ExtendedHeader

/-- **The bytes of a header.** -/
theorem prepareHeader_eq {h : BasicHeader} {e : ExtendedHeader} {more : List Byte}
    (he : e.bytes.take (h.getHeaderLen - basicHeaderLength) = more) :
    prepareHeader h e = h.b0 :: h.b1 :: more := by
  rw [prepareHeader, he]

section OfBytes

variable {op : Opcode} {size : ℕ} {fin rsv1 : Bool} {e : ExtendedHeader}

/-- **The size is read off the bytes that were sent for it.** -/
theorem getPayloadSize_of_take (mask : Bool) (hsize : size < 2 ^ 64)
    (he : e.bytes.take (8 - ExtendedHeader.payloadOffset size) = ExtendedHeader.sizeBytes size) :
    getPayloadSize (.ofFrame op size fin mask rsv1) e = size := by
  unfold getPayloadSize
  rw [getBasicSize_ofFrame]
  rcases basicValue_cases size with ⟨hle, htoNat, -⟩ | ⟨hgt, hle, hcode, hoffset⟩ |
    ⟨hgt, hcode, hoffset⟩
  · rw [htoNat, if_pos hle]
  · rw [hoffset, ExtendedHeader.sizeBytes_extended hgt hle] at he
    rw [hcode, if_neg (by decide), if_pos rfl, ExtendedHeader.getExtendedSize, he]
    exact swap_swap (by omega)
  · rw [hoffset, ExtendedHeader.sizeBytes_jumbo hgt] at he
    rw [hcode, if_neg (by decide), if_neg (by decide), ExtendedHeader.getJumboSize, he]
    exact swap_swap (by omega)

/-- **The key is read off the bytes that were sent for it.** -/
theorem getMaskingKey_of_take {key : BitVec 32}
    (he : e.bytes.take (8 - ExtendedHeader.payloadOffset size + 4) =
      ExtendedHeader.sizeBytes size ++ image 4 key.toNat) :
    getMaskingKey (.ofFrame op size fin true rsv1) e = key := by
  have hbytes : (e.bytes.drop (8 - ExtendedHeader.payloadOffset size)).take 4 =
      image 4 key.toNat := by
    rw [List.take_drop, Nat.add_comm, Nat.add_comm 4, he, ← ExtendedHeader.length_sizeBytes,
      List.drop_left]
  unfold getMaskingKey
  rw [getMasked_ofFrame, if_neg (by decide), getMaskingKeyOffset_ofFrame, hbytes,
    value_image_of_lt (by simpa using key.isLt), BitVec.ofNat_toNat, BitVec.setWidth_eq]

end OfBytes

end Websocketpp
end IntBlock
