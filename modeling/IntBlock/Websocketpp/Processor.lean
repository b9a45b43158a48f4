import IntBlock.Websocketpp.Masking
import IntBlock.Websocketpp.Utf8Validator

/-!
# Reading frames

The processor of version 13 of the protocol: a state machine that is given bytes as they
arrive and puts messages together.  Compression is switched off, and a size has 64 bits.

## Main definitions

* `Processor` — the state machine.
* `consume` — uses up bytes until a message is ready.
* `getMessage` — takes the message.

## Main results

* `work_pass` — **each pass of the loop leaves less to be done**, so that `consume` ends.
* `beginPayload_eq_ok`, `finalizeMessage_eq_ok` — what a message goes through.
-/

namespace IntBlock
namespace Websocketpp

open Endian

/-! ### Errors -/

/-- `processor::error`, as far as frames can lead to one. -/
inductive ErrorCode
  | messageTooBig
  | invalidPayload
  | invalidOpcode
  | controlTooBig
  | invalidRsvBit
  | fragmentedControl
  | invalidContinuation
  | maskingRequired
  | maskingForbidden
  | nonMinimalEncoding
  | invalidUtf8
  | reservedCloseCode
  | invalidCloseCode
  | reasonRequiresCode
  deriving DecidableEq, Repr

/-- Why a call does not end well: an error code, or undefined behaviour. -/
inductive Fault
  | code (ec : ErrorCode)
  | undefined
  deriving DecidableEq, Repr

theorem ok_bind {α β : Type} (a : α) (f : α → Except Fault β) :
    (Except.ok a : Except Fault α) >>= f = f a := rfl

theorem error_bind {α β : Type} (e : Fault) (f : α → Except Fault β) :
    (Except.error e : Except Fault α) >>= f = .error e := rfl

theorem bind_eq_ok {α β : Type} {x : Except Fault α} {f : α → Except Fault β} {b : β} :
    x >>= f = .ok b ↔ ∃ a, x = .ok a ∧ f a = .ok b := by
  cases x with
  | error e =>
    constructor
    · intro h
      cases h
    · intro h
      obtain ⟨a, ha, -⟩ := h
      cases ha
  | ok a =>
    constructor
    · exact fun h => ⟨a, rfl, h⟩
    · intro h
      obtain ⟨a', ha, hf⟩ := h
      cases ha
      exact hf

/-- `if (ec) {break;}` -/
def check : Option ErrorCode → Except Fault Unit
  | none => .ok ()
  | some ec => .error (.code ec)

/-! ### The state -/

/-- A message buffer: one that is being put together, or one that is to be sent. -/
structure Message where
  opcode : Opcode
  payload : List Byte
  header : List Byte
  fin : Bool
  terminal : Bool
  prepared : Bool
  deriving DecidableEq, Repr

/-- `m_msg_manager->get_message(op, size)`; that it reserves `size` bytes is left out. -/
def newMessage (op : Opcode) : Message where
  opcode := op
  payload := []
  header := []
  fin := true
  terminal := false
  prepared := false

@[ext] structure MsgMetadata where
  msgPtr : Option Message
  preparedKey : BitVec 64
  validator : Validator

namespace MsgMetadata

/-- `msg_metadata()` -/
def empty : MsgMetadata := ⟨none, 0, .init⟩

/-- `msg_metadata(m, key)` -/
def new (op : Opcode) (key : BitVec 32) : MsgMetadata :=
  ⟨some (newMessage op), prepareMaskingKey key, .init⟩

/-- `if (masked) { prepared_key = byte_mask_circ(buf, len, prepared_key); }` -/
def unmask (masked : Bool) (buf : List Byte) (preparedKey : BitVec 64) : List Byte × BitVec 64 :=
  if masked then byteMaskCirc buf preparedKey else (buf, preparedKey)

/-- The part of `process_payload_bytes` about the message. -/
def process (md : MsgMetadata) (masked : Bool) (buf : List Byte) : Except Fault MsgMetadata :=
  let r := unmask masked buf md.preparedKey
  match md.msgPtr with
  | none => .error .undefined
  | some msg =>
      let v := if msg.opcode = .text then md.validator.decode r.1 else (md.validator, true)
      -- the payload is appended before it is validated, which an error hides
      if v.2 = false then .error (.code .invalidUtf8)
      else .ok ⟨some { msg with payload := msg.payload ++ r.1 }, r.2, v.1⟩

end MsgMetadata

/-- What `m_current_msg` points to. -/
inductive Slot
  | data
  | control
  deriving DecidableEq, Repr

inductive ReadState
  | headerBasic
  | headerExtended
  | extension
  | application
  | ready
  | fatalError
  deriving DecidableEq, Repr

/-- What the processor has been set up for: its side, and the size it takes. -/
structure Config where
  server : Bool
  maxMessageSize : ℕ

structure Processor where
  basicHeader : BasicHeader
  bytesNeeded : ℕ
  cursor : ℕ
  dataMsg : MsgMetadata
  controlMsg : MsgMetadata
  currentMsg : Option Slot
  extendedHeader : ExtendedHeader
  state : ReadState

namespace Processor

def metadata (s : Processor) : Slot → MsgMetadata
  | .data => s.dataMsg
  | .control => s.controlMsg

def setMetadata (s : Processor) (slot : Slot) (md : MsgMetadata) : Processor :=
  match slot with
  | .data => { s with dataMsg := md }
  | .control => { s with controlMsg := md }

def setBytesNeeded (s : Processor) (n : ℕ) : Processor := { s with bytesNeeded := n }

def resetHeaders (s : Processor) : Processor :=
  { s with
    state := .headerBasic
    bytesNeeded := basicHeaderLength
    basicHeader := ⟨0, 0⟩
    extendedHeader := .zero }

/-- The constructor. -/
def init : Processor where
  basicHeader := ⟨0, 0⟩
  bytesNeeded := basicHeaderLength
  cursor := 0
  dataMsg := .empty
  controlMsg := .empty
  currentMsg := none
  extendedHeader := .zero
  state := .headerBasic

/-! ### Headers -/

def copyBasicHeaderBytes (s : Processor) (buf : List Byte) : Processor × List Byte :=
  match buf with
  | [] => (s, [])
  | b :: rest =>
      if s.bytesNeeded = 0 then (s, b :: rest)
      else
        match rest with
        | b' :: rest' =>
            if s.bytesNeeded = 2 then
              ({ s with basicHeader := ⟨b, b'⟩, bytesNeeded := s.bytesNeeded - 2 }, rest')
            else
              ({ s with
                  basicHeader := ⟨s.basicHeader.b0, b⟩
                  bytesNeeded := s.bytesNeeded - 1 }, b' :: rest')
        | [] =>
            if s.bytesNeeded = 2 then
              ({ s with
                  basicHeader := ⟨b, s.basicHeader.b1⟩
                  bytesNeeded := s.bytesNeeded - 1 }, [])
            else
              ({ s with
                  basicHeader := ⟨s.basicHeader.b0, b⟩
                  bytesNeeded := s.bytesNeeded - 1 }, [])

/-- Bytes beyond the end of the array would be written to somewhere else. -/
def copyExtendedHeaderBytes (s : Processor) (buf : List Byte) :
    Except Fault (Processor × List Byte) :=
  let bytesToRead := min s.bytesNeeded buf.length
  if h : s.cursor + (buf.take bytesToRead).length ≤ maxExtendedHeaderLength then
    .ok ({ s with
      extendedHeader := s.extendedHeader.copy s.cursor (buf.take bytesToRead) h
      cursor := s.cursor + bytesToRead
      bytesNeeded := s.bytesNeeded - bytesToRead }, buf.drop bytesToRead)
  else .error .undefined

end Processor

/-- The code of an incoming basic header that is not valid; `newMsg` says that no message
is being put together. -/
def validateIncomingBasicHeader (h : BasicHeader) (isServer newMsg : Bool) : Option ErrorCode :=
  let op := h.getOpcode
  if op.isControl = true ∧ Limits.payloadSizeBasic < h.getBasicSize.toNat then some .controlTooBig
  else if h.getRsv1 = true then some .invalidRsvBit
  else if h.getRsv2 = true ∨ h.getRsv3 = true then some .invalidRsvBit
  else if op.reserved = true then some .invalidOpcode
  -- never: an opcode that has been read has four bits
  else if op.invalid = true then some .invalidOpcode
  else if op.isControl = true ∧ h.getFin = false then some .fragmentedControl
  else if newMsg = true ∧ op = .continuation then some .invalidContinuation
  else if newMsg = false ∧ op.isControl = false ∧ op ≠ .continuation then some .invalidContinuation
  else if isServer = true ∧ h.getMasked = false then some .maskingRequired
  else if isServer = false ∧ h.getMasked = true then some .maskingForbidden
  else none

def validateIncomingExtendedHeader (h : BasicHeader) (e : ExtendedHeader) : Option ErrorCode :=
  let basicSize := h.getBasicSize
  let payloadSize := getPayloadSize h e
  if basicSize = payloadSizeCode16bit ∧ payloadSize ≤ Limits.payloadSizeBasic then
    some .nonMinimalEncoding
  else if basicSize = payloadSizeCode64bit ∧ payloadSize ≤ Limits.payloadSizeExtended then
    some .nonMinimalEncoding
  else none

namespace Processor

/-! ### Payloads -/

/-- Unmasks bytes of the payload, appends them to the message and validates them. -/
def processPayloadBytes (s : Processor) (buf : List Byte) : Except Fault Processor :=
  match s.currentMsg with
  | none => .error .undefined
  | some slot => do
      let md ← (s.metadata slot).process s.basicHeader.getMasked buf
      return (s.setMetadata slot md).setBytesNeeded (s.bytesNeeded - buf.length)

/-- Only a message whose last frame is its first is checked for its end. -/
def finalizeMessage (s : Processor) : Except Fault Processor :=
  match s.currentMsg with
  | none => .error .undefined
  | some slot =>
      match (s.metadata slot).msgPtr with
      | none => .error .undefined
      | some _ =>
          if s.basicHeader.getOpcode = .text ∧ (s.metadata slot).validator.complete = false then
            .error (.code .invalidUtf8)
          else .ok { s with state := .ready }

/-! ### The loop -/

/-- A pass begins with the bytes that the state is short of, as far as they are there. -/
def fill (s : Processor) (buf : List Byte) : Except Fault (Processor × List Byte) :=
  match s.state with
  | .headerBasic => .ok (s.copyBasicHeaderBytes buf)
  | .headerExtended => s.copyExtendedHeaderBytes buf
  | .application =>
      let bytesToProcess := min s.bytesNeeded buf.length
      if 0 < bytesToProcess then do
        let s' ← s.processPayloadBytes (buf.take bytesToProcess)
        return (s', buf.drop bytesToProcess)
      else .ok (s, buf)
  | .extension | .ready | .fatalError => .ok (s, buf)

/-- The message a frame belongs to, once its header is there.  The sum of two sizes is
one of 64 bits. -/
def beginPayload (c : Config) (s : Processor) : Except Fault Processor :=
  let op := s.basicHeader.getOpcode
  let key := getMaskingKey s.basicHeader s.extendedHeader
  if op.isControl then
    -- a control message is never put together of several frames
    .ok { s with controlMsg := .new op key, currentMsg := some .control }
  else
    match s.dataMsg.msgPtr with
    | none =>
        if c.maxMessageSize < s.bytesNeeded then .error (.code .messageTooBig)
        else .ok { s with dataMsg := .new op key, currentMsg := some .data }
    | some out =>
        -- only the key is new, the validator goes on
        if c.maxMessageSize < (out.payload.length + s.bytesNeeded) % 2 ^ 64 then
          .error (.code .messageTooBig)
        else
          .ok { s with
            dataMsg := { s.dataMsg with preparedKey := prepareMaskingKey key }
            currentMsg := some .data }

/-- A pass ends with what is to be done once no byte is missing. -/
def advance (c : Config) (s : Processor) : Except Fault Processor :=
  match s.state with
  | .headerBasic => do
      check (validateIncomingBasicHeader s.basicHeader c.server s.dataMsg.msgPtr.isNone)
      return { s with
        state := .headerExtended
        cursor := 0
        bytesNeeded := s.basicHeader.getHeaderLen - basicHeaderLength }
  | .headerExtended => do
      check (validateIncomingExtendedHeader s.basicHeader s.extendedHeader)
      beginPayload c { s with
        state := .application
        bytesNeeded := getPayloadSize s.basicHeader s.extendedHeader }
  | .application => if s.basicHeader.getFin then s.finalizeMessage else .ok s.resetHeaders
  | .extension => .ok { s with state := .application }
  | .ready | .fatalError => .ok s

/-- A pass of the loop of `consume`. -/
def pass (c : Config) (s : Processor) (buf : List Byte) : Except Fault (Processor × List Byte) :=
  if s.state = .extension then do
    let s' ← s.advance c
    return (s', buf)
  else do
    let r ← s.fill buf
    if 0 < r.1.bytesNeeded then return r
    let s' ← r.1.advance c
    return (s', r.2)

/-- The condition of the loop of `consume`. -/
def Runs (s : Processor) (buf : List Byte) : Prop :=
  s.state ≠ .ready ∧ s.state ≠ .fatalError ∧ (buf ≠ [] ∨ s.bytesNeeded = 0)

instance (s : Processor) (buf : List Byte) : Decidable (s.Runs buf) :=
  inferInstanceAs (Decidable (_ ∧ _ ∧ _))

/-- What is left to be done without new bytes. -/
def rank (s : Processor) : ℕ :=
  match s.state with
  | .headerBasic => if s.bytesNeeded = 0 then 3 else 0
  | .headerExtended | .extension => 2
  | .application => 1
  | .ready | .fatalError => 0

/-- It decreases with each pass. -/
def work (s : Processor) (buf : List Byte) : ℕ := 4 * buf.length + s.rank

end Processor

/-! ### The loop ends -/

namespace Processor

variable {c : Config} {s s' : Processor} {buf buf' : List Byte}

@[simp] theorem state_setMetadata (s : Processor) (slot : Slot) (md : MsgMetadata) :
    (s.setMetadata slot md).state = s.state := by cases slot <;> rfl

@[simp] theorem basicHeader_setMetadata (s : Processor) (slot : Slot) (md : MsgMetadata) :
    (s.setMetadata slot md).basicHeader = s.basicHeader := by cases slot <;> rfl

@[simp] theorem currentMsg_setMetadata (s : Processor) (slot : Slot) (md : MsgMetadata) :
    (s.setMetadata slot md).currentMsg = s.currentMsg := by cases slot <;> rfl

@[simp] theorem state_setBytesNeeded (s : Processor) (n : ℕ) :
    (s.setBytesNeeded n).state = s.state := rfl

@[simp] theorem basicHeader_setBytesNeeded (s : Processor) (n : ℕ) :
    (s.setBytesNeeded n).basicHeader = s.basicHeader := rfl

@[simp] theorem currentMsg_setBytesNeeded (s : Processor) (n : ℕ) :
    (s.setBytesNeeded n).currentMsg = s.currentMsg := rfl

@[simp] theorem bytesNeeded_setBytesNeeded (s : Processor) (n : ℕ) :
    (s.setBytesNeeded n).bytesNeeded = n := rfl

@[simp] theorem metadata_setBytesNeeded (s : Processor) (n : ℕ) (slot : Slot) :
    (s.setBytesNeeded n).metadata slot = s.metadata slot := by cases slot <;> rfl

@[simp] theorem metadata_setMetadata (s : Processor) (slot : Slot) (md : MsgMetadata) :
    (s.setMetadata slot md).metadata slot = md := by cases slot <;> rfl

/-- Bytes of the payload change the current message alone. -/
theorem processPayloadBytes_eq_ok (h : s.processPayloadBytes buf = .ok s') :
    ∃ slot md, s.currentMsg = some slot ∧
      (s.metadata slot).process s.basicHeader.getMasked buf = .ok md ∧
      s' = (s.setMetadata slot md).setBytesNeeded (s.bytesNeeded - buf.length) := by
  unfold processPayloadBytes at h
  cases hslot : s.currentMsg with
  | none =>
    rw [hslot] at h
    cases h
  | some slot =>
    rw [hslot] at h
    obtain ⟨md, hmd, h⟩ := bind_eq_ok.mp h
    exact ⟨slot, md, rfl, hmd, (Except.ok.inj h).symm⟩

/-- A header is copied as far as it is there. -/
theorem copyBasicHeaderBytes_cases (s : Processor) (buf : List Byte) :
    (buf = [] ∨ s.bytesNeeded = 0) ∧ s.copyBasicHeaderBytes buf = (s, buf) ∨
    ∃ h n rest, s.copyBasicHeaderBytes buf = ({ s with basicHeader := h, bytesNeeded := n }, rest) ∧
      n < s.bytesNeeded ∧ rest.length < buf.length := by
  unfold copyBasicHeaderBytes
  cases buf with
  | nil => exact Or.inl ⟨Or.inl rfl, rfl⟩
  | cons b rest =>
    dsimp only
    by_cases hzero : s.bytesNeeded = 0
    · rw [if_pos hzero]
      exact Or.inl ⟨Or.inr hzero, rfl⟩
    · rw [if_neg hzero]
      right
      cases rest with
      | nil =>
        dsimp only
        split_ifs
        · exact ⟨_, _, _, rfl, by omega, by simp⟩
        · exact ⟨_, _, _, rfl, by omega, by simp⟩
      | cons b' rest' =>
        dsimp only
        split_ifs
        · exact ⟨_, _, _, rfl, by omega, by simp⟩
        · exact ⟨_, _, _, rfl, by omega, by simp⟩

/-- What a pass begins with uses up bytes, where some are missing and some are there. -/
theorem fill_cases (h : s.fill buf = .ok (s', buf')) :
    s'.state = s.state ∧ s'.bytesNeeded ≤ s.bytesNeeded ∧
      ((buf = [] ∨ s.bytesNeeded = 0) ∧ buf' = buf ∨ buf'.length < buf.length ∨
        s.state = .extension ∨ s.state = .ready ∨ s.state = .fatalError) := by
  unfold fill at h
  cases hs : s.state with
  | headerBasic =>
    rw [hs] at h
    have hr := Except.ok.inj h
    rcases s.copyBasicHeaderBytes_cases buf with ⟨hnone, heq⟩ | ⟨_, n, rest, heq, hn, hlt⟩
    · rw [heq] at hr
      cases hr
      exact ⟨hs, le_rfl, Or.inl ⟨hnone, rfl⟩⟩
    · rw [heq] at hr
      cases hr
      exact ⟨hs, hn.le, Or.inr (Or.inl hlt)⟩
  | headerExtended =>
    rw [hs] at h
    dsimp only at h
    unfold copyExtendedHeaderBytes at h
    dsimp only at h
    split_ifs at h with hroom
    cases h
    refine ⟨hs, Nat.sub_le _ _, ?_⟩
    -- nothing is copied where nothing is missing, or nothing there
    by_cases hzero : min s.bytesNeeded buf.length = 0
    · left
      rw [hzero]
      refine ⟨?_, rfl⟩
      rcases Nat.min_eq_zero_iff.mp hzero with hneeded | hlen
      · exact Or.inr hneeded
      · exact Or.inl (List.length_eq_zero_iff.mp hlen)
    · right
      left
      rw [List.length_drop]
      omega
  | application =>
    rw [hs] at h
    dsimp only at h
    split_ifs at h with hpos
    · obtain ⟨s₁, hprocess, h⟩ := bind_eq_ok.mp h
      obtain ⟨slot, md, -, -, rfl⟩ := processPayloadBytes_eq_ok hprocess
      cases h
      refine ⟨(state_setMetadata s slot md).trans hs, Nat.sub_le _ _, Or.inr (Or.inl ?_)⟩
      rw [List.length_drop]
      omega
    · cases h
      refine ⟨hs, le_rfl, Or.inl ⟨?_, rfl⟩⟩
      rcases Nat.min_eq_zero_iff.mp (Nat.eq_zero_of_not_pos hpos) with hneeded | hlen
      · exact Or.inr hneeded
      · exact Or.inl (List.length_eq_zero_iff.mp hlen)
  | extension =>
    rw [hs] at h
    cases h
    exact ⟨hs, le_rfl, Or.inr (Or.inr (Or.inl rfl))⟩
  | ready =>
    rw [hs] at h
    cases h
    exact ⟨hs, le_rfl, Or.inr (Or.inr (Or.inr (Or.inl rfl)))⟩
  | fatalError =>
    rw [hs] at h
    cases h
    exact ⟨hs, le_rfl, Or.inr (Or.inr (Or.inr (Or.inr rfl)))⟩

/-- A message is finished, and nothing else is changed. -/
theorem finalizeMessage_eq_ok (h : s.finalizeMessage = .ok s') :
    s' = { s with state := .ready } ∧ ∃ slot msg, s.currentMsg = some slot ∧
      (s.metadata slot).msgPtr = some msg ∧
      (s.basicHeader.getOpcode = .text → (s.metadata slot).validator.complete = true) := by
  unfold finalizeMessage at h
  cases hslot : s.currentMsg with
  | none =>
    rw [hslot] at h
    cases h
  | some slot =>
    rw [hslot] at h
    dsimp only at h
    cases hmsg : (s.metadata slot).msgPtr with
    | none =>
      rw [hmsg] at h
      cases h
    | some msg =>
      rw [hmsg] at h
      dsimp only at h
      split_ifs at h with hincomplete
      refine ⟨(Except.ok.inj h).symm, slot, msg, rfl, hmsg, ?_⟩
      intro htext
      by_contra hcomplete
      exact hincomplete ⟨htext, by simpa using hcomplete⟩

/-- A control frame is a message of its own; a data frame begins a message or goes on
with one, if it is not too big. -/
theorem beginPayload_eq_ok (h : s.beginPayload c = .ok s') :
    (s.basicHeader.getOpcode.isControl = true ∧
      s' = { s with
        controlMsg := .new s.basicHeader.getOpcode (getMaskingKey s.basicHeader s.extendedHeader)
        currentMsg := some .control }) ∨
    (s.basicHeader.getOpcode.isControl = false ∧ s.dataMsg.msgPtr = none ∧
      s.bytesNeeded ≤ c.maxMessageSize ∧
      s' = { s with
        dataMsg := .new s.basicHeader.getOpcode (getMaskingKey s.basicHeader s.extendedHeader)
        currentMsg := some .data }) ∨
    (s.basicHeader.getOpcode.isControl = false ∧ ∃ out, s.dataMsg.msgPtr = some out ∧
      (out.payload.length + s.bytesNeeded) % 2 ^ 64 ≤ c.maxMessageSize ∧
      s' = { s with
        dataMsg := ⟨some out, prepareMaskingKey (getMaskingKey s.basicHeader s.extendedHeader),
          s.dataMsg.validator⟩
        currentMsg := some .data }) := by
  unfold beginPayload at h
  dsimp only at h
  by_cases hcontrol : s.basicHeader.getOpcode.isControl = true
  · rw [if_pos hcontrol] at h
    cases h
    exact Or.inl ⟨hcontrol, rfl⟩
  · rw [if_neg hcontrol] at h
    have hdata : s.basicHeader.getOpcode.isControl = false := by simpa using hcontrol
    right
    -- a new message, or a frame that goes on with one
    cases hmsg : s.dataMsg.msgPtr with
    | none =>
      rw [hmsg] at h
      dsimp only at h
      by_cases hbig : c.maxMessageSize < s.bytesNeeded
      · rw [if_pos hbig] at h
        cases h
      · rw [if_neg hbig] at h
        cases h
        exact Or.inl ⟨hdata, rfl, not_lt.mp hbig, rfl⟩
    | some out =>
      rw [hmsg] at h
      dsimp only at h
      by_cases hbig : c.maxMessageSize < (out.payload.length + s.bytesNeeded) % 2 ^ 64
      · rw [if_pos hbig] at h
        cases h
      · rw [if_neg hbig] at h
        cases h
        exact Or.inr ⟨hdata, out, rfl, not_lt.mp hbig, rfl⟩

theorem beginPayload_state (h : s.beginPayload c = .ok s') : s'.state = s.state := by
  rcases beginPayload_eq_ok h with ⟨-, rfl⟩ | ⟨-, -, -, rfl⟩ | ⟨-, -, -, -, rfl⟩
  · rfl
  · rfl
  · rfl

/-- Once no byte is missing, the state goes on to the next one. -/
theorem rank_advance (h : s.advance c = .ok s') (hready : s.state ≠ .ready)
    (hfatal : s.state ≠ .fatalError) (hneeded : s.bytesNeeded = 0) : s'.rank < s.rank := by
  unfold advance at h
  cases hs : s.state with
  | headerBasic =>
    rw [hs] at h
    obtain ⟨-, -, h⟩ := bind_eq_ok.mp h
    cases h
    simp only [rank, hs, hneeded, if_true]
    decide
  | headerExtended =>
    rw [hs] at h
    obtain ⟨-, -, h⟩ := bind_eq_ok.mp h
    have hstate := beginPayload_state h
    simp only [rank, hs, hstate]
    decide
  | application =>
    rw [hs] at h
    dsimp only at h
    split_ifs at h
    · obtain ⟨rfl, -⟩ := finalizeMessage_eq_ok h
      simp only [rank, hs]
      decide
    · cases h
      -- a frame that is not the last of its message
      have hreset : s.resetHeaders.rank = 0 := rfl
      rw [hreset, rank, hs]
      exact Nat.zero_lt_one
  | extension =>
    rw [hs] at h
    cases h
    simp only [rank, hs]
    decide
  | ready => exact absurd hs hready
  | fatalError => exact absurd hs hfatal

theorem rank_le (s : Processor) : s.rank ≤ 3 := by
  unfold rank
  cases s.state with
  | headerBasic =>
    dsimp only
    split_ifs
    · exact le_rfl
    · exact Nat.zero_le _
  | headerExtended | extension | application | ready | fatalError => simp

/-- **Each pass of the loop leaves less to be done.** -/
theorem work_pass (hrun : s.Runs buf) (h : s.pass c buf = .ok (s', buf')) :
    s'.work buf' < s.work buf := by
  obtain ⟨hready, hfatal, hmore⟩ := hrun
  unfold pass at h
  by_cases hextension : s.state = .extension
  · rw [if_pos hextension] at h
    obtain ⟨s₁, hadvance, h⟩ := bind_eq_ok.mp h
    cases h
    unfold advance at hadvance
    rw [hextension] at hadvance
    cases hadvance
    simp only [work, rank, hextension]
    omega
  · rw [if_neg hextension] at h
    obtain ⟨⟨s₁, rest⟩, hfill, h⟩ := bind_eq_ok.mp h
    obtain ⟨hstate, hle, hused⟩ := fill_cases hfill
    -- the other states have been left
    have hused : (buf = [] ∨ s.bytesNeeded = 0) ∧ rest = buf ∨ rest.length < buf.length := by
      rcases hused with hused | hused | hused | hused | hused
      · exact Or.inl hused
      · exact Or.inr hused
      · exact absurd hused hextension
      · exact absurd hused hready
      · exact absurd hused hfatal
    dsimp only at h
    have hrank := s₁.rank_le
    split_ifs at h with hneeded
    · cases h
      rcases hused with ⟨hnone, rfl⟩ | hlt
      · rcases hnone with hnil | hzero
        · rcases hmore with hne | hzero
          · exact absurd hnil hne
          · omega
        · omega
      · unfold work
        omega
    · obtain ⟨s₂, hadvance, h⟩ := bind_eq_ok.mp h
      cases h
      have hadvanced := rank_advance hadvance (by rwa [hstate]) (by rwa [hstate]) (by omega)
      rcases hused with ⟨hnone, rfl⟩ | hlt
      · -- nothing was missing to begin with
        have hzero : s.bytesNeeded = 0 := by
          rcases hnone with rfl | hzero
          · rcases hmore with hne | hzero
            · exact absurd rfl hne
            · exact hzero
          · exact hzero
        have hsame : s₁.rank = s.rank := by
          have hzero' : s₁.bytesNeeded = 0 := by omega
          simp only [rank, hstate, hzero, hzero']
        unfold work
        omega
      · unfold work
        omega

end Processor

/-- Uses up bytes until a message is ready, or none are left. -/
def consume (c : Config) (s : Processor) (buf : List Byte) :
    Except Fault (Processor × List Byte) :=
  if _ : s.Runs buf then
    match _ : s.pass c buf with
    | .error e => .error e
    | .ok r => consume c r.1 r.2
  else .ok (s, buf)
termination_by s.work buf
decreasing_by exact Processor.work_pass (by assumption) (by assumption)

/-- Takes the message, where one is ready. -/
def getMessage (s : Processor) : Except Fault (Option Message × Processor) :=
  if s.state ≠ .ready then .ok (none, s)
  else
    match s.currentMsg with
    | none => .error .undefined
    | some slot =>
        match (s.metadata slot).msgPtr with
        | none => .error .undefined
        | some ret =>
            let s' := s.setMetadata slot { s.metadata slot with msgPtr := none }
            let s'' :=
              if ret.opcode.isControl then
                { s' with controlMsg := { s'.controlMsg with msgPtr := none } }
              else { s' with dataMsg := { s'.dataMsg with msgPtr := none } }
            .ok (some ret, s''.resetHeaders)

namespace Processor

variable {c : Config} {s : Processor} {buf : List Byte}

theorem consume_of_runs (hrun : s.Runs buf) :
    consume c s buf = s.pass c buf >>= fun r => consume c r.1 r.2 := by
  rw [consume, dif_pos hrun]
  cases hpass : s.pass c buf with
  | error e => rfl
  | ok r => rfl

theorem consume_of_not_runs (hrun : ¬ s.Runs buf) : consume c s buf = .ok (s, buf) := by
  rw [consume, dif_neg hrun]

end Processor

end Websocketpp
end IntBlock
