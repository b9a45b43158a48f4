import IntBlock.Websocketpp.Pieces

/-!
# Delivery

What one side of a connection sends, frame by frame, is what the other side reads.

## Main definitions

* `prepareDataFrame`, `prepareControl` — the frame of a message.
* `Step` — what a frame makes of the message that has been begun, over messages alone.
* `Between` — the states between two frames.

## Main results

* `Between.reads_frame` — **a frame is read as what it was made of.**
* `messages_delivered` — so that what is sent is delivered, however the bytes arrive.
* `text_delivered_iff` — the end of a text is checked in one frame, and not in two.
* `message_size_unbounded` — the bound of a message's size can be passed.
* `whole_messages_delivered` — what is prepared as a whole may be read, but for its opcode.
-/

namespace IntBlock
namespace Websocketpp

open Endian

/-! ### Sending -/

/-- The header of a frame and its payload, which is masked unless a server sends it. -/
def prepareFrame (server : Bool) (key : BitVec 32) (op : Opcode) (fin : Bool) (payload : List Byte)
    (out : Message) : Message :=
  let masked := !server
  let e : ExtendedHeader :=
    if masked then .ofSizeKey payload.length key else .ofSize payload.length
  { out with
    payload := if masked then byteMask payload key 0 else payload
    header := prepareHeader (.ofFrame op payload.length fin masked false) e
    prepared := true
    opcode := op }

/-- `prepare_data_frame(in, out)`, where `m_rng` comes to `key`. -/
def prepareDataFrame (server : Bool) (key : BitVec 32) (input out : Message) :
    Except ErrorCode Message :=
  let op := input.opcode
  if op.isControl then .error .invalidOpcode
  else if op = .text ∧ validate input.payload = false then .error .invalidPayload
  else .ok (prepareFrame server key op input.fin input.payload out)

def prepareControl (server : Bool) (key : BitVec 32) (op : Opcode) (payload : List Byte)
    (out : Message) : Except ErrorCode Message :=
  if op.isControl = false then .error .invalidOpcode
  else if Limits.payloadSizeBasic < payload.length then .error .controlTooBig
  else .ok (prepareFrame server key op true payload out)

/-- The two buffers `write_frame` sends for a message. -/
def Message.bytes (msg : Message) : List Byte := msg.header ++ msg.payload

/-- What is sent: a message of data, or a part of one, or a control message. -/
inductive Outgoing
  | data (msg : Message)
  | control (op : Opcode) (payload : List Byte)

def Outgoing.prepare (server : Bool) (key : BitVec 32) (out : Message) :
    Outgoing → Except ErrorCode Message
  | .data msg => prepareDataFrame server key msg out
  | .control op payload => prepareControl server key op payload out

/-! ### Messages and frames -/

structure Frame where
  opcode : Opcode
  fin : Bool
  payload : List Byte

def Outgoing.frame : Outgoing → Frame
  | .data msg => ⟨msg.opcode, msg.fin, msg.payload⟩
  | .control op payload => ⟨op, true, payload⟩

/-- A message as it is delivered. -/
def received (op : Opcode) (payload : List Byte) : Message := { newMessage op with payload := payload }

/-- The opcode of a message that has been begun, and its payload so far. -/
abbrev Begun := Option (Opcode × List Byte)

/-- A data frame begins a message, or goes on with the one begun, to `op` and `payload`. -/
structure Extends (max : ℕ) (d : Begun) (f : Frame) (op : Opcode) (payload : List Byte) : Prop where
  joins : (d = none ∧ f.opcode = op ∧ (op = .text ∨ op = .binary) ∧ f.payload = payload) ∨
    ∃ got, d = some (op, got) ∧ f.opcode = .continuation ∧ got ++ f.payload = payload
  size_lt : f.payload.length < 2 ^ 64
  size_le : payload.length ≤ max
  begins : op = .text → BeginsUtf8 payload

/-- What a frame makes of the message begun: the messages that are complete, and the one
that is begun then. -/
inductive Step (max : ℕ) : Begun → Frame → List Message → Begun → Prop
  | control {d f} : f.opcode = .close ∨ f.opcode = .ping ∨ f.opcode = .pong → f.fin = true →
      f.payload.length ≤ Limits.payloadSizeBasic →
      Step max d f [received f.opcode f.payload] d
  | part {d f op payload} : Extends max d f op payload → f.fin = false →
      Step max d f [] (some (op, payload))
  | last {d f op payload} : Extends max d f op payload → f.fin = true →
      (op = .text → IsUtf8 payload) → Step max d f [received op payload] none

/-- What frames come to, one after another. -/
inductive Steps (max : ℕ) : Begun → List Frame → List Message → Begun → Prop
  | nil {d} : Steps max d [] [] d
  | cons {d f msgs d' fs msgs' d''} : Step max d f msgs d' → Steps max d' fs msgs' d'' →
      Steps max d (f :: fs) (msgs ++ msgs') d''

/-! ### The bytes of a frame -/

section Bytes

variable {server : Bool} {key : BitVec 32} {op : Opcode} {fin : Bool} {payload : List Byte}
  {out : Message}

/-- The bytes behind the first two of a header. -/
def moreBytes (masked : Bool) (key : BitVec 32) (size : ℕ) : List Byte :=
  ExtendedHeader.sizeBytes size ++ if masked then image 4 key.toNat else []

theorem length_moreBytes (masked : Bool) (key : BitVec 32) (size : ℕ) (rsv1 : Bool) :
    (moreBytes masked key size).length =
      (BasicHeader.ofFrame op size fin masked rsv1).getHeaderLen - basicHeaderLength := by
  rw [moreBytes, List.length_append, ExtendedHeader.length_sizeBytes, BasicHeader.getHeaderLen,
    getMaskingKeyOffset_ofFrame, getMasked_ofFrame, basicHeaderLength]
  cases masked with
  | false => simp
  | true =>
    simp only [if_true, length_image]
    omega

theorem bytes_prepareFrame :
    (prepareFrame server key op fin payload out).bytes =
      (BasicHeader.ofFrame op payload.length fin (!server) false).b0 ::
        (BasicHeader.ofFrame op payload.length fin (!server) false).b1 ::
          (moreBytes (!server) key payload.length ++
            if !server then byteMask payload key 0 else payload) := by
  rw [Message.bytes, prepareFrame]
  dsimp only
  rw [@prepareHeader_eq _ _ (moreBytes (!server) key payload.length)]
  · rfl
  · rw [← @length_moreBytes op fin (!server) key payload.length false, moreBytes, List.length_append,
      ExtendedHeader.length_sizeBytes]
    -- a client sends its key behind the size
    cases server with
    | false => exact ExtendedHeader.take_ofSizeKey payload.length key
    | true =>
      rw [Bool.not_true, if_neg Bool.false_ne_true, if_neg Bool.false_ne_true, List.append_nil]
      exact ExtendedHeader.take_ofSize payload.length

end Bytes

/-! ### The header of a frame is read -/

/-- **A header that was sent is valid.** -/
theorem validateIncomingBasicHeader_ofFrame {op : Opcode} {size : ℕ} {fin server newMsg : Bool}
    (hcontrol : op.isControl = true → size ≤ Limits.payloadSizeBasic ∧ fin = true)
    (hreserved : op.reserved = false) (hnew : newMsg = true → op ≠ .continuation)
    (hbegun : newMsg = false → op.isControl = false → op = .continuation) :
    validateIncomingBasicHeader (.ofFrame op size fin server false) server newMsg = none := by
  unfold validateIncomingBasicHeader
  simp only [getOpcode_ofFrame, getBasicSize_ofFrame, getRsv1_ofFrame, getRsv2_ofFrame,
    getRsv3_ofFrame, getFin_ofFrame, getMasked_ofFrame, Opcode.invalid_eq, hreserved]
  -- the goals that are left are in the order of the checks, the last one first
  rw [if_neg, if_neg (by decide), if_neg (by decide), if_neg (by decide), if_neg (by decide), if_neg,
    if_neg, if_neg, if_neg, if_neg]
  · rintro ⟨hclient, hmasked⟩
    rw [hclient] at hmasked
    cases hmasked
  · rintro ⟨hserver, hmasked⟩
    rw [hserver] at hmasked
    cases hmasked
  · rintro ⟨hold, hdata, hop⟩
    exact hop (hbegun hold hdata)
  · rintro ⟨hnew', hop⟩
    exact hnew hnew' hop
  · rintro ⟨hop, hfin⟩
    rw [(hcontrol hop).2] at hfin
    cases hfin
  · rintro ⟨hop, hlt⟩
    rw [toNat_basicValue (hcontrol hop).1] at hlt
    exact absurd (hcontrol hop).1 (not_le.mpr hlt)

theorem validateIncomingExtendedHeader_ofFrame {op : Opcode} {size : ℕ} {fin masked rsv1 : Bool}
    {e : ExtendedHeader} (hsize : getPayloadSize (.ofFrame op size fin masked rsv1) e = size) :
    validateIncomingExtendedHeader (.ofFrame op size fin masked rsv1) e = none := by
  unfold validateIncomingExtendedHeader
  dsimp only
  rw [hsize, getBasicSize_ofFrame]
  rcases basicValue_cases size with ⟨-, -, h16, h64, -⟩ | ⟨hgt, -, h16, -⟩ | ⟨hgt, h64, -⟩
  · rw [if_neg fun h => h16 h.1, if_neg fun h => h64 h.1]
  · rw [if_neg fun h => not_le.mpr hgt h.2, if_neg fun h => absurd (h16.symm.trans h.1) (by decide)]
  · rw [if_neg fun h => absurd (h64.symm.trans h.1) (by decide), if_neg fun h => not_le.mpr hgt h.2]

/-- The bytes of an extended header, copied to where they belong. -/
theorem take_copy_moreBytes {e : ExtendedHeader} {masked : Bool} {key : BitVec 32} {size : ℕ}
    (hroom : 0 + (moreBytes masked key size).length ≤ maxExtendedHeaderLength) :
    (e.copy 0 (moreBytes masked key size) hroom).bytes.take (moreBytes masked key size).length =
      moreBytes masked key size := by
  have htake := @ExtendedHeader.take_copy e 0 _ hroom
  rwa [Nat.zero_add, List.take_zero, List.nil_append] at htake

section Extended

variable {op : Opcode} {size : ℕ} {fin masked rsv1 : Bool} {key : BitVec 32} {e : ExtendedHeader}

theorem getPayloadSize_of_moreBytes (hsize : size < 2 ^ 64)
    (he : e.bytes.take (moreBytes masked key size).length = moreBytes masked key size) :
    getPayloadSize (.ofFrame op size fin masked rsv1) e = size := by
  refine getPayloadSize_of_take masked hsize ?_
  have hlen : (ExtendedHeader.sizeBytes size).length ≤ (moreBytes masked key size).length := by
    rw [moreBytes, List.length_append]
    exact Nat.le_add_right _ _
  rw [← ExtendedHeader.length_sizeBytes, ← min_eq_left hlen, ← List.take_take, he, moreBytes,
    List.take_left]

/-- The key that is read: that of the sender, or none. -/
theorem getMaskingKey_of_moreBytes
    (he : e.bytes.take (moreBytes masked key size).length = moreBytes masked key size) :
    getMaskingKey (.ofFrame op size fin masked rsv1) e = if masked then key else 0 := by
  cases masked with
  | false =>
    rw [getMaskingKey, getMasked_ofFrame]
    rfl
  | true =>
    refine getMaskingKey_of_take ?_
    rwa [moreBytes, if_pos rfl, List.length_append, ExtendedHeader.length_sizeBytes,
      length_image] at he

end Extended

namespace Processor

variable {c : Config} {s t s' : Processor} {buf rest : List Byte}

/-- A pass that has the bytes it needs. -/
theorem consume_of_fill
    (hs : s.state = .headerBasic ∨ s.state = .headerExtended ∨ s.state = .application)
    (hmore : buf ≠ [] ∨ s.bytesNeeded = 0) (hfill : s.fill buf = .ok (t, rest))
    (hneeded : t.bytesNeeded = 0) :
    consume c s buf = t.advance c >>= fun s' => consume c s' rest := by
  have hstate : s.state ≠ .ready ∧ s.state ≠ .fatalError ∧ s.state ≠ .extension := by
    rcases hs with hs | hs | hs <;> rw [hs] <;> decide
  obtain ⟨hready, hfatal, hextension⟩ := hstate
  rw [consume_of_runs ⟨hready, hfatal, hmore⟩, pass, if_neg hextension, hfill, ok_bind]
  dsimp only
  rw [if_neg (by omega)]
  cases t.advance c with
  | error e => rfl
  | ok s' => rfl

/-- The loop runs where all the bytes that are missing are there. -/
theorem ne_nil_or_eq_zero {n : ℕ} {bs : List Byte} (h : n = bs.length) (rest : List Byte) :
    bs ++ rest ≠ [] ∨ n = 0 := by
  cases bs with
  | nil => exact Or.inr h
  | cons b bs => exact Or.inl (List.cons_ne_nil _ _)

theorem fill_basicHeader (h : BasicHeader) (hs : s.state = .headerBasic) (hneeded : s.bytesNeeded = 2)
    (tail : List Byte) :
    s.fill (h.b0 :: h.b1 :: tail) = .ok ({ s with basicHeader := h, bytesNeeded := 0 }, tail) := by
  rw [fill, hs]
  dsimp only [copyBasicHeaderBytes]
  rw [if_neg (by omega), if_pos hneeded, hneeded, hs]

theorem consume_basicHeader {h : BasicHeader} (hs : s.state = .headerBasic)
    (hneeded : s.bytesNeeded = 2)
    (hvalid : validateIncomingBasicHeader h c.server s.dataMsg.msgPtr.isNone = none)
    (tail : List Byte) :
    consume c s (h.b0 :: h.b1 :: tail) =
      consume c { s with
        basicHeader := h
        state := .headerExtended
        cursor := 0
        bytesNeeded := h.getHeaderLen - basicHeaderLength } tail := by
  have hfill := fill_basicHeader h hs hneeded tail
  rw [consume_of_fill (Or.inl hs) (Or.inl (List.cons_ne_nil _ _)) hfill rfl, Processor.advance, hs]
  dsimp only
  rw [hvalid]
  rfl

/-- Nothing is read behind a basic header that is not valid. -/
theorem consume_basicHeader_refused {h : BasicHeader} {code : ErrorCode} (hs : s.state = .headerBasic)
    (hneeded : s.bytesNeeded = 2)
    (hcode : validateIncomingBasicHeader h c.server s.dataMsg.msgPtr.isNone = some code)
    (tail : List Byte) : consume c s (h.b0 :: h.b1 :: tail) = .error (.code code) := by
  have hfill := fill_basicHeader h hs hneeded tail
  rw [consume_of_fill (Or.inl hs) (Or.inl (List.cons_ne_nil _ _)) hfill rfl, Processor.advance, hs]
  dsimp only
  rw [hcode]
  rfl

theorem consume_extendedHeader {more : List Byte} (hs : s.state = .headerExtended)
    (hcursor : s.cursor = 0) (hneeded : s.bytesNeeded = more.length)
    (hroom : 0 + more.length ≤ maxExtendedHeaderLength)
    (hvalid : validateIncomingExtendedHeader s.basicHeader (s.extendedHeader.copy 0 more hroom) = none)
    (hbegin : beginPayload c { s with
      extendedHeader := s.extendedHeader.copy 0 more hroom
      cursor := more.length
      state := .application
      bytesNeeded := getPayloadSize s.basicHeader (s.extendedHeader.copy 0 more hroom) } = .ok s')
    (body : List Byte) : consume c s (more ++ body) = consume c s' body := by
  -- all that is missing of the header is there
  have hfill : s.fill (more ++ body) =
      .ok ({ s with
        extendedHeader := s.extendedHeader.copy 0 more hroom
        cursor := more.length
        bytesNeeded := 0 }, body) := by
    have hmin : min more.length (more ++ body).length = more.length := by
      rw [List.length_append]
      omega
    rw [fill, hs]
    dsimp only
    unfold copyExtendedHeaderBytes
    simp only [hneeded, hmin, List.take_left, List.drop_left, hcursor, Nat.zero_add, Nat.sub_self]
    rw [dif_pos (by rwa [Nat.zero_add] at hroom), hs]
  rw [consume_of_fill (Or.inr (Or.inl hs)) (ne_nil_or_eq_zero hneeded body) hfill rfl,
    Processor.advance, hs]
  dsimp only
  rw [hvalid]
  change beginPayload c _ >>= _ = _
  rw [hbegin]
  rfl

/-- The payload of a frame is read at once. -/
theorem consume_payload {slot : Slot} {msg : Message} {body payload : List Byte}
    (hs : s.state = .application) (hslot : s.currentMsg = some slot)
    (hsound : (s.metadata slot).Sound msg) (htakes : slot.Takes msg.opcode)
    (hsmall : slot = .control → msg.payload.length + s.bytesNeeded ≤ Limits.payloadSizeBasic)
    (hneeded : s.bytesNeeded = body.length)
    (hpayload : (MsgMetadata.unmask s.basicHeader.getMasked body
      (s.metadata slot).preparedKey).1 = payload)
    (hbegins : msg.opcode = .text → BeginsUtf8 (msg.payload ++ payload)) :
    ∃ md : MsgMetadata, md.Sound { msg with payload := msg.payload ++ payload } ∧
      consume c s body = ((s.setMetadata slot md).setBytesNeeded 0).advance c >>= fun s' =>
        consume c s' [] := by
  have hin : s.InMessage := ⟨slot, msg, hslot, hsound, htakes, hsmall⟩
  rcases hsound.process_cases s.basicHeader.getMasked body with ⟨md, hok, -, -, -, hsound'⟩ |
    ⟨-, htext, -, hnot⟩
  · rw [hpayload] at hsound'
    refine ⟨md, hsound', ?_⟩
    have hfill : s.fill body = .ok ((s.setMetadata slot md).setBytesNeeded 0, []) := by
      rw [hin.fill_eq hs, hneeded, min_self, List.take_length, List.drop_length,
        processPayloadBytes_eq hslot, hok, ok_bind, ok_bind, hneeded, Nat.sub_self]
    have hmore := ne_nil_or_eq_zero hneeded []
    rw [List.append_nil] at hmore
    exact consume_of_fill (Or.inr (Or.inr hs)) hmore hfill rfl
  · rw [hpayload] at hnot
    exact absurd (hbegins htext) hnot

end Processor

/-! ### A frame is read -/

/-- What has been masked is unmasked with the key that is read. -/
theorem unmask_byteMask (masked : Bool) (key : BitVec 32) (payload : List Byte) :
    (MsgMetadata.unmask masked (if masked then byteMask payload key 0 else payload)
      (prepareMaskingKey (if masked then key else 0))).1 = payload := by
  cases masked with
  | false => rfl
  | true =>
    obtain ⟨hbytes, -⟩ := (prepared_prepareMaskingKey key).byteMaskCirc (byteMask payload key 0)
    rw [MsgMetadata.unmask, if_pos rfl, if_pos rfl, if_pos rfl, hbytes, byteMask_eq, masked_masked]

/-- A frame belongs to the message `md` in `slot`. -/
def Processor.select (s : Processor) (slot : Slot) (md : MsgMetadata) : Processor :=
  { s.setMetadata slot md with currentMsg := some slot }

section Select

variable (s : Processor) (slot : Slot) (md : MsgMetadata)

@[simp] theorem Processor.metadata_select : (s.select slot md).metadata slot = md := by
  cases slot <;> rfl

@[simp] theorem Processor.state_select : (s.select slot md).state = s.state := by cases slot <;> rfl

@[simp] theorem Processor.basicHeader_select : (s.select slot md).basicHeader = s.basicHeader := by
  cases slot <;> rfl

@[simp] theorem Processor.bytesNeeded_select : (s.select slot md).bytesNeeded = s.bytesNeeded := by
  cases slot <;> rfl

end Select

/-- A state between two frames, where `d` has been begun. -/
structure Between (c : Config) (s : Processor) (d : Begun) : Prop where
  valid : s.Valid c
  state : s.state = .headerBasic
  bytesNeeded : s.bytesNeeded = 2
  begun : s.dataMsg.msgPtr = d.map fun m => received m.1 m.2

theorem between_init (c : Config) : Between c .init none := ⟨Processor.valid_init c, rfl, rfl, rfl⟩

/-- The frame `f` is part of the message `msg`, in the slot `slot`. -/
structure Joins (c : Config) (s : Processor) (f : Frame) (key : BitVec 32) (slot : Slot)
    (md : MsgMetadata) (msg : Message) : Prop where
  sound : md.Sound msg
  preparedKey : md.preparedKey = prepareMaskingKey key
  takes : slot.Takes msg.opcode
  small : slot = .control → msg.payload.length + f.payload.length ≤ Limits.payloadSizeBasic
  begins : msg.opcode = .text → BeginsUtf8 (msg.payload ++ f.payload)
  size_lt : f.payload.length < 2 ^ 64
  valid : validateIncomingBasicHeader (.ofFrame f.opcode f.payload.length f.fin c.server false)
    c.server s.dataMsg.msgPtr.isNone = none
  beginPayload : ∀ t : Processor, t.basicHeader.getOpcode = f.opcode →
    t.bytesNeeded = f.payload.length → t.dataMsg = s.dataMsg →
    getMaskingKey t.basicHeader t.extendedHeader = key →
    t.beginPayload c = .ok (t.select slot md)

section Frames

variable {c : Config} {s : Processor} {d : Begun} {f : Frame} {key : BitVec 32} {slot : Slot}
  {md : MsgMetadata} {msg : Message} {out : Message}

theorem Between.resting (h : Between c s d) : Resting c s := by
  refine ⟨h.valid, ?_, ?_⟩
  · rw [h.state]
    decide
  · rw [h.bytesNeeded]
    exact Nat.zero_lt_two

/-- The state behind the header of a frame, before a slot has been chosen, and after. -/
theorem Between.consume_header (h : Between c s d) {op : Opcode} {fin : Bool} {size : ℕ}
    (hlt : size < 2 ^ 64)
    (hvalid : validateIncomingBasicHeader (.ofFrame op size fin c.server false) c.server
      s.dataMsg.msgPtr.isNone = none)
    (hbegin : ∀ t : Processor, t.basicHeader.getOpcode = op → t.bytesNeeded = size →
      t.dataMsg = s.dataMsg →
      getMaskingKey t.basicHeader t.extendedHeader = (if c.server then key else 0) →
      t.beginPayload c = .ok (t.select slot md)) (body : List Byte) :
    ∃ t : Processor, t.state = .application ∧ t.bytesNeeded = size ∧ t.dataMsg = s.dataMsg ∧
      t.basicHeader = .ofFrame op size fin c.server false ∧
      consume c s ((BasicHeader.ofFrame op size fin c.server false).b0 ::
        (BasicHeader.ofFrame op size fin c.server false).b1 ::
          (moreBytes c.server key size ++ body)) = consume c (t.select slot md) body := by
  rw [Processor.consume_basicHeader h.state h.bytesNeeded hvalid]
  have hlen := @length_moreBytes op fin c.server key size false
  have hroom : 0 + (moreBytes c.server key size).length ≤ maxExtendedHeaderLength := by
    rw [Nat.zero_add, hlen]
    exact Processor.getHeaderLen_le _
  have htake := @take_copy_moreBytes s.extendedHeader c.server key size hroom
  have hsize := @getPayloadSize_of_moreBytes op size fin c.server false key _ hlt htake
  have hkey := @getMaskingKey_of_moreBytes op size fin c.server false key _ htake
  -- the state once the header is complete
  let t : Processor := { s with
    basicHeader := .ofFrame op size fin c.server false
    extendedHeader := s.extendedHeader.copy 0 (moreBytes c.server key size) hroom
    cursor := (moreBytes c.server key size).length
    state := .application
    bytesNeeded := size }
  have hselect : t.beginPayload c = .ok (t.select slot md) :=
    hbegin t (getOpcode_ofFrame _ _ _ _ _) rfl rfl hkey
  have hconsume := @Processor.consume_extendedHeader c { s with
    basicHeader := .ofFrame op size fin c.server false
    state := .headerExtended
    cursor := 0
    bytesNeeded := (BasicHeader.ofFrame op size fin c.server false).getHeaderLen -
      basicHeaderLength } (t.select slot md) _ rfl rfl hlen.symm hroom
    (validateIncomingExtendedHeader_ofFrame hsize) (by
      dsimp only
      rw [hsize]
      exact hselect)
  exact ⟨t, rfl, rfl, rfl, rfl, hconsume body⟩

/-- The state after the payload of a frame, and what becomes of it. -/
theorem Between.consume_frame (h : Between c s d)
    (hjoins : Joins c s f (if c.server then key else 0) slot md msg) :
    ∃ t : Processor, t.state = .application ∧ t.currentMsg = some slot ∧
      (t.metadata slot).Sound { msg with payload := msg.payload ++ f.payload } ∧
      (slot = .control → t.dataMsg = s.dataMsg) ∧
      t.basicHeader = .ofFrame f.opcode f.payload.length f.fin c.server false ∧
      consume c s (prepareFrame (!c.server) key f.opcode f.fin f.payload out).bytes =
        t.advance c >>= fun s' => consume c s' [] := by
  rw [bytes_prepareFrame, Bool.not_not]
  obtain ⟨t, hstate, hneeded, hdata, hheader, hconsume⟩ := h.consume_header hjoins.size_lt hjoins.valid
    hjoins.beginPayload (if c.server then byteMask f.payload key 0 else f.payload)
  rw [hconsume]
  have hbody : (if c.server then byteMask f.payload key 0 else f.payload).length = f.payload.length := by
    split_ifs
    · rw [byteMask_eq, length_masked]
    · rfl
  -- the key in the header is the one of the mask
  have hunmask := unmask_byteMask c.server key f.payload
  rw [← hjoins.preparedKey] at hunmask
  obtain ⟨md', hsound, hpayload⟩ := @Processor.consume_payload c (t.select slot md) slot msg
    (if c.server then byteMask f.payload key 0 else f.payload) f.payload
    (by rw [Processor.state_select, hstate]) rfl (by simpa using hjoins.sound) hjoins.takes
    (by
      intro hcontrol
      rw [Processor.bytesNeeded_select, hneeded]
      exact hjoins.small hcontrol)
    (by rw [Processor.bytesNeeded_select, hneeded, hbody])
    (by
      rw [Processor.metadata_select, Processor.basicHeader_select, hheader, getMasked_ofFrame]
      exact hunmask)
    hjoins.begins
  refine ⟨((t.select slot md).setMetadata slot md').setBytesNeeded 0, ?_, ?_, ?_, ?_, ?_, hpayload⟩
  · simpa using hstate
  · simp [Processor.select]
  · simpa using hsound
  · rintro rfl
    exact hdata
  · simpa using hheader

/-- The last frame of a message is read as the message. -/
theorem Between.reads_last (h : Between c s d)
    (hjoins : Joins c s f (if c.server then key else 0) slot md msg) (hfin : f.fin = true)
    (hutf8 : f.opcode = .text → msg.opcode = .text ∧ IsUtf8 (msg.payload ++ f.payload)) :
    ∃ s', Reader.Reads (read c) s
        (prepareFrame (!c.server) key f.opcode f.fin f.payload out).bytes
        [{ msg with payload := msg.payload ++ f.payload }] (.ok s') ∧
      Between c s' (if slot = .control then d else none) := by
  obtain ⟨t, hstate, hslot, hsound, hdata, hheader, hconsume⟩ :=
    @h.consume_frame _ _ _ _ _ _ _ _ out hjoins
  have hadvance : t.advance c = .ok { t with state := .ready } := by
    rw [Processor.advance, hstate]
    dsimp only
    rw [if_pos (by rw [hheader, getFin_ofFrame, hfin]), Processor.finalizeMessage, hslot]
    dsimp only
    rw [hsound.msgPtr_eq]
    dsimp only
    rw [if_neg]
    -- only a text whose last frame is its first is asked for its end
    rintro ⟨htext, hincomplete⟩
    rw [hheader, getOpcode_ofFrame] at htext
    obtain ⟨hop, hall⟩ := hutf8 htext
    rw [(hsound.follows hop).complete_iff.mpr hall] at hincomplete
    cases hincomplete
  have hstop := @Processor.consume_of_not_runs c { t with state := .ready } [] fun hrun => hrun.1 rfl
  have hok := hconsume
  rw [hadvance, ok_bind, hstop] at hok
  rcases h.valid.consume_sound (prepareFrame (!c.server) key f.opcode f.fin f.payload out).bytes with
    ⟨ec, herror⟩ | ⟨t', rest, hok', hvalid, -⟩
  · cases hok.symm.trans herror
  · cases hok.symm.trans hok'
    obtain ⟨slot', msg', hslot', hmsg', -, hget, hresting⟩ := getMessage_of_ready hvalid rfl
    obtain rfl : slot = slot' := Option.some.inj (hslot.symm.trans hslot')
    have hread {s'' : Processor}
        (hs'' : getMessage { t with state := .ready } = .ok (some msg', s'')) :
        read c s (prepareFrame (!c.server) key f.opcode f.fin f.payload out).bytes =
          .item msg' s'' [] := by
      rw [read, hok]
      dsimp only
      rw [hs'']
    cases slot with
    | data =>
      obtain rfl := Option.some.inj (hsound.msgPtr_eq.symm.trans hmsg')
      exact ⟨_, .item (hread hget) ((streaming_read c).reads_nil hresting), hresting.valid,
        rfl, rfl, rfl⟩
    | control =>
      obtain rfl := Option.some.inj (hsound.msgPtr_eq.symm.trans hmsg')
      refine ⟨_, .item (hread hget) ((streaming_read c).reads_nil hresting), hresting.valid,
        rfl, rfl, ?_⟩
      rw [if_pos rfl, ← h.begun, ← hdata rfl]
      rfl

/-- Another frame of a message is read as nothing yet. -/
theorem Between.reads_part (h : Between c s d)
    (hjoins : Joins c s f (if c.server then key else 0) .data md msg) (hfin : f.fin = false) :
    ∃ s', Reader.Reads (read c) s
        (prepareFrame (!c.server) key f.opcode f.fin f.payload out).bytes [] (.ok s') ∧
      s'.Valid c ∧ s'.state = .headerBasic ∧ s'.bytesNeeded = 2 ∧
      s'.dataMsg.msgPtr = some { msg with payload := msg.payload ++ f.payload } := by
  obtain ⟨t, hstate, -, hsound, -, hheader, hconsume⟩ := @h.consume_frame _ _ _ _ _ _ _ _ out hjoins
  have hadvance : t.advance c = .ok t.resetHeaders := by
    rw [Processor.advance, hstate]
    dsimp only
    rw [if_neg]
    rw [hheader, getFin_ofFrame, hfin]
    exact Bool.false_ne_true
  have hok := hconsume
  rw [hadvance, ok_bind, Processor.consume_nil (by exact Nat.zero_lt_two)] at hok
  rcases h.valid.consume_sound (prepareFrame (!c.server) key f.opcode f.fin f.payload out).bytes with
    ⟨ec, herror⟩ | ⟨t', rest, hok', hvalid, -⟩
  · cases hok.symm.trans herror
  · cases hok.symm.trans hok'
    have hread : read c s (prepareFrame (!c.server) key f.opcode f.fin f.payload out).bytes =
        .more t.resetHeaders := by
      rw [read, hok]
      dsimp only
      rw [getMessage_of_ne_ready (by simp [Processor.resetHeaders])]
    exact ⟨_, .more hread, hvalid, rfl, rfl, hsound.msgPtr_eq⟩

/-- A text in one frame that breaks off within a character is refused. -/
theorem Between.reads_unfinished (h : Between c s d)
    (hjoins : Joins c s f (if c.server then key else 0) slot md msg) (hfin : f.fin = true)
    (htext : f.opcode = .text) (hop : msg.opcode = .text)
    (hutf8 : ¬ IsUtf8 (msg.payload ++ f.payload)) :
    Reader.Reads (read c) s (prepareFrame (!c.server) key f.opcode f.fin f.payload out).bytes []
      (.error (.code .invalidUtf8)) := by
  obtain ⟨t, hstate, hslot, hsound, -, hheader, hconsume⟩ :=
    @h.consume_frame _ _ _ _ _ _ _ _ out hjoins
  have hincomplete : (t.metadata slot).validator.complete = false := by
    by_contra hcomplete
    exact hutf8 ((hsound.follows hop).complete_iff.mp (by simpa using hcomplete))
  have hadvance : t.advance c = .error (.code .invalidUtf8) := by
    rw [Processor.advance, hstate]
    dsimp only
    rw [if_pos (by rw [hheader, getFin_ofFrame, hfin]), Processor.finalizeMessage, hslot]
    dsimp only
    rw [hsound.msgPtr_eq]
    dsimp only
    rw [if_pos ⟨by rw [hheader, getOpcode_ofFrame, htext], hincomplete⟩]
  rw [hadvance, error_bind] at hconsume
  refine .fail ?_
  rw [read, hconsume]

/-! ### Which message a frame belongs to -/

theorem joins_control (s : Processor) (hop : f.opcode = .close ∨ f.opcode = .ping ∨ f.opcode = .pong)
    (hfin : f.fin = true) (hsize : f.payload.length ≤ Limits.payloadSizeBasic) (key : BitVec 32) :
    Joins c s f key .control (.new f.opcode key) (newMessage f.opcode) := by
  have hcontrol : f.opcode.isControl = true := by rcases hop with h | h | h <;> rw [h] <;> rfl
  have htext : f.opcode ≠ .text := by rcases hop with h | h | h <;> rw [h] <;> decide
  refine ⟨MsgMetadata.sound_new _ _, rfl, hop, ?_, fun h => absurd h htext, ?_, ?_, ?_⟩
  · intro _
    simpa [newMessage] using hsize
  · unfold Limits.payloadSizeBasic at hsize
    omega
  · refine validateIncomingBasicHeader_ofFrame (fun _ => ⟨hsize, hfin⟩) ?_ ?_ ?_
    · rcases hop with h | h | h <;> rw [h] <;> rfl
    · intro _ hcontinuation
      rw [hcontinuation] at hcontrol
      cases hcontrol
    · intro _ hdata
      rw [hcontrol] at hdata
      cases hdata
  · intro t hopcode _ _ hkey
    rw [Processor.beginPayload, hopcode, hkey, if_pos hcontrol]
    rfl

theorem joins_first (h : Between c s none) (hop : f.opcode = .text ∨ f.opcode = .binary)
    (hlt : f.payload.length < 2 ^ 64) (hsize : f.payload.length ≤ c.maxMessageSize)
    (hbegins : f.opcode = .text → BeginsUtf8 f.payload) (key : BitVec 32) :
    Joins c s f key .data (.new f.opcode key) (newMessage f.opcode) := by
  have hdata : f.opcode.isControl = false := by rcases hop with h | h <;> rw [h] <;> rfl
  refine ⟨MsgMetadata.sound_new _ _, rfl, hop, fun h => absurd h (by decide), hbegins, hlt, ?_, ?_⟩
  · refine validateIncomingBasicHeader_ofFrame ?_ ?_ ?_ ?_
    · intro hcontrol
      rw [hdata] at hcontrol
      cases hcontrol
    · rcases hop with h | h <;> rw [h] <;> rfl
    · intro _
      rcases hop with h | h <;> rw [h] <;> decide
    · intro hold
      rw [h.begun] at hold
      cases hold
  · intro t hopcode hneeded hmsg hkey
    rw [Processor.beginPayload, hopcode, hkey, hdata, if_neg Bool.false_ne_true, hmsg, h.begun]
    dsimp only [Option.map_none]
    rw [if_neg (by omega)]
    rfl

theorem joins_continuation {op : Opcode} {got : List Byte} (h : Between c s (some (op, got)))
    (hop : f.opcode = .continuation) (hlt : f.payload.length < 2 ^ 64)
    (hsize : (got ++ f.payload).length ≤ c.maxMessageSize)
    (hbegins : op = .text → BeginsUtf8 (got ++ f.payload)) (key : BitVec 32) :
    Joins c s f key .data ⟨some (received op got), prepareMaskingKey key, s.dataMsg.validator⟩
      (received op got) := by
  obtain ⟨hsound, htakes⟩ := h.valid.data _ h.begun
  refine ⟨⟨rfl, ⟨key, 0, prepared_prepareMaskingKey key⟩, hsound.follows⟩, rfl, htakes,
    fun h => absurd h (by decide), hbegins, hlt, ?_, ?_⟩
  · rw [hop]
    refine validateIncomingBasicHeader_ofFrame (fun hcontrol => ?_) rfl ?_ fun _ _ => rfl
    · cases hcontrol
    · intro hnew
      rw [h.begun] at hnew
      cases hnew
  · intro t hopcode hneeded hmsg hkey
    rw [Processor.beginPayload, hopcode, hop, hkey, hmsg, h.begun]
    dsimp only [Option.map_some]
    rw [if_neg (by decide), if_neg]
    · rw [h.begun]
      rfl
    · have hlen : (received op got).payload.length + t.bytesNeeded ≤ c.maxMessageSize := by
        rw [hneeded]
        simpa [received] using hsize
      exact not_lt.mpr ((Nat.mod_le _ _).trans hlen)

/-- A data frame is part of the message that it extends. -/
theorem Extends.exists_joins {op : Opcode} {payload : List Byte}
    (h : Extends c.maxMessageSize d f op payload) (hbetween : Between c s d) (key : BitVec 32) :
    ∃ md msg, Joins c s f key .data md msg ∧
      { msg with payload := msg.payload ++ f.payload } = received op payload ∧
      (f.opcode = .text → msg.opcode = .text) := by
  rcases h.joins with ⟨rfl, hop, hdata, hpayload⟩ | ⟨got, rfl, hop, rfl⟩
  · -- the first frame of a message
    refine ⟨_, _, joins_first hbetween (hop ▸ hdata) h.size_lt ?_ ?_ key, ?_, id⟩
    · exact hpayload ▸ h.size_le
    · intro htext
      rw [hpayload]
      exact h.begins (hop.symm.trans htext)
    · rw [hop, hpayload]
      rfl
  · -- a frame that goes on with one
    refine ⟨_, _, joins_continuation hbetween hop h.size_lt h.size_le h.begins key, rfl, ?_⟩
    intro htext
    cases hop.symm.trans htext

/-- **A frame is read as what it is made of.** -/
theorem Between.reads_frame (h : Between c s d) {msgs : List Message} {d' : Begun}
    (hstep : Step c.maxMessageSize d f msgs d') (key : BitVec 32) (out : Message) :
    ∃ s', Reader.Reads (read c) s
        (prepareFrame (!c.server) key f.opcode f.fin f.payload out).bytes msgs (.ok s') ∧
      Between c s' d' := by
  cases hstep with
  | control hop hfin hsize =>
    have hjoins := @joins_control c f s hop hfin hsize (if c.server then key else 0)
    refine h.reads_last hjoins hfin fun htext => ?_
    rcases hop with hop | hop | hop <;> cases hop.symm.trans htext
  | part hextends hfin =>
    obtain ⟨md, msg, hjoins, hmsg, -⟩ := hextends.exists_joins h (if c.server then key else 0)
    obtain ⟨s', hreads, hvalid, hstate, hneeded, hbegun⟩ := @h.reads_part _ _ _ _ _ _ _ out hjoins hfin
    rw [hmsg] at hbegun
    exact ⟨s', hreads, hvalid, hstate, hneeded, hbegun⟩
  | last hextends hfin hutf8 =>
    obtain ⟨md, msg, hjoins, hmsg, htext⟩ := hextends.exists_joins h (if c.server then key else 0)
    rw [← hmsg]
    refine h.reads_last hjoins hfin fun hop => ⟨htext hop, ?_⟩
    have hreceived := congrArg Message.opcode hmsg
    have hpayload := congrArg Message.payload hmsg
    dsimp only [received] at hpayload
    rw [hpayload]
    exact hutf8 (hreceived.symm.trans (htext hop))

end Frames

/-! ### What is sent is delivered -/

/-- What has been prepared is the frame of what was to be sent. -/
theorem Outgoing.prepare_eq_ok {server : Bool} {key : BitVec 32} {out out' : Message} {o : Outgoing}
    (h : o.prepare server key out = .ok out') :
    out' = prepareFrame server key o.frame.opcode o.frame.fin o.frame.payload out := by
  cases o with
  | data msg =>
    unfold Outgoing.prepare prepareDataFrame at h
    dsimp only at h
    split_ifs at h
    exact (Except.ok.inj h).symm
  | control op payload =>
    unfold Outgoing.prepare prepareControl at h
    dsimp only at h
    split_ifs at h
    exact (Except.ok.inj h).symm

/-- One side has prepared what it sends, with keys of its own. -/
def Prepares (server : Bool) (sent : List Outgoing) (outs : List Message) : Prop :=
  List.Forall₂ (fun o out' => ∃ key out, o.prepare server key out = .ok out') sent outs

theorem Between.reads_sent {c : Config} {s : Processor} {d d' : Begun} {sent : List Outgoing}
    {outs msgs : List Message} (h : Between c s d) (hprepares : Prepares (!c.server) sent outs)
    (hsteps : Steps c.maxMessageSize d (sent.map Outgoing.frame) msgs d') :
    ∃ s', Reader.Reads (read c) s (outs.map Message.bytes).flatten msgs (.ok s') ∧
      Between c s' d' := by
  induction hprepares generalizing s d msgs with
  | nil =>
    cases hsteps
    exact ⟨s, (streaming_read c).reads_nil h.resting, h⟩
  | cons hprepare _ ih =>
    obtain ⟨key, out, hprepare⟩ := hprepare
    cases hsteps with
    | cons hstep hrest =>
      obtain ⟨s₁, hreads, hbetween⟩ := h.reads_frame hstep key out
      obtain ⟨s₂, hreads', hbetween'⟩ := ih hbetween hrest
      rw [Outgoing.prepare_eq_ok hprepare, List.map_cons, List.flatten_cons]
      exact ⟨s₂, (streaming_read c).reads_append h.resting hreads hreads', hbetween'⟩

/-- What has been read between two frames is all that was to be read. -/
theorem readsChunks_iff {c : Config} {bytes : List Byte} {msgs : List Message}
    {r : Except Fault Processor} (hreads : Reader.Reads (read c) .init bytes msgs r)
    {chunks : List (List Byte)} (hchunks : chunks.flatten = bytes) (msgs' : List Message)
    (r' : Except Fault Processor) :
    Reader.ReadsChunks (read c) .init chunks msgs' r' ↔ msgs' = msgs ∧ r' = r := by
  rw [(streaming_read c).readsChunks_iff (resting_init c), hchunks]
  constructor
  · exact fun hreads' => hreads'.unique hreads
  · rintro ⟨rfl, rfl⟩
    exact hreads

/-- **What one side sends is delivered to the other**, however the bytes arrive: the
messages, whole or in frames with control messages between them, once each and in order. -/
theorem messages_delivered (c : Config) {sent : List Outgoing} {outs msgs : List Message}
    {d : Begun} (hprepares : Prepares (!c.server) sent outs)
    (hsteps : Steps c.maxMessageSize none (sent.map Outgoing.frame) msgs d)
    {chunks : List (List Byte)} (hchunks : chunks.flatten = (outs.map Message.bytes).flatten) :
    ∃ s, Between c s d ∧ ∀ msgs' r,
      Reader.ReadsChunks (read c) .init chunks msgs' r ↔ msgs' = msgs ∧ r = .ok s := by
  obtain ⟨s, hreads, hbetween⟩ := (between_init c).reads_sent hprepares hsteps
  exact ⟨s, hbetween, readsChunks_iff hreads hchunks⟩

/-- A client sends a message in two frames and a ping between them. -/
theorem messages_delivered_ping :
    ∃ s, Between ⟨true, 125⟩ s none ∧ ∀ msgs r, Reader.ReadsChunks (read ⟨true, 125⟩) .init
      ([prepareFrame false 0x04030201 .binary false [1] (newMessage .continuation),
        prepareFrame false 0x08070605 .ping true [7] (newMessage .continuation),
        prepareFrame false 0x0C0B0A09 .continuation true [2] (newMessage .continuation)].map
          Message.bytes) msgs r ↔
      msgs = [received .ping [7], received .binary [1, 2]] ∧ r = .ok s := by
  refine @messages_delivered ⟨true, 125⟩
    [.data { newMessage .binary with payload := [1], fin := false }, .control .ping [7],
      .data { newMessage .continuation with payload := [2] }] _ _ none ?_ ?_ _ rfl
  · exact .cons ⟨_, _, rfl⟩ (.cons ⟨_, _, rfl⟩ (.cons ⟨_, _, rfl⟩ .nil))
  · have hfirst : Extends 125 none ⟨.binary, false, [1]⟩ .binary [1] :=
      ⟨Or.inl ⟨rfl, rfl, Or.inr rfl, rfl⟩, by norm_num, by decide, fun h => by cases h⟩
    have hlast : Extends 125 (some (.binary, [1])) ⟨.continuation, true, [2]⟩ .binary [1, 2] :=
      ⟨Or.inr ⟨[1], rfl, rfl, rfl⟩, by norm_num, by decide, fun h => by cases h⟩
    exact .cons (.part hfirst rfl) (.cons (.control (Or.inr (Or.inl rfl)) rfl (by decide))
      (.cons (.last hlast rfl fun h => by cases h) .nil))

/-! ### Texts -/

theorem BeginsUtf8.of_append {bs bs' : List Byte} (h : BeginsUtf8 (bs ++ bs')) : BeginsUtf8 bs := by
  intro hnone
  apply h
  rw [codes_append, Utf8.run_append, hnone, Utf8.run_none]

/-- A text that is delivered begins one in UTF-8. -/
theorem begins_of_reads {c : Config} {bytes payload : List Byte} {s : Processor}
    (hreads : Reader.Reads (read c) .init bytes [received .text payload] (.ok s)) :
    BeginsUtf8 payload := by
  obtain ⟨hdeliverable, -⟩ := deliverable_of_reads (resting_init c) hreads
  obtain ⟨-, -, hbegins, -⟩ := hdeliverable _ (List.mem_singleton_self _)
  exact hbegins rfl

/-- **A text in one frame is delivered if it is UTF-8; a text in two frames already if it
begins one.**  Its end is checked where the last frame has the opcode of a text, and a frame
that goes on with a message has another one. -/
theorem text_delivered_iff (c : Config) {first rest : List Byte}
    (hlt : (first ++ rest).length < 2 ^ 64) (hle : (first ++ rest).length ≤ c.maxMessageSize)
    (key key' : BitVec 32) (out out' : Message) :
    ((∃ s, Reader.Reads (read c) .init
        (prepareFrame (!c.server) key .text true (first ++ rest) out).bytes
        [received .text (first ++ rest)] (.ok s)) ↔ IsUtf8 (first ++ rest)) ∧
      ((∃ s, Reader.Reads (read c) .init
        ((prepareFrame (!c.server) key .text false first out).bytes ++
          (prepareFrame (!c.server) key' .continuation true rest out').bytes)
        [received .text (first ++ rest)] (.ok s)) ↔ BeginsUtf8 (first ++ rest)) := by
  have hlen : first.length ≤ (first ++ rest).length ∧ rest.length ≤ (first ++ rest).length := by
    rw [List.length_append]
    omega
  refine ⟨⟨?_, ?_⟩, ?_, ?_⟩
  · rintro ⟨s, hreads⟩
    by_contra hutf8
    have hjoins := @joins_first c .init ⟨.text, true, first ++ rest⟩ (between_init c) (Or.inl rfl) hlt
      hle (fun _ => begins_of_reads hreads) (if c.server then key else 0)
    have hfail := @(between_init c).reads_unfinished _ _ _ _ _ _ _ _ out hjoins rfl rfl rfl hutf8
    cases (hreads.unique hfail).1
  · intro hutf8
    have hstep : Step c.maxMessageSize none ⟨.text, true, first ++ rest⟩
        [received .text (first ++ rest)] none :=
      .last ⟨Or.inl ⟨rfl, rfl, Or.inl rfl, rfl⟩, hlt, hle, fun _ => hutf8.begins⟩ rfl fun _ => hutf8
    obtain ⟨s, hreads, -⟩ := (between_init c).reads_frame hstep key out
    exact ⟨s, hreads⟩
  · rintro ⟨s, hreads⟩
    exact begins_of_reads hreads
  · intro hbegins
    have hpart : Step c.maxMessageSize none ⟨.text, false, first⟩ [] (some (.text, first)) :=
      .part ⟨Or.inl ⟨rfl, rfl, Or.inl rfl, rfl⟩, hlen.1.trans_lt hlt, hlen.1.trans hle,
        fun _ => hbegins.of_append⟩ rfl
    obtain ⟨s₁, hreads₁, hbetween⟩ := (between_init c).reads_frame hpart key out
    have hjoins := @joins_continuation c s₁ ⟨.continuation, true, rest⟩ _ _ hbetween rfl
      (hlen.2.trans_lt hlt) hle (fun _ => hbegins) (if c.server then key' else 0)
    -- the last frame is not one of text, and nothing is asked of the end
    obtain ⟨s₂, hreads₂, -⟩ := @hbetween.reads_last _ _ _ _ _ _ _ _ out' hjoins rfl fun htext => by
      cases htext
    exact ⟨s₂, (streaming_read c).reads_append (resting_init c) hreads₁ hreads₂⟩

/-- One byte of two that a character takes, in a text of two frames: it is delivered. -/
theorem text_delivered_iff_unfinished :
    (∃ s, Reader.Reads (read ⟨false, 125⟩) .init
      ((prepareFrame true 0 .text false [0x61] (newMessage .continuation)).bytes ++
        (prepareFrame true 0 .continuation true [0xC3] (newMessage .continuation)).bytes)
      [received .text [0x61, 0xC3]] (.ok s)) ∧ ¬ IsUtf8 [0x61, 0xC3] := by
  obtain ⟨-, htwo⟩ := @text_delivered_iff ⟨false, 125⟩ [0x61] [0xC3] (by norm_num) (by decide) 0 0
    (newMessage .continuation) (newMessage .continuation)
  have hbegins : BeginsUtf8 [0x61, 0xC3] := by
    unfold BeginsUtf8
    decide
  refine ⟨htwo.mpr hbegins, ?_⟩
  rw [← validate_iff]
  decide

/-! ### Sizes -/

/-- A part of a payload that is not one of a text is read, and more is waited for. -/
theorem Processor.consume_part {c : Config} {s : Processor} {msg : Message} {body : List Byte}
    (hs : s.state = .application) (hslot : s.currentMsg = some .data)
    (hsound : s.dataMsg.Sound msg) (hop : msg.opcode = .binary) (hbody : body ≠ [])
    (hlt : body.length < s.bytesNeeded) :
    ∃ s' msg', consume c s body = .ok (s', []) ∧ s'.state = .application ∧
      s'.dataMsg.msgPtr = some msg' ∧
      msg'.payload.length = msg.payload.length + body.length := by
  have hin : s.InMessage := ⟨.data, msg, hslot, hsound, Or.inr hop, fun h => by cases h⟩
  rcases hsound.process_cases s.basicHeader.getMasked body with ⟨md, hok, -, -, -, hsound'⟩ |
    ⟨-, htext, -, -⟩
  · have hfill : s.fill body =
        .ok ((s.setMetadata .data md).setBytesNeeded (s.bytesNeeded - body.length), []) := by
      rw [hin.fill_eq hs, min_eq_right hlt.le, List.take_length, List.drop_length,
        processPayloadBytes_eq hslot]
      change (s.dataMsg.process s.basicHeader.getMasked body >>= _) >>= _ = _
      rw [hok]
      rfl
    have hrun : s.Runs body := by
      refine ⟨?_, ?_, Or.inl hbody⟩
      · rw [hs]
        decide
      · rw [hs]
        decide
    -- there is more of the payload to come, and the frame is not finished
    have hpass : s.pass c body =
        .ok ((s.setMetadata .data md).setBytesNeeded (s.bytesNeeded - body.length), []) := by
      rw [pass, if_neg (by rw [hs]; decide), hfill, ok_bind]
      dsimp only
      rw [if_pos (by rw [bytesNeeded_setBytesNeeded]; omega)]
      rfl
    refine ⟨(s.setMetadata .data md).setBytesNeeded (s.bytesNeeded - body.length), _, ?_, ?_,
      hsound'.msgPtr_eq, ?_⟩
    · rw [consume_of_runs hrun, hpass, ok_bind]
      exact consume_nil (by rw [bytesNeeded_setBytesNeeded]; omega)
    · exact hs
    · cases s.basicHeader.getMasked with
      | false => simp [MsgMetadata.unmask]
      | true => simp [MsgMetadata.unmask, byteMaskCirc]
  · cases hop.symm.trans htext

/-- **The size of a message is not bounded** by the one that is configured: what is compared
with it is a sum of 64 bits, and a frame that goes on with a message may make it small.
A string has at most `2 ^ 62 - 1` characters. -/
theorem message_size_unbounded (c : Config) (hmax : 1 ≤ c.maxMessageSize) {n : ℕ} (hn : 0 < n)
    (hlt : n < 2 ^ 62 - 1) :
    ∃ bytes s msg, Reader.Reads (read c) .init bytes [] (.ok s) ∧ s.dataMsg.msgPtr = some msg ∧
      msg.payload.length = 1 + n := by
  have hpart : Step c.maxMessageSize none ⟨.binary, false, [0]⟩ [] (some (.binary, [0])) :=
    .part ⟨Or.inl ⟨rfl, rfl, Or.inr rfl, rfl⟩, by norm_num, hmax, fun h => by cases h⟩ rfl
  obtain ⟨s, hreads, hbetween⟩ := (between_init c).reads_frame hpart 0 (newMessage .continuation)
  obtain ⟨hsound, -⟩ := hbetween.valid.data _ hbetween.begun
  have hvalid : validateIncomingBasicHeader
      (.ofFrame .continuation (2 ^ 64 - 1) true c.server false) c.server
      s.dataMsg.msgPtr.isNone = none := by
    refine validateIncomingBasicHeader_ofFrame (fun hcontrol => ?_) rfl (fun hnew => ?_) fun _ _ => rfl
    · cases hcontrol
    · rw [hbetween.begun] at hnew
      cases hnew
  have hsound' : MsgMetadata.Sound ⟨some (received .binary [0]),
      prepareMaskingKey 0, s.dataMsg.validator⟩ (received .binary [0]) :=
    ⟨rfl, ⟨_, 0, prepared_prepareMaskingKey _⟩, hsound.follows⟩
  obtain ⟨t, hstate, hneeded, -, -, hconsume⟩ := @hbetween.consume_header _ _ _ 0 .data
    ⟨some (received .binary [0]), prepareMaskingKey 0, s.dataMsg.validator⟩
    _ _ _ (by norm_num) hvalid
    (by
      intro t hop hneeded hmsg hkey
      rw [ite_self] at hkey
      rw [Processor.beginPayload, hop, hkey, hmsg, hbetween.begun]
      dsimp only [Option.map_some]
      -- the sum is 2 ^ 64, and nothing is left of it
      rw [if_neg (by decide), if_neg (by rw [hneeded]; simp [received])]
      rw [hbetween.begun]
      rfl)
    (List.replicate n 0)
  obtain ⟨s', msg', htaken, hstate', hmsg', hsize⟩ := @Processor.consume_part c (t.select .data
    ⟨some (received .binary [0]), prepareMaskingKey 0, s.dataMsg.validator⟩)
    (received .binary [0]) (List.replicate n 0) (by rw [Processor.state_select, hstate]) rfl hsound' rfl
    (by simpa using hn.ne') (by rw [Processor.bytesNeeded_select, hneeded, List.length_replicate]; omega)
  rw [htaken] at hconsume
  have hread : read c s ((BasicHeader.ofFrame .continuation (2 ^ 64 - 1) true c.server false).b0 ::
      (BasicHeader.ofFrame .continuation (2 ^ 64 - 1) true c.server false).b1 ::
        (moreBytes c.server 0 (2 ^ 64 - 1) ++ List.replicate n 0)) = .more s' := by
    rw [read, hconsume]
    dsimp only
    rw [getMessage_of_ne_ready (by rw [hstate']; decide)]
  refine ⟨_, s', msg', (streaming_read c).reads_append (resting_init c) hreads (.more hread), hmsg', ?_⟩
  rw [hsize, List.length_replicate]
  rfl

/-- Three bytes of a message, where one byte is the bound. -/
theorem message_size_unbounded_three :
    ∃ bytes s msg, Reader.Reads (read ⟨false, 1⟩) .init bytes [] (.ok s) ∧
      s.dataMsg.msgPtr = some msg ∧ msg.payload.length = 1 + 2 :=
  message_size_unbounded ⟨false, 1⟩ le_rfl (by decide) (by norm_num)

/-! ### Whole messages -/

/-- The error that a whole message with this opcode is refused with: one that has no
meaning, or one that goes on with a message where none has been begun. -/
def Opcode.refusal (op : Opcode) : Option ErrorCode :=
  if op.reserved then some .invalidOpcode
  else if op = .continuation then some .invalidContinuation
  else none

theorem Opcode.data_of_refusal {op : Opcode} (h : op.refusal = none) (hop : op.isControl = false) :
    op = .text ∨ op = .binary := by
  revert h hop
  cases op <;> decide

theorem Opcode.control_of_refusal {op : Opcode} (h : op.refusal = none)
    (hop : op.isControl = true) : op = .close ∨ op = .ping ∨ op = .pong := by
  revert h hop
  cases op <;> decide

/-- A message that is sent whole, and is not too big for the other side. -/
def Outgoing.Whole (max : ℕ) : Outgoing → Prop
  | .data msg => msg.fin = true ∧ msg.payload.length < 2 ^ 64 ∧ msg.payload.length ≤ max
  | .control _ _ => True

/-- The message that is delivered. -/
def Outgoing.message (o : Outgoing) : Message := received o.frame.opcode o.frame.payload

theorem validateIncomingBasicHeader_refused {op : Opcode} {size : ℕ} {fin server : Bool}
    {code : ErrorCode} (hcode : op.refusal = some code)
    (hcontrol : op.isControl = true → size ≤ Limits.payloadSizeBasic) :
    validateIncomingBasicHeader (.ofFrame op size fin server false) server true = some code := by
  have hsmall :
      ¬(op.isControl = true ∧ Limits.payloadSizeBasic < (BasicHeader.basicValue size).toNat) := by
    rintro ⟨hop, hlt⟩
    rw [toNat_basicValue (hcontrol hop)] at hlt
    exact absurd (hcontrol hop) (not_le.mpr hlt)
  unfold validateIncomingBasicHeader
  simp only [getOpcode_ofFrame, getBasicSize_ofFrame, getRsv1_ofFrame, getRsv2_ofFrame,
    getRsv3_ofFrame, getFin_ofFrame, getMasked_ofFrame, Opcode.invalid_eq]
  unfold Opcode.refusal at hcode
  rw [if_neg hsmall, if_neg (by decide), if_neg (by decide)]
  by_cases hreserved : op.reserved = true
  · rw [if_pos hreserved] at hcode ⊢
    exact hcode
  · rw [if_neg hreserved] at hcode ⊢
    by_cases hop : op = .continuation
    · rw [if_pos hop] at hcode
      have hdata : op.isControl = false := by
        rw [hop]
        rfl
      rw [if_neg (by decide), if_neg (by simp [hdata]), if_pos ⟨trivial, hop⟩]
      exact hcode
    · rw [if_neg hop] at hcode
      cases hcode

/-- What has been prepared is refused for its opcode. -/
theorem Between.reads_refused {c : Config} {s : Processor} (h : Between c s none) {o : Outgoing}
    {key : BitVec 32} {out out' : Message} {code : ErrorCode}
    (hprepare : o.prepare (!c.server) key out = .ok out')
    (hcode : o.frame.opcode.refusal = some code) :
    Reader.Reads (read c) s out'.bytes [] (.error (.code code)) := by
  have hcontrol : o.frame.opcode.isControl = true →
      o.frame.payload.length ≤ Limits.payloadSizeBasic := by
    intro hop
    cases o with
    | data msg =>
      unfold Outgoing.prepare prepareDataFrame at hprepare
      dsimp only at hprepare
      split_ifs at hprepare with hdata
      exact absurd hop hdata
    | control op payload =>
      unfold Outgoing.prepare prepareControl at hprepare
      dsimp only at hprepare
      split_ifs at hprepare with hdata hbig
      exact not_lt.mp hbig
  have hnew : s.dataMsg.msgPtr.isNone = true := by
    rw [h.begun]
    rfl
  refine .fail ?_
  rw [Outgoing.prepare_eq_ok hprepare, bytes_prepareFrame, Bool.not_not, read,
    Processor.consume_basicHeader_refused h.state h.bytesNeeded]
  rw [hnew]
  exact validateIncomingBasicHeader_refused hcode hcontrol

/-- **What may not be read is not prepared**, but for the opcode: texts are UTF-8, and
control messages small. -/
theorem Outgoing.step_of_prepare {server : Bool} {key : BitVec 32} {out out' : Message}
    {o : Outgoing} {max : ℕ} (h : o.prepare server key out = .ok out') (hwhole : o.Whole max)
    (hread : o.frame.opcode.refusal = none) : Step max none o.frame [o.message] none := by
  cases o with
  | data msg =>
    obtain ⟨hfin, hlt, hle⟩ := hwhole
    unfold Outgoing.prepare prepareDataFrame at h
    dsimp only at h
    split_ifs at h with hcontrol hinvalid
    -- `prepare_data_frame` takes no control opcode
    have hop : msg.opcode = .text ∨ msg.opcode = .binary :=
      Opcode.data_of_refusal hread (Bool.eq_false_iff.mpr hcontrol)
    have hutf8 : msg.opcode = .text → IsUtf8 msg.payload := by
      intro htext
      rw [← validate_iff]
      by_contra hvalid
      exact hinvalid ⟨htext, by simpa using hvalid⟩
    exact .last ⟨Or.inl ⟨rfl, rfl, hop, rfl⟩, hlt, hle, fun htext => (hutf8 htext).begins⟩ hfin hutf8
  | control op payload =>
    unfold Outgoing.prepare prepareControl at h
    dsimp only at h
    split_ifs at h with hdata hbig
    -- `prepare_control` takes no other
    have hop : op = .close ∨ op = .ping ∨ op = .pong :=
      Opcode.control_of_refusal hread (Bool.not_eq_false _ ▸ hdata)
    exact .control hop rfl (not_lt.mp hbig)

theorem steps_of_prepares {server : Bool} {sent : List Outgoing} {outs : List Message} {max : ℕ}
    (h : Prepares server sent outs) (hwhole : ∀ o ∈ sent, o.Whole max)
    (hread : ∀ o ∈ sent, o.frame.opcode.refusal = none) :
    Steps max none (sent.map Outgoing.frame) (sent.map Outgoing.message) none := by
  induction h with
  | nil => exact .nil
  | cons hprepare _ ih =>
    obtain ⟨key, out, hprepare⟩ := hprepare
    obtain ⟨ho, hrest⟩ := List.forall_mem_cons.mp hwhole
    obtain ⟨hread, hreads⟩ := List.forall_mem_cons.mp hread
    exact .cons (Outgoing.step_of_prepare hprepare ho hread) (ih hrest hreads)

/-- What is prepared in front of a message that is refused is read, and nothing behind it. -/
theorem Between.reads_until_refused {c : Config} {s : Processor} (h : Between c s none)
    {before after : List Outgoing} {o : Outgoing} {outs : List Message} {code : ErrorCode}
    (hprepares : Prepares (!c.server) (before ++ o :: after) outs)
    (hwhole : ∀ o' ∈ before, o'.Whole c.maxMessageSize)
    (hread : ∀ o' ∈ before, o'.frame.opcode.refusal = none)
    (hcode : o.frame.opcode.refusal = some code) :
    Reader.Reads (read c) s (outs.map Message.bytes).flatten (before.map Outgoing.message)
      (.error (.code code)) := by
  induction before generalizing s outs with
  | nil =>
    obtain ⟨out', outs', ⟨key, out, hprepare⟩, -, rfl⟩ := List.forall₂_cons_left_iff.mp hprepares
    exact (streaming_read c).reads_append_error h.resting (h.reads_refused hprepare hcode) _
  | cons o' before ih =>
    obtain ⟨out', outs', ⟨key, out, hprepare⟩, hrest, rfl⟩ :=
      List.forall₂_cons_left_iff.mp hprepares
    obtain ⟨ho, hbefore⟩ := List.forall_mem_cons.mp hwhole
    obtain ⟨hop, hops⟩ := List.forall_mem_cons.mp hread
    obtain ⟨s₁, hreads, hbetween⟩ := h.reads_frame (Outgoing.step_of_prepare hprepare ho hop) key out
    rw [Outgoing.prepare_eq_ok hprepare]
    exact (streaming_read c).reads_append h.resting hreads (ih hbetween hrest hbefore hops)

/-- **Whole messages are delivered as they were sent**: those that one side has prepared
and the other takes by their size.  What is prepared with an opcode that has no meaning,
or goes on with no message, is refused, and nothing behind it is read. -/
theorem whole_messages_delivered (c : Config) {sent : List Outgoing} {outs : List Message}
    (hprepares : Prepares (!c.server) sent outs)
    (hwhole : ∀ o ∈ sent, o.Whole c.maxMessageSize)
    {chunks : List (List Byte)} (hchunks : chunks.flatten = (outs.map Message.bytes).flatten) :
    ((∀ o ∈ sent, o.frame.opcode.refusal = none) →
      ∃ s, Between c s none ∧ ∀ msgs r, Reader.ReadsChunks (read c) .init chunks msgs r ↔
        msgs = sent.map Outgoing.message ∧ r = .ok s) ∧
    ∀ before o after code, sent = before ++ o :: after →
      (∀ o' ∈ before, o'.frame.opcode.refusal = none) → o.frame.opcode.refusal = some code →
      ∀ msgs r, Reader.ReadsChunks (read c) .init chunks msgs r ↔
        msgs = before.map Outgoing.message ∧ r = .error (.code code) := by
  constructor
  · intro hread
    obtain ⟨s, hreads, hbetween⟩ :=
      (between_init c).reads_sent hprepares (steps_of_prepares hprepares hwhole hread)
    exact ⟨s, hbetween, readsChunks_iff hreads hchunks⟩
  · rintro before o after code rfl hread hcode
    obtain ⟨hbefore, -⟩ := List.forall_mem_append.mp hwhole
    exact readsChunks_iff ((between_init c).reads_until_refused hprepares hbefore hread hcode) hchunks

/-- A server sends a text of one character, and the client reads it; behind it comes a
control frame with an opcode that is reserved. -/
theorem whole_messages_delivered_text :
    (∃ s, Between ⟨false, 125⟩ s none ∧ ∀ msgs r, Reader.ReadsChunks (read ⟨false, 125⟩) .init
      [[0x81], [0x01, 0x61]] msgs r ↔ msgs = [received .text [0x61]] ∧ r = .ok s) ∧
    ∀ msgs r, Reader.ReadsChunks (read ⟨false, 125⟩) .init [[0x81, 0x01, 0x61], [0x8B, 0x00]] msgs r ↔
      msgs = [received .text [0x61]] ∧ r = .error (.code .invalidOpcode) := by
  let text : Outgoing := .data { newMessage .text with payload := [0x61] }
  have hwhole : text.Whole 125 := ⟨rfl, by norm_num [newMessage], by decide⟩
  constructor
  · refine (@whole_messages_delivered ⟨false, 125⟩ [text]
      [prepareFrame true 0 .text true [0x61] (newMessage .continuation)] ?_ ?_ _ ?_).1 ?_
    · refine .cons ⟨0, newMessage .continuation, ?_⟩ .nil
      decide
    · exact List.forall_mem_singleton.mpr hwhole
    · decide
    · exact List.forall_mem_singleton.mpr rfl
  · refine (@whole_messages_delivered ⟨false, 125⟩ [text, .control .controlRsvb []]
      [prepareFrame true 0 .text true [0x61] (newMessage .continuation),
        prepareFrame true 0 .controlRsvb true [] (newMessage .continuation)] ?_ ?_ _ ?_).2
      [text] (.control .controlRsvb []) [] .invalidOpcode rfl ?_ rfl
    · refine .cons ⟨0, newMessage .continuation, ?_⟩ (.cons ⟨0, newMessage .continuation, ?_⟩ .nil)
      · decide
      · decide
    · exact List.forall_mem_cons.mpr ⟨hwhole, List.forall_mem_singleton.mpr trivial⟩
    · decide
    · exact List.forall_mem_singleton.mpr rfl

end Websocketpp
end IntBlock
