import IntBlock.Lib.Reader
import IntBlock.Websocketpp.Processor

/-!
# Bytes in pieces

The connection hands the processor what it has read, some bytes at a time, and takes
the messages that are ready.  What they are does not depend on where the bytes were cut.

## Main definitions

* `Processor.Valid` — what holds at each pass of the loop.
* `read` — a call of `consume`, and the message taken.
* `Resting` — the states between two calls.

## Main results

* `consume_append` — **the bytes of two calls are those of one.**
* `streaming_read` — so that the processor is a reader of a stream.
* `bytes_decide_messages` — **the messages are the same however the bytes arrive.**
-/

namespace IntBlock
namespace Websocketpp

open Endian

/-! ### Masks in pieces -/

theorem eq_of_byteAt {p q : BitVec 64} (h : ∀ i < 8, byteAt p i = byteAt q i) : p = q := by
  ext j hj
  have hbit := congrArg (fun b => b.getLsbD (j % 8)) (h (j / 8) (by omega))
  have hmod : j % 8 < 8 := Nat.mod_lt _ (by decide)
  have hindex : 8 * (j / 8) + j % 8 = j := by omega
  simpa [byteAt, hmod, hindex, hj] using hbit

theorem Prepared.eq {key : BitVec 32} {n m : ℕ} {p q : BitVec 64} (hp : Prepared key n p)
    (hq : Prepared key m q) (h : n % 4 = m % 4) : p = q := by
  refine eq_of_byteAt fun i hi => ?_
  rw [hp i hi, hq i hi]
  exact keyStream_add key (by omega)

/-- Two pieces are unmasked as one. -/
theorem Prepared.byteMaskCirc_append {key : BitVec 32} {n : ℕ} {p : BitVec 64}
    (h : Prepared key n p) (a b : List Byte) :
    Websocketpp.byteMaskCirc (a ++ b) p =
      ((Websocketpp.byteMaskCirc a p).1 ++ (Websocketpp.byteMaskCirc b (Websocketpp.byteMaskCirc a p).2).1,
        (Websocketpp.byteMaskCirc b (Websocketpp.byteMaskCirc a p).2).2) := by
  obtain ⟨hbytes, hkey⟩ := h.byteMaskCirc a
  obtain ⟨hbytes', hkey'⟩ := hkey.byteMaskCirc b
  obtain ⟨hall, hkeyAll⟩ := h.byteMaskCirc (a ++ b)
  refine Prod.ext ?_ (hkeyAll.eq hkey' ?_)
  · rw [hall, hbytes, hbytes', masked_append]
    simp only [Nat.add_assoc]
  · rw [List.length_append, Nat.add_assoc]

/-! ### Messages in pieces -/

/-- A message that is being put together: its key is one of four bytes, and the validator
has been given the payload of a text. -/
structure MsgMetadata.Sound (md : MsgMetadata) (msg : Message) : Prop where
  msgPtr_eq : md.msgPtr = some msg
  prepared : ∃ key n, Prepared key n md.preparedKey
  follows : msg.opcode = .text → Follows md.validator msg.payload

namespace MsgMetadata

variable {md md' : MsgMetadata} {msg : Message} {masked : Bool}

theorem sound_new (op : Opcode) (key : BitVec 32) : (new op key).Sound (newMessage op) :=
  ⟨rfl, ⟨key, 0, prepared_prepareMaskingKey key⟩, fun _ => follows_init⟩

theorem unmask_append {p : BitVec 64} (h : ∃ key n, Prepared key n p) (masked : Bool)
    (a b : List Byte) :
    unmask masked (a ++ b) p =
      ((unmask masked a p).1 ++ (unmask masked b (unmask masked a p).2).1,
        (unmask masked b (unmask masked a p).2).2) := by
  obtain ⟨key, n, h⟩ := h
  cases masked with
  | false => rfl
  | true => exact h.byteMaskCirc_append a b

theorem prepared_unmask {p : BitVec 64} (h : ∃ key n, Prepared key n p) (masked : Bool)
    (a : List Byte) : ∃ key n, Prepared key n (unmask masked a p).2 := by
  obtain ⟨key, n, h⟩ := h
  cases masked with
  | false => exact ⟨key, n, h⟩
  | true => exact ⟨key, _, (h.byteMaskCirc a).2⟩

/-- What is refused is a text that no longer begins one in UTF-8. -/
theorem Sound.process_cases (h : md.Sound msg) (masked : Bool) (buf : List Byte) :
    (∃ md', md.process masked buf = .ok md' ∧
      md'.preparedKey = (unmask masked buf md.preparedKey).2 ∧
      (msg.opcode = .text → md.validator.decode (unmask masked buf md.preparedKey).1 =
        (md'.validator, true)) ∧ (msg.opcode ≠ .text → md'.validator = md.validator) ∧
      md'.Sound { msg with payload := msg.payload ++ (unmask masked buf md.preparedKey).1 }) ∨
    (md.process masked buf = .error (.code .invalidUtf8) ∧ msg.opcode = .text ∧
      (md.validator.decode (unmask masked buf md.preparedKey).1).2 = false ∧
      ¬ BeginsUtf8 (msg.payload ++ (unmask masked buf md.preparedKey).1)) := by
  have hkey := prepared_unmask h.prepared masked buf
  unfold process
  rw [h.msgPtr_eq]
  dsimp only
  by_cases htext : msg.opcode = .text
  · rw [if_pos htext]
    rcases (h.follows htext).decode_cases (unmask masked buf md.preparedKey).1 with
      ⟨-, hok, hfollows⟩ | ⟨hnot, hrefused⟩
    · left
      rw [hok, if_neg (by decide)]
      exact ⟨_, rfl, rfl, fun _ => Prod.ext rfl hok, fun hne => absurd htext hne, rfl, hkey,
        fun _ => hfollows⟩
    · right
      rw [if_pos hrefused]
      exact ⟨rfl, htext, hrefused, hnot⟩
  · left
    rw [if_neg htext, if_neg (by simp)]
    exact ⟨_, rfl, rfl, fun h => absurd h htext, fun _ => rfl, rfl, hkey, fun h => absurd h htext⟩

/-- **Two pieces of a payload are processed as one.** -/
theorem Sound.process_append (h : md.Sound msg) (masked : Bool) (a b : List Byte) :
    md.process masked (a ++ b) = md.process masked a >>= fun md' => md'.process masked b := by
  have happend := unmask_append h.prepared masked a b
  -- the whole is refused where its first piece is, or its second one behind the first
  rcases h.process_cases masked a with ⟨md₁, hok, hkey, hdecode, hsame, hsound⟩ |
    ⟨herror, htext, hrefused, -⟩
  · rw [hok, ok_bind]
    rw [← hkey] at happend
    rcases hsound.process_cases masked b with ⟨md₂, hok₂, hkey₂, hdecode₂, hsame₂, hsound₂⟩ |
      ⟨herror₂, htext, hrefused₂, -⟩
    · rw [hok₂]
      rcases h.process_cases masked (a ++ b) with ⟨md₃, hok₃, hkey₃, hdecode₃, hsame₃, hsound₃⟩ |
        ⟨-, htext, hrefused₃, -⟩
      · rw [hok₃]
        refine congrArg Except.ok (MsgMetadata.ext ?_ ?_ ?_)
        · rw [hsound₃.msgPtr_eq, hsound₂.msgPtr_eq, happend]
          simp only [List.append_assoc]
        · rw [hkey₃, hkey₂, happend]
        · by_cases htext : msg.opcode = .text
          · have hall := hdecode₃ htext
            rw [happend, Validator.decode_append, hdecode htext, if_pos rfl,
              hdecode₂ htext] at hall
            exact (Prod.mk.inj hall).1.symm
          · rw [hsame₃ htext, hsame₂ htext, hsame htext]
      · exfalso
        rw [happend, Validator.decode_append, hdecode htext, if_pos rfl, hdecode₂ htext] at hrefused₃
        cases hrefused₃
    · rw [herror₂]
      rcases h.process_cases masked (a ++ b) with ⟨md₃, -, -, hdecode₃, -⟩ | ⟨herror₃, -⟩
      · exfalso
        have hall := hdecode₃ htext
        rw [happend, Validator.decode_append, hdecode htext, if_pos rfl] at hall
        rw [hall] at hrefused₂
        cases hrefused₂
      · exact herror₃
  · rw [herror]
    rcases h.process_cases masked (a ++ b) with ⟨md₃, -, -, hdecode₃, -⟩ | ⟨herror₃, -⟩
    · exfalso
      have hall := hdecode₃ htext
      rw [happend, Validator.decode_append, if_neg (by rw [hrefused]; decide)] at hall
      rw [hall] at hrefused
      cases hrefused
    · exact herror₃

theorem Sound.process_nil (h : md.Sound msg) (masked : Bool) : md.process masked [] = .ok md := by
  have hunmask : unmask masked [] md.preparedKey = ([], md.preparedKey) := by
    cases masked with
    | false => rfl
    | true => rfl
  rcases h.process_cases masked [] with ⟨md', hok, hkey, hdecode, hsame, hsound⟩ |
    ⟨-, -, hrefused, -⟩
  · rw [hok]
    rw [hunmask] at hkey hdecode hsound
    refine congrArg Except.ok (MsgMetadata.ext ?_ hkey ?_)
    · rw [hsound.msgPtr_eq, h.msgPtr_eq, List.append_nil]
    · by_cases htext : msg.opcode = .text
      · exact (Prod.mk.inj (hdecode htext)).1.symm
      · exact hsame htext
  · rw [hunmask] at hrefused
    cases hrefused

end MsgMetadata

/-! ### What holds at each pass -/

/-- The messages that are put together in a slot. -/
def Slot.Takes : Slot → Opcode → Prop
  | .data, op => op = .text ∨ op = .binary
  | .control, op => op = .close ∨ op = .ping ∨ op = .pong

namespace Processor

variable {c : Config} {s s' : Processor} {buf rest : List Byte}

/-- The current message is one that belongs where it is. -/
def InMessage (s : Processor) : Prop :=
  ∃ slot msg, s.currentMsg = some slot ∧ (s.metadata slot).Sound msg ∧ slot.Takes msg.opcode ∧
    (slot = .control → msg.payload.length + s.bytesNeeded ≤ Limits.payloadSizeBasic)

/-- What holds in each state of the machine. -/
def InState (c : Config) (s : Processor) : Prop :=
  match s.state with
  | .headerBasic => s.bytesNeeded ≤ basicHeaderLength
  | .headerExtended => s.cursor + s.bytesNeeded ≤ maxExtendedHeaderLength ∧
      validateIncomingBasicHeader s.basicHeader c.server s.dataMsg.msgPtr.isNone = none
  | .application | .ready => s.InMessage
  | .extension | .fatalError => False

structure Valid (c : Config) (s : Processor) : Prop where
  data : ∀ msg, s.dataMsg.msgPtr = some msg → s.dataMsg.Sound msg ∧ Slot.data.Takes msg.opcode
  inState : s.InState c

theorem valid_init (c : Config) : init.Valid c :=
  ⟨fun _ h => (Option.some_ne_none _ h.symm).elim, le_rfl⟩

theorem Valid.ne_extension (h : s.Valid c) : s.state ≠ .extension := by
  intro hs
  have := h.inState
  rwa [InState, hs] at this

theorem Valid.ne_fatalError (h : s.Valid c) : s.state ≠ .fatalError := by
  intro hs
  have := h.inState
  rwa [InState, hs] at this

@[simp] theorem setMetadata_metadata (s : Processor) (slot : Slot) :
    s.setMetadata slot (s.metadata slot) = s := by cases slot <;> rfl

/-! ### Payloads in pieces -/

theorem processPayloadBytes_eq {slot : Slot} (hslot : s.currentMsg = some slot) (buf : List Byte) :
    s.processPayloadBytes buf =
      (s.metadata slot).process s.basicHeader.getMasked buf >>= fun md =>
        .ok ((s.setMetadata slot md).setBytesNeeded (s.bytesNeeded - buf.length)) := by
  rw [processPayloadBytes, hslot]
  rfl

theorem InMessage.processPayloadBytes_nil (h : s.InMessage) : s.processPayloadBytes [] = .ok s := by
  obtain ⟨slot, msg, hslot, hsound, -⟩ := h
  rw [processPayloadBytes_eq hslot, hsound.process_nil, ok_bind, setMetadata_metadata]
  rfl

theorem InMessage.processPayloadBytes_append (h : s.InMessage) (x y : List Byte) :
    s.processPayloadBytes (x ++ y) =
      s.processPayloadBytes x >>= fun s' => s'.processPayloadBytes y := by
  obtain ⟨slot, msg, hslot, hsound, -⟩ := h
  rw [processPayloadBytes_eq hslot, processPayloadBytes_eq hslot, hsound.process_append]
  cases (s.metadata slot).process s.basicHeader.getMasked x with
  | error e => rfl
  | ok md =>
    rw [ok_bind, ok_bind, ok_bind, @processPayloadBytes_eq _ slot (by simpa using hslot),
      metadata_setBytesNeeded, metadata_setMetadata, basicHeader_setBytesNeeded, basicHeader_setMetadata]
    cases md.process s.basicHeader.getMasked y with
    | error e => rfl
    | ok md' =>
      rw [ok_bind, ok_bind, List.length_append, ← Nat.sub_sub]
      cases slot <;> rfl

/-- The message stays in its slot, and the data message is what it was or the current one. -/
theorem Valid.processPayloadBytes_eq_ok (h : s.Valid c) (hs : s.state = .application)
    (hlen : buf.length ≤ s.bytesNeeded) (hok : s.processPayloadBytes buf = .ok s') :
    s'.Valid c ∧ s'.state = .application ∧ s'.bytesNeeded = s.bytesNeeded - buf.length := by
  have hin := h.inState
  rw [InState, hs] at hin
  obtain ⟨slot, msg, hslot, hsound, htakes, hsmall⟩ := hin
  rw [processPayloadBytes_eq hslot] at hok
  rcases hsound.process_cases s.basicHeader.getMasked buf with ⟨md', hmd, -, -, -, hsound'⟩ |
    ⟨herror, -⟩
  · rw [hmd, ok_bind] at hok
    cases hok
    refine ⟨⟨?_, ?_⟩, (state_setMetadata s slot md').trans hs, rfl⟩
    · cases slot with
      | data =>
        intro msg' hmsg'
        have hmsg'' : md'.msgPtr = some msg' := hmsg'
        rw [hsound'.msgPtr_eq] at hmsg''
        cases hmsg''
        exact ⟨hsound', htakes⟩
      | control => exact h.data
    · rw [InState, state_setBytesNeeded, state_setMetadata, hs]
      refine ⟨slot, { msg with payload := msg.payload ++ (MsgMetadata.unmask s.basicHeader.getMasked
        buf (s.metadata slot).preparedKey).1 }, by simpa using hslot, ?_, htakes, ?_⟩
      · rw [metadata_setBytesNeeded, metadata_setMetadata]
        exact hsound'
      · intro hcontrol
        have hroom := hsmall hcontrol
        -- unmasking keeps the number of bytes
        have hlength : (MsgMetadata.unmask s.basicHeader.getMasked buf
            (s.metadata slot).preparedKey).1.length = buf.length := by
          cases s.basicHeader.getMasked with
          | false => rfl
          | true => exact List.length_mapIdx
        dsimp only
        rw [List.length_append, hlength, bytesNeeded_setBytesNeeded]
        omega
  · rw [herror] at hok
    cases hok

/-! ### Headers in pieces -/

/-- Two bytes are copied as far as they are there, wherever they are cut. -/
theorem copyBasicHeaderBytes_append (hle : s.bytesNeeded ≤ basicHeaderLength) (a b : List Byte) :
    (s.copyBasicHeaderBytes a).1.bytesNeeded = s.bytesNeeded - min s.bytesNeeded a.length ∧
    (s.copyBasicHeaderBytes a).2 = a.drop (min s.bytesNeeded a.length) ∧
    s.copyBasicHeaderBytes (a ++ b) =
      if s.bytesNeeded ≤ a.length then
        ((s.copyBasicHeaderBytes a).1, (s.copyBasicHeaderBytes a).2 ++ b)
      else (s.copyBasicHeaderBytes a).1.copyBasicHeaderBytes b := by
  have hcases : s.bytesNeeded = 0 ∨ s.bytesNeeded = 1 ∨ s.bytesNeeded = 2 := by
    unfold basicHeaderLength at hle
    omega
  rcases hcases with hn | hn | hn
  · cases a with
    | nil => cases b <;> simp [copyBasicHeaderBytes, hn]
    | cons x a => cases b <;> simp [copyBasicHeaderBytes, hn]
  · rcases a with _ | ⟨x, _ | ⟨y, a⟩⟩
    · simp [copyBasicHeaderBytes, hn]
    · cases b <;> simp [copyBasicHeaderBytes, hn]
    · simp [copyBasicHeaderBytes, hn]
  · rcases a with _ | ⟨x, _ | ⟨y, a⟩⟩
    · simp [copyBasicHeaderBytes, hn]
    · rcases b with _ | ⟨z, _ | ⟨w, b⟩⟩
      · simp [copyBasicHeaderBytes, hn]
      · simp [copyBasicHeaderBytes, hn]
      · simp [copyBasicHeaderBytes, hn]
    · simp [copyBasicHeaderBytes, hn]

theorem copyExtendedHeaderBytes_eq (hroom : s.cursor + s.bytesNeeded ≤ maxExtendedHeaderLength)
    (buf : List Byte) :
    ∃ h, s.copyExtendedHeaderBytes buf = .ok ({ s with
        extendedHeader :=
          s.extendedHeader.copy s.cursor (buf.take (min s.bytesNeeded buf.length)) h
        cursor := s.cursor + min s.bytesNeeded buf.length
        bytesNeeded := s.bytesNeeded - min s.bytesNeeded buf.length },
      buf.drop (min s.bytesNeeded buf.length)) := by
  have hfits : s.cursor + (buf.take (min s.bytesNeeded buf.length)).length ≤
      maxExtendedHeaderLength := by
    rw [List.length_take]
    omega
  refine ⟨hfits, ?_⟩
  rw [copyExtendedHeaderBytes, dif_pos hfits]

/-- The array holds what has been copied, wherever it was cut. -/
theorem copyExtendedHeaderBytes_append
    (hroom : s.cursor + s.bytesNeeded ≤ maxExtendedHeaderLength) (a b : List Byte) :
    s.copyExtendedHeaderBytes (a ++ b) =
      s.copyExtendedHeaderBytes a >>= fun r =>
        if s.bytesNeeded ≤ a.length then .ok (r.1, r.2 ++ b) else r.1.copyExtendedHeaderBytes b := by
  obtain ⟨ha, hcopy⟩ := copyExtendedHeaderBytes_eq hroom a
  obtain ⟨hab, hcopyAll⟩ := copyExtendedHeaderBytes_eq hroom (a ++ b)
  rw [hcopy, hcopyAll, ok_bind]
  by_cases hle : s.bytesNeeded ≤ a.length
  · -- the header ends within `a`
    have hmin : min s.bytesNeeded (a ++ b).length = min s.bytesNeeded a.length := by
      rw [List.length_append]
      omega
    have htake : (a ++ b).take (min s.bytesNeeded a.length) = a.take (min s.bytesNeeded a.length) :=
      List.take_append_of_le_length (by omega)
    have hdrop : (a ++ b).drop (min s.bytesNeeded a.length) =
        a.drop (min s.bytesNeeded a.length) ++ b := List.drop_append_of_le_length (by omega)
    rw [if_pos hle]
    simp only [hmin, htake, hdrop]
  · -- `a` is copied whole, and the header goes on in `b`
    rw [if_neg hle]
    have hmin : min s.bytesNeeded a.length = a.length := by omega
    have hminAll : min s.bytesNeeded (a ++ b).length =
        a.length + min (s.bytesNeeded - a.length) b.length := by
      rw [List.length_append]
      omega
    have htake : (a ++ b).take (a.length + min (s.bytesNeeded - a.length) b.length) =
        a ++ b.take (min (s.bytesNeeded - a.length) b.length) := List.take_length_add_append _
    have hdrop : (a ++ b).drop (a.length + min (s.bytesNeeded - a.length) b.length) =
        b.drop (min (s.bytesNeeded - a.length) b.length) := List.drop_length_add_append _
    simp only [hmin, hminAll, htake, hdrop, List.take_length]
    obtain ⟨hb, hcopyRest⟩ := @copyExtendedHeaderBytes_eq { s with
      extendedHeader := s.extendedHeader.copy s.cursor a (by omega)
      cursor := s.cursor + a.length
      bytesNeeded := s.bytesNeeded - a.length } (by dsimp only; omega) b
    rw [hcopyRest]
    simp only [Nat.add_assoc, Nat.sub_sub]
    rw [ExtendedHeader.copy_copy _ hb (by rw [List.length_append, ← Nat.add_assoc]; exact hb)]

/-! ### The beginning of a pass -/

theorem Valid.inMessage (h : s.Valid c) (hs : s.state = .application ∨ s.state = .ready) :
    s.InMessage := by
  have hin := h.inState
  unfold InState at hin
  rcases hs with hs | hs
  · rwa [hs] at hin
  · rwa [hs] at hin

theorem InMessage.fill_eq (h : s.InMessage) (hs : s.state = .application) (buf : List Byte) :
    s.fill buf = s.processPayloadBytes (buf.take (min s.bytesNeeded buf.length)) >>= fun s' =>
      .ok (s', buf.drop (min s.bytesNeeded buf.length)) := by
  rw [fill, hs]
  dsimp only
  by_cases hpos : 0 < min s.bytesNeeded buf.length
  · rw [if_pos hpos]
    rfl
  · have hzero := Nat.eq_zero_of_not_pos hpos
    rw [if_neg hpos, hzero, List.take_zero, h.processPayloadBytes_nil]
    rfl

/-- The bytes that are missing are taken as far as they are there. -/
theorem Valid.fill_eq_ok (h : s.Valid c) (hready : s.state ≠ .ready)
    (hok : s.fill buf = .ok (s', rest)) :
    s'.Valid c ∧ s'.state = s.state ∧ s'.bytesNeeded = s.bytesNeeded - min s.bytesNeeded buf.length ∧
      rest = buf.drop (min s.bytesNeeded buf.length) := by
  cases hs : s.state with
  | headerBasic =>
    have hin := h.inState
    rw [InState, hs] at hin
    dsimp only at hin
    obtain ⟨hneeded, hrest, -⟩ := copyBasicHeaderBytes_append hin buf []
    -- a header byte touches neither the message nor the state
    have hdata : (s.copyBasicHeaderBytes buf).1.dataMsg = s.dataMsg ∧
        (s.copyBasicHeaderBytes buf).1.state = s.state := by
      rcases s.copyBasicHeaderBytes_cases buf with ⟨-, heq⟩ | ⟨_, _, _, heq, -⟩
      · rw [heq]
        exact ⟨rfl, rfl⟩
      · rw [heq]
        exact ⟨rfl, rfl⟩
    rw [fill, hs] at hok
    have hr := Except.ok.inj hok
    rw [hr] at hneeded hrest hdata
    dsimp only at hneeded hrest hdata
    refine ⟨⟨?_, ?_⟩, hdata.2.trans hs, hneeded, hrest⟩
    · rw [hdata.1]
      exact h.data
    · rw [InState, hdata.2, hs]
      dsimp only
      omega
  | headerExtended =>
    have hin := h.inState
    rw [InState, hs] at hin
    obtain ⟨_, hcopy⟩ := copyExtendedHeaderBytes_eq hin.1 buf
    rw [fill, hs] at hok
    dsimp only at hok
    rw [hcopy] at hok
    cases hok
    refine ⟨⟨h.data, ?_⟩, hs, rfl, rfl⟩
    rw [InState, hs]
    refine ⟨?_, hin.2⟩
    dsimp only
    omega
  | application =>
    rw [(h.inMessage (Or.inl hs)).fill_eq hs] at hok
    obtain ⟨s₁, hprocess, hok⟩ := bind_eq_ok.mp hok
    cases hok
    have hlen : (buf.take (min s.bytesNeeded buf.length)).length = min s.bytesNeeded buf.length := by
      rw [List.length_take]
      omega
    obtain ⟨hvalid, hstate, hneeded⟩ :=
      h.processPayloadBytes_eq_ok hs (by omega) hprocess
    exact ⟨hvalid, hstate, by rw [hneeded, hlen], rfl⟩
  | extension => exact absurd hs h.ne_extension
  | ready => exact absurd hs hready
  | fatalError => exact absurd hs h.ne_fatalError

/-- **A pass begins with the same bytes**, wherever they are cut. -/
theorem Valid.fill_append (h : s.Valid c) (hready : s.state ≠ .ready) (a b : List Byte) :
    s.fill (a ++ b) = s.fill a >>= fun r =>
      if s.bytesNeeded ≤ a.length then .ok (r.1, r.2 ++ b) else r.1.fill b := by
  cases hs : s.state with
  | headerBasic =>
    have hin := h.inState
    rw [InState, hs] at hin
    dsimp only at hin
    obtain ⟨-, -, happend⟩ := copyBasicHeaderBytes_append hin a b
    have hstate : (s.copyBasicHeaderBytes a).1.state = .headerBasic := by
      rcases s.copyBasicHeaderBytes_cases a with ⟨-, heq⟩ | ⟨_, _, _, heq, -⟩
      · rw [heq, hs]
      · rw [heq]
        exact hs
    simp only [fill, hs, ok_bind]
    rw [happend, hstate]
    by_cases hle : s.bytesNeeded ≤ a.length
    · rw [if_pos hle, if_pos hle]
    · rw [if_neg hle, if_neg hle]
  | headerExtended =>
    have hin := h.inState
    rw [InState, hs] at hin
    simp only [fill, hs]
    rw [copyExtendedHeaderBytes_append hin.1]
    obtain ⟨_, hcopy⟩ := copyExtendedHeaderBytes_eq hin.1 a
    rw [hcopy, ok_bind, ok_bind]
    dsimp only
    rw [hs]
  | application =>
    have hin := h.inMessage (Or.inl hs)
    rw [hin.fill_eq hs, hin.fill_eq hs]
    by_cases hle : s.bytesNeeded ≤ a.length
    · -- the payload ends within `a`
      have hmin : min s.bytesNeeded (a ++ b).length = min s.bytesNeeded a.length := by
        rw [List.length_append]
        omega
      rw [hmin, List.take_append_of_le_length (by omega), List.drop_append_of_le_length (by omega)]
      cases s.processPayloadBytes (a.take (min s.bytesNeeded a.length)) with
      | error e => rfl
      | ok s₁ =>
        simp only [ok_bind]
        rw [if_pos hle]
    · -- all of `a` is payload, and it goes on in `b`
      have hmin : min s.bytesNeeded a.length = a.length := by omega
      have hminAll : min s.bytesNeeded (a ++ b).length =
          a.length + min (s.bytesNeeded - a.length) b.length := by
        rw [List.length_append]
        omega
      rw [hmin, hminAll, List.take_length_add_append, List.drop_length_add_append, List.take_length,
        hin.processPayloadBytes_append]
      cases hprocess : s.processPayloadBytes a with
      | error e => rfl
      | ok s₁ =>
        obtain ⟨hvalid, hstate, hneeded⟩ := h.processPayloadBytes_eq_ok hs (by omega) hprocess
        simp only [ok_bind]
        rw [if_neg hle, (hvalid.inMessage (Or.inl hstate)).fill_eq hstate, hneeded]
  | extension => exact absurd hs h.ne_extension
  | ready => exact absurd hs hready
  | fatalError => exact absurd hs h.ne_fatalError

/-! ### The end of a pass -/

/-- What a valid basic header says. -/
theorem validateIncomingBasicHeader_eq_none {h : BasicHeader} {isServer newMsg : Bool}
    (hnone : validateIncomingBasicHeader h isServer newMsg = none) :
    (h.getOpcode.isControl = true → h.getBasicSize.toNat ≤ Limits.payloadSizeBasic) ∧
      h.getOpcode.reserved = false ∧ (h.getOpcode.isControl = true → h.getFin = true) ∧
      (newMsg = true → h.getOpcode ≠ .continuation) := by
  unfold validateIncomingBasicHeader at hnone
  dsimp only at hnone
  by_cases h1 : h.getOpcode.isControl = true ∧ Limits.payloadSizeBasic < h.getBasicSize.toNat
  · rw [if_pos h1] at hnone
    cases hnone
  by_cases h2 : h.getRsv1 = true
  · rw [if_neg h1, if_pos h2] at hnone
    cases hnone
  by_cases h3 : h.getRsv2 = true ∨ h.getRsv3 = true
  · rw [if_neg h1, if_neg h2, if_pos h3] at hnone
    cases hnone
  by_cases h4 : h.getOpcode.reserved = true
  · rw [if_neg h1, if_neg h2, if_neg h3, if_pos h4] at hnone
    cases hnone
  by_cases h5 : h.getOpcode.isControl = true ∧ h.getFin = false
  · rw [if_neg h1, if_neg h2, if_neg h3, if_neg h4, if_neg (by simp), if_pos h5] at hnone
    cases hnone
  by_cases h6 : newMsg = true ∧ h.getOpcode = .continuation
  · rw [if_neg h1, if_neg h2, if_neg h3, if_neg h4, if_neg (by simp), if_neg h5, if_pos h6] at hnone
    cases hnone
  refine ⟨?_, by simpa using h4, ?_, ?_⟩
  · intro hcontrol
    exact not_lt.mp fun hlt => h1 ⟨hcontrol, hlt⟩
  · intro hcontrol
    by_contra hfin
    exact h5 ⟨hcontrol, by simpa using hfin⟩
  · intro hnew hop
    exact h6 ⟨hnew, hop⟩

theorem takes_control {op : Opcode} (hcontrol : op.isControl = true) (hreserved : op.reserved = false) :
    Slot.control.Takes op := by
  revert hcontrol hreserved
  cases op <;> simp [Slot.Takes, Opcode.isControl, Opcode.reserved, Opcode.value]

theorem takes_data {op : Opcode} (hcontrol : op.isControl = false) (hreserved : op.reserved = false)
    (hop : op ≠ .continuation) : Slot.data.Takes op := by
  revert hcontrol hreserved hop
  cases op <;> simp [Slot.Takes, Opcode.isControl, Opcode.reserved, Opcode.value]

theorem getHeaderLen_le (h : BasicHeader) :
    h.getHeaderLen - basicHeaderLength ≤ maxExtendedHeaderLength := by
  unfold BasicHeader.getHeaderLen BasicHeader.getMaskingKeyOffset basicHeaderLength
    maxExtendedHeaderLength
  split_ifs <;> omega

/-- A result that is a code, or a state as good as before. -/
def Sound (c : Config) (x : Except Fault Processor) : Prop :=
  (∃ ec, x = .error (.code ec)) ∨ ∃ s', x = .ok s' ∧ s'.Valid c

theorem Valid.advance_headerBasic (h : s.Valid c) (hs : s.state = .headerBasic) :
    Sound c (s.advance c) := by
  rw [Processor.advance, hs]
  dsimp only
  cases hvalidate : validateIncomingBasicHeader s.basicHeader c.server s.dataMsg.msgPtr.isNone with
  | some ec =>
    rw [check, error_bind]
    exact Or.inl ⟨ec, rfl⟩
  | none =>
    rw [check, ok_bind]
    refine Or.inr ⟨_, rfl, h.data, ?_, hvalidate⟩
    dsimp only
    rw [Nat.zero_add]
    exact getHeaderLen_le s.basicHeader

theorem beginPayload_sound {s : Processor}
    (hvalidate : validateIncomingBasicHeader s.basicHeader c.server s.dataMsg.msgPtr.isNone = none)
    (hdata : ∀ msg, s.dataMsg.msgPtr = some msg → s.dataMsg.Sound msg ∧ Slot.data.Takes msg.opcode)
    (hs : s.state = .application)
    (hneeded : s.bytesNeeded = getPayloadSize s.basicHeader s.extendedHeader) :
    Sound c (s.beginPayload c) := by
  obtain ⟨hsmall, hreserved, -, hnew⟩ := validateIncomingBasicHeader_eq_none hvalidate
  unfold beginPayload
  dsimp only
  by_cases hcontrol : s.basicHeader.getOpcode.isControl = true
  · rw [if_pos hcontrol]
    refine Or.inr ⟨_, rfl, hdata, ?_⟩
    rw [InState, hs]
    refine ⟨.control, newMessage s.basicHeader.getOpcode, rfl, MsgMetadata.sound_new _ _,
      takes_control hcontrol hreserved, ?_⟩
    intro _
    -- the size of a control frame is in its basic header
    have hsize : s.bytesNeeded = s.basicHeader.getBasicSize.toNat :=
      hneeded.trans (if_pos (hsmall hcontrol))
    have hle := hsmall hcontrol
    dsimp only [newMessage, List.length_nil]
    omega
  · rw [if_neg hcontrol]
    cases hmsg : s.dataMsg.msgPtr with
    | none =>
      dsimp only
      by_cases hbig : c.maxMessageSize < s.bytesNeeded
      · rw [if_pos hbig]
        exact Or.inl ⟨_, rfl⟩
      · have htakes := takes_data (by simpa using hcontrol) hreserved (hnew (by rw [hmsg]; rfl))
        rw [if_neg hbig]
        refine Or.inr ⟨_, rfl, ?_, ?_⟩
        · intro msg hmsg'
          obtain rfl := Option.some.inj hmsg'
          exact ⟨MsgMetadata.sound_new _ _, htakes⟩
        · rw [InState, hs]
          exact ⟨.data, newMessage s.basicHeader.getOpcode, rfl, MsgMetadata.sound_new _ _, htakes,
            fun h => absurd h (by decide)⟩
    | some out =>
      dsimp only
      by_cases hbig : c.maxMessageSize < (out.payload.length + s.bytesNeeded) % 2 ^ 64
      · rw [if_pos hbig]
        exact Or.inl ⟨_, rfl⟩
      · obtain ⟨hsound, htakes⟩ := hdata out hmsg
        -- a new key, and all else as it was
        have hsound' : MsgMetadata.Sound ⟨some out, prepareMaskingKey
            (getMaskingKey s.basicHeader s.extendedHeader), s.dataMsg.validator⟩ out :=
          ⟨rfl, ⟨_, 0, prepared_prepareMaskingKey _⟩, hsound.follows⟩
        rw [if_neg hbig]
        refine Or.inr ⟨_, rfl, ?_, ?_⟩
        · intro msg hmsg'
          obtain rfl := Option.some.inj hmsg'
          exact ⟨hsound', htakes⟩
        · rw [InState, hs]
          exact ⟨.data, out, rfl, hsound', htakes, fun h => absurd h (by decide)⟩

theorem Valid.advance_application (h : s.Valid c) (hs : s.state = .application) :
    Sound c (s.advance c) := by
  have hin := h.inMessage (Or.inl hs)
  obtain ⟨slot, msg, hslot, hsound, htakes, hsmall⟩ := hin
  rw [Processor.advance, hs]
  dsimp only
  by_cases hfin : s.basicHeader.getFin = true
  · rw [if_pos hfin, finalizeMessage, hslot]
    dsimp only
    rw [hsound.msgPtr_eq]
    dsimp only
    split_ifs
    · exact Or.inl ⟨_, rfl⟩
    · refine Or.inr ⟨_, rfl, h.data, slot, msg, rfl, ?_, htakes, hsmall⟩
      cases slot with
      | data => exact hsound
      | control => exact hsound
  · rw [if_neg hfin]
    exact Or.inr ⟨_, rfl, h.data, le_rfl⟩

/-- **What is done once no byte is missing** leads to a state as good, or to an error code. -/
theorem Valid.advance (h : s.Valid c) : Sound c (s.advance c) := by
  cases hs : s.state with
  | headerBasic => exact h.advance_headerBasic hs
  | headerExtended =>
    have hin := h.inState
    rw [InState, hs] at hin
    rw [Processor.advance, hs]
    dsimp only
    cases validateIncomingExtendedHeader s.basicHeader s.extendedHeader with
    | some ec =>
      rw [check, error_bind]
      exact Or.inl ⟨ec, rfl⟩
    | none =>
      rw [check, ok_bind]
      exact beginPayload_sound hin.2 h.data rfl rfl
  | application => exact h.advance_application hs
  | extension => exact absurd hs h.ne_extension
  | ready =>
    rw [Processor.advance, hs]
    exact Or.inr ⟨s, rfl, h⟩
  | fatalError => exact absurd hs h.ne_fatalError

/-! ### Passes -/

/-- The part of a pass behind its bytes. -/
def finish (c : Config) (r : Processor × List Byte) : Except Fault (Processor × List Byte) :=
  if 0 < r.1.bytesNeeded then .ok r else r.1.advance c >>= fun s' => .ok (s', r.2)

theorem Valid.pass_eq (h : s.Valid c) (buf : List Byte) :
    s.pass c buf = s.fill buf >>= finish c := by
  rw [pass, if_neg h.ne_extension]
  rfl

theorem Valid.fill_sound (h : s.Valid c) (hready : s.state ≠ .ready) (buf : List Byte) :
    (∃ ec, s.fill buf = .error (.code ec)) ∨ ∃ r, s.fill buf = .ok r := by
  cases hs : s.state with
  | headerBasic =>
    rw [fill, hs]
    exact Or.inr ⟨_, rfl⟩
  | headerExtended =>
    have hin := h.inState
    rw [InState, hs] at hin
    obtain ⟨_, hcopy⟩ := copyExtendedHeaderBytes_eq hin.1 buf
    rw [fill, hs]
    exact Or.inr ⟨_, hcopy⟩
  | application =>
    have hin := h.inMessage (Or.inl hs)
    obtain ⟨slot, msg, hslot, hsound, -⟩ := id hin
    rw [hin.fill_eq hs, processPayloadBytes_eq hslot]
    rcases hsound.process_cases s.basicHeader.getMasked (buf.take (min s.bytesNeeded buf.length)) with
      ⟨md, hmd, -⟩ | ⟨herror, -⟩
    · rw [hmd]
      exact Or.inr ⟨_, rfl⟩
    · rw [herror]
      exact Or.inl ⟨_, rfl⟩
  | extension => exact absurd hs h.ne_extension
  | ready => exact absurd hs hready
  | fatalError => exact absurd hs h.ne_fatalError

/-- **A pass keeps what holds, and is never undefined.** -/
theorem Valid.pass_sound (h : s.Valid c) (hready : s.state ≠ .ready) (buf : List Byte) :
    (∃ ec, s.pass c buf = .error (.code ec)) ∨
      ∃ s' rest, s.pass c buf = .ok (s', rest) ∧ s'.Valid c := by
  rw [h.pass_eq]
  rcases h.fill_sound hready buf with ⟨ec, herror⟩ | ⟨⟨s₁, rest⟩, hok⟩
  · rw [herror]
    exact Or.inl ⟨ec, rfl⟩
  · obtain ⟨hvalid, -⟩ := h.fill_eq_ok hready hok
    rw [hok, ok_bind, finish]
    dsimp only
    by_cases hneeded : 0 < s₁.bytesNeeded
    · rw [if_pos hneeded]
      exact Or.inr ⟨_, _, rfl, hvalid⟩
    · rw [if_neg hneeded]
      rcases hvalid.advance with ⟨ec, herror⟩ | ⟨s', hs', hvalid'⟩
      · rw [herror]
        exact Or.inl ⟨ec, rfl⟩
      · rw [hs']
        exact Or.inr ⟨_, _, rfl, hvalid'⟩

/-- Where no byte is missing, the pass is the same whatever comes behind. -/
theorem Valid.pass_append_of_le (h : s.Valid c) (hready : s.state ≠ .ready) {a : List Byte}
    (hle : s.bytesNeeded ≤ a.length) (b : List Byte) :
    s.pass c (a ++ b) = s.pass c a >>= fun r => .ok (r.1, r.2 ++ b) := by
  rw [h.pass_eq, h.pass_eq, h.fill_append hready]
  cases s.fill a with
  | error e => rfl
  | ok r =>
    simp only [ok_bind]
    rw [if_pos hle, ok_bind, finish, finish]
    dsimp only
    split_ifs
    · rfl
    · cases r.1.advance c with
      | error e => rfl
      | ok s' => rfl

/-- Where bytes are missing, the pass goes on when they come. -/
theorem Valid.pass_append_of_lt (h : s.Valid c) (hready : s.state ≠ .ready) {a : List Byte}
    (hlt : a.length < s.bytesNeeded) (b : List Byte) :
    s.pass c (a ++ b) = s.pass c a >>= fun r => r.1.pass c b := by
  rw [h.pass_eq, h.pass_eq, h.fill_append hready]
  cases hok : s.fill a with
  | error e => rfl
  | ok r =>
    obtain ⟨hvalid, -, hneeded, -⟩ := h.fill_eq_ok hready hok
    simp only [ok_bind]
    rw [if_neg (by omega), finish, if_pos (by omega), ok_bind, hvalid.pass_eq]

/-- What a pass that is short of bytes comes to. -/
theorem Valid.pass_of_lt (h : s.Valid c) (hready : s.state ≠ .ready) (hlt : buf.length < s.bytesNeeded)
    (hok : s.pass c buf = .ok (s', rest)) :
    rest = [] ∧ s'.state = s.state ∧ 0 < s'.bytesNeeded := by
  rw [h.pass_eq] at hok
  obtain ⟨⟨s₁, rest₁⟩, hfill, hok⟩ := bind_eq_ok.mp hok
  obtain ⟨-, hstate, hneeded, hrest⟩ := h.fill_eq_ok hready hfill
  rw [finish, if_pos (by dsimp only; omega)] at hok
  cases hok
  refine ⟨?_, hstate, by omega⟩
  rw [hrest]
  exact List.drop_eq_nil_of_le (by omega)

/-! ### The loop -/

/-- **A call keeps what holds, and is never undefined.**  It stops at a message, or when
it has used up its bytes and others are missing. -/
theorem Valid.consume_sound (h : s.Valid c) (buf : List Byte) :
    (∃ ec, consume c s buf = .error (.code ec)) ∨
      ∃ s' rest, consume c s buf = .ok (s', rest) ∧ s'.Valid c ∧ rest.length ≤ buf.length ∧
        (s'.state = .ready ∨ (rest = [] ∧ 0 < s'.bytesNeeded)) := by
  induction hn : s.work buf using Nat.strong_induction_on generalizing s buf with
  | _ n ih =>
    by_cases hrun : s.Runs buf
    · rw [consume_of_runs hrun]
      rcases h.pass_sound hrun.1 buf with ⟨ec, herror⟩ | ⟨s₁, rest₁, hok, hvalid⟩
      · rw [herror]
        exact Or.inl ⟨ec, rfl⟩
      · -- one pass leaves less to be done
        have hwork := work_pass hrun hok
        have hrank := s.rank_le
        have hless : rest₁.length ≤ buf.length := by
          unfold work at hwork
          omega
        rw [hok, ok_bind]
        rcases ih _ (hn ▸ hwork) hvalid rest₁ rfl with ⟨ec, herror⟩ |
          ⟨s', rest, hconsume, hvalid', hle, hend⟩
        · exact Or.inl ⟨ec, herror⟩
        · exact Or.inr ⟨s', rest, hconsume, hvalid', hle.trans hless, hend⟩
    · -- the loop has stopped: at a message, or because bytes are missing
      rw [consume_of_not_runs hrun]
      refine Or.inr ⟨s, buf, rfl, h, le_rfl, ?_⟩
      by_cases hready : s.state = .ready
      · exact Or.inl hready
      · right
        by_cases hbuf : buf = []
        · refine ⟨hbuf, Nat.pos_of_ne_zero fun hzero => hrun ⟨hready, h.ne_fatalError, Or.inr hzero⟩⟩
        · exact absurd ⟨hready, h.ne_fatalError, Or.inl hbuf⟩ hrun

/-- Where bytes are missing and some are there, some are used up. -/
theorem Valid.consume_lt (h : s.Valid c) (hready : s.state ≠ .ready) (hneeded : 0 < s.bytesNeeded)
    (hbuf : buf ≠ []) (hok : consume c s buf = .ok (s', rest)) : rest.length < buf.length := by
  have hlen : 0 < buf.length := List.length_pos_iff.mpr hbuf
  have hrun : s.Runs buf := ⟨hready, h.ne_fatalError, Or.inl hbuf⟩
  rw [consume_of_runs hrun] at hok
  obtain ⟨⟨s₁, rest₁⟩, hpass, hok⟩ := bind_eq_ok.mp hok
  rcases h.pass_sound hready buf with ⟨ec, herror⟩ | ⟨s₂, rest₂, hpass', hvalid⟩
  · rw [herror] at hpass
    cases hpass
  · rw [hpass'] at hpass
    cases hpass
    -- the first pass uses up some, and the others give none of them back
    have hless : rest₁.length < buf.length := by
      rw [h.pass_eq] at hpass'
      obtain ⟨⟨s₀, rest₀⟩, hfill, hfinish⟩ := bind_eq_ok.mp hpass'
      obtain ⟨-, -, -, hrest⟩ := h.fill_eq_ok hready hfill
      have hsame : rest₁ = rest₀ := by
        rw [finish] at hfinish
        split_ifs at hfinish
        · cases hfinish
          rfl
        · obtain ⟨s₃, -, hfinish⟩ := bind_eq_ok.mp hfinish
          cases hfinish
          rfl
      rw [hsame, hrest, List.length_drop]
      omega
    rcases hvalid.consume_sound rest₁ with ⟨ec, herror⟩ | ⟨s₃, rest₃, hconsume, -, hle, -⟩
    · rw [herror] at hok
      cases hok
    · rw [hconsume] at hok
      cases hok
      omega

theorem consume_nil (hneeded : 0 < s.bytesNeeded) : consume c s [] = .ok (s, []) := by
  refine consume_of_not_runs fun hruns => ?_
  rcases hruns.2.2 with hne | hzero
  · exact hne rfl
  · omega

/-- **The bytes of two calls are those of one.** -/
theorem Valid.consume_append (h : s.Valid c) (hready : s.state ≠ .ready) (a b : List Byte) :
    consume c s (a ++ b) = consume c s a >>= fun r =>
      if r.1.state = .ready then .ok (r.1, r.2 ++ b) else consume c r.1 b := by
  rcases eq_or_ne b [] with rfl | hb
  · -- nothing comes behind, and the loop has stopped where it had to
    rw [List.append_nil]
    rcases h.consume_sound a with ⟨ec, herror⟩ | ⟨s', rest, hok, hvalid, -, hend⟩
    · rw [herror]
      rfl
    · rw [hok, ok_bind]
      dsimp only
      rcases hend with hready' | ⟨rfl, hneeded⟩
      · rw [if_pos hready', List.append_nil]
      · split_ifs
        · rfl
        · rw [consume_nil hneeded]
  -- otherwise by induction on what the first call has to do
  induction hn : s.work a using Nat.strong_induction_on generalizing s a with
  | _ n ih =>
    by_cases hrun : s.Runs a
    · have hrunAll : s.Runs (a ++ b) := by
        refine ⟨hrun.1, hrun.2.1, ?_⟩
        rcases hrun.2.2 with hne | hzero
        · exact Or.inl fun hnil => hne (List.append_eq_nil_iff.mp hnil).1
        · exact Or.inr hzero
      rw [consume_of_runs hrun, consume_of_runs hrunAll]
      by_cases hle : s.bytesNeeded ≤ a.length
      · -- the pass does not look at what comes behind
        rw [h.pass_append_of_le hready hle]
        rcases h.pass_sound hready a with ⟨ec, herror⟩ | ⟨s₁, rest₁, hok, hvalid⟩
        · rw [herror]
          rfl
        · have hwork := work_pass hrun hok
          rw [hok]
          simp only [ok_bind]
          by_cases hready₁ : s₁.state = .ready
          · have hstop : ∀ buf, consume c s₁ buf = .ok (s₁, buf) :=
              fun buf => consume_of_not_runs fun hruns => hruns.1 hready₁
            rw [hstop, hstop, ok_bind, if_pos hready₁]
          · exact ih _ (hn ▸ hwork) hvalid hready₁ rest₁ rfl
      · -- the pass waits for what comes behind
        have hlt : a.length < s.bytesNeeded := not_le.mp hle
        rw [h.pass_append_of_lt hready hlt]
        rcases h.pass_sound hready a with ⟨ec, herror⟩ | ⟨s₁, rest₁, hok, hvalid⟩
        · rw [herror]
          rfl
        · obtain ⟨rfl, hstate, hneeded⟩ := h.pass_of_lt hready hlt hok
          have hready₁ : s₁.state ≠ .ready := by rwa [hstate]
          rw [hok]
          simp only [ok_bind]
          rw [consume_nil hneeded, ok_bind, if_neg hready₁,
            consume_of_runs ⟨hready₁, hvalid.ne_fatalError, Or.inl hb⟩]
    · rw [consume_of_not_runs hrun, ok_bind, if_neg hready]
      have hnil : a = [] := by
        by_contra hne
        exact hrun ⟨hready, h.ne_fatalError, Or.inl hne⟩
      rw [hnil, List.nil_append]

end Processor

/-! ### Reading -/

/-- A call of `consume`, and of `get_message` where a message is ready. -/
def read (c : Config) (s : Processor) (buf : List Byte) : Reader.Read Processor Byte Message Fault :=
  match consume c s buf with
  | .error e => .fail e
  | .ok (s', rest) =>
      match getMessage s' with
      | .error e => .fail e
      | .ok (none, s'') => .more s''
      | .ok (some msg, s'') => .item msg s'' rest

/-- A state between two calls: bytes are missing. -/
structure Resting (c : Config) (s : Processor) : Prop where
  valid : s.Valid c
  ne_ready : s.state ≠ .ready
  needed : 0 < s.bytesNeeded

theorem resting_init (c : Config) : Resting c .init := by
  refine ⟨Processor.valid_init c, ?_, Nat.zero_lt_two⟩
  intro h
  cases h

/-- A message that may be delivered: as far as it is one of text, it begins one in UTF-8,
and control messages are small. -/
def Deliverable (msg : Message) : Prop :=
  ∃ slot : Slot, slot.Takes msg.opcode ∧ (msg.opcode = .text → BeginsUtf8 msg.payload) ∧
    (slot = .control → msg.payload.length ≤ Limits.payloadSizeBasic)

theorem Slot.Takes.isControl {slot : Slot} {op : Opcode} (h : slot.Takes op) :
    op.isControl = true ↔ slot = .control := by
  cases slot with
  | data =>
    rcases h with rfl | rfl
    · decide
    · decide
  | control =>
    rcases h with rfl | rfl | rfl
    · decide
    · decide
    · decide

section Read

variable {c : Config} {s s' : Processor} {buf rest : List Byte} {msg : Message}

theorem getMessage_of_ne_ready (h : s.state ≠ .ready) : getMessage s = .ok (none, s) := by
  rw [getMessage, if_pos h]

/-- **A message that is ready is taken**, and another may be read. -/
theorem getMessage_of_ready (h : s.Valid c) (hready : s.state = .ready) :
    ∃ slot msg, s.currentMsg = some slot ∧ (s.metadata slot).msgPtr = some msg ∧ Deliverable msg ∧
      getMessage s = .ok (some msg,
        (s.setMetadata slot { s.metadata slot with msgPtr := none }).resetHeaders) ∧
      Resting c (s.setMetadata slot { s.metadata slot with msgPtr := none }).resetHeaders := by
  obtain ⟨slot, msg, hslot, hsound, htakes, hsmall⟩ := h.inMessage (Or.inr hready)
  refine ⟨slot, msg, hslot, hsound.msgPtr_eq, ⟨slot, htakes, ?_, ?_⟩, ?_, ⟨?_, ?_⟩, ?_, ?_⟩
  · exact fun htext => (hsound.follows htext).begins
  · exact fun hcontrol => (Nat.le_add_right _ _).trans (hsmall hcontrol)
  · rw [getMessage, if_neg (not_not_intro hready), hslot]
    dsimp only
    rw [hsound.msgPtr_eq]
    dsimp only
    cases slot with
    | data =>
      rw [if_neg fun hcontrol => by cases htakes.isControl.mp hcontrol]
      rfl
    | control =>
      rw [if_pos (htakes.isControl.mpr rfl)]
      rfl
  · cases slot with
    | data =>
      intro msg' hmsg'
      cases hmsg'
    | control => exact h.data
  · exact le_rfl
  · intro hstate
    cases hstate
  · exact Nat.zero_lt_two

/-- What a call of `consume` on a state between two calls comes to. -/
theorem Resting.read_cases (h : Resting c s) (buf : List Byte) :
    (∃ ec, consume c s buf = .error (.code ec) ∧ read c s buf = .fail (.code ec)) ∨
    (∃ s', consume c s buf = .ok (s', []) ∧ s'.state ≠ .ready ∧ Resting c s' ∧
      read c s buf = .more s') ∨
    ∃ s' rest msg s'', consume c s buf = .ok (s', rest) ∧ s'.state = .ready ∧ Resting c s'' ∧
      Deliverable msg ∧ rest.length < buf.length ∧ read c s buf = .item msg s'' rest ∧
      getMessage s' = .ok (some msg, s'') := by
  rcases h.valid.consume_sound buf with ⟨ec, herror⟩ | ⟨s', rest, hok, hvalid, -, hend⟩
  · left
    refine ⟨ec, herror, ?_⟩
    rw [read, herror]
  · right
    by_cases hready : s'.state = .ready
    · right
      obtain ⟨slot, msg, -, -, hdeliverable, hget, hresting⟩ := getMessage_of_ready hvalid hready
      -- a message does not become ready without a byte
      have hbuf : buf ≠ [] := by
        rintro rfl
        rw [Processor.consume_nil h.needed] at hok
        cases hok
        exact h.ne_ready hready
      refine ⟨s', rest, msg, _, hok, hready, hresting, hdeliverable,
        h.valid.consume_lt h.ne_ready h.needed hbuf hok, ?_, hget⟩
      rw [read, hok]
      dsimp only
      rw [hget]
    · left
      obtain ⟨rfl, hneeded⟩ := hend.resolve_left hready
      refine ⟨s', hok, hready, ⟨hvalid, hready, hneeded⟩, ?_⟩
      rw [read, hok]
      dsimp only
      rw [getMessage_of_ne_ready hready]

/-- **The processor is a reader of a stream.** -/
theorem streaming_read (c : Config) : Reader.Streaming (read c) (Resting c) where
  nil {s} h := by
    rw [read, Processor.consume_nil h.needed]
    dsimp only
    rw [getMessage_of_ne_ready h.ne_ready]
  append {s} h a b := by
    have happend := h.valid.consume_append h.ne_ready a b
    rcases h.read_cases a with ⟨ec, herror, hread⟩ | ⟨s', hok, hready, -, hread⟩ |
      ⟨s', rest, msg, s'', hok, hready, -, -, -, hread, hget⟩
    · rw [hread, Reader.feed, read, happend, herror]
      rfl
    · rw [hread, Reader.feed, read, happend, hok, ok_bind, if_neg hready, read]
    · rw [hread, Reader.feed, read, happend, hok, ok_bind, if_pos hready]
      dsimp only
      rw [hget]
  more {s a s₁} h hread := by
    rcases h.read_cases a with ⟨ec, -, hread'⟩ | ⟨s', -, -, hresting, hread'⟩ |
      ⟨s', rest, msg, s'', -, -, -, -, -, hread', -⟩
    · cases hread.symm.trans hread'
    · cases hread.symm.trans hread'
      exact hresting
    · cases hread.symm.trans hread'
  item {s a i s₁ rest} h hread := by
    rcases h.read_cases a with ⟨ec, -, hread'⟩ | ⟨s', -, -, -, hread'⟩ |
      ⟨s', rest, msg, s'', -, -, hresting, -, hlt, hread', -⟩
    · cases hread.symm.trans hread'
    · cases hread.symm.trans hread'
    · cases hread.symm.trans hread'
      exact ⟨hresting, hlt⟩

/-- What is read off a stream: messages that may be delivered, and an error code if it
is not one of frames. -/
theorem deliverable_of_reads {bytes : List Byte} {msgs : List Message} {r : Except Fault Processor}
    (h : Resting c s) (hreads : Reader.Reads (read c) s bytes msgs r) :
    (∀ msg ∈ msgs, Deliverable msg) ∧ ∀ e, r = .error e → ∃ ec, e = .code ec := by
  induction hreads with
  | more hread =>
    refine ⟨fun msg hmsg => absurd hmsg List.not_mem_nil, ?_⟩
    intro e he
    cases he
  | @fail s bytes e hread =>
    refine ⟨fun msg hmsg => absurd hmsg List.not_mem_nil, ?_⟩
    intro e' he
    cases he
    rcases h.read_cases bytes with ⟨ec, -, hread'⟩ | ⟨_, -, -, -, hread'⟩ |
      ⟨_, _, _, _, -, -, -, -, -, hread', -⟩
    · cases hread.symm.trans hread'
      exact ⟨ec, rfl⟩
    · cases hread.symm.trans hread'
    · cases hread.symm.trans hread'
  | @item s bytes msg s' rest msgs r hread _ ih =>
    rcases h.read_cases bytes with ⟨ec, -, hread'⟩ | ⟨_, -, -, -, hread'⟩ |
      ⟨_, _, _, _, -, -, hresting, hdeliverable, -, hread', -⟩
    · cases hread.symm.trans hread'
    · cases hread.symm.trans hread'
    · cases hread.symm.trans hread'
      obtain ⟨hmsgs, herror⟩ := ih hresting
      exact ⟨List.forall_mem_cons.mpr ⟨hdeliverable, hmsgs⟩, herror⟩

end Read

/-- **The bytes of a connection decide the messages**, however they arrive: each cutting
of them is read, to the same messages and the same end, and no step of it is undefined.
Each message may be delivered, and what goes wrong is an error code. -/
theorem bytes_decide_messages (c : Config) (bytes : List Byte) :
    ∃ (msgs : List Message) (r : Except Fault Processor),
      (∀ chunks : List (List Byte), chunks.flatten = bytes → ∀ msgs' r',
        Reader.ReadsChunks (read c) .init chunks msgs' r' ↔ msgs' = msgs ∧ r' = r) ∧
      (∀ msg ∈ msgs, Deliverable msg) ∧ ∀ e, r = .error e → ∃ ec, e = .code ec := by
  obtain ⟨msgs, r, hreads⟩ := (streaming_read c).exists_reads (resting_init c) bytes
  refine ⟨msgs, r, ?_, deliverable_of_reads (resting_init c) hreads⟩
  rintro chunks rfl msgs' r'
  rw [(streaming_read c).readsChunks_iff (resting_init c)]
  constructor
  · exact fun hreads' => hreads'.unique hreads
  · rintro ⟨rfl, rfl⟩
    exact hreads

end Websocketpp
end IntBlock
