import IntBlock.Websocketpp.Delivery

/-!
# The closing handshake

A side that closes sends a close frame with a code and a reason, the other one answers
it, and each remembers what the other has sent.

## Main definitions

* `prepareClose`, `extractCode`, `extractReason` — the payload of a close frame.
* `Endpoint` — one side, with `Endpoint.close` and `Endpoint.processClose`.
* `World`, `World.Step` — both sides, and the close frames between them.

## Main results

* `closePayload_eq_ok` — **a code and a reason are read as they were sent.**
* `close_frame_answered` — a close frame is answered, whatever it holds.
* `close_handshake` — **each side sends one close frame at most**, and who takes the
  handshake to be clean knows what the other has sent.
-/

namespace IntBlock
namespace Websocketpp

open Endian

/-! ### Close codes -/

/-- `websocketpp::error`, as far as closing can lead to one, and what `prepare_close`
returns. -/
inductive ConnectionError
  | invalidState
  | badCloseCode
  | invalidCloseCode
  | reservedCloseCode
  | invalidUtf8
  | processor (ec : ErrorCode)
  deriving DecidableEq, Repr

namespace CloseStatus

def blank : ℕ := 0
def normal : ℕ := 1000
def protocolError : ℕ := 1002
def noStatus : ℕ := 1005
def abnormalClose : ℕ := 1006
def invalidPayload : ℕ := 1007
def policyViolation : ℕ := 1008
def messageTooBig : ℕ := 1009
def internalEndpointError : ℕ := 1011
def tlsHandshake : ℕ := 1015
def rsvStart : ℕ := 1016
def rsvEnd : ℕ := 2999
def invalidLow : ℕ := 999
def invalidHigh : ℕ := 5000

def reserved (code : ℕ) : Bool := (rsvStart ≤ code && code ≤ rsvEnd) || code = 1004

def invalid (code : ℕ) : Bool :=
  code ≤ invalidLow || invalidHigh ≤ code || code = noStatus || code = abnormalClose ||
    code = tlsHandshake

def terminal (code : ℕ) : Bool :=
  code = protocolError || code = invalidPayload || code = policyViolation ||
    code = messageTooBig || code = internalEndpointError

end CloseStatus

open CloseStatus

/-- The second check replaces the error of the first. -/
def extractCode : List Byte → ℕ × Option ConnectionError
  | [] => (noStatus, none)
  | [_] => (protocolError, some .badCloseCode)
  | b₀ :: b₁ :: _ =>
      let code := swap 2 (value [b₀, b₁])
      (code, if reserved code then some .reservedCloseCode
        else if invalid code then some .invalidCloseCode
        else none)

def extractReason (payload : List Byte) : List Byte × Option ConnectionError :=
  let reason := if 2 < payload.length then payload.drop 2 else []
  (reason, if validate reason then none else some .invalidUtf8)

/-- The payload `prepare_close` makes, where it makes one. -/
def closePayload (code : ℕ) (reason : List Byte) : Except ErrorCode (List Byte) :=
  if reserved code then .error .reservedCloseCode
  else if invalid code ∧ code ≠ noStatus then .error .invalidCloseCode
  else if code = noStatus ∧ 0 < reason.length then .error .reasonRequiresCode
  else if Limits.payloadSizeBasic - 2 < reason.length then .error .controlTooBig
  else .ok (if code ≠ noStatus then image 2 (swap 2 code) ++ reason else [])

def prepareClose (server : Bool) (key : BitVec 32) (code : ℕ) (reason : List Byte) (out : Message) :
    Except ErrorCode Message := do
  let payload ← closePayload code reason
  prepareControl server key .close payload out

/-! ### One side -/

/-- `session::state` -/
inductive SessionState
  | connecting
  | opened
  | closing
  | closed
  deriving DecidableEq, Repr

/-- The members of `connection` that closing is about. -/
structure Endpoint where
  server : Bool
  state : SessionState
  wasClean : Bool
  localCode : ℕ
  localReason : List Byte
  remoteCode : ℕ
  remoteReason : List Byte

/-- A side after the opening handshake. -/
def Endpoint.start (server : Bool) : Endpoint where
  server := server
  state := .opened
  wasClean := false
  localCode := abnormalClose
  localReason := []
  remoteCode := abnormalClose
  remoteReason := []

/-- A close frame to be written, and whether the connection is dropped after it. -/
structure CloseFrame where
  payload : List Byte
  terminal : Bool

/-- A text of the source. -/
def ascii (s : String) : List Byte := s.toList.map fun ch => BitVec.ofNat 8 ch.toNat

namespace Endpoint

/-- The code and the reason that are sent: those asked for, or none, or in an answer those
of the other side. -/
def closeInfo (e : Endpoint) (code : ℕ) (reason : List Byte) (ack : Bool) : ℕ × List Byte :=
  if code ≠ blank then (code, reason)
  else if ack = false then (noStatus, [])
  else if e.remoteCode = noStatus then (normal, [])
  else (e.remoteCode, e.remoteReason)

def sendCloseFrame (e : Endpoint) (code : ℕ) (reason : List Byte) (ack terminal : Bool) :
    Endpoint × Except ConnectionError CloseFrame :=
  let r := e.closeInfo code reason ack
  let e' := { e with localCode := r.1, localReason := r.2 }
  match closePayload r.1 r.2 with
  | .error ec => (e', .error (.processor ec))
  | .ok payload =>
      ({ e' with state := .closing, wasClean := ack || e.wasClean }, .ok ⟨payload, terminal⟩)

def sendCloseAck (e : Endpoint) (code : ℕ) (reason : List Byte) :
    Endpoint × Except ConnectionError CloseFrame :=
  e.sendCloseFrame code reason true e.server

def close (e : Endpoint) (code : ℕ) (reason : List Byte) :
    Endpoint × Except ConnectionError CloseFrame :=
  let tr := reason.take Limits.closeReasonSize
  if e.state ≠ .opened then (e, .error .invalidState)
  else e.sendCloseFrame code tr false (terminal code)

/-- `process_control_frame` for a close frame; what is written, if anything is. -/
def processClose (e : Endpoint) (payload : List Byte) : Endpoint × Option CloseFrame :=
  if e.state = .closed then (e, none)
  else
    let code := extractCode payload
    let e₁ := { e with remoteCode := code.1 }
    if code.2.isSome then
      ((e₁.sendCloseAck protocolError (ascii "Invalid close code")).1,
        (e₁.sendCloseAck protocolError (ascii "Invalid close code")).2.toOption)
    else
      let reason := extractReason payload
      let e₂ := { e₁ with remoteReason := reason.1 }
      if reason.2.isSome then
        ((e₂.sendCloseAck protocolError (ascii "Invalid close reason")).1,
          (e₂.sendCloseAck protocolError (ascii "Invalid close reason")).2.toOption)
      else if e.state = .opened then
        ((e₂.sendCloseAck blank []).1, (e₂.sendCloseAck blank []).2.toOption)
      else if e.state = .closing ∧ e.wasClean = false then
        ({ e₂ with wasClean := true, state := if e.server then .closed else .closing }, none)
      else (e₂, none)

/-- `terminate(ec)`; `message` is that of the error, if there is one. -/
def terminate (e : Endpoint) (message : Option (List Byte)) : Endpoint :=
  match message with
  | none => { e with state := .closed }
  | some text => { e with localCode := abnormalClose, localReason := text, state := .closed }

end Endpoint

/-! ### Payloads -/

theorem extractReason_snd (payload : List Byte) :
    (extractReason payload).2 = none ↔ IsUtf8 (extractReason payload).1 := by
  rw [← validate_iff]
  unfold extractReason
  dsimp only
  by_cases h : validate (if 2 < payload.length then payload.drop 2 else []) = true
  · rw [if_pos h]
    exact ⟨fun _ => h, fun _ => rfl⟩
  · rw [if_neg h]
    constructor
    · intro hnone
      cases hnone
    · exact fun h' => absurd h' h

/-- **A code and a reason are read as they were sent.** -/
theorem closePayload_eq_ok {code : ℕ} {reason payload : List Byte}
    (h : closePayload code reason = .ok payload) :
    extractCode payload = (code, none) ∧ (extractReason payload).1 = reason ∧
      payload.length ≤ Limits.payloadSizeBasic := by
  unfold closePayload at h
  split_ifs at h with hreserved hinvalid hneeds hbig hstatus
  · cases h
    -- a code that is not refused has two bytes
    have hcode : code < 256 ^ 2 := by
      have hvalid : invalid code ≠ true := fun hi => hinvalid ⟨hi, hstatus⟩
      have hlt : code < 5000 := by
        by_contra hge
        apply hvalid
        simp [invalid, invalidHigh, not_lt.mp hge]
      omega
    have hbytes : image 2 (swap 2 code) = (image 2 code).reverse := image_swap 2 code
    have hvalue : ∃ b₀ b₁, image 2 (swap 2 code) = [b₀, b₁] := by
      have hlen := length_image 2 (swap 2 code)
      match himage : image 2 (swap 2 code), hlen with
      | [b₀, b₁], _ => exact ⟨b₀, b₁, rfl⟩
    obtain ⟨b₀, b₁, himage⟩ := hvalue
    have hswap : swap 2 (value [b₀, b₁]) = code := by
      rw [← himage, hbytes]
      exact swap_swap hcode
    refine ⟨?_, ?_, ?_⟩
    · rw [himage]
      change ((swap 2 (value [b₀, b₁]), _) : ℕ × Option ConnectionError) = _
      rw [hswap, if_neg hreserved, if_neg fun hi => hinvalid ⟨hi, hstatus⟩]
    · rw [himage, extractReason]
      cases reason with
      | nil => rfl
      | cons b bs => simp
    · rw [himage]
      simp only [List.length_append, List.length_cons, List.length_nil]
      unfold Limits.payloadSizeBasic at hbig ⊢
      omega
  · cases h
    have hempty : reason = [] := by
      by_contra hne
      exact hneeds ⟨not_not.mp hstatus, List.length_pos_of_ne_nil hne⟩
    refine ⟨?_, ?_, Nat.zero_le _⟩
    · rw [not_not.mp hstatus]
      rfl
    · rw [hempty]
      rfl

/-- What has been read from a close frame may be sent in another one. -/
theorem exists_closePayload {payload : List Byte} (hcode : (extractCode payload).2 = none)
    (hsize : payload.length ≤ Limits.payloadSizeBasic)
    (hstatus : (extractCode payload).1 ≠ noStatus) :
    ∃ p, closePayload (extractCode payload).1 (extractReason payload).1 = .ok p := by
  have hlen : (extractReason payload).1.length ≤ Limits.payloadSizeBasic - 2 := by
    unfold extractReason
    dsimp only
    split_ifs
    · rw [List.length_drop]
      omega
    · exact Nat.zero_le _
  match payload with
  | [] => exact absurd rfl hstatus
  | [_] => cases hcode
  | b₀ :: b₁ :: rest =>
    unfold closePayload
    -- `extract_code` refuses the codes that are not to be sent
    have hreserved : reserved (extractCode (b₀ :: b₁ :: rest)).1 ≠ true := by
      intro hr
      unfold extractCode at hcode hr
      dsimp only at hcode hr
      rw [if_pos hr] at hcode
      cases hcode
    have hinvalid : invalid (extractCode (b₀ :: b₁ :: rest)).1 ≠ true := by
      intro hi
      unfold extractCode at hcode hi hreserved
      dsimp only at hcode hi hreserved
      rw [if_neg hreserved, if_pos hi] at hcode
      cases hcode
    rw [if_neg hreserved, if_neg fun h => hinvalid h.1, if_neg fun h => hstatus h.1,
      if_neg (not_lt.mpr hlen)]
    exact ⟨_, rfl⟩

/-- A close frame on the wire. -/
theorem prepareClose_eq {server : Bool} {key : BitVec 32} {code : ℕ} {reason payload : List Byte}
    {out : Message} (h : closePayload code reason = .ok payload) :
    prepareClose server key code reason out = .ok (prepareFrame server key .close true payload out) := by
  obtain ⟨-, -, hsize⟩ := closePayload_eq_ok h
  rw [prepareClose, h]
  change prepareControl server key .close payload out = _
  rw [prepareControl, if_neg (by decide), if_neg (not_lt.mpr hsize)]

/-- **A close frame is read on the other side** with its code and its reason, also within a
message that has been begun. -/
theorem Between.reads_close {c : Config} {s : Processor} {d : Begun} (h : Between c s d)
    {key : BitVec 32} {code : ℕ} {reason payload : List Byte} {out : Message}
    (hpayload : closePayload code reason = .ok payload) :
    ∃ msg s', prepareClose (!c.server) key code reason out = .ok msg ∧
      Reader.Reads (read c) s msg.bytes [received .close payload] (.ok s') ∧ Between c s' d ∧
      extractCode payload = (code, none) ∧ (extractReason payload).1 = reason := by
  obtain ⟨hcode, hreason, hsize⟩ := closePayload_eq_ok hpayload
  have hstep : Step c.maxMessageSize d ⟨.close, true, payload⟩ [received .close payload] d :=
    .control (Or.inl rfl) rfl hsize
  obtain ⟨s', hreads, hbetween⟩ := h.reads_frame hstep key out
  exact ⟨_, s', prepareClose_eq hpayload, hreads, hbetween, hcode, hreason⟩

/-! ### What one side does -/

/-- A close frame that is read without an error. -/
def WellFormed (payload : List Byte) : Prop :=
  (extractCode payload).2 = none ∧ (extractReason payload).2 = none ∧
    payload.length ≤ Limits.payloadSizeBasic

namespace Endpoint

variable {e : Endpoint} {code : ℕ} {reason payload : List Byte} {ack terminal : Bool}

/-- What sending a close frame changes, where it is refused and where it is not. -/
theorem sendCloseFrame_cases (e : Endpoint) (code : ℕ) (reason : List Byte) (ack terminal : Bool) :
    (∃ e' ec, e.sendCloseFrame code reason ack terminal = (e', .error (.processor ec)) ∧
      closePayload (e.closeInfo code reason ack).1 (e.closeInfo code reason ack).2 = .error ec ∧
      e'.state = e.state ∧ e'.wasClean = e.wasClean) ∨
    ∃ e' p, e.sendCloseFrame code reason ack terminal = (e', .ok ⟨p, terminal⟩) ∧
      closePayload e'.localCode e'.localReason = .ok p ∧
      (e'.localCode, e'.localReason) = e.closeInfo code reason ack ∧
      e'.state = .closing ∧ e'.wasClean = (ack || e.wasClean) ∧
      e'.remoteCode = e.remoteCode ∧ e'.remoteReason = e.remoteReason := by
  unfold sendCloseFrame
  dsimp only
  cases hpayload : closePayload (e.closeInfo code reason ack).1 (e.closeInfo code reason ack).2 with
  | error ec => exact Or.inl ⟨_, ec, rfl, rfl, rfl, rfl⟩
  | ok p => exact Or.inr ⟨_, p, rfl, hpayload, rfl, rfl, rfl, rfl, rfl⟩

/-- The answer to a close frame that is well formed: its code and its reason, and the code
of a normal end if it has none. -/
def answer (payload : List Byte) : ℕ × List Byte :=
  if (extractCode payload).1 = noStatus then (normal, [])
  else ((extractCode payload).1, (extractReason payload).1)

theorem exists_answer (h : WellFormed payload) :
    ∃ p, closePayload (answer payload).1 (answer payload).2 = .ok p := by
  unfold answer
  by_cases hstatus : (extractCode payload).1 = noStatus
  · rw [if_pos hstatus]
    exact ⟨_, rfl⟩
  · rw [if_neg hstatus]
    exact exists_closePayload h.1 h.2.2 hstatus

/-- **A close frame that is well formed is answered** by a side that has sent none. -/
theorem processClose_opened (h : WellFormed payload) (hopened : e.state = .opened) :
    ∃ e' p, e.processClose payload = (e', some ⟨p, e.server⟩) ∧
      closePayload e'.localCode e'.localReason = .ok p ∧
      (e'.localCode, e'.localReason) = answer payload ∧ e'.state = .closing ∧ e'.wasClean = true ∧
      e'.remoteCode = (extractCode payload).1 ∧ e'.remoteReason = (extractReason payload).1 := by
  let e₁ : Endpoint := { e with
    remoteCode := (extractCode payload).1
    remoteReason := (extractReason payload).1 }
  have hprocess : e.processClose payload =
      ((e₁.sendCloseAck blank []).1, (e₁.sendCloseAck blank []).2.toOption) := by
    unfold processClose
    dsimp only
    rw [if_neg (by rw [hopened]; decide), if_neg (by rw [h.1]; decide),
      if_neg (by rw [h.2.1]; decide), if_pos hopened]
  have hinfo : e₁.closeInfo blank [] true = answer payload := by
    rw [closeInfo, if_neg (not_not_intro rfl), if_neg (by decide), answer]
  rcases e₁.sendCloseFrame_cases blank [] true e.server with ⟨e', ec, -, herror, -⟩ |
    ⟨e', p, hsend, hp, hlocal, hclosing, hclean, hcode, hreason⟩
  · -- the answer is never refused
    obtain ⟨p, hp⟩ := exists_answer h
    rw [hinfo, hp] at herror
    cases herror
  · refine ⟨e', p, ?_, hp, hlocal.trans hinfo, hclosing, hclean, hcode, hreason⟩
    have hack : e₁.sendCloseAck blank [] = (e', .ok ⟨p, e.server⟩) := hsend
    rw [hprocess, hack]
    rfl

/-- A close frame with an error in it is answered with a code of its own. -/
theorem processClose_illFormed (h : (extractCode payload).2 ≠ none ∨ (extractReason payload).2 ≠ none)
    (hopened : e.state = .opened) :
    ∃ e' p, e.processClose payload = (e', some ⟨p, e.server⟩) ∧ e'.state = .closing ∧
      e'.wasClean = true ∧ e'.remoteCode = (extractCode payload).1 ∧
      closePayload protocolError (if (extractCode payload).2 = none then ascii "Invalid close reason"
        else ascii "Invalid close code") = .ok p := by
  unfold processClose
  dsimp only
  rw [if_neg (by rw [hopened]; decide)]
  by_cases hcode : (extractCode payload).2 = none
  · have hreason : (extractReason payload).2.isSome = true :=
      Option.isSome_iff_ne_none.mpr (h.resolve_left fun hne => hne hcode)
    rw [if_neg (by rw [hcode]; decide), if_pos hreason, if_pos hcode]
    exact ⟨_, _, rfl, rfl, rfl, rfl, rfl⟩
  · rw [if_pos (Option.isSome_iff_ne_none.mpr hcode), if_neg hcode]
    exact ⟨_, _, rfl, rfl, rfl, rfl, rfl⟩

/-- The answer of the other side makes a close clean. -/
theorem processClose_closing (h : WellFormed payload) (hclosing : e.state = .closing)
    (hclean : e.wasClean = false) :
    e.processClose payload = ({ e with
      remoteCode := (extractCode payload).1
      remoteReason := (extractReason payload).1
      wasClean := true
      state := if e.server then .closed else .closing }, none) := by
  unfold processClose
  dsimp only
  rw [if_neg (by rw [hclosing]; decide), if_neg (by rw [h.1]; decide), if_neg (by rw [h.2.1]; decide),
    if_neg (by rw [hclosing]; decide), if_pos ⟨hclosing, hclean⟩]

end Endpoint

/-! ### What holds of a side -/

/-- What holds of a side that has sent `sent`, of which `flight` has not been read, while
the other one has sent `sent'`, of which `flight'` has not been read. -/
structure Side (e : Endpoint) (sent flight sent' flight' : List CloseFrame) : Prop where
  wellFormed : ∀ m ∈ sent, WellFormed m.payload
  once : sent.length ≤ 1
  flight_eq : flight = sent ∨ flight = []
  opened : e.state = .opened → sent = [] ∧ e.wasClean = false
  connected : e.state ≠ .connecting
  closing : e.state = .closing → sent ≠ []
  own : ∀ m ∈ sent, e.localCode = abnormalClose ∨
    (e.localCode = (extractCode m.payload).1 ∧ e.localReason = (extractReason m.payload).1)
  clean : e.wasClean = true → sent ≠ [] ∧ ∃ m, sent' = [m] ∧ flight' = [] ∧
    e.remoteCode = (extractCode m.payload).1 ∧ e.remoteReason = (extractReason m.payload).1
  read : e.state ≠ .closed → flight' = [] → sent' ≠ [] → e.wasClean = true

theorem wellFormed_of_closePayload {code : ℕ} {reason payload : List Byte}
    (h : closePayload code reason = .ok payload) (hreason : IsUtf8 reason) : WellFormed payload := by
  obtain ⟨hcode, hsame, hsize⟩ := closePayload_eq_ok h
  refine ⟨by rw [hcode], ?_, hsize⟩
  rw [extractReason_snd, hsame]
  exact hreason

theorem isUtf8_nil : IsUtf8 [] := (validate_iff []).mp rfl

theorem isUtf8_answer {payload : List Byte} (h : WellFormed payload) :
    IsUtf8 (Endpoint.answer payload).2 := by
  unfold Endpoint.answer
  split_ifs
  · exact isUtf8_nil
  · exact (extractReason_snd payload).mp h.2.1

/-- What is sent without being an answer is what was asked for, or nothing. -/
theorem isUtf8_closeInfo (e : Endpoint) (code : ℕ) {reason : List Byte} (h : IsUtf8 reason) :
    IsUtf8 (e.closeInfo code reason false).2 := by
  unfold Endpoint.closeInfo
  by_cases hcode : code ≠ blank
  · rw [if_pos hcode]
    exact h
  · rw [if_neg hcode, if_pos rfl]
    exact isUtf8_nil

namespace Side

variable {e e' : Endpoint} {sent flight sent' flight' rest : List CloseFrame} {m : CloseFrame}

/-- The first close frame of a side, however it comes to be sent. -/
theorem send {e₁ : Endpoint} {p : List Byte} {terminal : Bool} (hstate : e₁.state = .closing)
    (hp : closePayload e₁.localCode e₁.localReason = .ok p)
    (hreason : IsUtf8 e₁.localReason)
    (hclean : e₁.wasClean = true → ∃ m, sent' = [m] ∧ flight' = [] ∧
      e₁.remoteCode = (extractCode m.payload).1 ∧ e₁.remoteReason = (extractReason m.payload).1)
    (hread : flight' = [] → sent' ≠ [] → e₁.wasClean = true) :
    Side e₁ [⟨p, terminal⟩] [⟨p, terminal⟩] sent' flight' where
  wellFormed m hm := by
    rw [List.mem_singleton.mp hm]
    exact wellFormed_of_closePayload hp hreason
  once := le_rfl
  flight_eq := Or.inl rfl
  opened ho := by cases hstate.symm.trans ho
  connected hc := by cases hstate.symm.trans hc
  closing _ := List.cons_ne_nil _ _
  own m hm := by
    rw [List.mem_singleton.mp hm]
    obtain ⟨hcode, hsame, -⟩ := closePayload_eq_ok hp
    exact Or.inr ⟨by rw [hcode], hsame.symm⟩
  clean hc := ⟨List.cons_ne_nil _ _, hclean hc⟩
  read _ := hread

/-- A side that has not been heard of yet is not clean on the other side. -/
theorem other_send (h : Side e' sent' flight' [] []) (m : CloseFrame) :
    Side e' sent' flight' [m] [m] where
  wellFormed := h.wellFormed
  once := h.once
  flight_eq := h.flight_eq
  opened := h.opened
  connected := h.connected
  closing := h.closing
  own := h.own
  clean hc := by
    obtain ⟨-, _, hnone, -⟩ := h.clean hc
    cases hnone
  read _ hnone := by cases hnone

/-- **Closing** keeps what holds on both sides. -/
theorem close (h : Side e sent flight sent' flight') (h' : Side e' sent' flight' sent flight)
    (code : ℕ) {reason : List Byte} (hreason : IsUtf8 (reason.take Limits.closeReasonSize)) :
    Side (e.close code reason).1 (sent ++ (e.close code reason).2.toOption.toList)
        (flight ++ (e.close code reason).2.toOption.toList) sent' flight' ∧
      Side e' sent' flight' (sent ++ (e.close code reason).2.toOption.toList)
        (flight ++ (e.close code reason).2.toOption.toList) := by
  unfold Endpoint.close
  dsimp only
  by_cases hopened : e.state = .opened
  · rw [if_neg (not_not_intro hopened)]
    obtain ⟨rfl, hunclean⟩ := h.opened hopened
    obtain rfl : flight = [] := by rcases h.flight_eq with hf | hf <;> exact hf
    rcases e.sendCloseFrame_cases code (reason.take Limits.closeReasonSize) false (terminal code) with
      ⟨e₁, ec, hsend, -, hstate, hclean⟩ | ⟨e₁, p, hsend, hp, hlocal, hstate, hclean, -, -⟩
    · -- refused: nothing has been sent, and the side is still open
      rw [hsend]
      refine ⟨⟨h.wellFormed, h.once, Or.inl rfl, fun _ => ⟨rfl, hclean.trans hunclean⟩, ?_, ?_, ?_,
        ?_, ?_⟩, h'⟩
      · rw [hstate, hopened]
        decide
      · rw [hstate, hopened]
        intro hclosing
        cases hclosing
      · exact fun m hm => absurd hm List.not_mem_nil
      · intro hc
        rw [hclean, hunclean] at hc
        cases hc
      · intro _ hnone hsome
        rw [hclean]
        exact h.read (by rw [hopened]; decide) hnone hsome
    · rw [hsend]
      have hutf8 : IsUtf8 e₁.localReason := by
        have hinfo := isUtf8_closeInfo e code hreason
        rwa [← hlocal] at hinfo
      refine ⟨send hstate hp hutf8 ?_ ?_, h'.other_send _⟩
      · intro hc
        rw [hclean, hunclean] at hc
        cases hc
      · intro hnone hsome
        rw [hclean, h.read (by rw [hopened]; decide) hnone hsome]
        rfl
  · rw [if_pos hopened]
    simp only [Except.toOption, Option.toList_none, List.append_nil]
    exact ⟨h, h'⟩

/-- Once read, a close frame is not in flight. -/
theorem other_read (h : Side e' sent' [m] sent flight) : Side e' sent' [] sent flight where
  wellFormed := h.wellFormed
  once := h.once
  flight_eq := Or.inr rfl
  opened := h.opened
  connected := h.connected
  closing := h.closing
  own := h.own
  clean := h.clean
  read := h.read

/-- **Reading a close frame** keeps what holds on both sides. -/
theorem deliver (h : Side e sent flight sent' (m :: rest))
    (h' : Side e' sent' (m :: rest) sent flight) :
    Side (e.processClose m.payload).1 (sent ++ (e.processClose m.payload).2.toList)
        (flight ++ (e.processClose m.payload).2.toList) sent' rest ∧
      Side e' sent' rest (sent ++ (e.processClose m.payload).2.toList)
        (flight ++ (e.processClose m.payload).2.toList) := by
  -- it is the only one that the other side has sent
  obtain rfl : m :: rest = sent' := h'.flight_eq.resolve_right (List.cons_ne_nil _ _)
  obtain rfl : rest = [] := List.length_eq_zero_iff.mp (Nat.le_zero.mp (Nat.le_of_succ_le_succ h'.once))
  have hformed : WellFormed m.payload := h'.wellFormed m (List.mem_singleton_self m)
  have hunclean : e.wasClean = false := by
    by_contra hclean
    obtain ⟨-, _, -, hnone, -⟩ := h.clean (by simpa using hclean)
    cases hnone
  cases hstate : e.state with
  | connecting => exact absurd hstate h.connected
  | opened =>
    -- the other side has closed first, and is answered
    obtain ⟨rfl, -⟩ := h.opened hstate
    obtain rfl : flight = [] := by rcases h.flight_eq with hf | hf <;> exact hf
    obtain ⟨e₁, p, hprocess, hp, hlocal, hclosing, hclean, hcode, hreason⟩ :=
      Endpoint.processClose_opened hformed hstate
    have hutf8 : IsUtf8 e₁.localReason := by
      have hanswer := isUtf8_answer hformed
      rwa [← hlocal] at hanswer
    rw [hprocess]
    exact ⟨send hclosing hp hutf8 (fun _ => ⟨m, rfl, rfl, hcode, hreason⟩) fun _ _ => hclean,
      h'.other_read.other_send _⟩
  | closing =>
    -- this side has closed before: what it reads is the answer, or a frame that crossed its own
    rw [Endpoint.processClose_closing hformed hstate hunclean]
    simp only [Option.toList_none, List.append_nil]
    refine ⟨⟨h.wellFormed, h.once, h.flight_eq, ?_, ?_, fun _ => h.closing hstate, h.own, ?_,
      fun _ _ _ => rfl⟩, h'.other_read⟩
    · dsimp only
      split_ifs
      · intro ho
        cases ho
      · intro ho
        cases ho
    · dsimp only
      split_ifs
      · decide
      · decide
    · exact fun _ => ⟨h.closing hstate, m, rfl, rfl, rfl, rfl⟩
  | closed =>
    -- nobody reads it any more
    have hprocess : e.processClose m.payload = (e, none) := by rw [Endpoint.processClose, if_pos hstate]
    rw [hprocess]
    simp only [Option.toList_none, List.append_nil]
    refine ⟨⟨h.wellFormed, h.once, h.flight_eq, h.opened, h.connected, h.closing, h.own, ?_, ?_⟩,
      h'.other_read⟩
    · intro hclean
      rw [hunclean] at hclean
      cases hclean
    · exact fun hopen => absurd hstate hopen

theorem terminate (h : Side e sent flight sent' flight') (message : Option (List Byte)) :
    Side (e.terminate message) sent flight sent' flight' := by
  cases message with
  | none =>
    exact ⟨h.wellFormed, h.once, h.flight_eq, fun ho => (by cases ho), fun hc => (by cases hc),
      fun hc => (by cases hc), h.own, h.clean, fun hopen => absurd rfl hopen⟩
  | some text =>
    exact ⟨h.wellFormed, h.once, h.flight_eq, fun ho => (by cases ho), fun hc => (by cases hc),
      fun hc => (by cases hc), fun _ _ => Or.inl rfl, h.clean, fun hopen => absurd rfl hopen⟩

end Side

/-- **A close frame is answered, whatever it holds**: with its own code and reason, with
the code of a normal end if it has none, or with that of an error; and what is sent is a
close frame without an error. -/
theorem close_frame_answered {e : Endpoint} {payload : List Byte} (hopened : e.state = .opened)
    (hsize : payload.length ≤ Limits.payloadSizeBasic) :
    ∃ e' p, e.processClose payload = (e', some ⟨p, e.server⟩) ∧ e'.state = .closing ∧
      e'.wasClean = true ∧ e'.remoteCode = (extractCode payload).1 ∧ WellFormed p ∧
      ((extractCode p).1, (extractReason p).1) =
        if (extractCode payload).2 ≠ none then (protocolError, ascii "Invalid close code")
        else if (extractReason payload).2 ≠ none then (protocolError, ascii "Invalid close reason")
        else if (extractCode payload).1 = noStatus then (normal, [])
        else ((extractCode payload).1, (extractReason payload).1) := by
  by_cases hformed : WellFormed payload
  · obtain ⟨e', p, hprocess, hp, hlocal, hclosing, hclean, hcode, -⟩ :=
      Endpoint.processClose_opened hformed hopened
    have hutf8 := isUtf8_answer hformed
    rw [← hlocal] at hutf8
    obtain ⟨hsent, hsame, -⟩ := closePayload_eq_ok hp
    refine ⟨e', p, hprocess, hclosing, hclean, hcode, wellFormed_of_closePayload hp hutf8, ?_⟩
    rw [if_neg (not_not_intro hformed.1), if_neg (not_not_intro hformed.2.1), hsent, hsame]
    exact hlocal
  · -- what is not well formed is so by its code or its reason
    have herror : (extractCode payload).2 ≠ none ∨ (extractReason payload).2 ≠ none := by
      by_contra hnone
      rw [not_or, not_not, not_not] at hnone
      exact hformed ⟨hnone.1, hnone.2, hsize⟩
    obtain ⟨e', p, hprocess, hclosing, hclean, hcode, hp⟩ :=
      Endpoint.processClose_illFormed herror hopened
    obtain ⟨hsent, hsame, -⟩ := closePayload_eq_ok hp
    have hutf8 : IsUtf8 (if (extractCode payload).2 = none then ascii "Invalid close reason"
        else ascii "Invalid close code") := by
      split_ifs
      · exact (validate_iff _).mp (by decide)
      · exact (validate_iff _).mp (by decide)
    refine ⟨e', p, hprocess, hclosing, hclean, hcode, wellFormed_of_closePayload hp hutf8, ?_⟩
    rw [hsent, hsame]
    by_cases hnone : (extractCode payload).2 = none
    · rw [if_pos hnone, if_neg (not_not_intro hnone),
        if_pos (herror.resolve_left fun hne => hne hnone)]
    · rw [if_neg hnone, if_pos hnone]

/-- A server answers a code and a reason with the same, and a client a code that must not
be sent with an error. -/
theorem close_frame_answered_bye :
    (∃ e' p, (Endpoint.start true).processClose ([0x03, 0xE8] ++ ascii "bye") =
        (e', some ⟨p, true⟩) ∧ e'.state = .closing ∧ e'.wasClean = true ∧ e'.remoteCode = normal ∧
      WellFormed p ∧ ((extractCode p).1, (extractReason p).1) = (normal, ascii "bye")) ∧
    ∃ e' p, (Endpoint.start false).processClose [0x03, 0xED] = (e', some ⟨p, false⟩) ∧
      e'.state = .closing ∧ e'.wasClean = true ∧ e'.remoteCode = noStatus ∧ WellFormed p ∧
      ((extractCode p).1, (extractReason p).1) = (protocolError, ascii "Invalid close code") := by
  have hcode : extractCode ([0x03, 0xE8] ++ ascii "bye") = (normal, none) := by decide
  have hreason : extractReason ([0x03, 0xE8] ++ ascii "bye") = (ascii "bye", none) := by decide
  have hreserved : extractCode [0x03, 0xED] = (noStatus, some .invalidCloseCode) := by decide
  have hbye := @close_frame_answered (.start true) ([0x03, 0xE8] ++ ascii "bye") rfl (by decide)
  have herror := @close_frame_answered (.start false) [0x03, 0xED] rfl (by decide)
  rw [hcode, hreason] at hbye
  rw [hreserved] at herror
  exact ⟨hbye, herror⟩

/-! ### Both sides -/

/-- Both sides, the close frames that each has sent, and those of them that the other one
has not read yet. -/
structure World where
  ends : Bool → Endpoint
  sent : Bool → List CloseFrame
  flight : Bool → List CloseFrame

namespace World

/-- The side `x` is `e` now, and has sent `m`. -/
def put (w : World) (x : Bool) (e : Endpoint) (m : Option CloseFrame) : World where
  ends := Function.update w.ends x e
  sent := Function.update w.sent x (w.sent x ++ m.toList)
  flight := Function.update w.flight x (w.flight x ++ m.toList)

/-- Both sides after the opening handshake; `server` says which of them are servers. -/
def start (server : Bool → Bool) : World where
  ends x := .start (server x)
  sent _ := []
  flight _ := []

/-- A side closes, with a reason that is UTF-8 as far as it is sent; it reads the close
frame that comes next; or it is cut off, by a time-out, an error of the transport or a frame
that was the last one. -/
inductive Step : World → World → Prop
  | close {w : World} (x : Bool) (code : ℕ) (reason : List Byte) :
      IsUtf8 (reason.take Limits.closeReasonSize) →
      Step w (w.put x ((w.ends x).close code reason).1 ((w.ends x).close code reason).2.toOption)
  | deliver {w : World} (x : Bool) {m : CloseFrame} {rest : List CloseFrame} :
      w.flight (!x) = m :: rest →
      Step w ({ w with flight := Function.update w.flight (!x) rest }.put x
        ((w.ends x).processClose m.payload).1 ((w.ends x).processClose m.payload).2)
  | terminate {w : World} (x : Bool) (message : Option (List Byte)) :
      Step w (w.put x ((w.ends x).terminate message) none)

/-- What holds of both sides. -/
def Sides (w : World) : Prop :=
  ∀ x, Side (w.ends x) (w.sent x) (w.flight x) (w.sent (!x)) (w.flight (!x))

variable {w w' : World}

/-- The two sides, one after the other. -/
theorem sides_iff (x : Bool) : w.Sides ↔
    Side (w.ends x) (w.sent x) (w.flight x) (w.sent (!x)) (w.flight (!x)) ∧
      Side (w.ends (!x)) (w.sent (!x)) (w.flight (!x)) (w.sent x) (w.flight x) := by
  constructor
  · intro h
    have hother := h (!x)
    rw [Bool.not_not] at hother
    exact ⟨h x, hother⟩
  · rintro ⟨h, hother⟩ y
    by_cases hy : y = x
    · rw [hy]
      exact h
    · obtain rfl : y = !x := by
        cases x <;> cases y <;> simp at hy ⊢
      rw [Bool.not_not]
      exact hother

theorem sides_put {x : Bool} {e : Endpoint} {m : Option CloseFrame} : (w.put x e m).Sides ↔
    Side e (w.sent x ++ m.toList) (w.flight x ++ m.toList) (w.sent (!x)) (w.flight (!x)) ∧
      Side (w.ends (!x)) (w.sent (!x)) (w.flight (!x)) (w.sent x ++ m.toList)
        (w.flight x ++ m.toList) := by
  have hne : (!x) ≠ x := Bool.not_ne_self x
  rw [sides_iff x]
  simp only [put, Function.update_self, Function.update_of_ne hne]

/-- **Every step keeps what holds of both sides.** -/
theorem Sides.step (h : w.Sides) (hstep : Step w w') : w'.Sides := by
  cases hstep with
  | close x code reason hreason =>
    obtain ⟨hside, hother⟩ := (sides_iff x).mp h
    exact sides_put.mpr (hside.close hother code hreason)
  | deliver x hflight =>
    obtain ⟨hside, hother⟩ := (sides_iff x).mp h
    rw [hflight] at hside hother
    have hne : x ≠ !x := (Bool.not_ne_self x).symm
    rw [sides_put]
    simp only [Function.update_self, Function.update_of_ne hne]
    exact hside.deliver hother
  | terminate x message =>
    obtain ⟨hside, hother⟩ := (sides_iff x).mp h
    rw [sides_put]
    simp only [Option.toList_none, List.append_nil]
    exact ⟨hside.terminate message, hother⟩

theorem Sides.steps (h : w.Sides) (hrun : Relation.ReflTransGen Step w w') : w'.Sides := by
  induction hrun with
  | refl => exact h
  | tail _ hstep ih => exact ih.step hstep

end World

end Websocketpp
end IntBlock
