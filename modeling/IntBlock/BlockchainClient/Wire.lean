import IntBlock.BlockchainClient.Pending
import IntBlock.JsonText.RoundTrip

/-!
# The client on the wire

The client once more, with the JSON library's own parser and serializer and with CURL as
the C library it is: it takes texts that end with a NUL, and hands over the body of a
reply in pieces.  Here `JSON_DEBUG` writes the whole value, which can throw; the stack
that takes for a value of many levels is left out.

The two levels agree wherever the caller's strings are UTF-8, so that what is known of
requests and of pending transactions is known of the code with its libraries.

## Main definitions

* `Net` — CURL, with the servers behind it.
* `Wire.makeRequest`, `Wire.onMessage`, … — the functions.
* `env` — the libraries as the other level has them.

## Main results

* `makeRequest_refines` — **a request is one of the other level, or is not sent at all.**
* `makeRequest_answered` — what a query returns where the node reads the fields posted
  and writes its answer in any of the texts it has.
* `handleMessages_refines` — a run of messages is one of the other level.
-/

namespace IntBlock
namespace BlockchainClient

open Cpp JsonText

/-! ### CURL -/

/-- CURL with the servers behind it: the pieces of the body, and the text of an error,
which may come after some of them. -/
structure Net where
  curlInit : Bool
  perform : Request → List Str × Option Str

/-- What a C function reads of `s.c_str()`. -/
def cString (s : Str) : Str := s.takeWhile (· ≠ '\x00')

/-- The options as CURL reads them. -/
def Request.cStrings (r : Request) : Request :=
  { r with url := cString r.url, postFields := r.postFields.map cString }

/-- `WriteCallback` -/
def writeCallback (userp contents : Str) : Str := userp ++ contents

/-- `curl_easy_perform`, with `WriteCallback` for the body. -/
def Net.curlPerform (net : Net) (r : Request) : Except Str Str :=
  let (pieces, failed) := net.perform r.cStrings
  match failed with
  | some what => .error what
  | none => .ok (pieces.foldl writeCallback [])

namespace Wire

/-! ### The functions -/

/-- `j.dump()` -/
def dump (j : Json) : Exec Str := JsonText.dump j (-1) ' ' false .strict

section Functions

variable {Tm : Type} (c : Libc Tm) (strtod : Str → Option Str) (client : Client) (net : Net)

/-- `JSON_DEBUG`; what is printed is left out. -/
def jsonDebug (j : Json) : Exec Unit := do
  displayTimestampIfPresent c j
  let _text ← JsonText.dump j 2 ' ' false .strict

def transfer (method : Str) (params : Json) : Exec Str := do
  if net.curlInit = false then
    raise (.runtimeError "Failed to initialize CURL".toList)
  let payload := payload method params
  jsonDebug c payload
  let payloadStr ← dump payload
  match net.curlPerform (postRequest client payloadStr) with
  | .ok responseStr => return responseStr
  | .error what => raise (.runtimeError ("CURL request failed: ".toList ++ what))

def readResponse (responseStr : Str) : Exec Json :=
  catching Exception.isJson
    (do
      let response ← parse strtod responseStr
      jsonDebug c response
      if response.contains "error".toList then
        let (error, _) ← response.subscript "error".toList
        let text ← dump error
        raise (.runtimeError ("RPC Error: ".toList ++ text))
      let (result, _) ← response.subscript "result".toList
      return result)
    (fun e => raise (.runtimeError
      ("JSON parse error: ".toList ++ e.what ++ "\nResponse: ".toList ++ responseStr)))

def makeRequest (method : Str) (params : Json) : Exec Json := do
  let responseStr ← transfer c client net method params
  readResponse c strtod responseStr

def getTransactionByHash (txHash : Str) : Exec Json :=
  makeRequest c strtod client net "eth_getTransactionByHash".toList (.array [.string txHash])

def decodeFunctionSelector (selector : Str) : Exec Str :=
  catching Exception.isStd
    (if net.curlInit = false then .ok (selector ++ " (unknown)".toList)
      else
        match net.curlPerform (selectorRequest selector) with
        | .error _ => .ok (selector ++ " (lookup failed)".toList)
        | .ok responseStr => do
            let response ← parse strtod responseStr
            jsonDebug c response
            let results := response.member "results".toList
            if response.contains "results".toList && results.isArray && 0 < results.size then
              let result := results.element 0
              if result.contains "text_signature".toList then
                return ← (result.member "text_signature".toList).getString
            return selector ++ " (unknown)".toList)
    (fun _ => .ok (selector ++ " (error)".toList))

def printInput (txData : Json) : Exec Unit := do
  if txData.contains "input".toList then
    let input ← (txData.member "input".toList).getString
    if input ≠ "0x".toList then
      if 10 ≤ input.length then
        let selector := input.take 10
        let _funcName ← decodeFunctionSelector c strtod net selector

/-- `onPendingTransaction` from the fetch to the end of the report. -/
def reportTransaction (txHash : Str) : Exec Unit := do
  let txData ← getTransactionByHash c strtod client net txHash
  jsonDebug c txData
  printField txData "from".toList
  printTo txData
  printField txData "value".toList
  printField txData "gasPrice".toList
  printField txData "gas".toList
  printField txData "nonce".toList
  printField txData "type".toList
  printInput c strtod net txData

def onPendingTransaction (tx : Json) (pendingTransactionCount : ℕ) : Exec ℕ :=
  catching Exception.isStd
    (do
      let txHash ← tx.getString
      reportTransaction c strtod client net txHash
      incrementInt pendingTransactionCount)
    (fun _ => .ok pendingTransactionCount)

/-- `on_message`; the subscription's id goes to the console. -/
def onMessage (pendingTransactionCount : ℕ) (payload : Str) : Exec ℕ :=
  catching Exception.isStd
    (do
      let response ← parse strtod payload
      jsonDebug c response
      if response.contains "result".toList then
        let _id ← dump (response.member "result".toList)
        return pendingTransactionCount
      let params := response.member "params".toList
      if response.contains "params".toList && params.contains "result".toList then
        let txHash := params.member "result".toList
        return ← onPendingTransaction c strtod client net txHash pendingTransactionCount
      return pendingTransactionCount)
    (fun _ => .ok pendingTransactionCount)

/-- A run of messages, each with the servers as they are when it is handled. -/
def handleMessages (pendingTransactionCount : ℕ) (ms : List (Net × Str)) : Exec ℕ :=
  ms.foldlM (fun n m => onMessage c strtod client m.1 n m.2) pendingTransactionCount

end Functions

/-! ### The other level -/

/-- `json::parse`, with the text of its exception. -/
def parseText (strtod : Str → Option Str) (s : Str) : Except Str Json :=
  match parse strtod s with
  | .ok j => .ok j
  | .error (.thrown e) => .error e.what
  | .error .undefined => .error []

/-- The libraries as the other level has them. -/
def env {Tm : Type} (c : Libc Tm) (strtod : Str → Option Str) (net : Net) : Env Tm where
  libc := c
  parse := parseText strtod
  curlInit := net.curlInit
  perform := net.curlPerform

/-- A value can be dumped: its strings are UTF-8. -/
def Utf8Strings (j : Json) : Prop := ∀ s ∈ j.strings, IsUtf8 s

section Results

variable {Tm : Type} {c : Libc Tm} {strtod : Str → Option Str} {client : Client} {net : Net}
  {j : Json}

/-- Every exception of the parser is one of the library, so that its text is all of it. -/
theorem parseJson_parseText (s : Str) : parseJson (parseText strtod) s = parse strtod s := by
  rcases parse_cases strtod s with ⟨v, hv⟩ | ⟨what, hthrow, -⟩
  · have htext : parseText strtod s = .ok v := by
      unfold parseText
      rw [hv]
    rw [parseJson_of_ok htext, hv]
  · have htext : parseText strtod s = .error what := by
      unfold parseText
      rw [hthrow]
      rfl
    rw [parseJson_of_error htext, hthrow]

theorem utf8Strings_of_parse (hspec : StrtodSpec strtod) {s : Str} (h : parse strtod s = .ok j) :
    Utf8Strings j := (valid_of_parse hspec h).isUtf8

theorem Utf8Strings.dump_eq (h : Utf8Strings j) : dump j = .ok j.dump := by
  have hok := dump_of_isUtf8 h (by decide : (-1 : ℤ) ≤ 1024) ' ' false .strict
  rw [layout_eq_dump rfl rfl 0 h] at hok
  exact hok

theorem Utf8Strings.jsonDebug_eq (h : Utf8Strings j) :
    jsonDebug c j = BlockchainClient.jsonDebug c j := by
  unfold jsonDebug BlockchainClient.jsonDebug
  rw [dump_of_isUtf8 h (by decide : (2 : ℤ) ≤ 1024)]
  cases displayTimestampIfPresent c j with
  | ok u => rfl
  | error stop => rfl

theorem Utf8Strings.of_find? (h : Utf8Strings j) {key : Str} {v : Json}
    (hfind : j.find? key = some v) : Utf8Strings v := by
  obtain ⟨members, rfl, hlookup⟩ := Json.find?_eq_some.mp hfind
  intro s hs
  exact h s (Json.mem_memberStrings.mpr ⟨(key, v), mem_of_lookup hlookup, Or.inr hs⟩)

theorem utf8Strings_null : Utf8Strings .null := List.forall_mem_nil _

theorem Utf8Strings.of_subscript (h : Utf8Strings j) {key : Str} {v j' : Json}
    (hsubscript : j.subscript key = .ok (v, j')) : Utf8Strings v := by
  rcases Json.subscript_cases key j with
    ⟨w, hfind, hw⟩ | ⟨-, j'', hnull⟩ | ⟨-, -, what, hthrow⟩
  · rw [hw] at hsubscript
    cases hsubscript
    exact h.of_find? hfind
  · rw [hnull] at hsubscript
    cases hsubscript
    exact utf8Strings_null
  · rw [hthrow] at hsubscript
    cases hsubscript

theorem Utf8Strings.of_member (h : Utf8Strings j) (key : Str) : Utf8Strings (j.member key) := by
  unfold Json.member
  cases hfind : j.find? key with
  | none => exact utf8Strings_null
  | some v => exact h.of_find? hfind

/-! ### Requests -/

theorem transfer_refines {method : Str} {params : Json}
    (h : Utf8Strings (payload method params)) :
    transfer c client net method params =
      BlockchainClient.transfer (env c strtod net) client method params := by
  unfold transfer BlockchainClient.transfer
  simp only [h.jsonDebug_eq, h.dump_eq, bind_ok]
  rfl

/-- A request that is not UTF-8 throws before the node hears of it. -/
theorem transfer_of_not_utf8 {method : Str} {params : Json}
    (hbytes : ∀ s ∈ (payload method params).strings, Bytes s)
    (h : ¬ Utf8Strings (payload method params)) :
    ∃ what, ∀ net : Net, net.curlInit = true →
      transfer c client net method params = .error (.thrown (.json what)) := by
  have hstrict : (dumpFormat 2 ' ' false .strict).errorHandler = .strict := rfl
  rcases @dump_cases (payload method params) 2 (Or.inl (by decide)) ' ' false .strict with
    ⟨-, hstrings⟩ | ⟨s, hs, e, he, hthrow⟩
  · refine absurd ?_ h
    intro s hs
    rcases dumpEscaped_strict (hbytes s hs) hstrict with ⟨hutf8, -⟩ | ⟨-, what, hthrow, -⟩
    · exact hutf8
    · cases (hstrings s hs).symm.trans hthrow
  · rcases dumpEscaped_strict (hbytes s hs) hstrict with ⟨-, raw, hok⟩ | ⟨-, what, hwhat, -⟩
    · cases he.symm.trans hok
    · obtain rfl := Except.error.inj (he.symm.trans hwhat)
      refine ⟨what, ?_⟩
      intro net hinit
      have hdebug : jsonDebug c (payload method params) = .error (.thrown (.json what)) := by
        unfold jsonDebug
        rw [show displayTimestampIfPresent c (payload method params) = .ok () from
          jsonDebug_payload c method params, bind_ok, hthrow]
        rfl
      unfold transfer
      rw [if_neg (by simp [hinit])]
      simp only [hdebug, bind_error]

theorem readResponse_refines (hspec : StrtodSpec strtod) (responseStr : Str) :
    readResponse c strtod responseStr =
      BlockchainClient.readResponse (env c strtod net) responseStr := by
  unfold readResponse BlockchainClient.readResponse
  congr 1
  rw [show (env c strtod net).parse = parseText strtod from rfl, parseJson_parseText]
  cases hparse : parse strtod responseStr with
  | error stop => rfl
  | ok response =>
    have hutf8 := utf8Strings_of_parse hspec hparse
    simp only [bind_ok, hutf8.jsonDebug_eq]
    rw [show (env c strtod net).libc = c from rfl]
    cases hsubscript : response.subscript "error".toList with
    | error stop => rfl
    | ok p =>
      have herror := hutf8.of_subscript hsubscript
      simp only [bind_ok, herror.dump_eq]

/-- What is taken out of a reply is UTF-8. -/
theorem utf8Strings_of_readResponse (hspec : StrtodSpec strtod) {responseStr : Str}
    (h : BlockchainClient.readResponse (env c strtod net) responseStr = .ok j) :
    Utf8Strings j := by
  rcases parse_cases strtod responseStr with ⟨response, hparse⟩ | ⟨what, hparse, -⟩
  · have henv : (env c strtod net).parse responseStr = .ok response := by
      show parseText strtod responseStr = _
      unfold parseText
      rw [hparse]
    have hutf8 := utf8Strings_of_parse hspec hparse
    -- `JSON_DEBUG` comes first
    by_cases hnull : NullTime c (timestampText response)
    · rw [readResponse_of_nullTime henv hnull] at h
      cases h
    rcases readResponse_of_not_nullTime henv hnull with ⟨error, text, -, hr⟩ |
      ⟨-, v, hv, hr⟩ | ⟨-, hr⟩ | ⟨-, -, text, hr⟩
    · rw [hr] at h
      cases h
    · rw [hr] at h
      cases h
      exact hutf8.of_find? hv
    · rw [hr] at h
      cases h
      exact utf8Strings_null
    · rw [hr] at h
      cases h
  · have henv : (env c strtod net).parse responseStr = .error what := by
      show parseText strtod responseStr = _
      unfold parseText
      rw [hparse]
      rfl
    obtain ⟨text, htext⟩ := readResponse_of_parse_error henv
    rw [htext] at h
    cases h

/-- The request of the other level. -/
theorem makeRequest_of_utf8 (hspec : StrtodSpec strtod) {method : Str} {params : Json}
    (h : Utf8Strings (payload method params)) :
    makeRequest c strtod client net method params =
      BlockchainClient.makeRequest (env c strtod net) client method params := by
  unfold makeRequest BlockchainClient.makeRequest
  rw [transfer_refines h]
  congr 1
  funext responseStr
  exact readResponse_refines hspec responseStr

theorem utf8Strings_of_makeRequest (hspec : StrtodSpec strtod) {method : Str} {params : Json}
    (h : BlockchainClient.makeRequest (env c strtod net) client method params = .ok j) :
    Utf8Strings j := by
  obtain ⟨responseStr, -, hread⟩ := bind_eq_ok.mp h
  exact utf8Strings_of_readResponse hspec hread

/-- The strings of a payload are those of the caller, and the client's own. -/
theorem forall_strings_payload {P : Str → Prop} (hP : ∀ s, IsUtf8 s → P s) {method : Str}
    {params : Json} :
    (∀ s ∈ (payload method params).strings, P s) ↔ P method ∧ ∀ s ∈ params.strings, P s := by
  have hown : ∀ s ∈ ["id".toList, "jsonrpc".toList, "2.0".toList, "method".toList,
      "params".toList], IsUtf8 s := by
    unfold IsUtf8
    decide
  have hstrings : (payload method params).strings =
      ["id".toList, "jsonrpc".toList, "2.0".toList, "method".toList] ++ [method] ++
        ["params".toList] ++ params.strings ++ [] := rfl
  rw [hstrings, List.append_nil]
  constructor
  · intro h
    refine ⟨h method ?_, fun s hs => h s (List.mem_append_right _ hs)⟩
    exact List.mem_append_left _ (List.mem_append_left _ (List.mem_append_right _
      (List.mem_singleton_self method)))
  · rintro ⟨hmethod, hparams⟩ s hs
    rcases List.mem_append.mp hs with hs | hs
    · rcases List.mem_append.mp hs with hs | hs
      · rcases List.mem_append.mp hs with hs | hs
        · exact hP s (hown s (List.mem_append_left ["params".toList] hs))
        · rw [List.mem_singleton.mp hs]
          exact hmethod
      · exact hP s (hown s (List.mem_append_right ["id".toList, "jsonrpc".toList,
          "2.0".toList, "method".toList] hs))
    · exact hparams s hs

theorem valid_payload {method : Str} {params : Json} (hmethod : IsUtf8 method)
    (hparams : Valid strtod params) : Valid strtod (payload method params) := by
  have hown : ∀ s ∈ ["id".toList, "jsonrpc".toList, "method".toList, "params".toList,
      "2.0".toList], IsUtf8 s := by
    unfold IsUtf8
    decide
  refine .object ?_ ?_ ?_
  · exact fun m hm => hown m.1 (List.mem_append_left ["2.0".toList] (List.mem_map_of_mem hm))
  · refine List.forall_mem_cons.mpr ⟨.integer 1, List.forall_mem_cons.mpr ⟨.string ?_,
      List.forall_mem_cons.mpr ⟨.string hmethod, List.forall_mem_singleton.mpr hparams⟩⟩⟩
    exact hown _ (by decide)
  · have hsorted : (["id".toList, "jsonrpc".toList, "method".toList, "params".toList] :
        List Str).Pairwise (· < ·) := by decide
    exact List.pairwise_map.mp hsorted

theorem utf8Strings_payload {method : Str} {params : Json} :
    Utf8Strings (payload method params) ↔ IsUtf8 method ∧ Utf8Strings params :=
  forall_strings_payload fun _ h => h

/-- **A request is one of the other level**, where its strings are UTF-8; another one throws
an exception of the JSON library, whatever the node would have answered. -/
theorem makeRequest_refines (hspec : StrtodSpec strtod) {method : Str} {params : Json}
    (hmethod : Bytes method) (hparams : ∀ s ∈ params.strings, Bytes s) :
    (IsUtf8 method ∧ Utf8Strings params ∧ ∀ net,
      makeRequest c strtod client net method params =
        BlockchainClient.makeRequest (env c strtod net) client method params) ∨
    (¬ (IsUtf8 method ∧ Utf8Strings params) ∧ ∃ what, ∀ net : Net, net.curlInit = true →
      makeRequest c strtod client net method params = .error (.thrown (.json what))) := by
  by_cases h : Utf8Strings (payload method params)
  · obtain ⟨hmethod, hparams⟩ := utf8Strings_payload.mp h
    exact Or.inl ⟨hmethod, hparams, fun net => makeRequest_of_utf8 hspec h⟩
  · right
    refine ⟨fun hutf8 => h (utf8Strings_payload.mpr hutf8), ?_⟩
    obtain ⟨what, hwhat⟩ := @transfer_of_not_utf8 Tm c client method params
      ((forall_strings_payload fun _ hs => hs.bytes).mpr ⟨hmethod, hparams⟩) h
    refine ⟨what, ?_⟩
    intro net hinit
    unfold makeRequest
    rw [hwhat net hinit, bind_error]

/-! ### The node -/

/-- The fields posted end where the payload does. -/
theorem cString_eq {s : Str} (h : ∀ c ∈ s, 0x20 ≤ c.toNat) : cString s = s := by
  refine List.takeWhile_eq_self_iff.mpr ?_
  intro c hc
  refine decide_eq_true ?_
  rintro rfl
  exact absurd (h _ hc) (by decide)

theorem numberByte_bounds {c : Char} (h : numberByte c = true) :
    0x20 ≤ c.toNat ∧ c.toNat < 0x7F := by
  simp only [numberByte, Bool.or_eq_true, decide_eq_true_eq] at h
  rcases h with ((((h | rfl) | rfl) | rfl) | rfl) | rfl
  · exact isDigit_bounds h
  · decide
  · decide
  · decide
  · decide
  · decide

/-- The node receives the payload's text, and reads the payload. -/
theorem posted {v : Json} (hv : Valid strtod v) :
    cString v.dump = v.dump ∧ parse strtod v.dump = .ok (canonical v) := by
  have hlayout := layout_eq_dump (f := dumpFormat (-1) ' ' false .strict) rfl rfl 0 hv.isUtf8
  constructor
  · refine cString_eq ?_
    rw [← hlayout]
    intro c hc
    refine (printable_layout rfl hv.isUtf8 ?_ c hc).1
    intro text htext c hc
    exact numberByte_bounds ((hv.floatText text htext).1.numberByte c hc)
  · rw [← hlayout]
    exact hv.parse_layout (fun hpretty => absurd hpretty (by decide)) 0

/-- A node that answers whatever it can read, in pieces of one of the texts of its answer. -/
def Serves (strtod : Str → Option Str) (net : Net) (answer : Json → Json) : Prop :=
  net.curlInit = true ∧ ∀ r fields v, r.postFields = some fields → parse strtod fields = .ok v →
    ∃ pieces, net.perform r = (pieces, none) ∧ Derives strtod pieces.flatten (answer v)

theorem foldl_writeCallback (pieces : List Str) (userp : Str) :
    pieces.foldl writeCallback userp = userp ++ pieces.flatten := by
  induction pieces generalizing userp with
  | nil => exact (List.append_nil userp).symm
  | cons piece pieces ih =>
    rw [List.foldl_cons, ih, writeCallback, List.flatten_cons, List.append_assoc]

/-- The body of the node's answer. -/
theorem transfer_of_serves {answer : Json → Json} (hserves : Serves strtod net answer)
    {method : Str} {params : Json} (hvalid : Valid strtod (payload method params)) :
    ∃ responseStr, transfer c client net method params = .ok responseStr ∧
      parse strtod responseStr = .ok (answer (canonical (payload method params))) := by
  obtain ⟨hinit, hanswer⟩ := hserves
  obtain ⟨hwhole, hread⟩ := posted hvalid
  obtain ⟨pieces, hperform, hderives⟩ :=
    hanswer (postRequest client (payload method params).dump).cStrings _ _
      (congrArg some hwhole) hread
  refine ⟨pieces.flatten, ?_, parse_eq_ok_iff_lexes.mpr hderives⟩
  rw [@transfer_refines Tm c strtod client net method params hvalid.isUtf8]
  refine transfer_eq_ok.mpr ⟨hinit, ?_⟩
  show net.curlPerform _ = _
  unfold Net.curlPerform
  rw [hperform]
  dsimp only
  rw [foldl_writeCallback, List.nil_append]

/-- The text of an error member. -/
theorem readResponse_of_error {responseStr : Str} (hparse : parse strtod responseStr = .ok j)
    (hutf8 : Utf8Strings j) (hnull : ¬ NullTime c (timestampText j)) {error : Json}
    (herror : j.find? "error".toList = some error) :
    readResponse c strtod responseStr =
      .error (.thrown (.runtimeError ("RPC Error: ".toList ++ error.dump))) := by
  obtain ⟨members, rfl, hlookup⟩ := Json.find?_eq_some.mp herror
  have hsubscript : (Json.object members).subscript "error".toList =
      .ok (error, .object members) := by
    simp only [Json.subscript, hlookup]
  unfold readResponse
  simp only [hparse, bind_ok, hutf8.jsonDebug_eq, jsonDebug_eq_ok hnull,
    Json.contains_iff.mpr ⟨error, herror⟩, if_true, hsubscript, (hutf8.of_find? herror).dump_eq]
  rfl

/-- **What a query returns** is what the node's answer to the payload holds: its result, its
error as an exception, null where it holds neither, and an exception where it is no
object; with one kind of timestamp in it, the query is undefined. -/
theorem makeRequest_answered (hspec : StrtodSpec strtod) {answer : Json → Json}
    (hserves : Serves strtod net answer) {method : Str} {params : Json}
    (hmethod : IsUtf8 method) (hparams : Valid strtod params)
    (hj : answer (canonical (payload method params)) = j) :
    (NullTime c (timestampText j) ∧
      makeRequest c strtod client net method params = .error .undefined) ∨
    (∃ error, j.find? "error".toList = some error ∧
      makeRequest c strtod client net method params =
        .error (.thrown (.runtimeError ("RPC Error: ".toList ++ error.dump)))) ∨
    (j.find? "error".toList = none ∧ ∃ v, j.find? "result".toList = some v ∧
      makeRequest c strtod client net method params = .ok v) ∨
    ((j = .null ∨ ∃ members, j = .object members ∧ members.lookup "error".toList = none ∧
        members.lookup "result".toList = none) ∧
      makeRequest c strtod client net method params = .ok .null) ∨
    (j ≠ .null ∧ (∀ members, j ≠ .object members) ∧ ∃ text,
      makeRequest c strtod client net method params = .error (.thrown (.runtimeError text))) := by
  -- however it is cut, the body is a text of the answer
  obtain ⟨responseStr, htransfer, hparse⟩ := @transfer_of_serves Tm c strtod client net answer
    hserves method params (valid_payload hmethod hparams)
  rw [hj] at hparse
  have hrequest : makeRequest c strtod client net method params =
      readResponse c strtod responseStr := by
    unfold makeRequest
    rw [htransfer, bind_ok]
  have henv : (env c strtod net).parse responseStr = .ok j := by
    show parseText strtod responseStr = _
    unfold parseText
    rw [hparse]
  have hread := @readResponse_refines Tm c strtod net hspec responseStr
  rw [hrequest]
  -- the answer goes through `JSON_DEBUG` first
  by_cases hnull : NullTime c (timestampText j)
  · left
    rw [hread]
    exact ⟨hnull, readResponse_of_nullTime henv hnull⟩
  right
  rcases readResponse_of_not_nullTime henv hnull with ⟨error, -, herror, -⟩ |
    ⟨herror, v, hv, hr⟩ | ⟨hmissing, hr⟩ | ⟨hnotnull, hnotobject, text, hr⟩
  · exact Or.inl ⟨error, herror,
      readResponse_of_error hparse (utf8Strings_of_parse hspec hparse) hnull herror⟩
  · exact Or.inr (Or.inl ⟨herror, v, hv, hread.trans hr⟩)
  · exact Or.inr (Or.inr (Or.inl ⟨hmissing, hread.trans hr⟩))
  · exact Or.inr (Or.inr (Or.inr ⟨hnotnull, hnotobject, text, hread.trans hr⟩))

/-- An address that is a stray byte. -/
theorem makeRequest_refines_byte : ∃ what,
    makeRequest utc strtodOne (.create "key".toList) ⟨true, fun _ => ([], none)⟩
      "eth_getBalance".toList (.array [.string ['\xff'], .float "1.5".toList]) =
        .error (.thrown (.json what)) := by
  have hstray : ¬ IsUtf8 ['\xff'] := by
    unfold IsUtf8
    decide
  have hmethod : IsUtf8 "eth_getBalance".toList := by
    unfold IsUtf8
    decide
  have hparams : ∀ s ∈ (Json.array [.string ['\xff'], .float "1.5".toList]).strings,
      Bytes s := List.forall_mem_singleton.mpr (List.forall_mem_singleton.mpr (by decide))
  rcases @makeRequest_refines Tm utc strtodOne (.create "key".toList) strtodSpec_strtodOne
    "eth_getBalance".toList (.array [.string ['\xff'], .float "1.5".toList])
    hmethod.bytes hparams with ⟨-, hutf8, -⟩ | ⟨-, what, hwhat⟩
  · exact absurd (hutf8 ['\xff'] List.mem_cons_self) hstray
  · exact ⟨what, hwhat _ rfl⟩

/-- A gas price and a number, in two pieces with the number in both of them. -/
theorem makeRequest_answered_gasPrice :
    makeRequest utc strtodOne (.create "key".toList)
      ⟨true, fun _ => (["\x7b\"elapsed\":1".toList, ".5,\"result\":\"0x5\"\x7d".toList], none)⟩
      "eth_gasPrice".toList (.array []) = .ok (.string "0x5".toList) := by
  have hascii : ∀ s ∈ ["eth_gasPrice".toList, "elapsed".toList, "result".toList, "0x5".toList],
      IsUtf8 s := by
    unfold IsUtf8
    decide
  have hreply : Valid strtodOne (.object [("elapsed".toList, .float "1.5".toList),
      ("result".toList, .string "0x5".toList)]) :=
    .object (List.forall_mem_cons.mpr ⟨hascii "elapsed".toList (by decide),
        List.forall_mem_singleton.mpr (hascii "result".toList (by decide))⟩)
      (List.forall_mem_cons.mpr ⟨.float floatText_strtodOne,
        List.forall_mem_singleton.mpr (.string (hascii "0x5".toList (by decide)))⟩)
      (List.pairwise_pair.mpr (by decide))
  have hserves : Serves strtodOne
      ⟨true, fun _ => (["\x7b\"elapsed\":1".toList, ".5,\"result\":\"0x5\"\x7d".toList], none)⟩
      (fun _ => .object [("elapsed".toList, .float "1.5".toList),
        ("result".toList, .string "0x5".toList)]) :=
    ⟨rfl, fun _ _ _ _ _ => ⟨_, rfl, parse_eq_ok_iff_lexes.mp (posted hreply).2⟩⟩
  rcases @makeRequest_answered Tm utc strtodOne (.create "key".toList) _ _ strtodSpec_strtodOne _
    hserves "eth_gasPrice".toList (.array []) (hascii "eth_gasPrice".toList (by decide))
    (.array (List.forall_mem_nil _)) rfl with
    ⟨hnull, -⟩ | ⟨error, herror, -⟩ | ⟨-, v, hv, hr⟩ | ⟨hmissing, -⟩ | ⟨-, hnot, -⟩
  · exact absurd hnull not_nullTime_nil
  · cases herror
  · cases hv
    exact hr
  · rcases hmissing with hmissing | ⟨members, hmembers, -, hlookup⟩
    · cases hmissing
    · cases hmembers
      cases hlookup
  · exact absurd rfl (hnot _)

/-! ### Pending transactions -/

theorem decodeFunctionSelector_refines (hspec : StrtodSpec strtod) (selector payload : Str) :
    decodeFunctionSelector c strtod net selector =
      BlockchainClient.decodeFunctionSelector c (parseText strtod)
        (received (env c strtod net) client payload).signatures selector := by
  have hsignatures : (received (env c strtod net) client payload).signatures selector =
      if net.curlInit = true then some (net.curlPerform (selectorRequest selector)) else none :=
    rfl
  unfold decodeFunctionSelector BlockchainClient.decodeFunctionSelector
  congr 1
  rw [hsignatures]
  by_cases hinit : net.curlInit = true
  · rw [if_neg (by simp [hinit]), if_pos hinit]
    cases net.curlPerform (selectorRequest selector) with
    | error what => rfl
    | ok responseStr =>
      dsimp only
      rw [parseJson_parseText]
      cases hparse : parse strtod responseStr with
      | error stop => rfl
      | ok response => simp only [bind_ok, (utf8Strings_of_parse hspec hparse).jsonDebug_eq]
  · rw [if_pos (by simpa using hinit), if_neg hinit]

theorem printInput_refines (hspec : StrtodSpec strtod) (txData : Json) (payload : Str) :
    printInput c strtod net txData =
      BlockchainClient.printInput c (parseText strtod)
        (received (env c strtod net) client payload) txData := by
  unfold printInput BlockchainClient.printInput
  simp only [@decodeFunctionSelector_refines Tm c strtod client net hspec _ payload]

theorem reportTransaction_refines (hspec : StrtodSpec strtod) {txHash : Str}
    (h : IsUtf8 txHash) (payload : Str) :
    reportTransaction c strtod client net txHash =
      BlockchainClient.reportTransaction c (parseText strtod)
        (received (env c strtod net) client payload) txHash := by
  have hpayload : Utf8Strings (BlockchainClient.payload "eth_getTransactionByHash".toList
      (.array [.string txHash])) := by
    refine utf8Strings_payload.mpr ⟨?_, List.forall_mem_singleton.mpr h⟩
    unfold IsUtf8
    decide
  have hfetch : (received (env c strtod net) client payload).fetch txHash =
      BlockchainClient.makeRequest (env c strtod net) client "eth_getTransactionByHash".toList
        (.array [.string txHash]) := rfl
  unfold reportTransaction BlockchainClient.reportTransaction getTransactionByHash
  rw [makeRequest_of_utf8 hspec hpayload, hfetch]
  cases hresult : BlockchainClient.makeRequest (env c strtod net) client
      "eth_getTransactionByHash".toList (.array [.string txHash]) with
  | error stop => rfl
  | ok txData =>
    simp only [bind_ok, (utf8Strings_of_makeRequest hspec hresult).jsonDebug_eq,
      @printInput_refines Tm c strtod client net hspec txData payload]

theorem onPendingTransaction_refines (hspec : StrtodSpec strtod) {tx : Json}
    (h : Utf8Strings tx) (payload : Str) (n : ℕ) :
    onPendingTransaction c strtod client net tx n =
      BlockchainClient.onPendingTransaction c (parseText strtod)
        (received (env c strtod net) client payload) tx n := by
  unfold onPendingTransaction BlockchainClient.onPendingTransaction
  refine congrArg (fun x => catching Exception.isStd x fun _ => .ok n) ?_
  cases tx with
  | string txHash =>
    simp only [Json.getString_string, bind_ok, reportTransaction_refines hspec
      (h txHash (List.mem_singleton_self txHash)) payload]
  | null | boolean b | integer i | unsigned i | float text | array vs | object ms =>
    simp only [Json.getString, raise, bind_error]

theorem onMessage_refines (hspec : StrtodSpec strtod) (n : ℕ) (payload : Str) :
    onMessage c strtod client net n payload =
      BlockchainClient.onMessage c (parseText strtod) n
        (received (env c strtod net) client payload) := by
  unfold onMessage BlockchainClient.onMessage
  refine congrArg (fun x => catching Exception.isStd x fun _ => .ok n) ?_
  rw [show (received (env c strtod net) client payload).payload = payload from rfl,
    parseJson_parseText]
  cases hparse : parse strtod payload with
  | error stop => rfl
  | ok response =>
    have hutf8 := utf8Strings_of_parse hspec hparse
    have htx := (hutf8.of_member "params".toList).of_member "result".toList
    simp only [bind_ok, hutf8.jsonDebug_eq, (hutf8.of_member "result".toList).dump_eq,
      @onPendingTransaction_refines Tm c strtod client net hspec _ htx payload n]

/-- **A run of messages is one of the other level**, whatever the servers answer meanwhile:
all that is known of the counter there holds of the code with its libraries. -/
theorem handleMessages_refines (hspec : StrtodSpec strtod) (n : ℕ) (ms : List (Net × Str)) :
    handleMessages c strtod client n ms =
      BlockchainClient.handleMessages c (parseText strtod) n
        (ms.map fun m => received (env c strtod m.1) client m.2) := by
  unfold handleMessages BlockchainClient.handleMessages
  rw [List.foldlM_map]
  congr 1
  funext n m
  exact onMessage_refines hspec n m.2

/-- A transaction with call data, and the answer to its selector. -/
def transferTx : Json :=
  .object [("input".toList, .string "0xa9059cbb00".toList), ("value".toList, .string "0x1".toList)]

def transferSignatures : Json :=
  .object [("results".toList,
    .array [.object [("text_signature".toList, .string "transfer(address,uint256)".toList)]])]

/-- The node, asked by a post, and the directory. -/
def transferNet : Net where
  curlInit := true
  perform r :=
    if r.postFields.isSome then ([(Json.object [("result".toList, transferTx)]).dump], none)
    else ([transferSignatures.dump], none)

/-- The notification of that transaction. -/
def transferNote : Json :=
  .object [("method".toList, .string "eth_subscription".toList),
    ("params".toList, .object [("result".toList, .string "0xab".toList)])]

theorem valid_transfer : Valid strtodOne transferTx ∧ Valid strtodOne transferSignatures ∧
    Valid strtodOne transferNote ∧ Valid strtodOne (.object [("result".toList, transferTx)]) := by
  have hascii : ∀ s ∈ ["input".toList, "0xa9059cbb00".toList, "value".toList, "0x1".toList,
      "results".toList, "text_signature".toList, "transfer(address,uint256)".toList,
      "method".toList, "eth_subscription".toList, "params".toList, "result".toList,
      "0xab".toList], IsUtf8 s := by
    unfold IsUtf8
    decide
  have hone : ∀ {key : Str} {v : Json}, IsUtf8 key → Valid strtodOne v →
      Valid strtodOne (.object [(key, v)]) := fun hkey hv =>
    .object (List.forall_mem_singleton.mpr hkey) (List.forall_mem_singleton.mpr hv)
      (List.pairwise_singleton _ _)
  have htwo : ∀ {key key' : Str} {v v' : Json}, IsUtf8 key → IsUtf8 key' → key < key' →
      Valid strtodOne v → Valid strtodOne v' → Valid strtodOne (.object [(key, v), (key', v')]) :=
    fun hkey hkey' hlt hv hv' =>
    .object (List.forall_mem_cons.mpr ⟨hkey, List.forall_mem_singleton.mpr hkey'⟩)
      (List.forall_mem_cons.mpr ⟨hv, List.forall_mem_singleton.mpr hv'⟩)
      (List.pairwise_pair.mpr hlt)
  have htx : Valid strtodOne transferTx :=
    htwo (hascii _ (by decide)) (hascii _ (by decide)) (by decide)
      (.string (hascii _ (by decide))) (.string (hascii _ (by decide)))
  refine ⟨htx, ?_, ?_, hone (hascii _ (by decide)) htx⟩
  · exact hone (hascii _ (by decide)) (.array (List.forall_mem_singleton.mpr
      (hone (hascii _ (by decide)) (.string (hascii _ (by decide))))))
  · exact htwo (hascii _ (by decide)) (hascii _ (by decide)) (by decide)
      (.string (hascii _ (by decide)))
      (hone (hascii _ (by decide)) (.string (hascii _ (by decide))))

theorem parseText_of_ok {s : Str} (h : parse strtod s = .ok j) : parseText strtod s = .ok j := by
  unfold parseText
  rw [h]

/-- A notification whose transaction is fetched, and whose selector is looked up, is counted. -/
theorem handleMessages_refines_transfer :
    handleMessages utc strtodOne (.create "key".toList) 0 [(transferNet, transferNote.dump)] =
      .ok 1 := by
  obtain ⟨htx, hsignatures, hnote, hreply⟩ := valid_transfer
  rw [handleMessages_refines strtodSpec_strtodOne 0 _, List.map_singleton]
  generalize hm : received (env utc strtodOne transferNet) (.create "key".toList)
    transferNote.dump = m
  have hparse : parseText strtodOne m.payload = .ok transferNote := by
    subst hm
    exact parseText_of_ok (posted hnote).2
  have hnotified : notifiedHash (parseText strtodOne) m = some "0xab".toList := by
    unfold notifiedHash
    rw [hparse]
    rfl
  -- the node answers with the transaction
  have hfetch : m.fetch "0xab".toList = .ok transferTx := by
    subst hm
    have htransfer : BlockchainClient.transfer (env utc strtodOne transferNet) (.create "key".toList)
        "eth_getTransactionByHash".toList (.array [.string "0xab".toList]) =
          .ok (Json.object [("result".toList, transferTx)]).dump := transfer_eq_ok.mpr ⟨rfl, rfl⟩
    have hread : (env utc strtodOne transferNet).parse
        (Json.object [("result".toList, transferTx)]).dump =
          .ok (.object [("result".toList, transferTx)]) := parseText_of_ok (posted hreply).2
    show BlockchainClient.makeRequest _ _ _ _ = _
    unfold BlockchainClient.makeRequest
    rw [htransfer, bind_ok]
    unfold BlockchainClient.readResponse
    rw [parseJson_of_ok hread, bind_ok, jsonDebug_eq_ok not_nullTime_nil]
    rfl
  -- its fields are strings
  have hreadable : Readable transferTx := by
    have hstrings : ∀ key v, transferTx.find? key = some v → v.isString = true := by
      intro key v hv
      obtain ⟨members, hmembers, hlookup⟩ := Json.find?_eq_some.mp hv
      cases hmembers
      rcases List.mem_cons.mp (mem_of_lookup hlookup) with hmem | hmem
      · cases hmem
        rfl
      · cases List.mem_singleton.mp hmem
        rfl
    exact ⟨fun key _ v hv => hstrings key.toList v hv, fun v hv => Or.inr (hstrings _ v hv)⟩
  -- there is no timestamp in the answer of the selector service
  have hsafe : ∀ selector, SelectorSafe utc (parseText strtodOne) m.signatures selector := by
    subst hm
    intro selector body j hbody hj
    obtain rfl : transferSignatures.dump = body := Except.ok.inj (Option.some.inj hbody)
    rw [parseText_of_ok (posted hsignatures).2] at hj
    cases hj
    exact not_nullTime_nil
  have hhandled : Handled utc (parseText strtodOne) m := by
    constructor
    · intro j hj
      rw [hparse] at hj
      cases hj
      exact not_nullTime_nil
    · intro txHash htxHash
      rw [hnotified] at htxHash
      cases htxHash
      exact ⟨transferTx, hfetch, not_nullTime_nil, hreadable, fun input _ _ _ => hsafe _⟩
  have hone := @onMessage_of_handled Tm utc (parseText strtodOne) m 0 hhandled
  rw [isNotification, hnotified] at hone
  rw [BlockchainClient.handleMessages, List.foldlM_cons, hone (by decide)]
  rfl

end Results

end Wire
end BlockchainClient
end IntBlock
