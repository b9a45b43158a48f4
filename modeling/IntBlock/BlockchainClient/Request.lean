import IntBlock.BlockchainClient.Timestamp

/-!
# Requests

`makeRequest` of `blockchain_client.cpp` and the six queries that call it.  The
reply is taken apart inside a `try` whose handler is for exceptions of the JSON
library only, with a lookup that inserts what it does not find: a reply without
a result may come out as a null result.

## Main definitions

* `Env` — the C library, the JSON parser, and CURL.
* `makeRequest` — a request; `transfer` and `readResponse` are its two halves.
* `getBlockNumber`, …, `getTransactionCount` — the queries.
* `Sent env body v` — the node sent the result `v`.
* `Faithful env body r` — what `makeRequest` should make of the body.

## Main results

* `transfer_eq_ok` — when there is a body.
* `readResponse_of_not_nullTime` — what becomes of a body that could be parsed.
* `sent_of_query` — no query hands out what the node did not send, if the replies
  are proper ones.
* `makeRequest_faithful_iff` — **when `makeRequest` returns genuine results only.**
-/

namespace IntBlock
namespace BlockchainClient

open Cpp

/-! ### The functions -/

/-- What is handed to CURL; there are fields for a POST only. -/
structure Request where
  url : Str
  postFields : Option Str
  headers : List Str
  timeout : ℕ

/-- The libraries: C, JSON, and CURL with the node behind it.  A parser and a
transfer that fail do so with a text. -/
structure Env (Tm : Type) where
  libc : Libc Tm
  parse : Str → Except Str Json
  curlInit : Bool
  perform : Request → Except Str Str

/-- A client, with the address of its node. -/
structure Client where
  endpoint : Str

/-- The constructor. -/
def Client.create (alchemyApiKey : Str) : Client :=
  ⟨"https://eth-mainnet.g.alchemy.com/v2/".toList ++ alchemyApiKey⟩

/-- `json::parse(s)` -/
def parseJson (parse : Str → Except Str Json) (s : Str) : Exec Json :=
  match parse s with
  | .ok j => .ok j
  | .error what => raise (.json what)

theorem parseJson_of_ok {parse : Str → Except Str Json} {s : Str} {j : Json}
    (h : parse s = .ok j) : parseJson parse s = .ok j := by
  unfold parseJson
  rw [h]

theorem parseJson_of_error {parse : Str → Except Str Json} {s what : Str}
    (h : parse s = .error what) : parseJson parse s = .error (.thrown (.json what)) := by
  unfold parseJson
  rw [h]
  rfl

section Functions

variable {Tm : Type} (env : Env Tm) (client : Client)

/-- The payload of a request, its members in the order of their keys. -/
def payload (method : Str) (params : Json) : Json :=
  .object [("id".toList, .integer 1), ("jsonrpc".toList, .string "2.0".toList),
    ("method".toList, .string method), ("params".toList, params)]

/-- The options set on the CURL handle. -/
def postRequest (payloadStr : Str) : Request where
  url := client.endpoint
  postFields := some payloadStr
  headers := ["Content-Type: application/json".toList]
  timeout := 10

/-- `makeRequest` up to the end of the transfer: the body received. -/
def transfer (method : Str) (params : Json) : Exec Str := do
  if env.curlInit = false then
    raise (.runtimeError "Failed to initialize CURL".toList)
  let payload := payload method params
  jsonDebug env.libc payload
  match env.perform (postRequest client payload.dump) with
  | .ok responseStr => return responseStr
  | .error what => raise (.runtimeError ("CURL request failed: ".toList ++ what))

/-- The rest of `makeRequest`: the result in the body. -/
def readResponse (responseStr : Str) : Exec Json :=
  catching Exception.isJson
    (do
      let response ← parseJson env.parse responseStr
      jsonDebug env.libc response
      if response.contains "error".toList then
        let (error, _) ← response.subscript "error".toList
        raise (.runtimeError ("RPC Error: ".toList ++ error.dump))
      let (result, _) ← response.subscript "result".toList
      return result)
    (fun e => raise (.runtimeError
      ("JSON parse error: ".toList ++ e.what ++ "\nResponse: ".toList ++ responseStr)))

def makeRequest (method : Str) (params : Json) : Exec Json := do
  let responseStr ← transfer env client method params
  readResponse env responseStr

def getBlockNumber : Exec Json := makeRequest env client "eth_blockNumber".toList (.array [])

def getBlockByNumber (blockNumber : Str) : Exec Json :=
  makeRequest env client "eth_getBlockByNumber".toList
    (.array [.string blockNumber, .boolean false])

def getBalance (address : Str) : Exec Json :=
  makeRequest env client "eth_getBalance".toList
    (.array [.string address, .string "latest".toList])

def getTransactionByHash (txHash : Str) : Exec Json :=
  makeRequest env client "eth_getTransactionByHash".toList (.array [.string txHash])

def getGasPrice : Exec Json := makeRequest env client "eth_gasPrice".toList (.array [])

def getTransactionCount (address : Str) : Exec Json :=
  makeRequest env client "eth_getTransactionCount".toList
    (.array [.string address, .string "latest".toList])

/-- The six queries, each with its argument. -/
def queries (blockNumber address txHash : Str) : List (Exec Json) :=
  [getBlockNumber env client, getBlockByNumber env client blockNumber,
    getBalance env client address, getTransactionByHash env client txHash,
    getGasPrice env client, getTransactionCount env client address]

end Functions

section Results

variable {Tm : Type} {env : Env Tm} {client : Client} {body : Str}

/-- Printing the payload does no harm. -/
theorem jsonDebug_payload (c : Libc Tm) (method : Str) (params : Json) :
    jsonDebug c (payload method params) = .ok () := by
  apply jsonDebug_eq_ok
  -- a payload has neither a timestamp nor a result
  exact not_nullTime_nil

/-- When there is a body: CURL is there and the transfer of the payload succeeds. -/
theorem transfer_eq_ok {method : Str} {params : Json} :
    transfer env client method params = .ok body ↔
      env.curlInit = true ∧
        env.perform (postRequest client (payload method params).dump) = .ok body := by
  unfold transfer
  by_cases hinit : env.curlInit = true
  · rw [if_neg (by simp [hinit])]
    simp only [jsonDebug_payload, bind_ok]
    cases env.perform (postRequest client (payload method params).dump) with
    | ok responseStr =>
      constructor
      · intro h
        cases h
        exact ⟨hinit, rfl⟩
      · rintro ⟨-, ⟨⟩⟩
        rfl
    | error what => exact iff_of_false nofun fun h => nomatch h.2
  · rw [if_pos (by simpa using hinit)]
    exact iff_of_false nofun fun h => hinit h.1

/-! ### What becomes of a body -/

theorem readResponse_of_parse_error {what : Str} (h : env.parse body = .error what) :
    ∃ text, readResponse env body = .error (.thrown (.runtimeError text)) := by
  unfold readResponse
  rw [parseJson_of_error h]
  exact ⟨_, rfl⟩

theorem readResponse_of_nullTime {j : Json} (h : env.parse body = .ok j)
    (hnull : NullTime env.libc (timestampText j)) :
    readResponse env body = .error .undefined := by
  unfold readResponse
  simp only [parseJson_of_ok h, bind_ok, jsonDebug_eq_undefined hnull, bind_error,
    catching_undefined]

/-- **What becomes of a body that could be parsed**, when it does not crash the
client: an error is thrown, a result returned, null returned where an object or
null has none, and an exception of the library passed on as a runtime error. -/
theorem readResponse_of_not_nullTime {j : Json} (h : env.parse body = .ok j)
    (hnull : ¬NullTime env.libc (timestampText j)) :
    (∃ error text, j.find? "error".toList = some error ∧
      readResponse env body = .error (.thrown (.runtimeError text))) ∨
    (j.find? "error".toList = none ∧ ∃ v, j.find? "result".toList = some v ∧
      readResponse env body = .ok v) ∨
    ((j = .null ∨ ∃ members, j = .object members ∧ members.lookup "error".toList = none ∧
      members.lookup "result".toList = none) ∧ readResponse env body = .ok .null) ∨
    (j ≠ .null ∧ (∀ members, j ≠ .object members) ∧
      ∃ text, readResponse env body = .error (.thrown (.runtimeError text))) := by
  -- the body is parsed and `JSON_DEBUG` does no harm
  have hread : readResponse env body = catching Exception.isJson
      (do
        if j.contains "error".toList then
          let (error, _) ← j.subscript "error".toList
          raise (.runtimeError ("RPC Error: ".toList ++ error.dump))
        let (result, _) ← j.subscript "result".toList
        return result)
      (fun e => raise (.runtimeError
        ("JSON parse error: ".toList ++ e.what ++ "\nResponse: ".toList ++ body))) := by
    unfold readResponse
    simp only [parseJson_of_ok h, bind_ok, jsonDebug_eq_ok hnull]
  cases herror : j.find? "error".toList with
  | some error =>
    obtain ⟨members, rfl, hlookup⟩ := Json.find?_eq_some.mp herror
    left
    refine ⟨error, "RPC Error: ".toList ++ error.dump, rfl, ?_⟩
    have hcontains := Json.contains_iff.mpr ⟨error, herror⟩
    have hsubscript : (Json.object members).subscript "error".toList =
        .ok (error, .object members) := by
      simp only [Json.subscript, hlookup]
    rw [hread, hcontains, hsubscript]
    rfl
  | none =>
    right
    have hcontains := Json.contains_eq_false.mpr herror
    rw [hcontains] at hread
    -- `operator[]` makes a null of what is missing, and throws for what is no object
    rcases Json.subscript_cases "result".toList j with ⟨v, hv, hsubscript⟩ |
      ⟨hnone, j', hsubscript⟩ | ⟨hnotnull, hnotobject, what, hsubscript⟩
    · left
      refine ⟨rfl, v, hv, ?_⟩
      rw [hread, hsubscript]
      rfl
    · right
      left
      rw [hread, hsubscript]
      refine ⟨?_, rfl⟩
      rcases hnone with rfl | ⟨members, rfl, hlookup⟩
      · exact Or.inl rfl
      · exact Or.inr ⟨members, rfl, herror, hlookup⟩
    · right
      right
      rw [hread, hsubscript]
      exact ⟨hnotnull, hnotobject, _, rfl⟩

/-! ### Genuine results -/

/-- The body is an object without an error, and `v` is its result. -/
def Sent (env : Env Tm) (body : Str) (v : Json) : Prop :=
  ∃ members, env.parse body = .ok (.object members) ∧
    members.lookup "error".toList = none ∧ members.lookup "result".toList = some v

/-- What `makeRequest` should make of a body: it returns the result the node sent,
and for a body without one it throws a runtime error. -/
def Faithful (env : Env Tm) (body : Str) (r : Exec Json) : Prop :=
  (∀ v, r = .ok v ↔ Sent env body v) ∧
  ((¬∃ v, Sent env body v) → ∃ text, r = .error (.thrown (.runtimeError text)))

/-- A null returned for a body without a result is not what the node sent. -/
theorem not_faithful_of_ok {v : Json} (h : ¬∃ v, Sent env body v) :
    ¬Faithful env body (.ok v) :=
  fun hfaithful => h ⟨v, (hfaithful.1 v).mp rfl⟩

theorem faithful_of_error {text : Str} (h : ¬∃ v, Sent env body v) :
    Faithful env body (.error (.thrown (.runtimeError text))) :=
  ⟨fun v => iff_of_false (fun hok => nomatch hok) fun hv => h ⟨v, hv⟩, fun _ => ⟨text, rfl⟩⟩

/-- A reply is neither null nor an object with neither an error nor a result, and
does not make the client crash on a timestamp. -/
def ProperReply (c : Libc Tm) (j : Json) : Prop :=
  j ≠ .null ∧
  (∀ members, j = .object members →
    members.lookup "error".toList ≠ none ∨ members.lookup "result".toList ≠ none) ∧
  ¬NullTime c (timestampText j)

theorem sent_iff {j : Json} (h : env.parse body = .ok j) (v : Json) :
    Sent env body v ↔ j.find? "error".toList = none ∧ j.find? "result".toList = some v := by
  unfold Sent
  rw [h]
  constructor
  · rintro ⟨members, ⟨⟩, herror, hv⟩
    exact ⟨herror, hv⟩
  · rintro ⟨herror, hv⟩
    obtain ⟨members, rfl, hlookup⟩ := Json.find?_eq_some.mp hv
    exact ⟨members, rfl, herror, hlookup⟩

/-- What is made of a body that could be parsed. -/
theorem readResponse_faithful_iff {j : Json} (h : env.parse body = .ok j) :
    Faithful env body (readResponse env body) ↔ ProperReply env.libc j := by
  by_cases hnull : NullTime env.libc (timestampText j)
  · -- undefined behaviour is no result and no exception
    rw [readResponse_of_nullTime h hnull]
    refine iff_of_false (fun hfaithful => ?_) fun hj => hj.2.2 hnull
    by_cases hsome : ∃ v, Sent env body v
    · obtain ⟨v, hv⟩ := hsome
      exact nomatch (hfaithful.1 v).mpr hv
    · obtain ⟨text, htext⟩ := hfaithful.2 hsome
      cases htext
  rcases readResponse_of_not_nullTime h hnull with ⟨error, text, herror, hr⟩ |
    ⟨herror, v, hv, hr⟩ | ⟨hmissing, hr⟩ | ⟨hnotnull, hnotobject, text, hr⟩
  · -- an error
    have hno : ¬∃ v, Sent env body v := by
      rintro ⟨v, hv⟩
      rw [sent_iff h, herror] at hv
      cases hv.1
    obtain ⟨members, rfl, hlookup⟩ := Json.find?_eq_some.mp herror
    rw [hr]
    refine iff_of_true (faithful_of_error hno) ⟨nofun, ?_, hnull⟩
    intro v hv
    cases hv
    exact Or.inl (by rw [hlookup]; exact Option.some_ne_none error)
  · -- a result
    obtain ⟨members, rfl, hlookup⟩ := Json.find?_eq_some.mp hv
    rw [hr]
    refine iff_of_true ⟨fun v' => ?_, fun hno => ?_⟩ ⟨nofun, ?_, hnull⟩
    · rw [sent_iff h, hv]
      constructor
      · intro h
        cases h
        exact ⟨herror, rfl⟩
      · rintro ⟨-, ⟨⟩⟩
        rfl
    · exact absurd ⟨v, (sent_iff h v).mpr ⟨herror, hv⟩⟩ hno
    · intro v hv
      cases hv
      exact Or.inr (by rw [hlookup]; exact Option.some_ne_none v)
  · -- neither of them: null is returned
    have hno : ¬∃ v, Sent env body v := by
      rintro ⟨v, hv⟩
      obtain ⟨-, hfind⟩ := (sent_iff h v).mp hv
      rcases hmissing with rfl | ⟨members, rfl, -, hlookup⟩
      · cases hfind
      · rw [Json.find?, hlookup] at hfind
        cases hfind
    rw [hr]
    refine iff_of_false (not_faithful_of_ok hno) ?_
    rintro ⟨hnotnull, hmembers, -⟩
    rcases hmissing with rfl | ⟨members, rfl, herror, hlookup⟩
    · exact hnotnull rfl
    · rcases hmembers members rfl with h1 | h2
      · exact h1 herror
      · exact h2 hlookup
  · -- a scalar or an array
    have hno : ¬∃ v, Sent env body v := by
      rintro ⟨v, hv⟩
      obtain ⟨members, rfl, -⟩ := Json.find?_eq_some.mp ((sent_iff h v).mp hv).2
      exact hnotobject members rfl
    rw [hr]
    exact iff_of_true (faithful_of_error hno)
      ⟨hnotnull, fun members hmembers => absurd hmembers (hnotobject members), hnull⟩

/-- A value that is returned was sent, if the body is a proper reply. -/
theorem sent_of_makeRequest {method : Str} {params v : Json}
    (hproper : ∀ body j, transfer env client method params = .ok body → env.parse body = .ok j →
      ProperReply env.libc j)
    (hv : makeRequest env client method params = .ok v) :
    ∃ body, transfer env client method params = .ok body ∧ Sent env body v := by
  obtain ⟨body, hbody, hread⟩ := bind_eq_ok.mp hv
  refine ⟨body, hbody, ?_⟩
  cases hparse : env.parse body with
  | error what =>
    obtain ⟨text, htext⟩ := readResponse_of_parse_error hparse
    rw [htext] at hread
    cases hread
  | ok j =>
    have hfaithful := (readResponse_faithful_iff hparse).mpr (hproper body j hbody hparse)
    exact (hfaithful.1 v).mp hread

/-- **No query hands its caller a value the node did not send**, as long as every
body that is received and can be parsed is a proper reply. -/
theorem sent_of_query {blockNumber address txHash : Str} {r : Exec Json} {v : Json}
    (hproper : ∀ method params body j, transfer env client method params = .ok body →
      env.parse body = .ok j → ProperReply env.libc j)
    (hr : r ∈ queries env client blockNumber address txHash) (hv : r = .ok v) :
    ∃ method params body, transfer env client method params = .ok body ∧ Sent env body v := by
  have hrequest : ∃ method params, r = makeRequest env client method params := by
    simp only [queries, List.mem_cons, List.not_mem_nil, or_false] at hr
    rcases hr with rfl | rfl | rfl | rfl | rfl | rfl
    · exact ⟨_, _, rfl⟩
    · exact ⟨_, _, rfl⟩
    · exact ⟨_, _, rfl⟩
    · exact ⟨_, _, rfl⟩
    · exact ⟨_, _, rfl⟩
    · exact ⟨_, _, rfl⟩
  obtain ⟨method, params, rfl⟩ := hrequest
  exact ⟨method, params, sent_of_makeRequest (hproper method params) hv⟩

/-- **`makeRequest` returns genuine results only**, and fails with a runtime error
otherwise, exactly for the bodies that are no JSON or a proper reply. -/
theorem makeRequest_faithful_iff {method : Str} {params : Json}
    (h : transfer env client method params = .ok body) :
    Faithful env body (makeRequest env client method params) ↔
      ∀ j, env.parse body = .ok j → ProperReply env.libc j := by
  have hread : makeRequest env client method params = readResponse env body := by
    unfold makeRequest
    rw [h, bind_ok]
  rw [hread]
  cases hparse : env.parse body with
  | error what =>
    have hno : ¬∃ v, Sent env body v := by
      rintro ⟨v, members, hmembers, -⟩
      rw [hparse] at hmembers
      cases hmembers
    obtain ⟨text, htext⟩ := readResponse_of_parse_error hparse
    rw [htext]
    exact iff_of_true (faithful_of_error hno) nofun
  | ok j =>
    rw [readResponse_faithful_iff hparse]
    constructor
    · rintro hj _ ⟨⟩
      exact hj
    · exact fun hall => hall j rfl

end Results

/-- A parser for two replies: one with a result, and null. -/
def parseTwo (s : Str) : Except Str Json :=
  if s = "\x7b\"result\":\"0x5\"\x7d".toList then
    .ok (.object [("result".toList, .string "0x5".toList)])
  else if s = "null".toList then .ok .null
  else .error "[json.exception.parse_error.101] parse error".toList

/-- A node that answers every request with `body`. -/
def answering (body : Str) : Env Tm where
  libc := utc
  parse := parseTwo
  curlInit := true
  perform := fun _ => .ok body

/-- A proper reply. -/
theorem makeRequest_faithful_gasPrice :
    Faithful (answering "\x7b\"result\":\"0x5\"\x7d".toList) "\x7b\"result\":\"0x5\"\x7d".toList
      (getGasPrice (answering "\x7b\"result\":\"0x5\"\x7d".toList) (.create "key".toList)) := by
  refine (makeRequest_faithful_iff (by decide)).mpr ?_
  rintro j hj
  obtain rfl : Json.object [("result".toList, .string "0x5".toList)] = j := by
    refine Except.ok.inj (Eq.trans ?_ hj)
    rfl
  refine ⟨nofun, ?_, not_nullTime_nil⟩
  intro v hv
  cases hv
  exact Or.inr (by decide)

/-- A body of `null` comes out as a null gas price, which the node did not send. -/
theorem makeRequest_not_faithful :
    transfer (answering "null".toList) (.create "key".toList) "eth_gasPrice".toList (.array []) =
      .ok "null".toList ∧
    ¬Faithful (answering "null".toList) "null".toList
      (getGasPrice (answering "null".toList) (.create "key".toList)) := by
  refine ⟨by decide, fun hfaithful => ?_⟩
  obtain ⟨hreturned, -⟩ := hfaithful
  obtain ⟨members, hmembers, -⟩ := (hreturned .null).mp rfl
  cases hmembers

end BlockchainClient
end IntBlock
