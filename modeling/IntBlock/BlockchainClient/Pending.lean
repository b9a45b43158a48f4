import IntBlock.BlockchainClient.Request

/-!
# Pending transactions

`on_message` and its callback `onPendingTransaction` in `blockchain_client.cpp`,
with `decodeFunctionSelector`.  A notification carries a hash; the transaction
is fetched and reported field by field, and the counter is incremented at the
end of the report, inside the `try`.

## Main definitions

* `Message` — a text received, and what the servers answer while it is handled.
* `onMessage`, `onPendingTransaction`, `decodeFunctionSelector` — the functions.
* `handleMessages` — a sequence of messages.
* `received` — a message whose transaction the client fetches with `makeRequest`.
* `notifiedHash` — the hash of a pending-transaction notification.
* `Handled c parse m` — the message is handled as it should be.

## Main results

* `reportTransaction_eq_ok` — when a report gets to its end.
* `reported_received` — a transaction the node does not know is reported.
* `onMessage_eq_ok`, `onMessage_of_handled` — the counter after one message.
* `handleMessages_iff` — **no standard exception gets out, and when every
  notification is counted exactly once.**
-/

namespace IntBlock
namespace BlockchainClient

open Cpp

/-! ### The functions -/

/-- A text received, the outcome of `getTransactionByHash` for its transaction, and
the answer of the signature directory: none where CURL cannot be initialized,
an error where the transfer fails. -/
structure Message where
  payload : Str
  fetch : Str → Exec Json
  signatures : Str → Option (Except Str Str)

section Functions

variable {Tm : Type} (c : Libc Tm) (parse : Str → Except Str Json)

def decodeFunctionSelector (signatures : Str → Option (Except Str Str)) (selector : Str) :
    Exec Str :=
  catching Exception.isStd
    (match signatures selector with
      | none => .ok (selector ++ " (unknown)".toList)
      | some (.error _) => .ok (selector ++ " (lookup failed)".toList)
      | some (.ok responseStr) => do
          let response ← parseJson parse responseStr
          jsonDebug c response
          let results := response.member "results".toList
          if response.contains "results".toList && results.isArray && 0 < results.size then
            let result := results.element 0
            if result.contains "text_signature".toList then
              return ← (result.member "text_signature".toList).getString
          return selector ++ " (unknown)".toList)
    (fun _ => .ok (selector ++ " (error)".toList))

/-- `if (txData.contains(key)) std::cout << … << txData[key].get<std::string>()` -/
def printField (txData : Json) (key : Str) : Exec Unit := do
  if txData.contains key then
    let _value ← (txData.member key).getString

/-- The receiver, which a contract creation has not. -/
def printTo (txData : Json) : Exec Unit := do
  if txData.contains "to".toList && !(txData.member "to".toList).isNull then
    let _to ← (txData.member "to".toList).getString

/-- The call data, with the function's name looked up. -/
def printInput (m : Message) (txData : Json) : Exec Unit := do
  if txData.contains "input".toList then
    let input ← (txData.member "input".toList).getString
    if input ≠ "0x".toList then
      if 10 ≤ input.length then
        let selector := input.take 10
        let _funcName ← decodeFunctionSelector c parse m.signatures selector

/-- `onPendingTransaction` from the fetch to the end of the report. -/
def reportTransaction (m : Message) (txHash : Str) : Exec Unit := do
  let txData ← m.fetch txHash
  jsonDebug c txData
  printField txData "from".toList
  printTo txData
  printField txData "value".toList
  printField txData "gasPrice".toList
  printField txData "gas".toList
  printField txData "nonce".toList
  printField txData "type".toList
  printInput c parse m txData

/-- `n++` for an `int` that is not negative. -/
def incrementInt (n : ℕ) : Exec ℕ := if n + 1 < 2 ^ 31 then .ok (n + 1) else .error .undefined

/-- The counter afterwards. -/
def onPendingTransaction (m : Message) (tx : Json) (pendingTransactionCount : ℕ) : Exec ℕ :=
  catching Exception.isStd
    (do
      let txHash ← tx.getString
      reportTransaction c parse m txHash
      incrementInt pendingTransactionCount)
    (fun _ => .ok pendingTransactionCount)

/-- The counter after `on_message`, with `onPendingTransaction` as the callback. -/
def onMessage (pendingTransactionCount : ℕ) (m : Message) : Exec ℕ :=
  catching Exception.isStd
    (do
      let response ← parseJson parse m.payload
      jsonDebug c response
      if response.contains "result".toList then
        return pendingTransactionCount
      let params := response.member "params".toList
      if response.contains "params".toList && params.contains "result".toList then
        let txHash := params.member "result".toList
        return ← onPendingTransaction c parse m txHash pendingTransactionCount
      return pendingTransactionCount)
    (fun _ => .ok pendingTransactionCount)

/-- The counter after a sequence of messages. -/
def handleMessages (pendingTransactionCount : ℕ) (ms : List Message) : Exec ℕ :=
  ms.foldlM (onMessage c parse) pendingTransactionCount

/-- The query of the signature directory. -/
def selectorRequest (selector : Str) : Request where
  url := "https://www.4byte.directory/api/v1/signatures/?hex_signature=".toList ++ selector
  postFields := none
  headers := []
  timeout := 3

/-- A text received by a client, which asks the servers itself. -/
def received (env : Env Tm) (client : Client) (payload : Str) : Message where
  payload
  fetch := getTransactionByHash env client
  signatures selector :=
    if env.curlInit then some (env.perform (selectorRequest selector)) else none

end Functions

/-! ### Notifications -/

/-- The hash of a pending-transaction notification: an object without a result,
whose parameters are an object with a string as their result. -/
def notifiedHash (parse : Str → Except Str Json) (m : Message) : Option Str :=
  match parse m.payload with
  | .ok (.object members) =>
      match members.lookup "result".toList, members.lookup "params".toList with
      | none, some (.object params) =>
          match params.lookup "result".toList with
          | some (.string hash) => some hash
          | _ => none
      | _, _ => none
  | _ => none

/-- Whether the message is a pending-transaction notification. -/
def isNotification (parse : Str → Except Str Json) (m : Message) : Bool :=
  (notifiedHash parse m).isSome

section Conditions

variable {Tm : Type} (c : Libc Tm) (parse : Str → Except Str Json)

/-- Every field of the transaction that is printed is a string, if it is there at
all; the receiver may be null as well. -/
def Readable (txData : Json) : Prop :=
  (∀ key ∈ ["from", "value", "gasPrice", "gas", "nonce", "type", "input"],
    ∀ v, txData.find? key.toList = some v → v.isString = true) ∧
  ∀ v, txData.find? "to".toList = some v → v.isNull = true ∨ v.isString = true

/-- The directory's answer does not crash the client on a timestamp. -/
def SelectorSafe (signatures : Str → Option (Except Str Str)) (selector : Str) : Prop :=
  ∀ body j, signatures selector = some (.ok body) → parse body = .ok j →
    ¬NullTime c (timestampText j)

/-- The transaction is fetched, can be printed, and its call data, if there is
any, is looked up without a crash. -/
def Reported (m : Message) (txHash : Str) : Prop :=
  ∃ txData, m.fetch txHash = .ok txData ∧ ¬NullTime c (timestampText txData) ∧
    Readable txData ∧
    ∀ input, txData.find? "input".toList = some (.string input) → input ≠ "0x".toList →
      10 ≤ input.length → SelectorSafe c parse m.signatures (input.take 10)

/-- The message does not crash the client, and a transaction it notifies is reported. -/
def Handled (m : Message) : Prop :=
  (∀ j, parse m.payload = .ok j → ¬NullTime c (timestampText j)) ∧
  ∀ txHash, notifiedHash parse m = some txHash → Reported c parse m txHash

end Conditions

section Results

variable {Tm : Type} {c : Libc Tm} {parse : Str → Except Str Json}

/-! ### One transaction -/

theorem decodeFunctionSelector_of_safe {signatures : Str → Option (Except Str Str)}
    {selector : Str} (h : SelectorSafe c parse signatures selector) :
    ∃ name, decodeFunctionSelector c parse signatures selector = .ok name := by
  unfold decodeFunctionSelector
  cases hanswer : signatures selector with
  | none => exact ⟨_, rfl⟩
  | some answer =>
    cases answer with
    | error what => exact ⟨_, rfl⟩
    | ok body =>
      cases hparse : parse body with
      | error what =>
        simp only [parseJson_of_error hparse, bind_error]
        exact ⟨_, catching_thrown _ _ rfl⟩
      | ok j =>
        simp only [parseJson_of_ok hparse, bind_ok, jsonDebug_eq_ok (h body j hanswer hparse)]
        split
        · split
          · -- the name is a string, or reading it throws
            rcases Json.getString_cases
              (((j.member "results".toList).element 0).member "text_signature".toList) with
              ⟨name, hname⟩ | ⟨what, hwhat⟩
            · rw [hname]
              exact ⟨_, rfl⟩
            · rw [hwhat]
              exact ⟨_, rfl⟩
          · exact ⟨_, rfl⟩
        · exact ⟨_, rfl⟩

theorem decodeFunctionSelector_of_not_safe {signatures : Str → Option (Except Str Str)}
    {selector : Str} (h : ¬SelectorSafe c parse signatures selector) :
    decodeFunctionSelector c parse signatures selector = .error .undefined := by
  unfold SelectorSafe at h
  push Not at h
  obtain ⟨body, j, hanswer, hparse, hnull⟩ := h
  unfold decodeFunctionSelector
  simp only [hanswer, parseJson_of_ok hparse, bind_ok, jsonDebug_eq_undefined hnull, bind_error,
    catching_undefined]

/-- A selector is looked up without a crash, whatever comes out of it. -/
theorem decodeFunctionSelector_eq_ok {signatures : Str → Option (Except Str Str)}
    {selector : Str} :
    (∃ name, decodeFunctionSelector c parse signatures selector = .ok name) ↔
      SelectorSafe c parse signatures selector := by
  constructor
  · rintro ⟨name, hname⟩
    by_contra h
    rw [decodeFunctionSelector_of_not_safe h] at hname
    cases hname
  · exact decodeFunctionSelector_of_safe

/-- A field can be printed if it is a string, or not there. -/
theorem printField_eq_ok {txData : Json} {key : Str} :
    printField txData key = .ok () ↔ ∀ v, txData.find? key = some v → v.isString = true := by
  unfold printField
  cases hfind : txData.find? key with
  | none =>
    rw [Json.contains_eq_false.mpr hfind]
    exact iff_of_true rfl nofun
  | some v =>
    rw [Json.contains_iff.mpr ⟨v, hfind⟩, Json.member_of_find? hfind]
    cases v with
    | string s =>
      refine iff_of_true rfl ?_
      intro v hv
      cases hv
      rfl
    | null | boolean b | integer n | unsigned n | float text | array elements | object members =>
      exact iff_of_false nofun fun h => nomatch h _ rfl

/-- The receiver can be printed if it is null as well. -/
theorem printTo_eq_ok {txData : Json} :
    printTo txData = .ok () ↔
      ∀ v, txData.find? "to".toList = some v → v.isNull = true ∨ v.isString = true := by
  unfold printTo
  cases hfind : txData.find? "to".toList with
  | none =>
    rw [Json.contains_eq_false.mpr hfind]
    exact iff_of_true rfl nofun
  | some v =>
    rw [Json.contains_iff.mpr ⟨v, hfind⟩, Json.member_of_find? hfind]
    cases v with
    | null =>
      refine iff_of_true rfl ?_
      intro v hv
      cases hv
      exact Or.inl rfl
    | string s =>
      refine iff_of_true rfl ?_
      intro v hv
      cases hv
      exact Or.inr rfl
    | boolean b | integer n | unsigned n | float text | array elements | object members =>
      refine iff_of_false nofun fun h => ?_
      rcases h _ rfl with h | h
      · cases h
      · cases h

/-- The call data can be printed if it is a string whose selector, where it has
one, is looked up without a crash. -/
theorem printInput_eq_ok {m : Message} {txData : Json} :
    printInput c parse m txData = .ok () ↔
      (∀ v, txData.find? "input".toList = some v → v.isString = true) ∧
      ∀ input, txData.find? "input".toList = some (.string input) → input ≠ "0x".toList →
        10 ≤ input.length → SelectorSafe c parse m.signatures (input.take 10) := by
  unfold printInput
  cases hfind : txData.find? "input".toList with
  | none =>
    rw [Json.contains_eq_false.mpr hfind]
    exact iff_of_true rfl ⟨nofun, nofun⟩
  | some v =>
    rw [Json.contains_iff.mpr ⟨v, hfind⟩, Json.member_of_find? hfind]
    cases v with
    | string input =>
      simp only [if_true, Json.getString_string, bind_ok]
      have hstring : ∀ v, some (Json.string input) = some v → v.isString = true := by
        intro v hv
        cases hv
        rfl
      -- a selector is looked up where there are its eight digits
      by_cases hlookup : input ≠ "0x".toList ∧ 10 ≤ input.length
      · rw [if_pos hlookup.1, if_pos hlookup.2]
        have hselector : (do
            let _funcName ← decodeFunctionSelector c parse m.signatures (input.take 10)
            pure () : Exec Unit) = .ok () ↔ SelectorSafe c parse m.signatures (input.take 10) := by
          rw [bind_eq_ok, ← decodeFunctionSelector_eq_ok]
          exact exists_congr fun name => and_iff_left rfl
        refine hselector.trans ⟨fun h => ⟨hstring, ?_⟩, fun h => ?_⟩
        · rintro _ ⟨⟩ - -
          exact h
        · exact h.2 input rfl hlookup.1 hlookup.2
      · refine iff_of_true ?_ ⟨hstring, ?_⟩
        · split
          · next hne =>
            rw [if_neg fun hlength => hlookup ⟨hne, hlength⟩]
            rfl
          · rfl
        · rintro _ ⟨⟩ hne hlength
          exact absurd ⟨hne, hlength⟩ hlookup
    | null | boolean b | integer n | unsigned n | float text | array elements | object members =>
      exact iff_of_false nofun fun h => nomatch h.1 _ rfl

/-- **When a report gets to its end.** -/
theorem reportTransaction_eq_ok {m : Message} {txHash : Str} :
    reportTransaction c parse m txHash = .ok () ↔ Reported c parse m txHash := by
  unfold reportTransaction
  rw [bind_eq_ok]
  refine exists_congr fun txData => and_congr_right fun _ => ?_
  simp only [then_eq_ok, jsonDebug_eq_ok_iff, printField_eq_ok, printTo_eq_ok, printInput_eq_ok]
  constructor
  · rintro ⟨hnull, hfrom, hto, hvalue, hgasPrice, hgas, hnonce, htype, hinput, hselector⟩
    refine ⟨hnull, ⟨fun key hkey => ?_, hto⟩, hselector⟩
    simp only [List.mem_cons, List.not_mem_nil, or_false] at hkey
    rcases hkey with rfl | rfl | rfl | rfl | rfl | rfl | rfl
    · exact hfrom
    · exact hvalue
    · exact hgasPrice
    · exact hgas
    · exact hnonce
    · exact htype
    · exact hinput
  · rintro ⟨hnull, ⟨hfields, hto⟩, hselector⟩
    exact ⟨hnull, hfields "from" (by simp), hto, hfields "value" (by simp),
      hfields "gasPrice" (by simp), hfields "gas" (by simp), hfields "nonce" (by simp),
      hfields "type" (by simp), hfields "input" (by simp), hselector⟩

/-- A transaction fetched as null is reported, with nothing to print. -/
theorem reported_of_null {m : Message} {txHash : Str} (h : m.fetch txHash = .ok .null) :
    Reported c parse m txHash :=
  ⟨.null, h, not_nullTime_nil, ⟨fun _ _ => nofun, nofun⟩, nofun⟩

/-- So a transaction for which the node has answered nothing is counted. -/
theorem reported_received {env : Env Tm} {client : Client} {payload txHash body : Str}
    (hbody : transfer env client "eth_getTransactionByHash".toList (.array [.string txHash]) =
      .ok body)
    (hnull : env.parse body = .ok .null) :
    Reported env.libc env.parse (received env client payload) txHash := by
  apply reported_of_null
  show makeRequest env client _ _ = _
  unfold makeRequest
  rw [hbody, bind_ok]
  unfold readResponse
  rw [parseJson_of_ok hnull, bind_ok, jsonDebug_eq_ok not_nullTime_nil]
  rfl

theorem onPendingTransaction_of_reported {m : Message} {txHash : Str} {n : ℕ}
    (h : Reported c parse m txHash) (hlt : n + 1 < 2 ^ 31) :
    onPendingTransaction c parse m (.string txHash) n = .ok (n + 1) := by
  unfold onPendingTransaction
  simp only [Json.getString_string, bind_ok, reportTransaction_eq_ok.mpr h]
  rw [incrementInt, if_pos hlt, catching_ok]

/-- The counter is incremented exactly if the report gets to its end. -/
theorem onPendingTransaction_eq_ok {m : Message} {txHash : Str} {n k : ℕ}
    (h : onPendingTransaction c parse m (.string txHash) n = .ok k) :
    (Reported c parse m txHash ∧ n + 1 < 2 ^ 31 ∧ k = n + 1) ∨
      (¬Reported c parse m txHash ∧ k = n) := by
  unfold onPendingTransaction at h
  simp only [Json.getString_string, bind_ok] at h
  rw [← reportTransaction_eq_ok]
  rcases catching_eq_ok.mp h with hbody | ⟨rfl, e, -, hthrown⟩
  · left
    obtain ⟨hreport, hincrement⟩ := then_eq_ok.mp hbody
    unfold incrementInt at hincrement
    split at hincrement
    · next hlt =>
      cases hincrement
      exact ⟨hreport, hlt, rfl⟩
    · cases hincrement
  · -- the increment throws nothing, so the report has
    right
    refine ⟨fun hreport => ?_, rfl⟩
    rw [hreport, bind_ok, incrementInt] at hthrown
    split at hthrown
    · cases hthrown
    · cases hthrown

theorem onPendingTransaction_of_not_string {m : Message} {tx : Json} {n : ℕ}
    (h : tx.isString = false) : onPendingTransaction c parse m tx n = .ok n := by
  obtain ⟨what, hwhat⟩ := Json.getString_of_not_string h
  unfold onPendingTransaction
  rw [hwhat, bind_error]
  exact catching_thrown _ _ rfl

/-! ### One message -/

theorem notifiedHash_eq_some {m : Message} {txHash : Str} (h : notifiedHash parse m = some txHash) :
    ∃ members params, parse m.payload = .ok (.object members) ∧
      members.lookup "result".toList = none ∧
      members.lookup "params".toList = some (.object params) ∧
      params.lookup "result".toList = some (.string txHash) := by
  unfold notifiedHash at h
  split at h
  · next members hparse =>
    split at h
    · next params hresult hparams =>
      split at h
      · next hash hhash =>
        cases h
        exact ⟨members, params, hparse, hresult, hparams, hhash⟩
      · cases h
    · cases h
  · cases h

/-- A message that crashes the client. -/
theorem onMessage_of_nullTime {m : Message} {n : ℕ} {j : Json} (hparse : parse m.payload = .ok j)
    (hnull : NullTime c (timestampText j)) : onMessage c parse n m = .error .undefined := by
  unfold onMessage
  simp only [parseJson_of_ok hparse, bind_ok, jsonDebug_eq_undefined hnull, bind_error,
    catching_undefined]

/-- A notification is handed to the callback. -/
theorem onMessage_of_notified {m : Message} {txHash : Str} (n : ℕ)
    (hsafe : ∀ j, parse m.payload = .ok j → ¬NullTime c (timestampText j))
    (h : notifiedHash parse m = some txHash) :
    onMessage c parse n m = onPendingTransaction c parse m (.string txHash) n := by
  obtain ⟨members, params, hparse, hresult, hparams, hhash⟩ := notifiedHash_eq_some h
  have hno : (Json.object members).contains "result".toList = false :=
    Json.contains_eq_false.mpr hresult
  have hhas : (Json.object members).contains "params".toList = true :=
    Json.contains_iff.mpr ⟨_, hparams⟩
  have hmember : (Json.object members).member "params".toList = .object params :=
    Json.member_of_find? hparams
  have hhas' : (Json.object params).contains "result".toList = true :=
    Json.contains_iff.mpr ⟨_, hhash⟩
  have hmember' : (Json.object params).member "result".toList = .string txHash :=
    Json.member_of_find? hhash
  unfold onMessage
  simp only [parseJson_of_ok hparse, bind_ok, jsonDebug_eq_ok (hsafe _ hparse), hno, hhas, hmember,
    hhas', hmember', Bool.and_self, Bool.false_eq_true, if_false, if_true]
  exact catching_catching _ _

/-- No other message moves the counter. -/
theorem onMessage_of_not_notified {m : Message} (n : ℕ)
    (hsafe : ∀ j, parse m.payload = .ok j → ¬NullTime c (timestampText j))
    (h : notifiedHash parse m = none) : onMessage c parse n m = .ok n := by
  cases hparse : parse m.payload with
  | error what =>
    unfold onMessage
    rw [parseJson_of_error hparse, bind_error]
    exact catching_thrown _ _ rfl
  | ok j =>
    unfold onMessage
    simp only [parseJson_of_ok hparse, bind_ok, jsonDebug_eq_ok (hsafe _ hparse)]
    by_cases hresult : j.contains "result".toList = true
    · rw [if_pos hresult]
      rfl
    rw [if_neg hresult]
    by_cases hparams : (j.contains "params".toList &&
        (j.member "params".toList).contains "result".toList) = true
    swap
    · rw [if_neg hparams]
      rfl
    rw [if_pos hparams]
    -- what is there is handed to the callback, but it is no string
    obtain ⟨hhas, hhas'⟩ := Bool.and_eq_true_iff.mp hparams
    obtain ⟨v, hv⟩ := Json.contains_iff.mp hhas
    obtain ⟨members, rfl, hlookup⟩ := Json.find?_eq_some.mp hv
    rw [Json.member_of_find? hv] at hhas' ⊢
    obtain ⟨v', hv'⟩ := Json.contains_iff.mp hhas'
    obtain ⟨params, rfl, hlookup'⟩ := Json.find?_eq_some.mp hv'
    rw [Json.member_of_find? hv']
    have hnone := Json.contains_eq_false.mp (Bool.not_eq_true _ ▸ hresult)
    have hstring : v'.isString = false := by
      unfold notifiedHash at h
      simp only [hparse, show members.lookup "result".toList = none from hnone, hlookup,
        hlookup'] at h
      cases v' with
      | string s => cases h
      | null | boolean b | integer n | unsigned n | float text | array elements | object members =>
        rfl
    rw [onPendingTransaction_of_not_string hstring]
    rfl

/-- **The counter after one message**: one more if the message notifies a
transaction whose report gets to its end. -/
theorem onMessage_eq_ok {m : Message} {n k : ℕ} (h : onMessage c parse n m = .ok k) :
    (∀ j, parse m.payload = .ok j → ¬NullTime c (timestampText j)) ∧
    ((∃ txHash, notifiedHash parse m = some txHash ∧ Reported c parse m txHash ∧
        n + 1 < 2 ^ 31 ∧ k = n + 1) ∨
      ((∀ txHash, notifiedHash parse m = some txHash → ¬Reported c parse m txHash) ∧ k = n)) := by
  have hsafe : ∀ j, parse m.payload = .ok j → ¬NullTime c (timestampText j) := by
    intro j hparse hnull
    rw [onMessage_of_nullTime hparse hnull] at h
    cases h
  refine ⟨hsafe, ?_⟩
  cases hhash : notifiedHash parse m with
  | none =>
    rw [onMessage_of_not_notified n hsafe hhash] at h
    cases h
    exact Or.inr ⟨nofun, rfl⟩
  | some txHash =>
    rw [onMessage_of_notified n hsafe hhash] at h
    rcases onPendingTransaction_eq_ok h with ⟨hreported, hlt, hk⟩ | ⟨hnot, hk⟩
    · exact Or.inl ⟨txHash, rfl, hreported, hlt, hk⟩
    · right
      refine ⟨?_, hk⟩
      intro v hv
      cases hv
      exact hnot

/-- A message that is handled as it should be. -/
theorem onMessage_of_handled {m : Message} {n : ℕ} (h : Handled c parse m)
    (hlt : n + (if isNotification parse m then 1 else 0) < 2 ^ 31) :
    onMessage c parse n m = .ok (n + if isNotification parse m then 1 else 0) := by
  unfold isNotification at hlt ⊢
  cases hhash : notifiedHash parse m with
  | none => exact onMessage_of_not_notified n h.1 hhash
  | some txHash =>
    rw [hhash] at hlt
    rw [onMessage_of_notified n h.1 hhash]
    exact onPendingTransaction_of_reported (h.2 txHash hhash) hlt

/-- No standard exception gets out of `on_message`. -/
theorem onMessage_not_std {m : Message} {n : ℕ} {e : Exception}
    (h : onMessage c parse n m = .error (.thrown e)) : e.isStd = false :=
  not_caught_of_catching h

/-! ### A sequence of messages -/

theorem handleMessages_not_std {ms : List Message} {n : ℕ} {e : Exception}
    (h : handleMessages c parse n ms = .error (.thrown e)) : e.isStd = false := by
  unfold handleMessages at h
  induction ms generalizing n with
  | nil => cases h
  | cons m ms ih =>
    rw [List.foldlM_cons] at h
    cases hm : onMessage c parse n m with
    | error stop =>
      rw [hm, bind_error] at h
      cases h
      exact onMessage_not_std hm
    | ok k =>
      rw [hm, bind_ok] at h
      exact ih h

/-- The counter never runs ahead of the notifications, and keeps up with them only
if every message is handled. -/
theorem handleMessages_le {ms : List Message} {n k : ℕ} (hn : n < 2 ^ 31)
    (h : handleMessages c parse n ms = .ok k) :
    k < 2 ^ 31 ∧ k ≤ n + ms.countP (isNotification parse) ∧
      (k = n + ms.countP (isNotification parse) → ∀ m ∈ ms, Handled c parse m) := by
  unfold handleMessages at h
  induction ms generalizing n with
  | nil =>
    cases h
    exact ⟨hn, le_refl _, fun _ => nofun⟩
  | cons m ms ih =>
    rw [List.foldlM_cons] at h
    obtain ⟨n', hm, hrest⟩ := bind_eq_ok.mp h
    obtain ⟨hsafe, hcount⟩ := onMessage_eq_ok hm
    rw [List.countP_cons]
    rcases hcount with ⟨txHash, hhash, hreported, hlt, rfl⟩ | ⟨hnot, rfl⟩
    · -- counted
      obtain ⟨hk, hle, heq⟩ := ih hlt hrest
      have hnotification : isNotification parse m = true := by
        rw [isNotification, hhash]
        rfl
      rw [if_pos hnotification]
      refine ⟨hk, by omega, fun hk' => ?_⟩
      rintro m' (_ | ⟨_, hmem⟩)
      · refine ⟨hsafe, fun txHash' hhash' => ?_⟩
        rw [hhash] at hhash'
        cases hhash'
        exact hreported
      · exact heq (by omega) m' hmem
    · -- not counted
      obtain ⟨hk, hle, heq⟩ := ih hn hrest
      refine ⟨hk, by omega, fun hk' => ?_⟩
      cases hhash : notifiedHash parse m with
      | none =>
        rintro m' (_ | ⟨_, hmem⟩)
        · exact ⟨hsafe, fun txHash' hhash' => by rw [hhash] at hhash'; cases hhash'⟩
        · refine heq ?_ m' hmem
          have hnotification : isNotification parse m = false := by
            rw [isNotification, hhash]
            rfl
          rw [hnotification, if_neg Bool.false_ne_true] at hk'
          omega
      | some txHash =>
        have hnotification : isNotification parse m = true := by
          rw [isNotification, hhash]
          rfl
        rw [if_pos hnotification] at hk'
        omega

theorem handleMessages_of_handled {ms : List Message} {n : ℕ}
    (hms : ∀ m ∈ ms, Handled c parse m)
    (hlt : n + ms.countP (isNotification parse) < 2 ^ 31) :
    handleMessages c parse n ms = .ok (n + ms.countP (isNotification parse)) := by
  unfold handleMessages
  induction ms generalizing n with
  | nil => rfl
  | cons m ms ih =>
    rw [List.countP_cons] at hlt ⊢
    have hm := onMessage_of_handled (n := n) (hms m List.mem_cons_self) (by omega)
    rw [List.foldlM_cons, hm, bind_ok,
      ih (fun m' hm' => hms m' (List.mem_cons_of_mem _ hm')) (by omega)]
    congr 1
    omega

/-- **No standard exception gets out, and when every notification is counted
exactly once**: no message crashes the client, every transaction notified is
fetched and reported to the end, and there are fewer than `2 ^ 31` of them. -/
theorem handleMessages_iff (c : Libc Tm) (parse : Str → Except Str Json) (ms : List Message) :
    (∀ e, handleMessages c parse 0 ms = .error (.thrown e) → e.isStd = false) ∧
    (handleMessages c parse 0 ms = .ok (ms.countP (isNotification parse)) ↔
      (∀ m ∈ ms, Handled c parse m) ∧ ms.countP (isNotification parse) < 2 ^ 31) := by
  refine ⟨fun e h => handleMessages_not_std h, fun h => ?_, fun ⟨hms, hlt⟩ => ?_⟩
  · obtain ⟨hk, -, heq⟩ := handleMessages_le (by norm_num) h
    exact ⟨heq (by omega), hk⟩
  · have hrun := handleMessages_of_handled (n := 0) hms (by omega)
    rw [Nat.zero_add] at hrun
    exact hrun

end Results

/-- The text of a notification. -/
def notificationText : Str :=
  "\x7b\"method\":\"eth_subscription\",\"params\":\x7b\"result\":\"0xab\"\x7d\x7d".toList

/-- A parser for that text. -/
def parseNotification (s : Str) : Except Str Json :=
  if s = notificationText then
    .ok (.object [("method".toList, .string "eth_subscription".toList),
      ("params".toList, .object [("result".toList, .string "0xab".toList)])])
  else .error "[json.exception.parse_error.101] parse error".toList

/-- A notification whose transaction cannot be fetched, because the transfer fails. -/
def unfetched : Message where
  payload := notificationText
  fetch := fun _ => raise (.runtimeError "CURL request failed: Timeout was reached".toList)
  signatures := fun _ => none

/-- It is not counted. -/
theorem handleMessages_not_counted :
    ¬handleMessages utc parseNotification 0 [unfetched] =
        .ok ([unfetched].countP (isNotification parseNotification)) ∧
      handleMessages utc parseNotification 0 [unfetched] = .ok 0 := by
  have hrun : handleMessages utc parseNotification 0 [unfetched] = .ok 0 := by decide
  have hcount : [unfetched].countP (isNotification parseNotification) = 1 := by decide
  rw [hrun, hcount]
  exact ⟨nofun, rfl⟩

end BlockchainClient
end IntBlock
