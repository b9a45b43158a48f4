import IntBlock.JsonText.Lexer

/-!
# The parser

The parser of `json.hpp`.  It is one loop without recursion: a stack of flags says
which kind of container each open bracket belongs to, and the value is built up
beside it, on a stack of its own, by the handler of the parser's events.

## Main definitions

* `Dom` — the handler, with the containers begun and not ended.
* `parseValue`, `parseMember`, `evaluate` — the loop, from its three entries.
* `parse` — `json::parse`.
-/

namespace IntBlock
namespace JsonText

open Cpp

/-- The tokens `get_token` is going to return. -/
abbrev Stream := List (Token × Lexer)

/-! ### The handler -/

/-- `operator[]` and the assignment of a value: in the order of the keys, with a
value already there replaced. -/
def setMember (key : Str) (v : Json) : List (Str × Json) → List (Str × Json)
  | [] => [(key, v)]
  | m :: ms =>
      if key < m.1 then (key, v) :: m :: ms
      else if key = m.1 then (key, v) :: ms
      else m :: setMember key v ms

/-- A container begun and not ended; in an object, with the key of the next value. -/
inductive Frame
  | array (elements : List Json)
  | object (members : List (Str × Json)) (key : Option Str)

/-- `json_sax_dom_parser`.  A container becomes part of the one around it when it
ends, where the source lets the one around it point to it from the start. -/
structure Dom where
  root : Json
  /-- `ref_stack`, the innermost container first. -/
  refStack : List Frame

namespace Dom

/-- `handle_value`; its assertions are undefined behaviour where they fail. -/
def handleValue (dom : Dom) (v : Json) : Exec Dom :=
  match dom.refStack with
  | [] => .ok { dom with root := v }
  | .array elements :: frames =>
      .ok { dom with refStack := .array (elements ++ [v]) :: frames }
  | .object members (some key) :: frames =>
      .ok { dom with refStack := .object (setMember key v members) (some key) :: frames }
  | .object _ none :: _ => .error .undefined

def startArray (dom : Dom) : Dom := { dom with refStack := .array [] :: dom.refStack }

def startObject (dom : Dom) : Dom := { dom with refStack := .object [] none :: dom.refStack }

def key (dom : Dom) (key : Str) : Exec Dom :=
  match dom.refStack with
  | .object members _ :: frames =>
      .ok { dom with refStack := .object members (some key) :: frames }
  | _ => .error .undefined

def endArray (dom : Dom) : Exec Dom :=
  match dom.refStack with
  | .array elements :: frames => handleValue { dom with refStack := frames } (.array elements)
  | _ => .error .undefined

def endObject (dom : Dom) : Exec Dom :=
  match dom.refStack with
  | .object members _ :: frames => handleValue { dom with refStack := frames } (.object members)
  | _ => .error .undefined

end Dom

/-! ### Errors -/

/-- `get_token_string` -/
def Lexer.getTokenString (l : Lexer) : Str :=
  l.tokenString.flatMap fun c =>
    if c.toNat ≤ 0x1F then
      "<U+00".toList ++ [upperDigit (c.toNat / 16), upperDigit (c.toNat % 16), '>']
    else [c]

/-- `exception_message` -/
def exceptionMessage (last : Token × Lexer) (expected : Option Str) (context : Str) : Str :=
  "syntax error while parsing ".toList ++ context ++ " - ".toList ++
    (match last.1 with
      | .parseError message =>
          message ++ "; last read: '".toList ++ last.2.getTokenString ++ ['\'']
      | token => "unexpected ".toList ++ token.name) ++
    (match expected with
      | some expected => "; expected ".toList ++ expected
      | none => [])

/-- `parse_error::create(101, …)`, which the handler throws. -/
def syntaxError {α : Type} (last : Token × Lexer) (expected : Option Str) (context : Str) :
    Exec α :=
  raise (.json ("[json.exception.parse_error.101] parse error at line ".toList ++
    decimal (last.2.position.linesRead + 1 : ℕ) ++ ", column ".toList ++
    decimal last.2.position.charsReadCurrentLine ++ ": ".toList ++
    exceptionMessage last expected context))

/-- `out_of_range::create(406, …)` -/
def numberOverflow {α : Type} (last : Token × Lexer) : Exec α :=
  raise (.json ("[json.exception.out_of_range.406] number overflow parsing '".toList ++
    last.2.getTokenString ++ ['\'']))

/-! ### The loop -/

/-- The value of a token that is one. -/
def Token.scalar? : Token → Option Json
  | literalTrue => some (.boolean true)
  | literalFalse => some (.boolean false)
  | literalNull => some .null
  | valueString s => some (.string s)
  | valueUnsigned n => some (.unsigned n)
  | valueInteger n => some (.integer n)
  | valueFloat text => text.map Json.float
  | _ => none

mutual

/-- A round of the loop in `sax_parse_internal`, with `last_token` in front of the
stream.  No token is asked for after the last: an empty stream is out of the
question. -/
def parseValue (states : List Bool) (dom : Dom) : Stream → Exec (Dom × Stream)
  | [] => .error .undefined
  | last :: stream =>
      match last.1 with
      | .beginObject =>
          match stream with
          | [] => .error .undefined
          | next :: stream' =>
              if next.1 = .endObject then do
                let dom' ← dom.startObject.endObject
                evaluate states dom' stream'
              else parseMember (false :: states) dom.startObject (next :: stream')
      | .beginArray =>
          match stream with
          | [] => .error .undefined
          | next :: stream' =>
              if next.1 = .endArray then do
                let dom' ← dom.startArray.endArray
                evaluate states dom' stream'
              else parseValue (true :: states) dom.startArray (next :: stream')
      | .valueFloat none => numberOverflow last
      | .parseError _ => syntaxError last none "value".toList
      | token =>
          match token.scalar? with
          | some v => do
              let dom' ← dom.handleValue v
              evaluate states dom' stream
          | none => syntaxError last (some "'[', '\x7b', or a literal".toList) "value".toList

/-- A key, which is `last_token`, the separator, and the value. -/
def parseMember (states : List Bool) (dom : Dom) : Stream → Exec (Dom × Stream)
  | [] => .error .undefined
  | last :: stream =>
      match last.1 with
      | .valueString key => do
          let dom' ← dom.key key
          match stream with
          | [] => .error .undefined
          | separator :: stream' =>
              if separator.1 = .nameSeparator then parseValue states dom' stream'
              else
                syntaxError separator (some Token.nameSeparator.name) "object separator".toList
      | _ => syntaxError last (some "string literal".toList) "object key".toList

/-- The state evaluation, after a value. -/
def evaluate (states : List Bool) (dom : Dom) : Stream → Exec (Dom × Stream)
  | [] => if states = [] then .ok (dom, []) else .error .undefined
  | last :: stream =>
      match states with
      | [] => .ok (dom, last :: stream)
      | true :: outer =>
          if last.1 = .valueSeparator then parseValue states dom stream
          else if last.1 = .endArray then do
            let dom' ← dom.endArray
            evaluate outer dom' stream
          else syntaxError last (some Token.endArray.name) "array".toList
      | false :: outer =>
          if last.1 = .valueSeparator then parseMember states dom stream
          else if last.1 = .endObject then do
            let dom' ← dom.endObject
            evaluate outer dom' stream
          else syntaxError last (some Token.endObject.name) "object".toList

end

/-- `parser::parse` on the tokens of a text: the value, and then the end of the input. -/
def parseStream (stream : Stream) : Exec Json := do
  let (dom, rest) ← parseValue [] ⟨.null, []⟩ stream
  match rest with
  | [] => .error .undefined
  | last :: _ =>
      if last.1 = .endOfInput then return dom.root
      else syntaxError last (some Token.endOfInput.name) "value".toList

/-- `json::parse` -/
def parse (strtod : Str → Option Str) (input : Str) : Exec Json := parseStream (tokens strtod input)

end JsonText
end IntBlock
