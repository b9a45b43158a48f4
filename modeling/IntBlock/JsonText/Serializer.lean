import IntBlock.Lib.Json
import IntBlock.Lib.Utf8Decode
import IntBlock.JsonText.Lexer

/-!
# The serializer

`serializer` of the JSON library, which writes the text of a value: compact or with
one element on a line, its strings as they are or in ASCII.  It works in three
buffers, which are modelled with their bounds: one for the bytes of a string, one for
the digits of a number, and one for the blanks at the beginning of a line.

## Main definitions

* `Format` — what `dump` is told.
* `dumpEscaped` — `dump_escaped`, the bytes of a string between its quotes.
* `dumpInteger` — `dump_integer`, which fills its buffer from behind.
* `serialize` — `serializer::dump`.
* `dump` — `json::dump`.
-/

namespace IntBlock
namespace JsonText

open Cpp

/-- `error_handler_t`, what is done about invalid UTF-8. -/
inductive ErrorHandler
  | strict
  | replace
  | ignore
  deriving DecidableEq, Repr

/-- The parameters of `dump`. -/
structure Format where
  prettyPrint : Bool
  ensureAscii : Bool
  indentStep : ℕ
  indentChar : Char
  errorHandler : ErrorHandler
  deriving DecidableEq, Repr

/-! ### Strings -/

/-- `string_buffer.size()` -/
def stringBufferSize : ℕ := 512

/-- The variables of `dump_escaped`. -/
structure Escaper where
  /-- What the output adapter has been given. -/
  out : Str
  /-- `string_buffer`, up to `bytes`. -/
  stringBuffer : Str
  decoder : Utf8.Decoder
  bytesAfterLastAccept : ℕ
  undumpedChars : ℕ
  deriving DecidableEq, Repr

namespace Escaper

/-- `string_buffer[bytes++] = c` -/
def put (e : Escaper) (c : Char) : Exec Escaper :=
  if e.stringBuffer.length < stringBufferSize then
    .ok { e with stringBuffer := e.stringBuffer ++ [c] }
  else .error .undefined

/-- `snprintf(string_buffer.data() + bytes, …)`, which puts a null byte behind the text. -/
def print (e : Escaper) (text : Str) : Exec Escaper :=
  if e.stringBuffer.length + text.length < stringBufferSize then
    .ok { e with stringBuffer := e.stringBuffer ++ text }
  else .error .undefined

/-- Writes the buffer where fewer than 13 bytes are left in it. -/
def flush (e : Escaper) : Escaper :=
  if stringBufferSize - e.stringBuffer.length < 13 then
    { e with out := e.out ++ e.stringBuffer, stringBuffer := [] }
  else e

end Escaper

/-- The characters with an escape of two bytes. -/
def shortEscapes : List (ℕ × Char) :=
  [(0x08, 'b'), (0x09, 't'), (0x0A, 'n'), (0x0C, 'f'), (0x0D, 'r'), (0x22, '"'), (0x5C, '\\')]

/-- `\u%04x` -/
def unicodeEscape (unit : ℕ) : Str :=
  ['\\', 'u', Nat.digitChar (unit / 4096 % 16), Nat.digitChar (unit / 256 % 16),
    Nat.digitChar (unit / 16 % 16), Nat.digitChar (unit % 16)]

/-- What is put into the buffer for a code point whose last byte is `c`. -/
def dumpCodepoint (f : Format) (codepoint : ℕ) (c : Char) (e : Escaper) : Exec Escaper :=
  match shortEscapes.lookup codepoint with
  | some letter => do
      let e ← e.put '\\'
      e.put letter
  | none =>
      if codepoint ≤ 0x1F ∨ (f.ensureAscii = true ∧ 0x7F ≤ codepoint) then
        if codepoint ≤ 0xFFFF then e.print (unicodeEscape (codepoint % 65536))
        else
          e.print (unicodeEscape ((0xD7C0 + codepoint >>> 10) % 65536) ++
            unicodeEscape ((0xDC00 + (codepoint &&& 0x3FF)) % 65536))
      else e.put c

/-- `case UTF8_ACCEPT` -/
def accept (f : Format) (c : Char) (e : Escaper) : Exec Escaper := do
  let e ← dumpCodepoint f e.decoder.codepoint c e
  let e := e.flush
  return { e with bytesAfterLastAccept := e.stringBuffer.length, undumpedChars := 0 }

/-- `hex_bytes` -/
def hexBytes (byte : ℕ) : Str := [upperDigit (byte / 16), upperDigit (byte % 16)]

/-- `type_error::create(316, …)` -/
def typeError316 {α : Type} (what : Str) : Exec α :=
  raise (.json ("[json.exception.type_error.316] ".toList ++ what))

/-- U+FFFD -/
def replacement (f : Format) : Str :=
  if f.ensureAscii then "\\ufffd".toList else ['\xef', '\xbf', '\xbd']

/-- `case UTF8_REJECT`, up to what both handlers have in common. -/
def discard (f : Format) (i byte : ℕ) (e : Escaper) : Exec Escaper :=
  let accepted := e.stringBuffer.take e.bytesAfterLastAccept
  match f.errorHandler with
  | .strict =>
      typeError316 ("invalid UTF-8 byte at index ".toList ++ decimal i ++ ": 0x".toList ++
        hexBytes byte)
  | .ignore => .ok { e with stringBuffer := accepted }
  | .replace => do
      let e ← (replacement f).foldlM Escaper.put { e with stringBuffer := accepted }
      let e := e.flush
      return { e with bytesAfterLastAccept := e.stringBuffer.length }

/-- The loop of `dump_escaped`, at index `i`.  A byte that ends an incomplete code point
is read once more. -/
def dumpBytes (f : Format) (i : ℕ) (s : Str) (e : Escaper) : Exec Escaper :=
  match s with
  | [] => .ok e
  | c :: rest =>
      let byte := c.toNat % 256
      let decoder := Utf8.decode e.decoder byte
      if decoder.state = Utf8.utf8Accept then do
        let e' ← accept f c { e with decoder }
        dumpBytes f (i + 1) rest e'
      else if decoder.state = Utf8.utf8Reject then do
        let e' ← discard f i byte { e with decoder }
        let e'' := { e' with undumpedChars := 0, decoder := { decoder with state := Utf8.utf8Accept } }
        if 0 < e.undumpedChars then dumpBytes f i (c :: rest) e''
        else dumpBytes f (i + 1) rest e''
      else do
        let e' ← if f.ensureAscii then .ok { e with decoder } else Escaper.put { e with decoder } c
        dumpBytes f (i + 1) rest { e' with undumpedChars := e.undumpedChars + 1 }
  termination_by (s.length, e.undumpedChars)
  decreasing_by
    · exact Prod.Lex.left _ _ (Nat.lt_succ_self _)
    · exact Prod.Lex.right _ ‹_›
    · exact Prod.Lex.left _ _ (Nat.lt_succ_self _)
    · exact Prod.Lex.left _ _ (Nat.lt_succ_self _)

/-- `dump_escaped`: what is written. -/
def dumpEscaped (f : Format) (s : Str) : Exec Str := do
  let e ← dumpBytes f 0 s ⟨[], [], ⟨Utf8.utf8Accept, 0⟩, 0, 0⟩
  if e.decoder.state = Utf8.utf8Accept then return e.out ++ e.stringBuffer
  else
    match f.errorHandler with
    | .strict =>
        typeError316 ("incomplete UTF-8 string; last byte: 0x".toList ++
          hexBytes ((s.getLast?.getD '\x00').toNat % 256))
    | .ignore => return e.out ++ e.stringBuffer.take e.bytesAfterLastAccept
    | .replace => return e.out ++ e.stringBuffer.take e.bytesAfterLastAccept ++ replacement f

/-! ### Integers -/

/-- `number_buffer`: its bytes, of which what an earlier number has left stays. -/
abbrev NumberBuffer := List Char

/-- `number_buffer.size()` -/
def numberBufferSize : ℕ := 64

/-- `count_digits` -/
def countDigitsFrom (nDigits x : ℕ) : ℕ :=
  if x < 10 then nDigits
  else if x < 100 then nDigits + 1
  else if x < 1000 then nDigits + 2
  else if x < 10000 then nDigits + 3
  else countDigitsFrom (nDigits + 4) (x / 10000)
  termination_by x

def countDigits (x : ℕ) : ℕ := countDigitsFrom 1 x

/-- `remove_sign`: the absolute value of a negative number, also of the least one. -/
def removeSign (x : BitVec 64) : BitVec 64 := -(x + 1) + 1

def digitsTo99 : List (Char × Char) :=
   [('0', '0'), ('0', '1'), ('0', '2'), ('0', '3'), ('0', '4'),
    ('0', '5'), ('0', '6'), ('0', '7'), ('0', '8'), ('0', '9'),
    ('1', '0'), ('1', '1'), ('1', '2'), ('1', '3'), ('1', '4'),
    ('1', '5'), ('1', '6'), ('1', '7'), ('1', '8'), ('1', '9'),
    ('2', '0'), ('2', '1'), ('2', '2'), ('2', '3'), ('2', '4'),
    ('2', '5'), ('2', '6'), ('2', '7'), ('2', '8'), ('2', '9'),
    ('3', '0'), ('3', '1'), ('3', '2'), ('3', '3'), ('3', '4'),
    ('3', '5'), ('3', '6'), ('3', '7'), ('3', '8'), ('3', '9'),
    ('4', '0'), ('4', '1'), ('4', '2'), ('4', '3'), ('4', '4'),
    ('4', '5'), ('4', '6'), ('4', '7'), ('4', '8'), ('4', '9'),
    ('5', '0'), ('5', '1'), ('5', '2'), ('5', '3'), ('5', '4'),
    ('5', '5'), ('5', '6'), ('5', '7'), ('5', '8'), ('5', '9'),
    ('6', '0'), ('6', '1'), ('6', '2'), ('6', '3'), ('6', '4'),
    ('6', '5'), ('6', '6'), ('6', '7'), ('6', '8'), ('6', '9'),
    ('7', '0'), ('7', '1'), ('7', '2'), ('7', '3'), ('7', '4'),
    ('7', '5'), ('7', '6'), ('7', '7'), ('7', '8'), ('7', '9'),
    ('8', '0'), ('8', '1'), ('8', '2'), ('8', '3'), ('8', '4'),
    ('8', '5'), ('8', '6'), ('8', '7'), ('8', '8'), ('8', '9'),
    ('9', '0'), ('9', '1'), ('9', '2'), ('9', '3'), ('9', '4'),
    ('9', '5'), ('9', '6'), ('9', '7'), ('9', '8'), ('9', '9')]

/-- `*(--buffer_ptr) = c` -/
def putBefore (c : Char) (buffer : NumberBuffer × ℕ) : Exec (NumberBuffer × ℕ) :=
  if 0 < buffer.2 ∧ buffer.2 ≤ numberBufferSize then
    .ok (buffer.1.set (buffer.2 - 1) c, buffer.2 - 1)
  else .error .undefined

/-- The two digits of `digits_index`. -/
def putPair (digitsIndex : ℕ) (buffer : NumberBuffer × ℕ) : Exec (NumberBuffer × ℕ) := do
  let pair := digitsTo99.getD digitsIndex ('0', '0')
  let buffer ← putBefore pair.2 buffer
  putBefore pair.1 buffer

/-- The digits of `abs_value`, from the last on. -/
def putDigits (absValue : ℕ) (buffer : NumberBuffer × ℕ) : Exec (NumberBuffer × ℕ) :=
  if 100 ≤ absValue then do
    let buffer ← putPair (absValue % 100) buffer
    putDigits (absValue / 100) buffer
  else if 10 ≤ absValue then putPair absValue buffer
  else putBefore (Char.ofNat ('0'.toNat + absValue)) buffer
  termination_by absValue

/-- `dump_integer`, for a `number_integer_t` where `signed`: what is written, and the
buffer afterwards. -/
def dumpInteger (signed : Bool) (x : BitVec 64) (buffer : NumberBuffer) :
    Exec (Str × NumberBuffer) :=
  if x = 0 then .ok (['0'], buffer)
  else do
    let negative := signed && decide (x.toInt < 0)
    let buffer := if negative then buffer.set 0 '-' else buffer
    let absValue := if negative then removeSign x else x
    let nChars := if negative then 1 + countDigits absValue.toNat else countDigits absValue.toNat
    if nChars < numberBufferSize - 1 then do
      let (buffer, _) ← putDigits absValue.toNat (buffer, nChars)
      return (buffer.take nChars, buffer)
    else .error .undefined

/-! ### Values -/

/-- The output and the buffers of a `serializer`. -/
structure Serializer where
  out : Str
  numberBuffer : NumberBuffer
  indentString : Str
  deriving DecidableEq, Repr

namespace Serializer

/-- `o->write_characters(…)` -/
def write (o : Serializer) (text : Str) : Serializer := { o with out := o.out ++ text }

/-- `o->write_characters(indent_string.c_str(), n)`: a null byte ends what may be read. -/
def writeIndent (o : Serializer) (n : ℕ) : Exec Serializer :=
  if n ≤ o.indentString.length + 1 then .ok (o.write ((o.indentString ++ ['\x00']).take n))
  else .error .undefined

/-- Doubles the indentation string where it is too short. -/
def growIndent (o : Serializer) (newIndent : ℕ) : Serializer :=
  if o.indentString.length < newIndent then
    { o with indentString := o.indentString ++ List.replicate o.indentString.length ' ' }
  else o

def writeEscaped (f : Format) (o : Serializer) (s : Str) : Exec Serializer := do
  let text ← dumpEscaped f s
  return o.write text

def writeInteger (signed : Bool) (o : Serializer) (x : BitVec 64) : Exec Serializer := do
  let (text, numberBuffer) ← dumpInteger signed x o.numberBuffer
  return { o with out := o.out ++ text, numberBuffer }

end Serializer

/-- `current_indent + indent_step`, an `unsigned int`. -/
def newIndent (f : Format) (currentIndent : ℕ) : ℕ := (currentIndent + f.indentStep) % 4294967296

mutual

/-- `serializer::dump`; the stack it takes for each level is left out. -/
def serialize (f : Format) (currentIndent : ℕ) : Json → Serializer → Exec Serializer
  | .object [], o => .ok (o.write ['\x7b', '\x7d'])
  | .object (m :: members), o =>
      if f.prettyPrint then do
        let o := (o.write ['\x7b', '\n']).growIndent (newIndent f currentIndent)
        let o ← serializeMembers f (newIndent f currentIndent) (m :: members) o
        let o ← (o.write ['\n']).writeIndent currentIndent
        return o.write ['\x7d']
      else do
        let o ← serializeMembers f currentIndent (m :: members) (o.write ['\x7b'])
        return o.write ['\x7d']
  | .array [], o => .ok (o.write ['[', ']'])
  | .array (v :: elements), o =>
      if f.prettyPrint then do
        let o := (o.write ['[', '\n']).growIndent (newIndent f currentIndent)
        let o ← serializeElements f (newIndent f currentIndent) (v :: elements) o
        let o ← (o.write ['\n']).writeIndent currentIndent
        return o.write [']']
      else do
        let o ← serializeElements f currentIndent (v :: elements) (o.write ['['])
        return o.write [']']
  | .string s, o => do
      let o ← (o.write ['"']).writeEscaped f s
      return o.write ['"']
  | .boolean b, o => .ok (o.write (if b then "true".toList else "false".toList))
  | .integer n, o => o.writeInteger true n
  | .unsigned n, o => o.writeInteger false n
  | .float text, o => .ok (o.write text)
  | .null, o => .ok (o.write "null".toList)

/-- The elements of an array, the last with no comma behind it. -/
def serializeElements (f : Format) (indent : ℕ) : List Json → Serializer → Exec Serializer
  | [], o => .ok o
  | v :: elements, o => do
      let o ← if f.prettyPrint then o.writeIndent indent else .ok o
      let o ← serialize f indent v o
      if elements.isEmpty then return o
      else
        serializeElements f indent elements (o.write (if f.prettyPrint then [',', '\n'] else [',']))

/-- The members of an object. -/
def serializeMembers (f : Format) (indent : ℕ) : List (Str × Json) → Serializer → Exec Serializer
  | [], o => .ok o
  | (key, v) :: members, o => do
      let o ← if f.prettyPrint then o.writeIndent indent else .ok o
      let o ← (o.write ['"']).writeEscaped f key
      let o := o.write (if f.prettyPrint then ['"', ':', ' '] else ['"', ':'])
      let o ← serialize f indent v o
      if members.isEmpty then return o
      else
        serializeMembers f indent members (o.write (if f.prettyPrint then [',', '\n'] else [',']))

end

/-- The parameters `json::dump` hands on; `indent` is negative for the compact text. -/
def dumpFormat (indent : ℤ) (indentChar : Char) (ensureAscii : Bool)
    (errorHandler : ErrorHandler) : Format :=
  { prettyPrint := decide (0 ≤ indent), ensureAscii, indentStep := indent.toNat, indentChar,
    errorHandler }

/-- The `serializer` made for one `dump`. -/
def newSerializer (indentChar : Char) : Serializer :=
  ⟨[], List.replicate numberBufferSize '\x00', List.replicate 512 indentChar⟩

/-- `json::dump` -/
def dump (v : Json) (indent : ℤ) (indentChar : Char) (ensureAscii : Bool)
    (errorHandler : ErrorHandler) : Exec Str := do
  let o ← serialize (dumpFormat indent indentChar ensureAscii errorHandler) 0 v
    (newSerializer indentChar)
  return o.out

end JsonText
end IntBlock
