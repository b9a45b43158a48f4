import IntBlock.Lib.Json

/-!
# The lexer

The scanner of `json.hpp`: it skips a byte order mark and blanks, and reads one
token at a time.  A function that scans takes the bytes in front of it and returns
what it has read them as, with the bytes left; `none` is left where `get()` has run
into the end of the input.

## Main definitions

* `Token` — a token, with its value.
* `scanString`, `scanNumber`, `scanLiteral` — the tokens of more than one byte.
* `scanToken` — the token the bytes begin with.
* `Lexer.scan` — a token, and the bookkeeping for the texts of errors.
* `tokens` — all the tokens `get_token` can return, up to the one that ends a text.

## Main results

* `scanToken_length` — every token but the last takes a byte.
-/

namespace IntBlock
namespace JsonText

open Cpp

/-! ### Tokens -/

/-- `token_type`, with the value the lexer holds for it.  A floating point number
is its text as `dump` writes it, or nothing where it is not finite. -/
inductive Token
  | literalTrue
  | literalFalse
  | literalNull
  | valueString (s : Str)
  | valueUnsigned (n : BitVec 64)
  | valueInteger (n : BitVec 64)
  | valueFloat (text : Option Str)
  | beginArray
  | beginObject
  | endArray
  | endObject
  | nameSeparator
  | valueSeparator
  | parseError (message : Str)
  | endOfInput
  deriving DecidableEq, Repr

/-- `token_type_name` -/
def Token.name : Token → Str
  | literalTrue => "true literal".toList
  | literalFalse => "false literal".toList
  | literalNull => "null literal".toList
  | valueString _ => "string literal".toList
  | valueUnsigned _ => "number literal".toList
  | valueInteger _ => "number literal".toList
  | valueFloat _ => "number literal".toList
  | beginArray => "'['".toList
  | beginObject => "'\x7b'".toList
  | endArray => "']'".toList
  | endObject => "'\x7d'".toList
  | nameSeparator => "':'".toList
  | valueSeparator => "','".toList
  | parseError _ => "<parse error>".toList
  | endOfInput => "end of input".toList

/-- The tokens after which none is asked for. -/
def Token.isLast : Token → Bool
  | parseError _ => true
  | endOfInput => true
  | _ => false

/-- The tokens of `scan_number`. -/
def Token.isNumber : Token → Bool
  | valueUnsigned _ => true
  | valueInteger _ => true
  | valueFloat _ => true
  | _ => false

/-- A token, and the bytes left after it. -/
structure Scanned where
  token : Token
  left : Option Str
  deriving DecidableEq, Repr

/-- The bytes left after one more `get()`. -/
def afterGet : Str → Option Str
  | [] => none
  | _ :: rest => some rest

/-! ### Strings -/

/-- The loop of `get_codepoint`, over the factors still to come. -/
def getCodepointFrom : List ℕ → ℕ → Str → Except (Option Str) (ℕ × Str)
  | [], codepoint, rest => .ok (codepoint, rest)
  | _ :: _, _, [] => .error none
  | factor :: factors, codepoint, c :: rest =>
      match xdigit? c with
      | some d => getCodepointFrom factors (codepoint + d <<< factor) rest
      | none => .error (some rest)

/-- `get_codepoint`, after the `u`. -/
def getCodepoint (rest : Str) : Except (Option Str) (ℕ × Str) :=
  getCodepointFrom [12, 8, 4, 0] 0 rest

/-- `next_byte_in_range`: the bytes that are between their bounds. -/
def nextByteInRange : List (ℕ × ℕ) → Str → Except (Option Str) (Str × Str)
  | [], rest => .ok ([], rest)
  | _ :: _, [] => .error none
  | r :: ranges, c :: rest =>
      if r.1 ≤ c.toNat ∧ c.toNat ≤ r.2 then
        match nextByteInRange ranges rest with
        | .ok (added, rest') => .ok (c :: added, rest')
        | .error left => .error left
      else .error (some rest)

/-- The ranges for the bytes after `byte`, as the cases of `scan_string` from `0x20`
on have them. -/
def ranges (byte : ℕ) : Option (List (ℕ × ℕ)) :=
  if byte ≤ 0x7F then some []
  else if 0xC2 ≤ byte ∧ byte ≤ 0xDF then some [(0x80, 0xBF)]
  else if byte = 0xE0 then some [(0xA0, 0xBF), (0x80, 0xBF)]
  else if (0xE1 ≤ byte ∧ byte ≤ 0xEC) ∨ byte = 0xEE ∨ byte = 0xEF then
    some [(0x80, 0xBF), (0x80, 0xBF)]
  else if byte = 0xED then some [(0x80, 0x9F), (0x80, 0xBF)]
  else if byte = 0xF0 then some [(0x90, 0xBF), (0x80, 0xBF), (0x80, 0xBF)]
  else if 0xF1 ≤ byte ∧ byte ≤ 0xF3 then some [(0x80, 0xBF), (0x80, 0xBF), (0x80, 0xBF)]
  else if byte = 0xF4 then some [(0x80, 0x8F), (0x80, 0xBF), (0x80, 0xBF)]
  else none

/-- The bytes a code point is translated into. -/
def codepointBytes (codepoint : ℕ) : List ℕ :=
  if codepoint < 0x80 then [codepoint]
  else if codepoint ≤ 0x7FF then [0xC0 ||| codepoint >>> 6, 0x80 ||| (codepoint &&& 0x3F)]
  else if codepoint ≤ 0xFFFF then
    [0xE0 ||| codepoint >>> 12, 0x80 ||| (codepoint >>> 6 &&& 0x3F), 0x80 ||| (codepoint &&& 0x3F)]
  else
    [0xF0 ||| codepoint >>> 18, 0x80 ||| (codepoint >>> 12 &&& 0x3F),
      0x80 ||| (codepoint >>> 6 &&& 0x3F), 0x80 ||| (codepoint &&& 0x3F)]

/-- `add` for bytes given by their codes. -/
def ofCodes (bytes : List ℕ) : Str := bytes.map Char.ofNat

def hexDigitsMissing : Str :=
  "invalid string: '\\u' must be followed by 4 hex digits".toList

def highSurrogateAlone : Str :=
  "invalid string: surrogate U+D800..U+DBFF must be followed by U+DC00..U+DFFF".toList

def lowSurrogateAlone : Str :=
  "invalid string: surrogate U+DC00..U+DFFF must follow U+D800..U+DBFF".toList

/-- `codepoint` for a surrogate pair. -/
def fromSurrogates (codepoint1 codepoint2 : ℕ) : ℕ := (codepoint1 <<< 10) + codepoint2 - 0x35FDC00

/-- The second half of a surrogate pair, after the first. -/
def scanLowSurrogate (codepoint1 : ℕ) (rest : Str) : Except (Str × Option Str) (Str × Str) :=
  match getCodepoint rest with
  | .error left => .error (hexDigitsMissing, left)
  | .ok (codepoint2, rest') =>
      if 0xDC00 ≤ codepoint2 ∧ codepoint2 ≤ 0xDFFF then
        .ok (ofCodes (codepointBytes (fromSurrogates codepoint1 codepoint2)), rest')
      else .error (highSurrogateAlone, some rest')

/-- The unicode escapes, after `\u`: the bytes added, or the message. -/
def scanUnicode (rest : Str) : Except (Str × Option Str) (Str × Str) :=
  match getCodepoint rest with
  | .error left => .error (hexDigitsMissing, left)
  | .ok (codepoint1, rest) =>
      if 0xD800 ≤ codepoint1 ∧ codepoint1 ≤ 0xDBFF then
        match rest with
        | '\\' :: 'u' :: rest => scanLowSurrogate codepoint1 rest
        | '\\' :: rest => .error (highSurrogateAlone, afterGet rest)
        | rest => .error (highSurrogateAlone, afterGet rest)
      else if 0xDC00 ≤ codepoint1 ∧ codepoint1 ≤ 0xDFFF then
        .error (lowSurrogateAlone, some rest)
      else .ok (ofCodes (codepointBytes codepoint1), rest)

/-- The characters that stand for themselves or for another one after a backslash. -/
def escapes : List (Char × Char) :=
  [('"', '"'), ('\\', '\\'), ('/', '/'), ('b', '\x08'), ('f', '\x0c'), ('n', '\n'), ('r', '\r'),
    ('t', '\t')]

/-- The escapes, after the backslash. -/
def scanEscape : Str → Except (Str × Option Str) (Str × Str)
  | [] => .error ("invalid string: forbidden character after backslash".toList, none)
  | c :: rest =>
      if c = 'u' then scanUnicode rest
      else
        match escapes.lookup c with
        | some added => .ok ([added], rest)
        | none => .error ("invalid string: forbidden character after backslash".toList, some rest)

/-- A hexadecimal digit in upper case. -/
def upperDigit (d : ℕ) : Char := (Nat.digitChar d).toUpper

/-- The names of the control characters. -/
def controlNames : List String :=
  ["NUL", "SOH", "STX", "ETX", "EOT", "ENQ", "ACK", "BEL", "BS", "HT", "LF", "VT", "FF", "CR",
    "SO", "SI", "DLE", "DC1", "DC2", "DC3", "DC4", "NAK", "SYN", "ETB", "CAN", "EM", "SUB", "ESC",
    "FS", "GS", "RS", "US"]

/-- The shorter escapes of control characters. -/
def controlEscape (c : ℕ) : Str :=
  if c = 0x08 then " or \\b".toList
  else if c = 0x09 then " or \\t".toList
  else if c = 0x0A then " or \\n".toList
  else if c = 0x0C then " or \\f".toList
  else if c = 0x0D then " or \\r".toList
  else []

/-- The message for a control character in a string. -/
def controlMessage (c : ℕ) : Str :=
  let digits := ['0', '0', upperDigit (c / 16), upperDigit (c % 16)]
  "invalid string: control character U+".toList ++ digits ++ " (".toList ++
    (controlNames.getD c "").toList ++ ") must be escaped to \\u".toList ++ digits ++
    controlEscape c

def illFormed : Str := "invalid string: ill-formed UTF-8 byte".toList

theorem getCodepointFrom_length {factors : List ℕ} {codepoint codepoint' : ℕ} {s rest : Str}
    (h : getCodepointFrom factors codepoint s = .ok (codepoint', rest)) :
    rest.length ≤ s.length := by
  induction factors generalizing codepoint s with
  | nil =>
    cases h
    exact le_rfl
  | cons factor factors ih =>
    cases s with
    | nil => cases h
    | cons c s =>
      rw [getCodepointFrom] at h
      split at h
      · exact (ih h).trans (Nat.le_succ _)
      · cases h

theorem nextByteInRange_length {rs : List (ℕ × ℕ)} {s added rest : Str}
    (h : nextByteInRange rs s = .ok (added, rest)) : rest.length ≤ s.length := by
  induction rs generalizing s added with
  | nil =>
    cases h
    exact le_rfl
  | cons r rs ih =>
    cases s with
    | nil => cases h
    | cons c s =>
      rw [nextByteInRange] at h
      split at h
      · split at h
        · next h' =>
          cases h
          exact (ih h').trans (Nat.le_succ _)
        · cases h
      · cases h

theorem scanLowSurrogate_length {codepoint1 : ℕ} {s added rest : Str}
    (h : scanLowSurrogate codepoint1 s = .ok (added, rest)) : rest.length ≤ s.length := by
  unfold scanLowSurrogate at h
  split at h
  · cases h
  · next hcode =>
    split at h
    · obtain ⟨-, rfl⟩ := Prod.mk.inj (Except.ok.inj h)
      exact getCodepointFrom_length hcode
    · cases h

theorem scanUnicode_length {s added rest : Str} (h : scanUnicode s = .ok (added, rest)) :
    rest.length ≤ s.length := by
  unfold scanUnicode at h
  split at h
  · cases h
  · next hcode =>
    have hle := getCodepointFrom_length hcode
    split at h
    · split at h
      · have := scanLowSurrogate_length h
        simp only [List.length_cons] at hle
        omega
      · cases h
      · cases h
    · split at h
      · cases h
      · cases h
        exact hle

theorem scanEscape_length {s added rest : Str} (h : scanEscape s = .ok (added, rest)) :
    rest.length ≤ s.length := by
  cases s with
  | nil => cases h
  | cons c s =>
    rw [scanEscape] at h
    rw [List.length_cons]
    split at h
    · exact (scanUnicode_length h).trans (Nat.le_succ _)
    · split at h
      · cases h
        exact Nat.le_succ _
      · cases h

/-- `scan_string`, after the opening quote and the bytes in `tokenBuffer`. -/
def scanString (tokenBuffer : Str) : Str → Scanned
  | [] => ⟨.parseError "invalid string: missing closing quote".toList, none⟩
  | c :: rest =>
      if c = '"' then ⟨.valueString tokenBuffer, some rest⟩
      else if c = '\\' then
        match h : scanEscape rest with
        | .ok (added, rest') =>
            have : rest'.length ≤ rest.length := scanEscape_length h
            scanString (tokenBuffer ++ added) rest'
        | .error (message, left) => ⟨.parseError message, left⟩
      else if c.toNat ≤ 0x1F then ⟨.parseError (controlMessage c.toNat), some rest⟩
      else
        match ranges c.toNat with
        | none => ⟨.parseError illFormed, some rest⟩
        | some rs =>
            match h : nextByteInRange rs rest with
            | .ok (added, rest') =>
                have : rest'.length ≤ rest.length := nextByteInRange_length h
                scanString (tokenBuffer ++ c :: added) rest'
            | .error left => ⟨.parseError illFormed, left⟩
termination_by s => s.length
decreasing_by all_goals (simp only [List.length_cons]; omega)

/-! ### Numbers -/

/-- The labels of `scan_number`. -/
inductive NumberState
  | minus
  | zero
  | any1
  | decimal1
  | decimal2
  | exponent
  | sign
  | any2
  deriving DecidableEq, Repr

/-- The types `number_type` takes on. -/
inductive NumberType
  | unsigned
  | integer
  | float
  deriving DecidableEq, Repr

namespace NumberState

/-- The label the first byte leads to. -/
def first (c : Char) : Option NumberState :=
  if c = '-' then some minus
  else if c = '0' then some zero
  else if c.isDigit then some any1
  else none

/-- The label one more byte leads to, where the number goes on with it. -/
def next : NumberState → Char → Option NumberState
  | minus, c => if c = '0' then some zero else if c.isDigit then some any1 else none
  | zero, c =>
      if c = '.' then some decimal1 else if c = 'e' ∨ c = 'E' then some exponent else none
  | any1, c =>
      if c.isDigit then some any1
      else if c = '.' then some decimal1
      else if c = 'e' ∨ c = 'E' then some exponent
      else none
  | decimal1, c => if c.isDigit then some decimal2 else none
  | decimal2, c =>
      if c.isDigit then some decimal2 else if c = 'e' ∨ c = 'E' then some exponent else none
  | exponent, c =>
      if c = '+' ∨ c = '-' then some sign else if c.isDigit then some any2 else none
  | sign, c => if c.isDigit then some any2 else none
  | any2, c => if c.isDigit then some any2 else none

/-- `number_type` at a label. -/
def numberType : NumberState → NumberType → NumberType
  | minus, _ => .integer
  | decimal1, _ => .float
  | exponent, _ => .float
  | _, type => type

/-- The message where a number must not end. -/
def message : NumberState → Option Str
  | minus => some "invalid number; expected digit after '-'".toList
  | decimal1 => some "invalid number; expected digit after '.'".toList
  | exponent => some "invalid number; expected '+', '-', or digit after exponent".toList
  | sign => some "invalid number; expected digit after exponent sign".toList
  | _ => none

end NumberState

/-- The number a string of decimal digits stands for. -/
def decimalValue (ds : Str) : ℕ := ds.foldl (fun v c => 10 * v + (c.toNat - '0'.toNat)) 0

/-- The token for `token_buffer`: `strtoull` and `strtoll` where they are in range,
`strtod` elsewhere. -/
def numberToken (strtod : Str → Option Str) (type : NumberType) (tokenBuffer : Str) : Token :=
  match type with
  | .unsigned =>
      if decimalValue tokenBuffer < 2 ^ 64 then
        .valueUnsigned (BitVec.ofNat 64 (decimalValue tokenBuffer))
      else .valueFloat (strtod tokenBuffer)
  | .integer =>
      if decimalValue tokenBuffer.tail ≤ 2 ^ 63 then
        .valueInteger (-BitVec.ofNat 64 (decimalValue tokenBuffer.tail))
      else .valueFloat (strtod tokenBuffer)
  | .float => .valueFloat (strtod tokenBuffer)

/-- `scan_number_done`, or the message of the label; the byte that ends a number is
ungot. -/
def scanNumberDone (strtod : Str → Option Str) (state : NumberState) (type : NumberType)
    (tokenBuffer s : Str) : Scanned :=
  match state.message with
  | some message => ⟨.parseError message, afterGet s⟩
  | none => ⟨numberToken strtod type tokenBuffer, some s⟩

/-- `scan_number` from a label on. -/
def scanNumberFrom (strtod : Str → Option Str) (state : NumberState) (type : NumberType)
    (tokenBuffer : Str) : Str → Scanned
  | [] => scanNumberDone strtod state type tokenBuffer []
  | c :: rest =>
      match state.next c with
      | some state' =>
          scanNumberFrom strtod state' (state'.numberType type) (tokenBuffer ++ [c]) rest
      | none => scanNumberDone strtod state type tokenBuffer (c :: rest)

/-- `scan_number`, after its first byte. -/
def scanNumber (strtod : Str → Option Str) (state : NumberState) (c : Char) (rest : Str) : Scanned :=
  scanNumberFrom strtod state (state.numberType .unsigned) [c] rest

/-! ### The scanner -/

/-- The loop of `scan_literal`, over the bytes of the literal still to come. -/
def scanLiteral (token : Token) : Str → Str → Scanned
  | [], rest => ⟨token, some rest⟩
  | _ :: _, [] => ⟨.parseError "invalid literal".toList, none⟩
  | l :: literal, c :: rest =>
      if c = l then scanLiteral token literal rest
      else ⟨.parseError "invalid literal".toList, some rest⟩

/-- What `skip_whitespace` skips. -/
def isBlank (c : Char) : Bool := c = ' ' || c = '\t' || c = '\n' || c = '\r'

/-- The structural characters. -/
def structural : List (Char × Token) :=
  [('[', .beginArray), (']', .endArray), ('{', .beginObject), ('}', .endObject),
    (':', .nameSeparator), (',', .valueSeparator)]

/-- The literals, by their first byte; with the bytes after it. -/
def literals : List (Char × Token × Str) :=
  [('t', .literalTrue, ['r', 'u', 'e']), ('f', .literalFalse, ['a', 'l', 's', 'e']),
    ('n', .literalNull, ['u', 'l', 'l'])]

/-- `scan`, after the blanks. -/
def scanToken (strtod : Str → Option Str) : Str → Scanned
  | [] => ⟨.endOfInput, none⟩
  | c :: rest =>
      match structural.lookup c with
      | some token => ⟨token, some rest⟩
      | none =>
          match literals.lookup c with
          | some (token, literal) => scanLiteral token literal rest
          | none =>
              if c = '"' then scanString [] rest
              else
                match NumberState.first c with
                | some state => scanNumber strtod state c rest
                | none =>
                    if c = '\x00' then ⟨.endOfInput, some rest⟩
                    else ⟨.parseError "invalid literal".toList, some rest⟩

/-- `position_t`; the number of all bytes read is left out. -/
structure Position where
  linesRead : ℕ
  charsReadCurrentLine : ℕ
  deriving DecidableEq, Repr

/-- What `get()` does to the position. -/
def Position.get (position : Position) (c : Char) : Position :=
  if c = '\n' then ⟨position.linesRead + 1, 0⟩
  else ⟨position.linesRead, position.charsReadCurrentLine + 1⟩

/-- What `get()` does to the position at the end of the input. -/
def Position.getEnd (position : Position) : Position :=
  ⟨position.linesRead, position.charsReadCurrentLine + 1⟩

/-- What `unget()` does to the position: the column of a newline is not restored. -/
def Position.unget (position : Position) : Position :=
  if position.charsReadCurrentLine = 0 then ⟨position.linesRead - 1, 0⟩
  else ⟨position.linesRead, position.charsReadCurrentLine - 1⟩

/-- The byte after a number is read and ungot. -/
def Position.peek (position : Position) : Str → Position
  | [] => position.getEnd.unget
  | c :: _ => (position.get c).unget

/-- The lexer: the bytes in front of it, the position, and `token_string`. -/
structure Lexer where
  input : Str
  position : Position
  tokenString : Str
  deriving DecidableEq, Repr

def Lexer.create (input : Str) : Lexer := ⟨input, ⟨0, 0⟩, []⟩

/-- The tokens that begin with a `reset()`. -/
def resets (s : Str) : Bool :=
  match s with
  | [] => false
  | c :: _ => c = '"' || (NumberState.first c).isSome

/-- `scan`, but for the byte order mark. -/
def Lexer.scan (strtod : Str → Option Str) (l : Lexer) : Token × Lexer :=
  let blanks := l.input.takeWhile isBlank
  let s := l.input.dropWhile isBlank
  let scanned := scanToken strtod s
  let left := scanned.left.getD []
  let text := s.take (s.length - left.length)
  let position := (blanks ++ text).foldl Position.get l.position
  (scanned.token,
    { input := left
      position :=
        if scanned.left = none then position.getEnd
        else if scanned.token.isNumber then position.peek left
        else position
      tokenString := if resets s then text else l.tokenString ++ blanks ++ text })

/-- The lexer after it has read `bytes`, with `rest` in front of it. -/
def Lexer.read (l : Lexer) (bytes rest : Str) : Lexer where
  input := rest
  position := bytes.foldl Position.get l.position
  tokenString := l.tokenString ++ bytes

def Lexer.readEnd (l : Lexer) : Lexer := { l with position := l.position.getEnd }

/-- `skip_bom` -/
def Lexer.skipBom (l : Lexer) : Bool × Lexer :=
  match l.input with
  | '\xef' :: '\xbb' :: '\xbf' :: rest => (true, l.read ['\xef', '\xbb', '\xbf'] rest)
  | '\xef' :: '\xbb' :: c :: rest => (false, l.read ['\xef', '\xbb', c] rest)
  | '\xef' :: '\xbb' :: [] => (false, (l.read ['\xef', '\xbb'] []).readEnd)
  | '\xef' :: c :: rest => (false, l.read ['\xef', c] rest)
  | '\xef' :: [] => (false, (l.read ['\xef'] []).readEnd)
  | _ => (true, l)

/-- `scan` for the first token. -/
def Lexer.scanFirst (strtod : Str → Option Str) (l : Lexer) : Token × Lexer :=
  let (skipped, l') := l.skipBom
  if skipped then l'.scan strtod
  else (.parseError "invalid BOM; must be 0xEF 0xBB 0xBF if given".toList, l')

/-! ### All tokens -/

theorem scanString_length {tokenBuffer s : Str}
    (h : (scanString tokenBuffer s).token.isLast = false) :
    ((scanString tokenBuffer s).left.getD []).length < s.length := by
  fun_induction scanString tokenBuffer s with
  | case1 => cases h
  | case2 => exact Nat.lt_succ_self _
  | case3 tokenBuffer rest added rest' _ hle _ ih =>
    have hlt := ih h
    rw [List.length_cons]
    omega
  | case4 => cases h
  | case5 => cases h
  | case6 => cases h
  | case7 tokenBuffer c rest _ _ _ _ _ added rest' _ hle ih =>
    have hlt := ih h
    rw [List.length_cons]
    omega
  | case8 => cases h

theorem scanNumberFrom_length {strtod : Str → Option Str} {state : NumberState} {type : NumberType}
    {tokenBuffer s : Str} (h : (scanNumberFrom strtod state type tokenBuffer s).token.isLast = false) :
    ((scanNumberFrom strtod state type tokenBuffer s).left.getD []).length ≤ s.length := by
  have hdone : ∀ (state : NumberState) (type : NumberType) (tokenBuffer s : Str),
      ((scanNumberDone strtod state type tokenBuffer s).left.getD []).length ≤ s.length := by
    intro state type tokenBuffer s
    unfold scanNumberDone
    split
    · cases s with
      | nil => exact le_rfl
      | cons c s => exact Nat.le_succ _
    · exact le_rfl
  induction s generalizing state type tokenBuffer with
  | nil => exact hdone state type tokenBuffer []
  | cons c s ih =>
    rw [scanNumberFrom] at h ⊢
    split at h
    · exact (ih h).trans (Nat.le_succ _)
    · exact hdone state type tokenBuffer (c :: s)

theorem scanLiteral_length (token : Token) (literal s : Str) :
    ((scanLiteral token literal s).left.getD []).length ≤ s.length := by
  induction literal generalizing s with
  | nil => exact le_rfl
  | cons l literal ih =>
    cases s with
    | nil => exact le_rfl
    | cons c s =>
      rw [scanLiteral]
      split
      · exact (ih s).trans (Nat.le_succ _)
      · exact Nat.le_succ _

/-- **Every token but the last takes a byte.** -/
theorem scanToken_length {strtod : Str → Option Str} {s : Str}
    (h : (scanToken strtod s).token.isLast = false) :
    ((scanToken strtod s).left.getD []).length < s.length := by
  cases s with
  | nil => cases h
  | cons c rest =>
    rw [List.length_cons, Nat.lt_succ_iff]
    rw [scanToken] at h ⊢
    split at h
    · exact le_rfl
    · split at h
      · exact scanLiteral_length _ _ rest
      · by_cases hquote : c = '"'
        · rw [if_pos hquote] at h ⊢
          exact (scanString_length h).le
        · rw [if_neg hquote] at h ⊢
          split at h
          · exact scanNumberFrom_length h
          · by_cases hnul : c = '\x00'
            · rw [if_pos hnul]
              exact le_rfl
            · rw [if_neg hnul]
              exact le_rfl

theorem Lexer.scan_length {strtod : Str → Option Str} {l : Lexer}
    (h : (l.scan strtod).1.isLast = false) : (l.scan strtod).2.input.length < l.input.length := by
  have hlt := @scanToken_length strtod (l.input.dropWhile isBlank) h
  exact hlt.trans_le (List.length_dropWhile_le _ _)

/-- The tokens from here on, up to the last, each with the lexer after it: what the
calls of `get_token` return as long as the parser goes on. -/
def Lexer.tokens (strtod : Str → Option Str) (l : Lexer) : List (Token × Lexer) :=
  if h : (l.scan strtod).1.isLast = false then
    have : (l.scan strtod).2.input.length < l.input.length := Lexer.scan_length h
    l.scan strtod :: (l.scan strtod).2.tokens strtod
  else [l.scan strtod]
termination_by l.input.length

/-- All tokens of a text. -/
def tokens (strtod : Str → Option Str) (input : Str) : List (Token × Lexer) :=
  let first := (Lexer.create input).scanFirst strtod
  if first.1.isLast then [first] else first :: first.2.tokens strtod

end JsonText
end IntBlock
