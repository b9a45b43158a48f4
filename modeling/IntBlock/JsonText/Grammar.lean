import IntBlock.JsonText.Parser

/-!
# The grammar of values

What a sequence of tokens stands for, by recursion over its brackets, and that the
parser's loop with its two stacks finds just that.  Both directions are about the
loop in the middle of its work: with any containers still open around the value.

## Main definitions

* `Phrase` — the tokens of a value, of the elements of an array, or of the members
  of an object, with what they stand for.

## Main results

* `Phrase.readAs` — the loop reads a phrase as what it stands for.
* `sound` — it reads nothing but phrases.
* `parseStream_eq_ok_iff` — **the parser accepts just the values of the grammar.**
-/

namespace IntBlock
namespace JsonText

open Cpp

/-! ### The grammar -/

/-- The members of an object, given one after another: the last of a key counts. -/
def objectOf (members : List (Str × Json)) : Json :=
  .object (members.foldl (fun ms m => setMember m.1 m.2 ms) [])

/-- What a phrase stands for: a value, the elements of an array, or the members of an
object. -/
inductive Meaning
  | value (v : Json)
  | elements (vs : List Json)
  | members (ms : List (Str × Json))

/-- The grammar: the tokens of a phrase, with what it stands for. -/
inductive Phrase : List Token → Meaning → Prop
  | scalar {t : Token} {v : Json} (h : t.scalar? = some v) : Phrase [t] (.value v)
  | emptyArray : Phrase [.beginArray, .endArray] (.value (.array []))
  | array {ts : List Token} {vs : List Json} (h : Phrase ts (.elements vs)) :
      Phrase (.beginArray :: (ts ++ [.endArray])) (.value (.array vs))
  | emptyObject : Phrase [.beginObject, .endObject] (.value (objectOf []))
  | object {ts : List Token} {ms : List (Str × Json)} (h : Phrase ts (.members ms)) :
      Phrase (.beginObject :: (ts ++ [.endObject])) (.value (objectOf ms))
  | oneElement {ts : List Token} {v : Json} (h : Phrase ts (.value v)) : Phrase ts (.elements [v])
  | moreElements {ts ts' : List Token} {v : Json} {vs : List Json} (h : Phrase ts (.value v))
      (h' : Phrase ts' (.elements vs)) :
      Phrase (ts ++ .valueSeparator :: ts') (.elements (v :: vs))
  | oneMember {key : Str} {ts : List Token} {v : Json} (h : Phrase ts (.value v)) :
      Phrase (.valueString key :: .nameSeparator :: ts) (.members [(key, v)])
  | moreMembers {key : Str} {ts ts' : List Token} {v : Json} {ms : List (Str × Json)}
      (h : Phrase ts (.value v)) (h' : Phrase ts' (.members ms)) :
      Phrase (.valueString key :: .nameSeparator :: (ts ++ .valueSeparator :: ts'))
        (.members ((key, v) :: ms))

/-- The tokens of a value. -/
abbrev Value (ts : List Token) (v : Json) : Prop := Phrase ts (.value v)

/-- The tokens of a stream. -/
def Stream.tokens (stream : Stream) : List Token := stream.map Prod.fst

@[simp] theorem Stream.tokens_nil : Stream.tokens [] = [] := rfl

@[simp] theorem Stream.tokens_cons (t : Token × Lexer) (stream : Stream) :
    Stream.tokens (t :: stream) = t.1 :: stream.tokens := rfl

theorem Stream.tokens_eq_cons {stream : Stream} {t : Token} {ts : List Token}
    (h : stream.tokens = t :: ts) : ∃ last stream', stream = last :: stream' ∧ last.1 = t ∧
      Stream.tokens stream' = ts := by
  obtain ⟨last, stream', rfl, hlast, hts⟩ := List.map_eq_cons_iff.mp h
  exact ⟨last, stream', rfl, hlast, hts⟩

theorem Stream.tokens_eq_append {stream : Stream} {ts ts' : List Token}
    (h : stream.tokens = ts ++ ts') : ∃ stream₁ stream₂, stream = stream₁ ++ stream₂ ∧
      Stream.tokens stream₁ = ts ∧ Stream.tokens stream₂ = ts' := by
  obtain ⟨stream₁, stream₂, rfl, h₁, h₂⟩ := List.map_eq_append_iff.mp h
  exact ⟨stream₁, stream₂, rfl, h₁, h₂⟩

/-! ### What one round does -/

section Rounds

variable {states : List Bool} {dom : Dom} {last : Token × Lexer} {stream : Stream}

theorem parseValue_scalar {v : Json} (h : last.1.scalar? = some v) :
    parseValue states dom (last :: stream) =
      dom.handleValue v >>= fun dom' => evaluate states dom' stream := by
  obtain ⟨token, l⟩ := last
  cases token with
  | valueFloat text =>
    cases text with
    | none => cases h
    | some text =>
      cases h
      rfl
  | literalTrue | literalFalse | literalNull | valueString | valueUnsigned | valueInteger =>
    cases h
    rfl
  | beginArray | beginObject | endArray | endObject | nameSeparator | valueSeparator
  | parseError | endOfInput => cases h

theorem parseValue_beginArray {next : Token × Lexer} (h : last.1 = .beginArray) :
    parseValue states dom (last :: next :: stream) =
      if next.1 = .endArray then
        dom.handleValue (.array []) >>= fun dom' => evaluate states dom' stream
      else parseValue (true :: states) dom.startArray (next :: stream) := by
  obtain ⟨token, l⟩ := last
  subst h
  rfl

theorem parseValue_beginObject {next : Token × Lexer} (h : last.1 = .beginObject) :
    parseValue states dom (last :: next :: stream) =
      if next.1 = .endObject then
        dom.handleValue (.object []) >>= fun dom' => evaluate states dom' stream
      else parseMember (false :: states) dom.startObject (next :: stream) := by
  obtain ⟨token, l⟩ := last
  subst h
  rfl

theorem parseMember_valueString {key : Str} {separator : Token × Lexer}
    (h : last.1 = .valueString key) (hsep : separator.1 = .nameSeparator) :
    parseMember states dom (last :: separator :: stream) =
      dom.key key >>= fun dom' => parseValue states dom' stream := by
  obtain ⟨token, l⟩ := last
  subst h
  simp only [parseMember, hsep, if_true]

theorem evaluate_nil : evaluate [] dom stream = .ok (dom, stream) := by
  cases stream with
  | nil => rfl
  | cons => rfl

theorem evaluate_valueSeparator (h : last.1 = .valueSeparator) :
    evaluate (true :: states) dom (last :: stream) = parseValue (true :: states) dom stream ∧
      evaluate (false :: states) dom (last :: stream) =
        parseMember (false :: states) dom stream := by
  simp only [evaluate, h, if_true, and_self]

theorem evaluate_endArray (h : last.1 = .endArray) :
    evaluate (true :: states) dom (last :: stream) =
      dom.endArray >>= fun dom' => evaluate states dom' stream := by
  simp only [evaluate, h, reduceCtorEq, if_false, if_true]

theorem evaluate_endObject (h : last.1 = .endObject) :
    evaluate (false :: states) dom (last :: stream) =
      dom.endObject >>= fun dom' => evaluate states dom' stream := by
  simp only [evaluate, h, reduceCtorEq, if_false, if_true]

end Rounds

/-! ### Completeness -/

/-- A phrase does not begin with a bracket that closes. -/
theorem Phrase.head {ts : List Token} {m : Meaning} (h : Phrase ts m) :
    ∃ t ts', ts = t :: ts' ∧ t ≠ .endArray ∧ t ≠ .endObject := by
  induction h with
  | scalar h =>
    refine ⟨_, _, rfl, ?_, ?_⟩
    · rintro rfl
      cases h
    · rintro rfl
      cases h
  | emptyArray | array | emptyObject | object | oneMember | moreMembers =>
    exact ⟨_, _, rfl, nofun, nofun⟩
  | oneElement _ ih => exact ih
  | moreElements _ _ ih =>
    obtain ⟨t, ts', rfl, ht⟩ := ih
    exact ⟨t, _, rfl, ht⟩

/-- What the loop makes of a phrase: it hands a value on to the innermost container,
and it ends a container whose elements or members are all there. -/
def ReadAs (ls : Stream) : Meaning → Prop
  | .value v => ∀ (rest : Stream) (states : List Bool) (dom : Dom),
      parseValue states dom (ls ++ rest) =
        dom.handleValue v >>= fun dom' => evaluate states dom' rest
  | .elements vs => ∀ (close : Token × Lexer) (rest : Stream) (states : List Bool) (root : Json)
      (es : List Json) (frames : List Frame), close.1 = .endArray →
      parseValue (true :: states) ⟨root, .array es :: frames⟩ (ls ++ close :: rest) =
        Dom.handleValue ⟨root, frames⟩ (.array (es ++ vs)) >>= fun dom' =>
          evaluate states dom' rest
  | .members ms => ∀ (close : Token × Lexer) (rest : Stream) (states : List Bool) (root : Json)
      (os : List (Str × Json)) (key : Option Str) (frames : List Frame), close.1 = .endObject →
      parseMember (false :: states) ⟨root, .object os key :: frames⟩ (ls ++ close :: rest) =
        Dom.handleValue ⟨root, frames⟩ (.object (ms.foldl (fun ms m => setMember m.1 m.2 ms) os))
          >>= fun dom' => evaluate states dom' rest

/-- **The loop reads a phrase as what it stands for**, with any containers around it. -/
theorem Phrase.readAs {ts : List Token} {m : Meaning} (h : Phrase ts m) :
    ∀ ls : Stream, ls.tokens = ts → ReadAs ls m := by
  induction h with
  | scalar h =>
    intro ls hts rest states dom
    obtain ⟨last, ls', rfl, rfl, hnil⟩ := Stream.tokens_eq_cons hts
    obtain rfl := List.map_eq_nil_iff.mp hnil
    exact parseValue_scalar h
  | emptyArray =>
    intro ls hts rest states dom
    obtain ⟨last, ls', rfl, hlast, hts'⟩ := Stream.tokens_eq_cons hts
    obtain ⟨close, ls'', rfl, hclose, hnil⟩ := Stream.tokens_eq_cons hts'
    obtain rfl := List.map_eq_nil_iff.mp hnil
    exact (parseValue_beginArray hlast).trans (if_pos hclose)
  | emptyObject =>
    intro ls hts rest states dom
    obtain ⟨last, ls', rfl, hlast, hts'⟩ := Stream.tokens_eq_cons hts
    obtain ⟨close, ls'', rfl, hclose, hnil⟩ := Stream.tokens_eq_cons hts'
    obtain rfl := List.map_eq_nil_iff.mp hnil
    exact (parseValue_beginObject hlast).trans (if_pos hclose)
  | array h ih =>
    intro ls hts rest states dom
    obtain ⟨last, ls', rfl, hlast, hts'⟩ := Stream.tokens_eq_cons hts
    obtain ⟨ls₁, ls₂, rfl, hts₁, hts₂⟩ := Stream.tokens_eq_append hts'
    obtain ⟨close, ls₃, rfl, hclose, hnil⟩ := Stream.tokens_eq_cons hts₂
    obtain rfl := List.map_eq_nil_iff.mp hnil
    -- the elements are read up to the bracket, in a frame of their own
    have helements := ih ls₁ hts₁ close rest states dom.root [] dom.refStack hclose
    obtain ⟨t, ts', rfl, ht, -⟩ := h.head
    obtain ⟨next, ls₄, rfl, hnext, -⟩ := Stream.tokens_eq_cons hts₁
    rw [List.cons_append, List.append_assoc, List.cons_append,
      parseValue_beginArray hlast, if_neg (by rwa [hnext])]
    exact helements
  | object h ih =>
    intro ls hts rest states dom
    obtain ⟨last, ls', rfl, hlast, hts'⟩ := Stream.tokens_eq_cons hts
    obtain ⟨ls₁, ls₂, rfl, hts₁, hts₂⟩ := Stream.tokens_eq_append hts'
    obtain ⟨close, ls₃, rfl, hclose, hnil⟩ := Stream.tokens_eq_cons hts₂
    obtain rfl := List.map_eq_nil_iff.mp hnil
    -- the members are read up to the brace
    have hmembers := ih ls₁ hts₁ close rest states dom.root [] none dom.refStack hclose
    obtain ⟨t, ts', rfl, -, ht⟩ := h.head
    obtain ⟨next, ls₄, rfl, hnext, -⟩ := Stream.tokens_eq_cons hts₁
    rw [List.cons_append, List.append_assoc, List.cons_append,
      parseValue_beginObject hlast, if_neg (by rwa [hnext])]
    exact hmembers
  | oneElement _ ih =>
    intro ls hts close rest states root es frames hclose
    rw [ih ls hts]
    exact evaluate_endArray hclose
  | @moreElements ts₁ ts₂ v vs _ _ ih ih' =>
    intro ls hts close rest states root es frames hclose
    obtain ⟨ls₁, ls₂, rfl, hts₁, hts₂⟩ := Stream.tokens_eq_append hts
    obtain ⟨comma, ls₃, rfl, hcomma, hts₃⟩ := Stream.tokens_eq_cons hts₂
    have hrest := ih' ls₃ hts₃ close rest states root (es ++ [v]) frames hclose
    rw [List.append_assoc, List.singleton_append] at hrest
    rw [List.append_assoc, ih ls₁ hts₁]
    exact (evaluate_valueSeparator hcomma).1.trans hrest
  | oneMember _ ih =>
    intro ls hts close rest states root os key frames hclose
    obtain ⟨last, ls₁, rfl, hlast, hts₁⟩ := Stream.tokens_eq_cons hts
    obtain ⟨colon, ls₂, rfl, hcolon, hts₂⟩ := Stream.tokens_eq_cons hts₁
    rw [List.cons_append, List.cons_append, parseMember_valueString hlast hcolon]
    refine (ih ls₂ hts₂ _ _ _).trans ?_
    exact evaluate_endObject hclose
  | @moreMembers key' ts₁ ts₂ v ms _ _ ih ih' =>
    intro ls hts close rest states root os key frames hclose
    obtain ⟨last, ls₁, rfl, hlast, hts₁⟩ := Stream.tokens_eq_cons hts
    obtain ⟨colon, ls₂, rfl, hcolon, hts₂⟩ := Stream.tokens_eq_cons hts₁
    obtain ⟨ls₃, ls₄, rfl, hts₃, hts₄⟩ := Stream.tokens_eq_append hts₂
    obtain ⟨comma, ls₅, rfl, hcomma, hts₅⟩ := Stream.tokens_eq_cons hts₄
    have hrest := ih' ls₅ hts₅ close rest states root (setMember key' v os) (some key') frames
      hclose
    rw [List.cons_append, List.cons_append, List.append_assoc,
      parseMember_valueString hlast hcolon]
    refine (ih ls₃ hts₃ _ _ _).trans ?_
    exact (evaluate_valueSeparator hcomma).2.trans hrest

/-! ### Soundness -/

/-- The elements after the first, each with a separator in front. -/
def MoreElements (ls : Stream) (vs : List Json) : Prop :=
  (ls = [] ∧ vs = []) ∨
    ∃ comma ls', ls = comma :: ls' ∧ comma.1 = .valueSeparator ∧
      Phrase (Stream.tokens ls') (.elements vs)

/-- The members after the first, each with a separator in front. -/
def MoreMembers (ls : Stream) (ms : List (Str × Json)) : Prop :=
  (ls = [] ∧ ms = []) ∨
    ∃ comma ls', ls = comma :: ls' ∧ comma.1 = .valueSeparator ∧
      Phrase (Stream.tokens ls') (.members ms)

theorem MoreElements.cons {ls ls' : Stream} {v : Json} {vs : List Json}
    (h : Value ls.tokens v) (h' : MoreElements ls' vs) :
    Phrase (Stream.tokens (ls ++ ls')) (.elements (v :: vs)) := by
  rw [Stream.tokens, List.map_append]
  rcases h' with ⟨rfl, rfl⟩ | ⟨comma, ls', rfl, hcomma, h'⟩
  · rw [List.map_nil, List.append_nil]
    exact .oneElement h
  · rw [List.map_cons, hcomma]
    exact .moreElements h h'

theorem MoreMembers.cons {ls ls' : Stream} {last separator : Token × Lexer} {key : Str} {v : Json}
    {ms : List (Str × Json)} (hlast : last.1 = .valueString key)
    (hsep : separator.1 = .nameSeparator) (h : Value ls.tokens v) (h' : MoreMembers ls' ms) :
    Phrase (Stream.tokens (last :: separator :: (ls ++ ls'))) (.members ((key, v) :: ms)) := by
  rw [Stream.tokens_cons, Stream.tokens_cons, Stream.tokens, List.map_append, hlast, hsep]
  rcases h' with ⟨rfl, rfl⟩ | ⟨comma, ls', rfl, hcomma, h'⟩
  · rw [List.map_nil, List.append_nil]
    exact .oneMember h
  · rw [List.map_cons, hcomma]
    exact .moreMembers h h'

/-- What a run of the loop that ends well has read, for streams of at most `n`
tokens: from each entry, a phrase up to the end of the innermost container. -/
structure Sound (n : ℕ) : Prop where
  value : ∀ (states : List Bool) (dom : Dom) (stream : Stream) (r : Dom × Stream),
    stream.length ≤ n → parseValue states dom stream = .ok r →
    ∃ ls v rest dom', stream = ls ++ rest ∧ rest.length < stream.length ∧
      Value (Stream.tokens ls) v ∧ dom.handleValue v = .ok dom' ∧ evaluate states dom' rest = .ok r
  array : ∀ (states : List Bool) (root : Json) (es : List Json) (frames : List Frame)
      (stream : Stream) (r : Dom × Stream), stream.length ≤ n →
    evaluate (true :: states) ⟨root, .array es :: frames⟩ stream = .ok r →
    ∃ ls vs close rest dom', stream = ls ++ close :: rest ∧ close.1 = .endArray ∧
      MoreElements ls vs ∧ Dom.handleValue ⟨root, frames⟩ (.array (es ++ vs)) = .ok dom' ∧
      evaluate states dom' rest = .ok r
  member : ∀ (states : List Bool) (root : Json) (os : List (Str × Json)) (key : Option Str)
      (frames : List Frame) (stream : Stream) (r : Dom × Stream), stream.length ≤ n →
    parseMember (false :: states) ⟨root, .object os key :: frames⟩ stream = .ok r →
    ∃ ls ms close rest dom', stream = ls ++ close :: rest ∧ close.1 = .endObject ∧
      Phrase (Stream.tokens ls) (.members ms) ∧
      Dom.handleValue ⟨root, frames⟩
        (.object (ms.foldl (fun ms m => setMember m.1 m.2 ms) os)) = .ok dom' ∧
      evaluate states dom' rest = .ok r
  object : ∀ (states : List Bool) (root : Json) (os : List (Str × Json)) (key : Option Str)
      (frames : List Frame) (stream : Stream) (r : Dom × Stream), stream.length ≤ n →
    evaluate (false :: states) ⟨root, .object os key :: frames⟩ stream = .ok r →
    ∃ ls ms close rest dom', stream = ls ++ close :: rest ∧ close.1 = .endObject ∧
      MoreMembers ls ms ∧
      Dom.handleValue ⟨root, frames⟩
        (.object (ms.foldl (fun ms m => setMember m.1 m.2 ms) os)) = .ok dom' ∧
      evaluate states dom' rest = .ok r

/-- What begins a value, where the loop ends well. -/
theorem parseValue_cases {states : List Bool} {dom : Dom} {last : Token × Lexer}
    {stream : Stream} {r : Dom × Stream}
    (h : parseValue states dom (last :: stream) = .ok r) :
    (∃ v, last.1.scalar? = some v) ∨ (∃ next stream', stream = next :: stream' ∧
      (last.1 = .beginArray ∨ last.1 = .beginObject)) := by
  cases hscalar : last.1.scalar? with
  | some v => exact Or.inl ⟨v, rfl⟩
  | none =>
    right
    obtain ⟨token, l⟩ := last
    cases token with
    | beginArray =>
      cases stream with
      | nil => cases h
      | cons next stream => exact ⟨next, stream, rfl, Or.inl rfl⟩
    | beginObject =>
      cases stream with
      | nil => cases h
      | cons next stream => exact ⟨next, stream, rfl, Or.inr rfl⟩
    | valueFloat text =>
      cases text with
      | none => cases h
      | some text => cases hscalar
    | literalTrue | literalFalse | literalNull | valueString | valueUnsigned | valueInteger =>
      cases hscalar
    | endArray | endObject | nameSeparator | valueSeparator | parseError | endOfInput => cases h

theorem parseMember_cases {states : List Bool} {dom : Dom} {stream : Stream} {r : Dom × Stream}
    (h : parseMember states dom stream = .ok r) :
    ∃ last separator stream' key, stream = last :: separator :: stream' ∧
      last.1 = .valueString key ∧ separator.1 = .nameSeparator := by
  cases stream with
  | nil => cases h
  | cons last stream =>
    rw [parseMember] at h
    split at h
    · next key hlast =>
      obtain ⟨dom', -, h⟩ := bind_eq_ok.mp h
      cases stream with
      | nil => cases h
      | cons separator stream =>
        by_cases hsep : separator.1 = .nameSeparator
        · exact ⟨last, separator, stream, key, rfl, hlast, hsep⟩
        · simp only [if_neg hsep] at h
          cases h
    · cases h

theorem evaluate_true_cases {states : List Bool} {dom : Dom} {stream : Stream} {r : Dom × Stream}
    (h : evaluate (true :: states) dom stream = .ok r) :
    ∃ last stream', stream = last :: stream' ∧
      (last.1 = .valueSeparator ∨ last.1 = .endArray) := by
  cases stream with
  | nil => cases h
  | cons last stream =>
    refine ⟨last, stream, rfl, ?_⟩
    by_contra hlast
    rw [not_or] at hlast
    simp only [evaluate, if_neg hlast.1, if_neg hlast.2] at h
    cases h

theorem evaluate_false_cases {states : List Bool} {dom : Dom} {stream : Stream} {r : Dom × Stream}
    (h : evaluate (false :: states) dom stream = .ok r) :
    ∃ last stream', stream = last :: stream' ∧
      (last.1 = .valueSeparator ∨ last.1 = .endObject) := by
  cases stream with
  | nil => cases h
  | cons last stream =>
    refine ⟨last, stream, rfl, ?_⟩
    by_contra hlast
    rw [not_or] at hlast
    simp only [evaluate, if_neg hlast.1, if_neg hlast.2] at h
    cases h

theorem Sound.value_succ {n : ℕ} (ih : Sound n) (states : List Bool) (dom : Dom) (stream : Stream)
    (r : Dom × Stream) (hn : stream.length ≤ n + 1) (h : parseValue states dom stream = .ok r) :
    ∃ ls v rest dom', stream = ls ++ rest ∧ rest.length < stream.length ∧
      Value (Stream.tokens ls) v ∧ dom.handleValue v = .ok dom' ∧
      evaluate states dom' rest = .ok r := by
  cases stream with
  | nil => cases h
  | cons last stream =>
    rw [List.length_cons, Nat.succ_le_succ_iff] at hn
    rcases parseValue_cases h with ⟨v, hv⟩ | ⟨next, stream, rfl, hlast | hlast⟩
    · rw [parseValue_scalar hv] at h
      obtain ⟨dom', hdom', h⟩ := bind_eq_ok.mp h
      exact ⟨[last], v, stream, dom', rfl, Nat.lt_succ_self _, .scalar hv, hdom', h⟩
    · rw [parseValue_beginArray hlast] at h
      by_cases hnext : next.1 = .endArray
      · rw [if_pos hnext] at h
        obtain ⟨dom', hdom', h⟩ := bind_eq_ok.mp h
        refine ⟨[last, next], _, stream, dom', rfl, ?_, ?_, hdom', h⟩
        · simp only [List.length_cons]
          omega
        · rw [Stream.tokens_cons, Stream.tokens_cons, hlast, hnext]
          exact .emptyArray
      · -- the first element, and then the others
        rw [if_neg hnext] at h
        obtain ⟨ls, v, rest, dom', hstream, hlt, hv, hdom', h⟩ := ih.value _ _ _ r hn h
        obtain rfl := Except.ok.inj hdom'
        obtain ⟨ls', vs, close, rest', dom'', rfl, hclose, hvs, hdom'', h⟩ :=
          ih.array states dom.root [v] dom.refStack rest r (hlt.le.trans hn) h
        refine ⟨last :: (ls ++ ls' ++ [close]), .array (v :: vs), rest', dom'', ?_, ?_, ?_,
          hdom'', h⟩
        · rw [hstream]
          simp only [List.cons_append, List.append_assoc, List.nil_append]
        · simp only [List.length_cons, List.length_append] at hlt ⊢
          omega
        · have helements := MoreElements.cons hv hvs
          rw [Stream.tokens_cons, hlast, Stream.tokens, List.map_append, List.map_singleton, hclose]
          exact .array helements
    · rw [parseValue_beginObject hlast] at h
      by_cases hnext : next.1 = .endObject
      · rw [if_pos hnext] at h
        obtain ⟨dom', hdom', h⟩ := bind_eq_ok.mp h
        refine ⟨[last, next], _, stream, dom', rfl, ?_, ?_, hdom', h⟩
        · simp only [List.length_cons]
          omega
        · rw [Stream.tokens_cons, Stream.tokens_cons, hlast, hnext]
          exact .emptyObject
      · rw [if_neg hnext] at h
        obtain ⟨ls, ms, close, rest, dom', hstream, hclose, hms, hdom', h⟩ :=
          ih.member states dom.root [] none dom.refStack _ r hn h
        refine ⟨last :: (ls ++ [close]), objectOf ms, rest, dom', ?_, ?_, ?_, hdom', h⟩
        · rw [hstream]
          simp only [List.cons_append, List.append_assoc, List.nil_append]
        · rw [hstream]
          simp only [List.length_cons, List.length_append]
          omega
        · rw [Stream.tokens_cons, hlast, Stream.tokens, List.map_append, List.map_singleton, hclose]
          exact .object hms

theorem Sound.array_succ {n : ℕ} (ih : Sound n) (states : List Bool) (root : Json)
    (es : List Json) (frames : List Frame) (stream : Stream) (r : Dom × Stream)
    (hn : stream.length ≤ n + 1)
    (h : evaluate (true :: states) ⟨root, .array es :: frames⟩ stream = .ok r) :
    ∃ ls vs close rest dom', stream = ls ++ close :: rest ∧ close.1 = .endArray ∧
      MoreElements ls vs ∧ Dom.handleValue ⟨root, frames⟩ (.array (es ++ vs)) = .ok dom' ∧
      evaluate states dom' rest = .ok r := by
  obtain ⟨last, stream, rfl, hlast | hlast⟩ := evaluate_true_cases h
  · rw [List.length_cons, Nat.succ_le_succ_iff] at hn
    rw [(evaluate_valueSeparator hlast).1] at h
    obtain ⟨ls, v, rest, dom', rfl, hlt, hv, hdom', h⟩ := ih.value _ _ _ r hn h
    obtain rfl := Except.ok.inj hdom'
    obtain ⟨ls', vs, close, rest', dom'', rfl, hclose, hvs, hdom'', h⟩ :=
      ih.array states root (es ++ [v]) frames rest r (hlt.le.trans hn) h
    rw [List.append_assoc, List.singleton_append] at hdom''
    refine ⟨last :: (ls ++ ls'), v :: vs, close, rest', dom'', ?_, hclose, ?_, hdom'', h⟩
    · simp only [List.cons_append, List.append_assoc]
    · exact Or.inr ⟨last, _, rfl, hlast, MoreElements.cons hv hvs⟩
  · rw [evaluate_endArray hlast] at h
    obtain ⟨dom', hdom', h⟩ := bind_eq_ok.mp h
    refine ⟨[], [], last, stream, dom', rfl, hlast, Or.inl ⟨rfl, rfl⟩, ?_, h⟩
    rw [List.append_nil]
    exact hdom'

theorem Sound.member_succ {n : ℕ} (ih : Sound n) (states : List Bool) (root : Json)
    (os : List (Str × Json)) (key : Option Str) (frames : List Frame) (stream : Stream)
    (r : Dom × Stream) (hn : stream.length ≤ n + 1)
    (h : parseMember (false :: states) ⟨root, .object os key :: frames⟩ stream = .ok r) :
    ∃ ls ms close rest dom', stream = ls ++ close :: rest ∧ close.1 = .endObject ∧
      Phrase (Stream.tokens ls) (.members ms) ∧
      Dom.handleValue ⟨root, frames⟩
        (.object (ms.foldl (fun ms m => setMember m.1 m.2 ms) os)) = .ok dom' ∧
      evaluate states dom' rest = .ok r := by
  obtain ⟨last, separator, stream, key', rfl, hlast, hsep⟩ := parseMember_cases h
  have hn' : stream.length ≤ n := by
    simp only [List.length_cons] at hn
    omega
  rw [parseMember_valueString hlast hsep] at h
  obtain ⟨ls, v, rest, dom', rfl, hlt, hv, hdom', h⟩ := ih.value _ _ _ r hn' h
  obtain rfl := Except.ok.inj hdom'
  obtain ⟨ls', ms, close, rest', dom'', rfl, hclose, hms, hdom'', h⟩ :=
    ih.object states root (setMember key' v os) (some key') frames rest r (hlt.le.trans hn') h
  refine ⟨last :: separator :: (ls ++ ls'), (key', v) :: ms, close, rest', dom'', ?_, hclose,
    MoreMembers.cons hlast hsep hv hms, hdom'', h⟩
  simp only [List.cons_append, List.append_assoc]

theorem Sound.object_succ {n : ℕ} (ih : Sound n) (states : List Bool) (root : Json)
    (os : List (Str × Json)) (key : Option Str) (frames : List Frame) (stream : Stream)
    (r : Dom × Stream) (hn : stream.length ≤ n + 1)
    (h : evaluate (false :: states) ⟨root, .object os key :: frames⟩ stream = .ok r) :
    ∃ ls ms close rest dom', stream = ls ++ close :: rest ∧ close.1 = .endObject ∧
      MoreMembers ls ms ∧
      Dom.handleValue ⟨root, frames⟩
        (.object (ms.foldl (fun ms m => setMember m.1 m.2 ms) os)) = .ok dom' ∧
      evaluate states dom' rest = .ok r := by
  obtain ⟨last, stream, rfl, hlast | hlast⟩ := evaluate_false_cases h
  · rw [List.length_cons, Nat.succ_le_succ_iff] at hn
    rw [(evaluate_valueSeparator hlast).2] at h
    obtain ⟨ls, ms, close, rest, dom', rfl, hclose, hms, hdom', h⟩ :=
      ih.member states root os key frames stream r hn h
    refine ⟨last :: ls, ms, close, rest, dom', ?_, hclose, ?_, hdom', h⟩
    · rw [List.cons_append]
    · exact Or.inr ⟨last, ls, rfl, hlast, hms⟩
  · rw [evaluate_endObject hlast] at h
    obtain ⟨dom', hdom', h⟩ := bind_eq_ok.mp h
    exact ⟨[], [], last, stream, dom', rfl, hlast, Or.inl ⟨rfl, rfl⟩, hdom', h⟩

/-- **The loop reads nothing but phrases.** -/
theorem sound (n : ℕ) : Sound n := by
  induction n with
  | zero =>
    have hnil : ∀ stream : Stream, stream.length ≤ 0 → stream = [] := fun stream hn =>
      List.length_eq_zero_iff.mp (Nat.le_zero.mp hn)
    constructor
    · intro states dom stream r hn h
      rw [hnil stream hn] at h
      cases h
    · intro states root es frames stream r hn h
      rw [hnil stream hn] at h
      cases h
    · intro states root os key frames stream r hn h
      rw [hnil stream hn] at h
      cases h
    · intro states root os key frames stream r hn h
      rw [hnil stream hn] at h
      cases h
  | succ n ih => exact ⟨ih.value_succ, ih.array_succ, ih.member_succ, ih.object_succ⟩

/-- **The parser accepts just the values of the grammar**, with the end of the input
after them. -/
theorem parseStream_eq_ok_iff {stream : Stream} {v : Json} :
    parseStream stream = .ok v ↔
      ∃ ls last rest, stream = ls ++ last :: rest ∧ Value (Stream.tokens ls) v ∧
        last.1 = .endOfInput := by
  unfold parseStream
  rw [bind_eq_ok]
  constructor
  · rintro ⟨⟨dom, rest⟩, hparse, h⟩
    obtain ⟨ls, v', rest', dom', rfl, -, hv, hdom', heval⟩ :=
      (sound stream.length).value _ _ _ _ le_rfl hparse
    rw [evaluate_nil] at heval
    obtain ⟨rfl, rfl⟩ := Prod.mk.inj (Except.ok.inj heval)
    obtain rfl := Except.ok.inj hdom'
    cases rest' with
    | nil => cases h
    | cons last rest =>
      by_cases hlast : last.1 = .endOfInput
      · simp only [hlast, if_true] at h
        obtain rfl := Except.ok.inj h
        exact ⟨ls, last, rest, rfl, hv, hlast⟩
      · simp only [if_neg hlast] at h
        cases h
  · rintro ⟨ls, last, rest, rfl, hv, hlast⟩
    refine ⟨(⟨v, []⟩, last :: rest), ?_, ?_⟩
    · rw [hv.readAs ls rfl]
      exact evaluate_nil
    · simp only [hlast, if_true]
      rfl

end JsonText
end IntBlock
