import IntBlock.JsonText.Grammar

/-!
# The assertions of the parser

The handler of the parser's events asserts what kind of container it is in.  The
parser keeps a stack of its own, of flags, and both stacks go together as long as
the loop runs; so no assertion fails, and no token is asked for after the last.

## Main definitions

* `Fits` — the two stacks go together.
* `Ended` — a stream as `tokens` returns it.
* `IsParseError` — the texts of the errors.

## Main results

* `safeBelow` — what the loop does from each of its entries.
* `parse_cases` — **a text is parsed to a value or refused with one of two errors.**
-/

namespace IntBlock
namespace JsonText

open Cpp

/-! ### The two stacks -/

/-- A stream whose last token, and no other, is one after which none is asked for. -/
inductive Ended : Stream → Prop
  | last {t : Token × Lexer} (h : t.1.isLast = true) : Ended [t]
  | cons {t : Token × Lexer} {stream : Stream} (h : t.1.isLast = false) (h' : Ended stream) :
      Ended (t :: stream)

/-- A flag of the parser, and the container of the handler it stands for. -/
def Fit : Bool → Frame → Prop
  | true, .array _ => True
  | false, .object _ (some _) => True
  | _, _ => False

/-- The two stacks go together. -/
def Fits (states : List Bool) (frames : List Frame) : Prop := List.Forall₂ Fit states frames

/-- The texts of the two errors. -/
def IsParseError (what : Str) : Prop :=
  "[json.exception.parse_error.101] parse error at line ".toList <+: what ∨
    "[json.exception.out_of_range.406] number overflow parsing '".toList <+: what

/-- A run that ends in front of another token, or with one of the two errors. -/
def Safe : Exec (Dom × Stream) → Prop
  | .ok (_, rest) => Ended rest
  | .error stop => ∃ what, stop = .thrown (.json what) ∧ IsParseError what

theorem exists_syntaxError {α : Type} (last : Token × Lexer) (expected : Option Str)
    (context : Str) : ∃ what,
      (syntaxError last expected context : Exec α) = .error (.thrown (.json what)) ∧
        IsParseError what := by
  refine ⟨_, rfl, Or.inl ?_⟩
  simp only [List.append_assoc]
  exact List.prefix_append _ _

theorem safe_syntaxError (last : Token × Lexer) (expected : Option Str) (context : Str) :
    Safe (syntaxError last expected context) := by
  obtain ⟨what, hwhat, htext⟩ := @exists_syntaxError (Dom × Stream) last expected context
  rw [hwhat]
  exact ⟨what, rfl, htext⟩

theorem safe_numberOverflow (last : Token × Lexer) : Safe (numberOverflow last) := by
  refine ⟨_, rfl, Or.inr ?_⟩
  simp only [List.append_assoc]
  exact List.prefix_append _ _

theorem Ended.tail {last : Token × Lexer} {stream : Stream} (h : Ended (last :: stream))
    (hlast : last.1.isLast = false) : Ended stream := by
  cases h with
  | last h =>
    rw [hlast] at h
    cases h
  | cons _ h => exact h

theorem Ended.exists_cons {stream : Stream} (h : Ended stream) :
    ∃ last stream', stream = last :: stream' := by
  cases h with
  | last => exact ⟨_, _, rfl⟩
  | cons => exact ⟨_, _, rfl⟩

/-- Nothing comes after the last token. -/
theorem Ended.eq_nil {stream rest : Stream} {last : Token × Lexer}
    (h : Ended (stream ++ last :: rest)) (hlast : last.1.isLast = true) : rest = [] := by
  induction stream with
  | nil =>
    cases h with
    | last => rfl
    | cons hnot =>
      rw [hlast] at hnot
      cases hnot
  | cons t stream ih =>
    generalize hwhole : t :: stream ++ last :: rest = whole at h
    cases h with
    | last =>
      obtain ⟨-, hnil⟩ := List.cons.inj hwhole
      exact absurd hnil (List.append_ne_nil_of_right_ne_nil _ (List.cons_ne_nil _ _))
    | cons _ h =>
      obtain ⟨-, rfl⟩ := List.cons.inj hwhole
      exact ih h

/-- A value finds a place in the innermost container. -/
theorem Fits.handleValue {states : List Bool} {dom : Dom} (h : Fits states dom.refStack)
    (v : Json) : ∃ dom', dom.handleValue v = .ok dom' ∧ Fits states dom'.refStack := by
  obtain ⟨root, frames⟩ := dom
  cases h with
  | nil => exact ⟨⟨v, []⟩, rfl, List.Forall₂.nil⟩
  | @cons b frame states frames hfit h =>
    cases frame with
    | array elements =>
      cases b with
      | true => exact ⟨_, rfl, List.Forall₂.cons trivial h⟩
      | false => exact hfit.elim
    | object members key =>
      cases key with
      | none =>
        cases b with
        | true => exact hfit.elim
        | false => exact hfit.elim
      | some key =>
        cases b with
        | true => exact hfit.elim
        | false => exact ⟨_, rfl, List.Forall₂.cons trivial h⟩

/-- What the loop does from its three entries, for streams of at most `n` tokens. -/
structure SafeBelow (n : ℕ) : Prop where
  value : ∀ (states : List Bool) (dom : Dom) (stream : Stream), stream.length ≤ n →
    Fits states dom.refStack → Ended stream → Safe (parseValue states dom stream)
  member : ∀ (states : List Bool) (root : Json) (os : List (Str × Json)) (key : Option Str)
      (frames : List Frame) (stream : Stream), stream.length ≤ n → Fits states frames →
    Ended stream → Safe (parseMember (false :: states) ⟨root, .object os key :: frames⟩ stream)
  state : ∀ (states : List Bool) (dom : Dom) (stream : Stream), stream.length ≤ n →
    Fits states dom.refStack → Ended stream → Safe (evaluate states dom stream)

theorem SafeBelow.value_succ {n : ℕ} (ih : SafeBelow n) (states : List Bool) (dom : Dom)
    (stream : Stream) (hn : stream.length ≤ n + 1) (hfits : Fits states dom.refStack)
    (hended : Ended stream) : Safe (parseValue states dom stream) := by
  obtain ⟨last, stream, rfl⟩ := hended.exists_cons
  rw [List.length_cons, Nat.succ_le_succ_iff] at hn
  cases hscalar : last.1.scalar? with
  | some v =>
    have hlast : last.1.isLast = false := by
      obtain ⟨token, l⟩ := last
      cases token with
      | parseError | endOfInput => cases hscalar
      | _ => rfl
    -- a scalar has a place in the frame that is open
    obtain ⟨dom', hdom', hfits'⟩ := hfits.handleValue v
    rw [parseValue_scalar hscalar, hdom']
    exact ih.state states dom' stream hn hfits' (hended.tail hlast)
  | none =>
    obtain ⟨token, l⟩ := last
    cases token with
    | beginArray =>
      have htail := hended.tail rfl
      obtain ⟨next, stream, rfl⟩ := htail.exists_cons
      rw [parseValue_beginArray rfl]
      by_cases hnext : next.1 = .endArray
      · obtain ⟨dom', hdom', hfits'⟩ := hfits.handleValue (.array [])
        rw [if_pos hnext, hdom']
        have hrest : Ended stream := htail.tail (by rw [hnext]; rfl)
        exact ih.state states dom' stream (Nat.le_of_succ_le hn) hfits' hrest
      · rw [if_neg hnext]
        exact ih.value _ dom.startArray _ hn (List.Forall₂.cons trivial hfits) htail
    | beginObject =>
      have htail := hended.tail rfl
      obtain ⟨next, stream, rfl⟩ := htail.exists_cons
      rw [parseValue_beginObject rfl]
      by_cases hnext : next.1 = .endObject
      · obtain ⟨dom', hdom', hfits'⟩ := hfits.handleValue (.object [])
        rw [if_pos hnext, hdom']
        have hrest : Ended stream := htail.tail (by rw [hnext]; rfl)
        exact ih.state states dom' stream (Nat.le_of_succ_le hn) hfits' hrest
      · rw [if_neg hnext]
        exact ih.member states dom.root [] none dom.refStack _ hn hfits htail
    | valueFloat text =>
      cases text with
      | none => exact safe_numberOverflow _
      | some text => cases hscalar
    | literalTrue | literalFalse | literalNull | valueString | valueUnsigned | valueInteger =>
      cases hscalar
    | endArray | endObject | nameSeparator | valueSeparator | parseError | endOfInput =>
      exact safe_syntaxError _ _ _

theorem SafeBelow.member_succ {n : ℕ} (ih : SafeBelow n) (states : List Bool) (root : Json)
    (os : List (Str × Json)) (key : Option Str) (frames : List Frame) (stream : Stream)
    (hn : stream.length ≤ n + 1) (hfits : Fits states frames) (hended : Ended stream) :
    Safe (parseMember (false :: states) ⟨root, .object os key :: frames⟩ stream) := by
  obtain ⟨last, stream, rfl⟩ := hended.exists_cons
  rw [List.length_cons, Nat.succ_le_succ_iff] at hn
  obtain ⟨token, l⟩ := last
  cases token with
  | valueString key' =>
    have htail := hended.tail rfl
    obtain ⟨separator, stream, rfl⟩ := htail.exists_cons
    by_cases hsep : separator.1 = .nameSeparator
    · rw [parseMember_valueString rfl hsep]
      have hrest : Ended stream := htail.tail (by rw [hsep]; rfl)
      exact ih.value _ _ stream (Nat.le_of_succ_le hn) (List.Forall₂.cons trivial hfits) hrest
    · have hrefused : parseMember (false :: states) ⟨root, .object os key :: frames⟩
          ((.valueString key', l) :: separator :: stream) =
            syntaxError separator (some Token.nameSeparator.name) "object separator".toList := by
        simp only [parseMember, if_neg hsep]
        rfl
      rw [hrefused]
      exact safe_syntaxError _ _ _
  | _ => exact safe_syntaxError _ _ _

theorem SafeBelow.state_succ {n : ℕ} (ih : SafeBelow n) (states : List Bool) (dom : Dom)
    (stream : Stream) (hn : stream.length ≤ n + 1) (hfits : Fits states dom.refStack)
    (hended : Ended stream) : Safe (evaluate states dom stream) := by
  obtain ⟨last, stream, rfl⟩ := hended.exists_cons
  rw [List.length_cons, Nat.succ_le_succ_iff] at hn
  obtain ⟨root, frames⟩ := dom
  cases hfits with
  | nil => exact hended
  | @cons b frame states frames hfit hfits =>
    cases b with
    | true =>
      cases frame with
      | object =>
        -- the stack of states says that the frame is an array
        exact hfit.elim
      | array es =>
        by_cases hcomma : last.1 = .valueSeparator
        · rw [(evaluate_valueSeparator hcomma).1]
          have htail := hended.tail (by rw [hcomma]; rfl)
          exact ih.value _ _ stream hn (List.Forall₂.cons trivial hfits) htail
        by_cases hclose : last.1 = .endArray
        · obtain ⟨dom', hdom', hfits'⟩ := @Fits.handleValue states ⟨root, frames⟩ hfits (.array es)
          rw [evaluate_endArray hclose]
          have htail := hended.tail (by rw [hclose]; rfl)
          have hend : Dom.endArray ⟨root, .array es :: frames⟩ = .ok dom' := hdom'
          rw [hend]
          exact ih.state states dom' stream hn hfits' htail
        · simp only [evaluate, if_neg hcomma, if_neg hclose]
          exact safe_syntaxError _ _ _
    | false =>
      cases frame with
      | array => exact hfit.elim
      | object os key =>
        by_cases hcomma : last.1 = .valueSeparator
        · rw [(evaluate_valueSeparator hcomma).2]
          have htail := hended.tail (by rw [hcomma]; rfl)
          exact ih.member states root os key frames stream hn hfits htail
        by_cases hclose : last.1 = .endObject
        · obtain ⟨dom', hdom', hfits'⟩ := @Fits.handleValue states ⟨root, frames⟩ hfits (.object os)
          rw [evaluate_endObject hclose]
          have htail := hended.tail (by rw [hclose]; rfl)
          have hend : Dom.endObject ⟨root, .object os key :: frames⟩ = .ok dom' := hdom'
          rw [hend]
          exact ih.state states dom' stream hn hfits' htail
        · simp only [evaluate, if_neg hcomma, if_neg hclose]
          exact safe_syntaxError _ _ _

/-- **No assertion of the handler fails**, and no token is missing. -/
theorem safeBelow (n : ℕ) : SafeBelow n := by
  induction n with
  | zero =>
    have hne : ∀ stream : Stream, stream.length ≤ 0 → ¬ Ended stream := by
      intro stream hn hended
      obtain ⟨last, stream, rfl⟩ := hended.exists_cons
      cases hn
    constructor
    · intro states dom stream hn _ hended
      exact absurd hended (hne stream hn)
    · intro states root os key frames stream hn _ hended
      exact absurd hended (hne stream hn)
    · intro states dom stream hn _ hended
      exact absurd hended (hne stream hn)
  | succ n ih => exact ⟨ih.value_succ, ih.member_succ, ih.state_succ⟩

/-- The parser returns a value, or throws one of the two errors. -/
theorem parseStream_cases {stream : Stream} (h : Ended stream) :
    (∃ v, parseStream stream = .ok v) ∨
      ∃ what, parseStream stream = .error (.thrown (.json what)) ∧ IsParseError what := by
  have hsafe := (safeBelow stream.length).value [] ⟨.null, []⟩ stream le_rfl List.Forall₂.nil h
  unfold parseStream
  cases hrun : parseValue [] ⟨.null, []⟩ stream with
  | error stop =>
    rw [hrun] at hsafe
    obtain ⟨what, rfl, hwhat⟩ := hsafe
    exact Or.inr ⟨what, rfl, hwhat⟩
  | ok r =>
    rw [hrun] at hsafe
    obtain ⟨dom, rest⟩ := r
    obtain ⟨last, rest, rfl⟩ := Ended.exists_cons hsafe
    rw [bind_ok]
    by_cases hlast : last.1 = .endOfInput
    · simp only [hlast, if_true]
      exact Or.inl ⟨dom.root, rfl⟩
    · simp only [if_neg hlast]
      exact Or.inr (exists_syntaxError last (some Token.endOfInput.name) "value".toList)

/-! ### The stream of a text -/

theorem Lexer.tokens_ended (strtod : Str → Option Str) (l : Lexer) : Ended (l.tokens strtod) := by
  induction hn : l.input.length using Nat.strong_induction_on generalizing l with
  | _ n ih =>
    rw [Lexer.tokens]
    split
    · next h =>
      have hlt := Lexer.scan_length h
      rw [hn] at hlt
      exact Ended.cons h (ih _ hlt _ rfl)
    · next h => exact Ended.last (by simpa using h)

theorem tokens_ended (strtod : Str → Option Str) (input : Str) : Ended (tokens strtod input) := by
  unfold tokens
  dsimp only
  split
  · next h => exact Ended.last h
  · next h => exact Ended.cons (by simpa using h) (Lexer.tokens_ended strtod _)

/-- **A text is parsed to a value or refused with one of the two errors.** -/
theorem parse_cases (strtod : Str → Option Str) (input : Str) :
    (∃ v, parse strtod input = .ok v) ∨
      ∃ what, parse strtod input = .error (.thrown (.json what)) ∧ IsParseError what :=
  parseStream_cases (tokens_ended strtod input)

end JsonText
end IntBlock
