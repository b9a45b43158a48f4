import IntBlock.JsonText.Safety
import IntBlock.JsonText.Strings
import IntBlock.JsonText.Numbers

/-!
# JSON texts

Which texts `json::parse` accepts, and as what: a byte order mark that may be
missing, lexemes with blanks in front of them, and the end of the input, or a null
byte with anything after it.

## Main definitions

* `Lexeme` — the bytes of a token.
* `Lexes` — a text, with its tokens.
* `Derives` — a text of a value.
* `strtodOne` — a `strtod` with one number.
* `Valid` — a value whose strings are valid UTF-8 and whose objects are in order.

## Main results

* `scanToken_eq_iff` — the scanner reads just the lexemes.
* `tokens_eq_iff` — the tokens of a text are those the lexer finds.
* `parse_eq_ok_iff_lexes` — what `json::parse` accepts, and as what value.
* `parse_decides` — **the parser decides the grammar.**
* `valid_of_parse` — **the strings of a parsed value are valid UTF-8, and the
  members of its objects are in order.**
-/

namespace IntBlock
namespace JsonText

open Cpp

/-! ### Lexemes -/

variable {strtod : Str → Option Str}

/-- The bytes of a token. -/
inductive Lexeme (strtod : Str → Option Str) : Str → Token → Prop
  | structural {c : Char} {t : Token} (h : structural.lookup c = some t) : Lexeme strtod [c] t
  | literal {c : Char} {t : Token} {l : Str} (h : literals.lookup c = some (t, l)) :
      Lexeme strtod (c :: l) t
  | string {raw s : Str} (h : Body raw s) :
      Lexeme strtod ('"' :: (raw ++ ['"'])) (.valueString s)
  | number {text : Str} (h : IsNumber text) :
      Lexeme strtod text (numberToken strtod (typeOf text) text)

/-- A lexeme, with what is left after it: a number is as long as it can be. -/
def Reads (strtod : Str → Option Str) (s : Str) (t : Token) (left : Str) : Prop :=
  ∃ text, s = text ++ left ∧ Lexeme strtod text t ∧ (IsNumber text → Stops text left)

/-- A text with its tokens. -/
inductive Lexes (strtod : Str → Option Str) : Str → List Token → Prop
  | ended {blanks : Str} (h : ∀ c ∈ blanks, isBlank c = true) : Lexes strtod blanks []
  | nul {blanks junk : Str} (h : ∀ c ∈ blanks, isBlank c = true) :
      Lexes strtod (blanks ++ '\x00' :: junk) []
  | token {blanks s left : Str} {t : Token} {ts : List Token}
      (h : ∀ c ∈ blanks, isBlank c = true) (ht : Reads strtod s t left)
      (h' : Lexes strtod left ts) : Lexes strtod (blanks ++ s) (t :: ts)

theorem scanLiteral_eq_iff {token t : Token} {literal s left : Str} (ht : t.isLast = false) :
    scanLiteral token literal s = ⟨t, some left⟩ ↔ t = token ∧ s = literal ++ left := by
  induction literal generalizing s with
  | nil =>
    constructor
    · intro h
      obtain ⟨rfl, hleft⟩ := Scanned.mk.inj h
      exact ⟨rfl, Option.some.inj hleft⟩
    · rintro ⟨rfl, rfl⟩
      rfl
  | cons l literal ih =>
    cases s with
    | nil =>
      refine iff_of_false ?_ ?_
      · intro h
        cases h
      · rintro ⟨-, h⟩
        cases h
    | cons c s =>
      rw [scanLiteral]
      by_cases hc : c = l
      · rw [if_pos hc, ih, hc, List.cons_append, List.cons.injEq, eq_self, true_and]
      · rw [if_neg hc]
        refine iff_of_false ?_ ?_
        · intro h
          obtain ⟨rfl, -⟩ := Scanned.mk.inj h
          cases ht
        · rintro ⟨-, h⟩
          exact hc (List.cons.inj h).1

theorem isLast_literals {c : Char} {t : Token} {l : Str} (h : literals.lookup c = some (t, l)) :
    t.isLast = false := by
  have hall : ∀ p ∈ literals, p.2.1.isLast = false := by decide
  exact hall _ (mem_of_lookup h)

theorem isLast_structural {c : Char} {t : Token} (h : structural.lookup c = some t) :
    t.isLast = false := by
  have hall : ∀ p ∈ structural, p.2.isLast = false := by decide
  exact hall _ (mem_of_lookup h)

/-- A lexeme is never the last token. -/
theorem Lexeme.isLast {text : Str} {t : Token} (h : Lexeme strtod text t) : t.isLast = false := by
  cases h with
  | structural h => exact isLast_structural h
  | literal h => exact isLast_literals h
  | string => rfl
  | number => exact isLast_numberToken _ _ _

theorem lookup_eq_none {α β : Type} [BEq α] [LawfulBEq α] {l : List (α × β)} {k : α}
    (h : ∀ p ∈ l, p.1 ≠ k) : l.lookup k = none := by
  rw [List.lookup_eq_none_iff]
  intro p hp
  rw [bne_iff_ne]
  exact (h p hp).symm

/-- The first byte of a number begins no other lexeme. -/
theorem lookup_first {c : Char} {state : NumberState} (h : NumberState.first c = some state) :
    structural.lookup c = none ∧ literals.lookup c = none ∧ c ≠ '"' := by
  have hstructural : ∀ p ∈ structural, NumberState.first p.1 = none := by decide
  have hliterals : ∀ p ∈ literals, NumberState.first p.1 = none := by decide
  refine ⟨lookup_eq_none ?_, lookup_eq_none ?_, ?_⟩
  · rintro p hp rfl
    rw [hstructural p hp] at h
    cases h
  · rintro p hp rfl
    rw [hliterals p hp] at h
    cases h
  · rintro rfl
    cases h

/-- A lexeme that does not begin like a number is none. -/
theorem not_isNumber {c : Char} {s : Str} (h : NumberState.first c = none) : ¬ IsNumber (c :: s) := by
  intro hnumber
  obtain ⟨state, hfirst, -⟩ := isNumber_cons.mp hnumber
  rw [h] at hfirst
  cases hfirst

theorem first_of_structural {c : Char} {t : Token} (h : structural.lookup c = some t) :
    NumberState.first c = none := by
  cases hfirst : NumberState.first c with
  | none => rfl
  | some state =>
    rw [(lookup_first hfirst).1] at h
    cases h

theorem first_of_literals {c : Char} {p : Token × Str} (h : literals.lookup c = some p) :
    NumberState.first c = none ∧ structural.lookup c = none := by
  refine ⟨?_, ?_⟩
  · cases hfirst : NumberState.first c with
    | none => rfl
    | some state =>
      rw [(lookup_first hfirst).2.1] at h
      cases h
  · have hall : ∀ q ∈ literals, structural.lookup q.1 = none := by decide
    exact hall (c, p) (mem_of_lookup h)

/-- **The scanner reads just the lexemes.** -/
theorem scanToken_eq_iff {s left : Str} {t : Token} :
    (scanToken strtod s = ⟨t, some left⟩ ∧ t.isLast = false) ↔ Reads strtod s t left := by
  constructor
  · rintro ⟨h, ht⟩
    cases s with
    | nil => cases h
    | cons c rest =>
      rw [scanToken] at h
      split at h
      · next token hlookup =>
        obtain ⟨rfl, hleft⟩ := Scanned.mk.inj h
        obtain rfl := Option.some.inj hleft
        exact ⟨[c], rfl, .structural hlookup, fun hnumber =>
          absurd hnumber (not_isNumber (first_of_structural hlookup))⟩
      · split at h
        · next token literal hlookup =>
          obtain ⟨rfl, rfl⟩ := (scanLiteral_eq_iff ht).mp h
          exact ⟨c :: literal, rfl, .literal hlookup, fun hnumber =>
            absurd hnumber (not_isNumber (first_of_literals hlookup).1)⟩
        · split at h
          · next hquote =>
            have htoken : (scanString [] rest).token = t := congrArg Scanned.token h
            rw [← htoken] at ht
            obtain ⟨str, hstr⟩ := exists_valueString ht
            obtain rfl := hstr.symm.trans htoken
            obtain ⟨raw, rfl, hbody⟩ := scanString_eq_iff.mp h
            refine ⟨'"' :: (raw ++ ['"']), ?_, .string hbody, fun hnumber =>
              absurd hnumber (not_isNumber (by decide))⟩
            rw [hquote, List.cons_append, List.append_assoc, List.singleton_append]
          · split at h
            · next state hfirst =>
              obtain ⟨text, left', htext, hnumber, hstops, hscanned⟩ :=
                (scanNumber_eq_iff hfirst).mp ⟨h, ht⟩
              obtain ⟨rfl, hleft⟩ := Scanned.mk.inj hscanned
              obtain rfl := Option.some.inj hleft
              exact ⟨text, htext, .number hnumber, fun _ => hstops⟩
            · split at h
              · obtain ⟨rfl, -⟩ := Scanned.mk.inj h
                cases ht
              · obtain ⟨rfl, -⟩ := Scanned.mk.inj h
                cases ht
  · rintro ⟨text, rfl, hlexeme, hstops⟩
    refine ⟨?_, hlexeme.isLast⟩
    cases hlexeme with
    | structural h => rw [List.singleton_append, scanToken, h]
    | literal h =>
      rw [List.cons_append, scanToken, (first_of_literals h).2, h]
      exact (scanLiteral_eq_iff (isLast_literals h)).mpr ⟨rfl, rfl⟩
    | string h =>
      have hscan := scanString_eq_iff.mpr ⟨_, @rfl _ (_ ++ '"' :: left), h⟩
      rw [List.cons_append, List.append_assoc, List.singleton_append]
      exact hscan
    | number h =>
      obtain ⟨c, text, rfl⟩ := h.exists_cons
      obtain ⟨state, hfirst, -⟩ := isNumber_cons.mp h
      obtain ⟨hstructural, hliterals, hquote⟩ := lookup_first hfirst
      have hscan := (@scanNumber_eq_iff strtod c _ state _ hfirst).mpr
        ⟨c :: text, left, rfl, h, hstops h, rfl⟩
      rw [List.cons_append, scanToken, hstructural, hliterals]
      simp only [if_neg hquote, hfirst]
      exact hscan.1

/-! ### The tokens of a text -/

/-- Where the scanner runs into the end of the input, the token is the last. -/
theorem exists_left {s : Str} (h : (scanToken strtod s).token.isLast = false) :
    ∃ left, (scanToken strtod s).left = some left := by
  -- a string and a literal are left behind their last byte
  have hstring : ∀ tokenBuffer s, (scanString tokenBuffer s).token.isLast = false →
      ∃ left, (scanString tokenBuffer s).left = some left := by
    intro tokenBuffer s h
    fun_induction scanString tokenBuffer s with
    | case2 tokenBuffer rest => exact ⟨rest, rfl⟩
    | case3 _ _ _ _ _ _ _ ih => exact ih h
    | case7 _ _ _ _ _ _ _ _ _ _ _ _ ih => exact ih h
    | case1 | case4 | case5 | case6 | case8 => cases h
  have hliteral : ∀ token literal s, (scanLiteral token literal s).token.isLast = false →
      ∃ left, (scanLiteral token literal s).left = some left := by
    intro token literal
    induction literal with
    | nil => exact fun s _ => ⟨s, rfl⟩
    | cons l literal ih =>
      intro s h
      cases s with
      | nil => cases h
      | cons c s =>
        rw [scanLiteral] at h ⊢
        by_cases hc : c = l
        · rw [if_pos hc] at h ⊢
          exact ih s h
        · rw [if_neg hc] at h
          cases h
  cases s with
  | nil => cases h
  | cons c rest =>
    rw [scanToken] at h ⊢
    split at h
    · exact ⟨rest, rfl⟩
    · split at h
      · exact hliteral _ _ _ h
      · by_cases hquote : c = '"'
        · rw [if_pos hquote] at h ⊢
          exact hstring _ _ h
        · rw [if_neg hquote] at h ⊢
          split at h
          · next state hfirst =>
            obtain ⟨text, left, -, -, -, hscanned⟩ := (scanNumber_eq_iff hfirst).mp ⟨rfl, h⟩
            exact ⟨left, congrArg Scanned.left hscanned⟩
          · by_cases hnul : c = '\x00'
            · rw [if_pos hnul] at h
              cases h
            · rw [if_neg hnul] at h
              cases h

/-- A lexeme does not begin with a blank. -/
theorem Reads.head {s left : Str} {t : Token} (h : Reads strtod s t left) :
    ∃ c s', s = c :: s' ∧ isBlank c = false := by
  obtain ⟨text, rfl, hlexeme, -⟩ := h
  cases hlexeme with
  | @structural c t h =>
    have hall : ∀ p ∈ structural, isBlank p.1 = false := by decide
    exact ⟨c, _, rfl, hall _ (mem_of_lookup h)⟩
  | @literal c t l h =>
    have hall : ∀ p ∈ literals, isBlank p.1 = false := by decide
    exact ⟨c, _, rfl, hall _ (mem_of_lookup h)⟩
  | string => exact ⟨'"', _, rfl, by decide⟩
  | number h =>
    obtain ⟨c, text, rfl⟩ := h.exists_cons
    obtain ⟨state, hfirst, -⟩ := isNumber_cons.mp h
    refine ⟨c, _, rfl, ?_⟩
    by_contra hblank
    rw [Bool.not_eq_false, isBlank, Bool.or_eq_true, Bool.or_eq_true, Bool.or_eq_true,
      decide_eq_true_eq, decide_eq_true_eq, decide_eq_true_eq, decide_eq_true_eq] at hblank
    rcases hblank with ((rfl | rfl) | rfl) | rfl
    all_goals cases hfirst

theorem dropWhile_blanks {blanks s : Str} (h : ∀ c ∈ blanks, isBlank c = true)
    (hs : ∀ c s', s = c :: s' → isBlank c = false) : (blanks ++ s).dropWhile isBlank = s := by
  have hdrop : s.dropWhile isBlank = s := by
    cases s with
    | nil => rfl
    | cons c s => exact List.dropWhile_cons_of_neg (by rw [hs c s rfl]; decide)
  rw [List.dropWhile_append_of_pos h, hdrop]

theorem Lexer.tokens_of_isLast {l : Lexer}
    (h : (scanToken strtod (l.input.dropWhile isBlank)).token.isLast = true) :
    Stream.tokens (l.tokens strtod) = [(scanToken strtod (l.input.dropWhile isBlank)).token] := by
  rw [Lexer.tokens, dif_neg (fun hnot => by rw [Lexer.scan, h] at hnot; cases hnot)]
  rfl

theorem Lexer.tokens_of_not_isLast {l : Lexer}
    (h : (scanToken strtod (l.input.dropWhile isBlank)).token.isLast = false) :
    Stream.tokens (l.tokens strtod) = (scanToken strtod (l.input.dropWhile isBlank)).token ::
      Stream.tokens ((l.scan strtod).2.tokens strtod) := by
  have hscan : (l.scan strtod).1.isLast = false := h
  rw [Lexer.tokens, dif_pos hscan]
  rfl

/-- The lexer finds the tokens of a text. -/
theorem Lexes.tokens_eq {s : Str} {ts : List Token} (h : Lexes strtod s ts) :
    ∀ l : Lexer, l.input = s → Stream.tokens (l.tokens strtod) = ts ++ [.endOfInput] := by
  induction h with
  | @ended blanks h =>
    rintro l rfl
    have hdrop := dropWhile_blanks (s := []) h nofun
    rw [List.append_nil] at hdrop
    have hscan : scanToken strtod (l.input.dropWhile isBlank) = ⟨.endOfInput, none⟩ := by
      rw [hdrop]
      rfl
    rw [Lexer.tokens_of_isLast (by rw [hscan]; rfl), hscan]
    rfl
  | @nul blanks junk h =>
    intro l hl
    have hscan : scanToken strtod (l.input.dropWhile isBlank) = ⟨.endOfInput, some junk⟩ := by
      rw [hl, dropWhile_blanks h (fun c s' hs => by rw [← (List.cons.inj hs).1]; decide)]
      rfl
    rw [Lexer.tokens_of_isLast (by rw [hscan]; rfl), hscan]
    rfl
  | @token blanks s left t ts h ht _ ih =>
    intro l hl
    obtain ⟨hscan, hlast⟩ := scanToken_eq_iff.mpr ht
    have hdrop : l.input.dropWhile isBlank = s := by
      rw [hl]
      refine dropWhile_blanks h ?_
      rintro c s' rfl
      obtain ⟨c', s'', hhead, hblank⟩ := ht.head
      rwa [(List.cons.inj hhead).1]
    rw [← hdrop] at hscan
    have hnext : (l.scan strtod).2.input = left := by
      rw [Lexer.scan, hscan]
      rfl
    rw [Lexer.tokens_of_not_isLast (by rw [hscan]; exact hlast), ih _ hnext, hscan]
    rfl

theorem scanString_ne_endOfInput (tokenBuffer s : Str) :
    (scanString tokenBuffer s).token ≠ .endOfInput := by
  fun_induction scanString tokenBuffer s with
  | case3 _ _ _ _ _ _ _ ih => exact ih
  | case7 _ _ _ _ _ _ _ _ _ _ _ _ ih => exact ih
  | case1 | case2 | case4 | case5 | case6 | case8 =>
    intro hend
    cases hend

theorem scanLiteral_ne_endOfInput {token : Token} (h : token ≠ .endOfInput) (literal s : Str) :
    (scanLiteral token literal s).token ≠ .endOfInput := by
  induction literal generalizing s with
  | nil => exact h
  | cons l literal ih =>
    cases s with
    | nil =>
      intro hend
      cases hend
    | cons c s =>
      rw [scanLiteral]
      by_cases hc : c = l
      · rw [if_pos hc]
        exact ih s
      · rw [if_neg hc]
        intro hend
        cases hend

theorem scanNumber_ne_endOfInput (strtod : Str → Option Str) {state : NumberState} {c : Char}
    (h : NumberState.first c = some state) (rest : Str) :
    (scanNumber strtod state c rest).token ≠ .endOfInput := by
  obtain ⟨text, left, state', -, -, -, hscan⟩ :=
    exists_scanNumberFrom strtod state rest [c] (List.cons_ne_nil _ _)
  rw [scanNumber, numberType_first h, hscan, scanNumberDone]
  intro hend
  cases hmessage : state'.message with
  | some message =>
    rw [hmessage] at hend
    cases hend
  | none =>
    rw [hmessage] at hend
    have hlast := isLast_numberToken strtod (typeOf ([c] ++ text)) ([c] ++ text)
    rw [show numberToken strtod _ _ = Token.endOfInput from hend] at hlast
    cases hlast

/-- Where the scanner finds the end of the input. -/
theorem eq_nil_or_nul {s : Str} (h : (scanToken strtod s).token = .endOfInput) :
    s = [] ∨ ∃ junk, s = '\x00' :: junk := by
  cases s with
  | nil => exact Or.inl rfl
  | cons c rest =>
    right
    rw [scanToken] at h
    cases hstructural : structural.lookup c with
    | some token =>
      rw [hstructural] at h
      obtain rfl : token = .endOfInput := h
      cases isLast_structural hstructural
    | none =>
      cases hliteral : literals.lookup c with
      | some p =>
        rw [hstructural, hliteral] at h
        refine absurd h (scanLiteral_ne_endOfInput ?_ p.2 rest)
        intro hp
        have hlast := @isLast_literals c p.1 p.2 hliteral
        rw [hp] at hlast
        cases hlast
      | none =>
        simp only [hstructural, hliteral] at h
        by_cases hquote : c = '"'
        · rw [if_pos hquote] at h
          exact absurd h (scanString_ne_endOfInput [] rest)
        rw [if_neg hquote] at h
        cases hfirst : NumberState.first c with
        | some state =>
          rw [hfirst] at h
          exact absurd h (scanNumber_ne_endOfInput strtod hfirst rest)
        | none =>
          rw [hfirst] at h
          -- what begins no token is an error, but for the null byte
          by_cases hnul : c = '\x00'
          · exact ⟨rest, by rw [hnul]⟩
          · simp only [if_neg hnul] at h
            cases h

/-- The tokens the lexer finds are those of the text. -/
theorem lexes_of_tokens_eq {l : Lexer} {ts : List Token}
    (h : Stream.tokens (l.tokens strtod) = ts ++ [.endOfInput]) : Lexes strtod l.input ts := by
  induction hn : l.input.length using Nat.strong_induction_on generalizing l ts with
  | _ n ih =>
    have hblanks : ∀ c ∈ l.input.takeWhile isBlank, isBlank c = true := fun c hc =>
      List.mem_takeWhile_imp hc
    have hinput : l.input = l.input.takeWhile isBlank ++ l.input.dropWhile isBlank :=
      List.takeWhile_append_dropWhile.symm
    -- blanks and a token: the last, or one that others follow
    cases hlast : (scanToken strtod (l.input.dropWhile isBlank)).token.isLast with
    | true =>
      rw [Lexer.tokens_of_isLast hlast] at h
      obtain ⟨rfl, hend⟩ := List.append_eq_singleton_iff.mp h.symm |>.resolve_right
        (fun hnil => absurd hnil.2 (List.cons_ne_nil _ _))
      rw [hinput]
      rcases eq_nil_or_nul (List.cons.inj hend).1.symm with hnil | ⟨junk, hnul⟩
      · rw [hnil, List.append_nil]
        exact .ended hblanks
      · rw [hnul]
        exact .nul hblanks
    | false =>
      rw [Lexer.tokens_of_not_isLast hlast] at h
      obtain ⟨left, hleft⟩ := exists_left hlast
      cases ts with
      | nil =>
        have hnil := (List.cons.inj h).2
        obtain ⟨t, stream, hcons⟩ := (Lexer.tokens_ended strtod (l.scan strtod).2).exists_cons
        rw [hcons] at hnil
        cases hnil
      | cons t ts =>
        obtain ⟨rfl, htail⟩ := List.cons.inj h
        have hnext : (l.scan strtod).2.input = left := by
          rw [Lexer.scan]
          dsimp only
          rw [hleft]
          rfl
        have hlt := @Lexer.scan_length strtod l hlast
        rw [hn] at hlt
        have hrest := ih _ hlt htail rfl
        rw [hnext] at hrest
        have hreads := scanToken_eq_iff.mp ⟨show scanToken strtod (l.input.dropWhile isBlank) =
          ⟨(scanToken strtod (l.input.dropWhile isBlank)).token, some left⟩ by rw [← hleft], hlast⟩
        have hwhole := Lexes.token hblanks hreads hrest
        rwa [List.takeWhile_append_dropWhile] at hwhole

/-! ### What is accepted -/

/-- A text without its byte order mark, where it has one. -/
def WithoutBom (input s : Str) : Prop := input = s ∨ input = '\xef' :: '\xbb' :: '\xbf' :: s

theorem tokens_of_skipBom {input : Str} {l : Lexer}
    (h : (Lexer.create input).skipBom = (true, l)) : tokens strtod input = l.tokens strtod := by
  have hfirst : (Lexer.create input).scanFirst strtod = l.scan strtod := by
    rw [Lexer.scanFirst, h]
    rfl
  unfold tokens
  rw [hfirst, Lexer.tokens]
  dsimp only
  by_cases hlast : (l.scan strtod).1.isLast = false
  · rw [dif_pos hlast, if_neg (by rw [hlast]; decide)]
  · rw [dif_neg hlast, if_pos (by simpa using hlast)]

theorem tokens_of_not_skipBom {input : Str} {l : Lexer}
    (h : (Lexer.create input).skipBom = (false, l)) : ∃ message,
      Stream.tokens (tokens strtod input) = [.parseError message] := by
  refine ⟨"invalid BOM; must be 0xEF 0xBB 0xBF if given".toList, ?_⟩
  unfold tokens
  rw [Lexer.scanFirst, h]
  rfl

/-- What `skip_bom` finds in front of a text. -/
theorem skipBom_cases (input : Str) :
    (∃ s l, input = '\xef' :: '\xbb' :: '\xbf' :: s ∧
      (Lexer.create input).skipBom = (true, l) ∧ l.input = s) ∨
    ((∃ rest, input = '\xef' :: rest) ∧ (∀ s, input ≠ '\xef' :: '\xbb' :: '\xbf' :: s) ∧
      ∃ l, (Lexer.create input).skipBom = (false, l)) ∨
    ((∀ rest, input ≠ '\xef' :: rest) ∧
      (Lexer.create input).skipBom = (true, Lexer.create input)) := by
  unfold Lexer.skipBom
  split
  · next s h => exact Or.inl ⟨s, _, h, rfl, rfl⟩
  · next c rest hne h =>
    refine Or.inr (Or.inl ⟨⟨_, h⟩, ?_, _, rfl⟩)
    intro s hs
    obtain ⟨rfl, rfl⟩ : c = '\xbf' ∧ rest = s := by
      simpa only [List.cons.injEq, true_and] using h.symm.trans hs
    exact hne rfl
  · next h =>
    refine Or.inr (Or.inl ⟨⟨_, h⟩, ?_, _, rfl⟩)
    intro s hs
    cases h.symm.trans hs
  · next c rest hne hne' hne'' h =>
    refine Or.inr (Or.inl ⟨⟨_, h⟩, ?_, _, rfl⟩)
    intro s hs
    obtain ⟨rfl, rfl⟩ : c = '\xbb' ∧ rest = '\xbf' :: s := by
      simpa only [List.cons.injEq, true_and] using h.symm.trans hs
    exact hne s rfl rfl
  · next h =>
    refine Or.inr (Or.inl ⟨⟨_, h⟩, ?_, _, rfl⟩)
    intro s hs
    cases h.symm.trans hs
  · next hne1 hne2 hne3 hne4 hne5 =>
    refine Or.inr (Or.inr ⟨?_, rfl⟩)
    intro rest hrest
    cases rest with
    | nil => exact hne5 hrest
    | cons c rest => exact hne4 c rest hrest

/-- No lexeme begins like a byte order mark. -/
theorem not_lexes_bom {rest : Str} {ts : List Token} : ¬ Lexes strtod ('\xef' :: rest) ts := by
  intro h
  have htokens := h.tokens_eq (Lexer.create ('\xef' :: rest)) rfl
  rw [Lexer.tokens_of_isLast rfl] at htokens
  have hlast := congrArg List.getLast? htokens
  rw [List.getLast?_concat] at hlast
  cases hlast

/-- The tokens of a text with a byte order mark, or without one. -/
theorem tokens_eq_iff {input : Str} {ts : List Token} :
    Stream.tokens (tokens strtod input) = ts ++ [.endOfInput] ↔
      ∃ s, WithoutBom input s ∧ Lexes strtod s ts := by
  rcases skipBom_cases input with ⟨s, l, rfl, hskip, rfl⟩ | ⟨⟨rest, rfl⟩, hne, l, hskip⟩ |
    ⟨hne, hskip⟩
  · rw [tokens_of_skipBom hskip]
    constructor
    · intro h
      exact ⟨l.input, Or.inr rfl, lexes_of_tokens_eq h⟩
    · rintro ⟨s, rfl | h, hlexes⟩
      · exact absurd hlexes not_lexes_bom
      · have hs : l.input = s := by simpa only [List.cons.injEq, true_and] using h
        exact hlexes.tokens_eq l hs
  · obtain ⟨message, hmessage⟩ := @tokens_of_not_skipBom strtod _ _ hskip
    rw [hmessage]
    refine iff_of_false ?_ ?_
    · intro h
      have hlast := congrArg List.getLast? h
      rw [List.getLast?_concat] at hlast
      cases hlast
    · rintro ⟨s, rfl | h, hlexes⟩
      · exact not_lexes_bom hlexes
      · exact hne s h
  · rw [tokens_of_skipBom hskip]
    constructor
    · intro h
      exact ⟨input, Or.inl rfl, lexes_of_tokens_eq h⟩
    · rintro ⟨s, rfl | h, hlexes⟩
      · exact hlexes.tokens_eq _ rfl
      · exact absurd h (hne _)

/-- **What `json::parse` accepts, and as what value.** -/
theorem parse_eq_ok_iff_lexes {input : Str} {v : Json} :
    parse strtod input = .ok v ↔
      ∃ s ts, WithoutBom input s ∧ Lexes strtod s ts ∧ Value ts v := by
  unfold parse
  rw [parseStream_eq_ok_iff]
  constructor
  · rintro ⟨ls, last, rest, hstream, hv, hlast⟩
    have hended := tokens_ended strtod input
    rw [hstream] at hended
    obtain rfl : rest = [] := hended.eq_nil (by rw [hlast]; rfl)
    have htokens : Stream.tokens (tokens strtod input) = Stream.tokens ls ++ [.endOfInput] := by
      rw [hstream, Stream.tokens, List.map_append, List.map_singleton, hlast]
      rfl
    obtain ⟨s, hs, hlexes⟩ := tokens_eq_iff.mp htokens
    exact ⟨s, Stream.tokens ls, hs, hlexes, hv⟩
  · rintro ⟨s, ts, hs, hlexes, hv⟩
    have htokens := tokens_eq_iff.mpr ⟨s, hs, hlexes⟩
    obtain ⟨ls, ls', hstream, hls, hls'⟩ := Stream.tokens_eq_append htokens
    obtain ⟨last, ls'', rfl, hlast, -⟩ := Stream.tokens_eq_cons hls'
    refine ⟨ls, last, ls'', hstream, ?_, hlast⟩
    rw [hls]
    exact hv

/-! ### Valid values -/

/-- The text of a finite number as `dump` writes it: a number with a fraction or an
exponent, which is read as the number it was written for. -/
def FloatText (strtod : Str → Option Str) (text : Str) : Prop :=
  IsNumber text ∧ typeOf text = .float ∧ strtod text = some text

/-- What is documented of `strtod` and of the text `dump` writes for its result. -/
def StrtodSpec (strtod : Str → Option Str) : Prop :=
  ∀ s text, strtod s = some text → FloatText strtod text

/-- A `strtod` that knows one number, in two spellings. -/
def strtodOne (s : Str) : Option Str :=
  if s = "1.5".toList ∨ s = "15e-1".toList then some "1.5".toList else none

theorem floatText_strtodOne : FloatText strtodOne "1.5".toList := by
  have hint : IsInt ['1'] := Or.inr ⟨'1', [], rfl, by decide, by decide, digits_nil⟩
  have hfrac : IsFrac ['.', '5'] :=
    Or.inr ⟨'5', [], rfl, List.forall_mem_singleton.mpr (by decide)⟩
  exact ⟨Or.inl ⟨['1'], ['.', '5'], rfl, hint, ['.', '5'], [], rfl, hfrac, Or.inl rfl⟩,
    by decide, by decide⟩

theorem strtodSpec_strtodOne : StrtodSpec strtodOne := by
  intro s text h
  unfold strtodOne at h
  split_ifs at h
  cases h
  exact floatText_strtodOne

/-- A value whose strings are valid UTF-8, and whose objects have their members in
the order of their keys, each key once. -/
inductive Valid (strtod : Str → Option Str) : Json → Prop
  | null : Valid strtod .null
  | boolean (b : Bool) : Valid strtod (.boolean b)
  | integer (n : BitVec 64) : Valid strtod (.integer n)
  | unsigned (n : BitVec 64) : Valid strtod (.unsigned n)
  | float {text : Str} (h : FloatText strtod text) : Valid strtod (.float text)
  | string {s : Str} (h : IsUtf8 s) : Valid strtod (.string s)
  | array {elements : List Json} (h : ∀ v ∈ elements, Valid strtod v) :
      Valid strtod (.array elements)
  | object {members : List (Str × Json)} (h : ∀ m ∈ members, IsUtf8 m.1)
      (h' : ∀ m ∈ members, Valid strtod m.2)
      (hsorted : members.Pairwise fun m m' => m.1 < m'.1) : Valid strtod (.object members)

theorem mem_setMember {key : Str} {v : Json} {ms : List (Str × Json)} {m : Str × Json}
    (h : m ∈ setMember key v ms) : m = (key, v) ∨ m ∈ ms := by
  induction ms with
  | nil => exact Or.inl (List.mem_singleton.mp h)
  | cons m' ms ih =>
    unfold setMember at h
    split_ifs at h
    · exact List.mem_cons.mp h
    · rcases List.mem_cons.mp h with rfl | h
      · exact Or.inl rfl
      · exact Or.inr (List.mem_cons_of_mem _ h)
    · rcases List.mem_cons.mp h with rfl | h
      · exact Or.inr List.mem_cons_self
      · exact (ih h).imp_right (List.mem_cons_of_mem _)

/-- The members stay in the order of their keys. -/
theorem pairwise_setMember {key : Str} {v : Json} {ms : List (Str × Json)}
    (h : ms.Pairwise fun m m' => m.1 < m'.1) :
    (setMember key v ms).Pairwise fun m m' => m.1 < m'.1 := by
  induction ms with
  | nil => exact List.pairwise_singleton _ _
  | cons m ms ih =>
    obtain ⟨hm, hms⟩ := List.pairwise_cons.mp h
    unfold setMember
    split_ifs with hlt heq
    · refine List.pairwise_cons.mpr ⟨?_, h⟩
      intro m' hm'
      rcases List.mem_cons.mp hm' with rfl | hm'
      · exact hlt
      · exact lt_trans hlt (hm m' hm')
    · subst heq
      exact List.pairwise_cons.mpr ⟨hm, hms⟩
    · refine List.pairwise_cons.mpr ⟨?_, ih hms⟩
      intro m' hm'
      rcases mem_setMember hm' with rfl | hm'
      · exact lt_of_le_of_ne (not_lt.mp hlt) (Ne.symm heq)
      · exact hm m' hm'

/-- The value of a token is valid, where it has one. -/
def TokenValid (strtod : Str → Option Str) (t : Token) : Prop :=
  ∀ v, t.scalar? = some v → Valid strtod v

theorem tokenValid_numberToken (hspec : StrtodSpec strtod) (type : NumberType) (s : Str) :
    TokenValid strtod (numberToken strtod type s) := by
  have hfloat : TokenValid strtod (.valueFloat (strtod s)) := by
    intro v hv
    obtain ⟨text, htext, rfl⟩ := Option.map_eq_some_iff.mp hv
    exact .float (hspec s text htext)
  cases type with
  | unsigned =>
    unfold numberToken
    dsimp only
    split
    · intro v hv
      obtain rfl := Option.some.inj hv
      exact .unsigned _
    · exact hfloat
  | integer =>
    unfold numberToken
    dsimp only
    split
    · intro v hv
      obtain rfl := Option.some.inj hv
      exact .integer _
    · exact hfloat
  | float => exact hfloat

theorem Lexeme.valid (hspec : StrtodSpec strtod) {text : Str} {t : Token}
    (h : Lexeme strtod text t) : TokenValid strtod t := by
  cases h with
  | structural h =>
    intro v hv
    have hall : ∀ p ∈ JsonText.structural, p.2.scalar?.isNone = true := by decide
    have hnone := hall _ (mem_of_lookup h)
    rw [hv] at hnone
    cases hnone
  | literal h =>
    intro v hv
    have hall : ∀ p ∈ literals, p.2.1 = .literalTrue ∨ p.2.1 = .literalFalse ∨
        p.2.1 = .literalNull := by decide
    rcases hall _ (mem_of_lookup h) with rfl | rfl | rfl
    · obtain rfl := Option.some.inj hv
      exact .boolean true
    · obtain rfl := Option.some.inj hv
      exact .boolean false
    · obtain rfl := Option.some.inj hv
      exact .null
  | string h =>
    intro v hv
    obtain rfl := Option.some.inj hv
    exact .string h.isUtf8
  | number => exact tokenValid_numberToken hspec _ _

theorem Lexes.valid (hspec : StrtodSpec strtod) {s : Str} {ts : List Token}
    (h : Lexes strtod s ts) : ∀ t ∈ ts, TokenValid strtod t := by
  induction h with
  | ended => exact nofun
  | nul => exact nofun
  | token _ ht _ ih =>
    obtain ⟨text, -, hlexeme, -⟩ := ht
    exact List.forall_mem_cons.mpr ⟨hlexeme.valid hspec, ih⟩

/-- What a phrase stands for is valid. -/
def MeaningValid (strtod : Str → Option Str) : Meaning → Prop
  | .value v => Valid strtod v
  | .elements vs => ∀ v ∈ vs, Valid strtod v
  | .members ms => ∀ m ∈ ms, IsUtf8 m.1 ∧ Valid strtod m.2

theorem valid_objectOf {ms : List (Str × Json)}
    (h : ∀ m ∈ ms, IsUtf8 m.1 ∧ Valid strtod m.2) : Valid strtod (objectOf ms) := by
  -- the members so far are in order, and so they stay
  have hfold : ∀ ms os : List (Str × Json), (∀ m ∈ ms, IsUtf8 m.1 ∧ Valid strtod m.2) →
      (∀ m ∈ os, IsUtf8 m.1 ∧ Valid strtod m.2) → (os.Pairwise fun m m' => m.1 < m'.1) →
      Valid strtod (.object (ms.foldl (fun os m => setMember m.1 m.2 os) os)) := by
    intro ms
    induction ms with
    | nil =>
      intro os _ hos hsorted
      exact .object (fun m hm => (hos m hm).1) (fun m hm => (hos m hm).2) hsorted
    | cons m ms ih =>
      intro os hms hos hsorted
      obtain ⟨hm, hms⟩ := List.forall_mem_cons.mp hms
      refine ih _ hms ?_ (pairwise_setMember hsorted)
      intro m' hm'
      rcases mem_setMember hm' with rfl | hm'
      · exact hm
      · exact hos m' hm'
  exact hfold ms [] h nofun List.Pairwise.nil

theorem Phrase.valid {ts : List Token} {m : Meaning} (h : Phrase ts m)
    (hts : ∀ t ∈ ts, TokenValid strtod t) : MeaningValid strtod m := by
  induction h with
  | scalar h => exact hts _ List.mem_cons_self _ h
  | emptyArray => exact .array nofun
  | emptyObject => exact valid_objectOf nofun
  | array _ ih =>
    exact .array (ih fun t ht => hts t (List.mem_cons_of_mem _ (List.mem_append_left _ ht)))
  | object _ ih =>
    exact valid_objectOf (ih fun t ht => hts t (List.mem_cons_of_mem _ (List.mem_append_left _ ht)))
  | oneElement _ ih => exact List.forall_mem_singleton.mpr (ih hts)
  | moreElements _ _ ih ih' =>
    refine List.forall_mem_cons.mpr ⟨ih fun t ht => hts t (List.mem_append_left _ ht), ?_⟩
    exact ih' fun t ht => hts t (List.mem_append_right _ (List.mem_cons_of_mem _ ht))
  | @oneMember key ts v _ ih =>
    have hkey := hts _ List.mem_cons_self (.string key) rfl
    have hv := ih fun t ht => hts t (List.mem_cons_of_mem _ (List.mem_cons_of_mem _ ht))
    cases hkey with
    | string hkey => exact List.forall_mem_singleton.mpr ⟨hkey, hv⟩
  | @moreMembers key ts ts' v ms _ _ ih ih' =>
    have hkey := hts _ List.mem_cons_self (.string key) rfl
    have htail := fun t ht => hts t (List.mem_cons_of_mem _ (List.mem_cons_of_mem _ ht))
    have hv := ih fun t ht => htail t (List.mem_append_left _ ht)
    have hms := ih' fun t ht => htail t (List.mem_append_right _ (List.mem_cons_of_mem _ ht))
    cases hkey with
    | string hkey => exact List.forall_mem_cons.mpr ⟨⟨hkey, hv⟩, hms⟩

/-- **A parsed value is valid.** -/
theorem valid_of_parse (hspec : StrtodSpec strtod) {input : Str} {v : Json}
    (h : parse strtod input = .ok v) : Valid strtod v := by
  obtain ⟨s, ts, -, hlexes, hv⟩ := parse_eq_ok_iff_lexes.mp h
  exact hv.valid (hlexes.valid hspec)

/-- `input` is a text of `v`: a byte order mark that may be missing, lexemes with blanks in
front of them, and the tokens of the value.  A null byte between two lexemes ends the text,
and what is behind it is not read. -/
def Derives (strtod : Str → Option Str) (input : Str) (v : Json) : Prop :=
  ∃ s ts, WithoutBom input s ∧ Lexes strtod s ts ∧ Value ts v

/-- **`json::parse` decides the grammar**: it returns the one value the input is a text of,
and where it is no text it throws one of two errors; no assertion of it fails. -/
theorem parse_decides (strtod : Str → Option Str) (input : Str) :
    (∃ v, parse strtod input = .ok v ∧ ∀ v', Derives strtod input v' ↔ v' = v) ∨
    (∃ what, parse strtod input = .error (.thrown (.json what)) ∧ IsParseError what ∧
      ∀ v', ¬ Derives strtod input v') := by
  rcases parse_cases strtod input with ⟨v, hv⟩ | ⟨what, hthrow, hwhat⟩
  · left
    refine ⟨v, hv, ?_⟩
    intro v'
    rw [Derives, ← parse_eq_ok_iff_lexes, hv, Except.ok.injEq, eq_comm]
  · right
    refine ⟨what, hthrow, hwhat, ?_⟩
    intro v'
    rw [Derives, ← parse_eq_ok_iff_lexes, hthrow]
    exact nofun

end JsonText
end IntBlock
