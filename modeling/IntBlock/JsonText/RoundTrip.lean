import IntBlock.JsonText.Layout
import IntBlock.JsonText.Text

/-!
# Reading what was written

The parser reads the text of a value as the value: in each of the formats, whatever the
indentation.  Only the type of a number that was built from a signed word may change,
and what is not UTF-8 is repaired, or has made `dump` throw.

## Main definitions

* `Ends` — what a number may be followed by.
* `Spelled` — a text has these tokens, whatever comes next.
* `canonical` — a value as it is read: numbers that are not negative are unsigned.
* `ReadBack` — what a value is read as, where its strings are repaired.

## Main results

* `layout_spells` — **the text of a value has its tokens.**
* `dump_of_parse` — **what was parsed is dumped and parsed again as the same value.**
* `dump_lenient` — a lenient dump writes a text that is parsed, whatever the strings.
* `dump_strict` — the strict one throws just for a string that is not UTF-8.
-/

namespace IntBlock
namespace JsonText

open Cpp

variable {strtod : Str → Option Str}

/-! ### Pieces of a text -/

/-- A byte that may stand in a number. -/
def numberByte (c : Char) : Bool :=
  c.isDigit || c = '.' || c = 'e' || c = 'E' || c = '+' || c = '-'

/-- What a number may be followed by. -/
def Ends (rest : Str) : Prop := ∀ c ∈ rest.head?, numberByte c = false

/-- `text` has the tokens `ts`, where nothing comes next that would prolong a number. -/
def Spelled (strtod : Str → Option Str) (text : Str) (ts : List Token) : Prop :=
  ∀ rest ts', Ends rest → Lexes strtod rest ts' → Lexes strtod (text ++ rest) (ts ++ ts')

/-- `text` has the tokens `ts`, whatever comes next. -/
def Closed (strtod : Str → Option Str) (text : Str) (ts : List Token) : Prop :=
  ∀ rest ts', Lexes strtod rest ts' → Lexes strtod (text ++ rest) (ts ++ ts')

theorem numberByte_of_isDigit {c : Char} (h : c.isDigit = true) : numberByte c = true := by
  simp only [numberByte, h, Bool.true_or]

theorem numberByte_of_digits {ds : Str} (h : Digits ds) : ∀ c ∈ ds, numberByte c = true :=
  fun c hc => numberByte_of_isDigit (h c hc)

/-- A number has only bytes that may stand in one. -/
theorem IsNumber.numberByte {s : Str} (h : IsNumber s) : ∀ c ∈ s, numberByte c = true := by
  have hint : ∀ s, IsInt s → ∀ c ∈ s, JsonText.numberByte c = true := by
    rintro s (rfl | ⟨d, ds, rfl, hd, -, hds⟩)
    · exact List.forall_mem_singleton.mpr (by decide)
    · exact numberByte_of_digits (digits_cons.mpr ⟨hd, hds⟩)
  have hfrac : ∀ s, IsFrac s → ∀ c ∈ s, JsonText.numberByte c = true := by
    rintro s (rfl | ⟨d, ds, rfl, hds⟩)
    · exact nofun
    · exact List.forall_mem_cons.mpr ⟨by decide, numberByte_of_digits hds⟩
  have hexp : ∀ s, IsExp s → ∀ c ∈ s, JsonText.numberByte c = true := by
    rintro s (rfl | ⟨e, s', rfl, he, sign, d, ds, rfl, hsign, hds⟩)
    · exact nofun
    · refine List.forall_mem_cons.mpr ⟨?_, List.forall_mem_append.mpr ⟨?_, numberByte_of_digits hds⟩⟩
      · rcases he with rfl | rfl
        · decide
        · decide
      · rcases hsign with rfl | rfl | rfl
        · exact nofun
        · exact List.forall_mem_singleton.mpr (by decide)
        · exact List.forall_mem_singleton.mpr (by decide)
  have hunsigned : ∀ s, IsUnsigned s → ∀ c ∈ s, JsonText.numberByte c = true := by
    rintro s ⟨int, tail, rfl, hi, frac, exp, rfl, hf, he⟩
    exact List.forall_mem_append.mpr ⟨hint int hi,
      List.forall_mem_append.mpr ⟨hfrac frac hf, hexp exp he⟩⟩
  rcases h with h | ⟨s', rfl, h⟩
  · exact hunsigned s h
  · exact List.forall_mem_cons.mpr ⟨by decide, hunsigned s' h⟩

theorem Ends.stops {rest : Str} (h : Ends rest) (text : Str) : Stops text rest := by
  rintro d rest' rfl more hnumber
  have hd := hnumber.numberByte d (List.mem_append_right _ List.mem_cons_self)
  rw [h d rfl] at hd
  cases hd

theorem ends_nil : Ends [] := nofun

theorem ends_cons {c : Char} {s : Str} (h : numberByte c = false) : Ends (c :: s) := by
  intro d hd
  obtain rfl := Option.some.inj hd
  exact h

theorem Ends.append {s t : Str} (hs : Ends s) (ht : Ends t) : Ends (s ++ t) := by
  cases s with
  | nil => exact ht
  | cons c s => exact ends_cons (hs c rfl)

theorem Closed.spelled {text : Str} {ts : List Token} (h : Closed strtod text ts) :
    Spelled strtod text ts := fun rest ts' _ hlexes => h rest ts' hlexes

theorem Closed.append {s t : Str} {ts ts' : List Token} (hs : Closed strtod s ts)
    (ht : Closed strtod t ts') : Closed strtod (s ++ t) (ts ++ ts') := by
  intro rest ts'' hlexes
  rw [List.append_assoc, List.append_assoc]
  exact hs _ _ (ht _ _ hlexes)

theorem Closed.append_spelled {s t : Str} {ts ts' : List Token} (hs : Closed strtod s ts)
    (ht : Spelled strtod t ts') : Spelled strtod (s ++ t) (ts ++ ts') := by
  intro rest ts'' hrest hlexes
  rw [List.append_assoc, List.append_assoc]
  exact hs _ _ (ht _ _ hrest hlexes)

theorem Spelled.append_closed {s t : Str} {ts ts' : List Token} (hs : Spelled strtod s ts)
    (ht : Closed strtod t ts') (hends : Ends t) (hne : t ≠ []) :
    Closed strtod (s ++ t) (ts ++ ts') := by
  intro rest ts'' hlexes
  rw [List.append_assoc, List.append_assoc]
  refine hs _ _ ?_ (ht _ _ hlexes)
  cases t with
  | nil => exact absurd rfl hne
  | cons c t => exact ends_cons (hends c rfl)

theorem Lexeme.spelled {text : Str} {t : Token} (h : Lexeme strtod text t) :
    Spelled strtod text [t] := by
  intro rest ts' hrest hlexes
  exact @Lexes.token strtod [] _ _ _ _ nofun ⟨text, rfl, h, fun _ => hrest.stops text⟩ hlexes

/-- A lexeme that is no number. -/
theorem Lexeme.closed {text : Str} {t : Token} (h : Lexeme strtod text t)
    (hnumber : ¬ IsNumber text) : Closed strtod text [t] := by
  intro rest ts' hlexes
  exact @Lexes.token strtod [] _ _ _ _ nofun
    ⟨text, rfl, h, fun hnumber' => absurd hnumber' hnumber⟩ hlexes

theorem closed_structural {c : Char} {t : Token} (h : structural.lookup c = some t) :
    Closed strtod [c] [t] := (Lexeme.structural h).closed (not_isNumber (first_of_structural h))

theorem closed_string {raw s : Str} (h : Body raw s) :
    Closed strtod ('"' :: (raw ++ ['"'])) [.valueString s] :=
  (Lexeme.string h).closed (not_isNumber rfl)

/-- Blanks have no tokens. -/
theorem closed_blanks {blanks : Str} (h : ∀ c ∈ blanks, isBlank c = true) :
    Closed strtod blanks [] := by
  intro rest ts' hlexes
  cases hlexes with
  | ended h' => exact .ended (List.forall_mem_append.mpr ⟨h, h'⟩)
  | nul h' =>
    rw [← List.append_assoc]
    exact .nul (List.forall_mem_append.mpr ⟨h, h'⟩)
  | token h' ht hleft =>
    rw [← List.append_assoc]
    exact .token (List.forall_mem_append.mpr ⟨h, h'⟩) ht hleft

theorem ends_blanks {blanks : Str} (h : ∀ c ∈ blanks, isBlank c = true) : Ends blanks := by
  have hall : ∀ c, isBlank c = true → numberByte c = false := by
    intro c hc
    simp only [isBlank, Bool.or_eq_true, decide_eq_true_eq] at hc
    rcases hc with ((rfl | rfl) | rfl) | rfl
    all_goals decide
  intro c hc
  exact hall c (h c (List.mem_of_mem_head? hc))

/-! ### Numbers -/

theorem digits_toDigits (n : ℕ) : Digits (Nat.toDigits 10 n) :=
  fun _ hc => Nat.isDigit_of_mem_toDigits (by decide) (by decide) hc

theorem isInt_toDigits (n : ℕ) : IsInt (Nat.toDigits 10 n) := by
  induction n using Nat.strong_induction_on with
  | _ n ih =>
    by_cases hn : n < 10
    · rw [Nat.toDigits_of_lt_base hn]
      have hall : ∀ n < 10, n = 0 ∨ (Nat.digitChar n).isDigit = true ∧ Nat.digitChar n ≠ '0' := by
        decide
      rcases hall n hn with rfl | ⟨hdigit, hne⟩
      · exact Or.inl rfl
      · exact Or.inr ⟨_, [], rfl, hdigit, hne, digits_nil⟩
    · have hdigits := digits_toDigits n
      rw [toDigits_ten_of_le (by omega)] at hdigits ⊢
      rcases ih (n / 10) (by omega) with hzero | ⟨d, ds, hds, hd, hne, -⟩
      · have hpos : n / 10 ≠ 0 := by omega
        have hlast := congrArg (fun s => Nat.ofDigitChars 10 s 0) hzero
        simp only [Nat.ofDigitChars_ten_toDigits] at hlast
        exact absurd hlast hpos
      · rw [hds] at hdigits ⊢
        exact Or.inr ⟨d, _, rfl, hd, hne, (digits_cons.mp hdigits).2⟩

theorem decimalValue_concat (ds : Str) (c : Char) :
    decimalValue (ds ++ [c]) = 10 * decimalValue ds + (c.toNat - '0'.toNat) := by
  rw [decimalValue, List.foldl_append]
  rfl

theorem decimalValue_toDigits (n : ℕ) : decimalValue (Nat.toDigits 10 n) = n := by
  have hdigit : ∀ d < 10, (Nat.digitChar d).toNat - '0'.toNat = d := by decide
  induction n using Nat.strong_induction_on with
  | _ n ih =>
    by_cases hn : n < 10
    · rw [Nat.toDigits_of_lt_base hn]
      exact (decimalValue_concat [] _).trans (by rw [hdigit n hn]; exact Nat.zero_add n)
    · rw [toDigits_ten_of_le (by omega), decimalValue_concat, ih (n / 10) (by omega),
        hdigit _ (Nat.mod_lt _ (by decide))]
      omega

theorem any_digits {ds : Str} (h : Digits ds) :
    ds.any (fun c => c = '.' || c = 'e' || c = 'E') = false := by
  rw [List.any_eq_false]
  intro c hc
  obtain ⟨h1, h2, h3, -⟩ := isDigit_ne (h c hc)
  simp only [h1, h2, h3, decide_false, Bool.or_self, Bool.false_eq_true, not_false_eq_true]

/-- A numeral is read as an unsigned number. -/
theorem spelled_unsigned (n : BitVec 64) :
    Spelled strtod (decimal n.toNat) [.valueUnsigned n] := by
  have hint := isInt_toDigits n.toNat
  have hdigits := digits_toDigits n.toNat
  have hnumber : IsNumber (Nat.toDigits 10 n.toNat) :=
    Or.inl ⟨_, [], (List.append_nil _).symm, hint, isTail_nil⟩
  have htype : typeOf (Nat.toDigits 10 n.toNat) = .unsigned := by
    unfold typeOf
    rw [any_digits hdigits, if_neg Bool.false_ne_true, if_neg]
    intro hhead
    have hminus := hdigits '-' (List.mem_of_mem_head? hhead)
    cases hminus
  have htoken : numberToken strtod .unsigned (Nat.toDigits 10 n.toNat) = .valueUnsigned n := by
    unfold numberToken
    dsimp only
    rw [decimalValue_toDigits, if_pos n.isLt, BitVec.ofNat_toNat, BitVec.setWidth_eq]
  have hspelled := (@Lexeme.number strtod _ hnumber).spelled
  rwa [htype, htoken, ← decimal_natCast] at hspelled

/-- The numeral of a negative number is read as a signed one. -/
theorem spelled_integer {n : BitVec 64} (hn : n.toInt < 0) :
    Spelled strtod (decimal n.toInt) [.valueInteger n] := by
  have hdecimal : decimal n.toInt = '-' :: Nat.toDigits 10 n.toInt.natAbs := by
    rw [decimal, if_pos hn]
    rfl
  have hint := isInt_toDigits n.toInt.natAbs
  have hdigits := digits_toDigits n.toInt.natAbs
  have hnumber : IsNumber ('-' :: Nat.toDigits 10 n.toInt.natAbs) :=
    Or.inr ⟨_, rfl, _, [], (List.append_nil _).symm, hint, isTail_nil⟩
  have htype : typeOf ('-' :: Nat.toDigits 10 n.toInt.natAbs) = .integer := by
    unfold typeOf
    rw [List.any_cons, any_digits hdigits]
    rfl
  have htoken : numberToken strtod .integer ('-' :: Nat.toDigits 10 n.toInt.natAbs) =
      .valueInteger n := by
    have hle := BitVec.le_toInt n
    unfold numberToken
    dsimp only
    rw [List.tail_cons, decimalValue_toDigits, if_pos (by omega)]
    have habs : -(n.toInt.natAbs : ℤ) = n.toInt := by omega
    rw [← BitVec.ofInt_natCast, ← BitVec.ofInt_neg, habs, BitVec.ofInt_toInt]
  have hspelled := (@Lexeme.number strtod _ hnumber).spelled
  rwa [htype, htoken, ← hdecimal] at hspelled

/-! ### Values -/

mutual

/-- A value as it is read: a number that is not negative is unsigned. -/
def canonical : Json → Json
  | .integer n => if n.toInt < 0 then .integer n else .unsigned n
  | .array elements => .array (canonicalElements elements)
  | .object members => .object (canonicalMembers members)
  | v => v

def canonicalElements : List Json → List Json
  | [] => []
  | v :: vs => canonical v :: canonicalElements vs

def canonicalMembers : List (Str × Json) → List (Str × Json)
  | [] => []
  | (key, v) :: ms => (key, canonical v) :: canonicalMembers ms

end

theorem canonicalElements_eq (vs : List Json) : canonicalElements vs = vs.map canonical := by
  induction vs with
  | nil => rfl
  | cons v vs ih => rw [canonicalElements, ih, List.map_cons]

theorem canonicalMembers_eq (ms : List (Str × Json)) :
    canonicalMembers ms = ms.map fun m => (m.1, canonical m.2) := by
  induction ms with
  | nil => rfl
  | cons m ms ih =>
    obtain ⟨key, v⟩ := m
    rw [canonicalMembers, ih, List.map_cons]

mutual

/-- What a value is read back as, with `r` in the place of what is not UTF-8. -/
def ReadBack (r : Str) : Json → Json → Prop
  | .string s, v' => ∃ s', Repairs r s s' ∧ v' = .string s'
  | .array elements, v' => ∃ elements', ReadBackElements r elements elements' ∧ v' = .array elements'
  | .object members, v' => ∃ members', ReadBackMembers r members members' ∧ v' = objectOf members'
  | v, v' => v' = canonical v

def ReadBackElements (r : Str) : List Json → List Json → Prop
  | [], vs' => vs' = []
  | v :: vs, vs' => ∃ v' ws', ReadBack r v v' ∧ ReadBackElements r vs ws' ∧ vs' = v' :: ws'

def ReadBackMembers (r : Str) : List (Str × Json) → List (Str × Json) → Prop
  | [], ms' => ms' = []
  | (key, v) :: ms, ms' => ∃ key' v' ns', Repairs r key key' ∧ ReadBack r v v' ∧
      ReadBackMembers r ms ns' ∧ ms' = (key', v') :: ns'

end

/-- `text` is a text of the value. -/
def Spells (strtod : Str → Option Str) (text : Str) (v : Json) : Prop :=
  ∃ ts, Phrase ts (.value v) ∧ Spelled strtod text ts

/-- `text` is a text of the elements of an array. -/
def SpellsElements (strtod : Str → Option Str) (text : Str) (vs : List Json) : Prop :=
  ∃ ts, Phrase ts (.elements vs) ∧ Spelled strtod text ts

/-- `text` is a text of the members of an object. -/
def SpellsMembers (strtod : Str → Option Str) (text : Str) (ms : List (Str × Json)) : Prop :=
  ∃ ts, Phrase ts (.members ms) ∧ Spelled strtod text ts

theorem spells_scalar {text : Str} {t : Token} {v : Json} (h : Spelled strtod text [t])
    (hv : t.scalar? = some v) : Spells strtod text v := ⟨[t], .scalar hv, h⟩

/-- Blanks and a structural character. -/
theorem closed_blanks_structural {blanks : Str} {c : Char} {t : Token}
    (hblanks : ∀ c ∈ blanks, isBlank c = true) (h : structural.lookup c = some t) :
    Closed strtod (blanks ++ [c]) [t] := (closed_blanks hblanks).append (closed_structural h)

theorem structural_blanks_closed {blanks : Str} {c : Char} {t : Token}
    (hblanks : ∀ c ∈ blanks, isBlank c = true) (h : structural.lookup c = some t) :
    Closed strtod (c :: blanks) [t] := (closed_structural h).append (closed_blanks hblanks)

theorem ends_blanks_structural {blanks : Str} {c : Char} {t : Token}
    (hblanks : ∀ c ∈ blanks, isBlank c = true) (h : structural.lookup c = some t) :
    Ends (blanks ++ [c]) := by
  have hall : ∀ p ∈ structural, numberByte p.1 = false := by decide
  exact (ends_blanks hblanks).append (ends_cons (hall _ (mem_of_lookup h)))

section Brackets

variable {text blanks blanks' : Str} (hblanks : ∀ c ∈ blanks, isBlank c = true)
  (hblanks' : ∀ c ∈ blanks', isBlank c = true)

include hblanks hblanks'

/-- An opening bracket and blanks, what is inside, and blanks and a closing bracket. -/
theorem closed_brackets {opening closing : Char} {t t' : Token} {ts : List Token}
    (hopening : structural.lookup opening = some t) (hclosing : structural.lookup closing = some t')
    (h : Spelled strtod text ts) :
    Closed strtod (opening :: blanks ++ text ++ (blanks' ++ [closing])) (t :: (ts ++ [t'])) := by
  have hinside := (structural_blanks_closed hblanks hopening).append_spelled h
  have hwhole := hinside.append_closed (closed_blanks_structural hblanks' hclosing)
    (ends_blanks_structural hblanks' hclosing) (List.append_ne_nil_of_right_ne_nil _ nofun)
  exact hwhole

theorem SpellsElements.array {vs : List Json} (h : SpellsElements strtod text vs) :
    Spells strtod ('[' :: blanks ++ text ++ (blanks' ++ [']'])) (.array vs) := by
  obtain ⟨ts, hphrase, hspelled⟩ := h
  exact ⟨_, .array hphrase, (closed_brackets hblanks hblanks' rfl rfl hspelled).spelled⟩

theorem SpellsMembers.object {ms : List (Str × Json)} (h : SpellsMembers strtod text ms) :
    Spells strtod ('\x7b' :: blanks ++ text ++ (blanks' ++ ['\x7d'])) (objectOf ms) := by
  obtain ⟨ts, hphrase, hspelled⟩ := h
  exact ⟨_, .object hphrase, (closed_brackets hblanks hblanks' rfl rfl hspelled).spelled⟩

omit hblanks in
/-- A value, a comma and what comes after it. -/
theorem spelled_comma {text' : Str} {ts ts' : List Token} (h : Spelled strtod text ts)
    (h' : Spelled strtod text' ts') :
    Spelled strtod (text ++ (',' :: blanks' ++ text')) (ts ++ .valueSeparator :: ts') := by
  have hcomma := @structural_blanks_closed strtod blanks' ',' .valueSeparator hblanks' rfl
  have hwhole := (h.append_closed hcomma (ends_cons rfl) nofun).append_spelled h'
  rwa [List.append_assoc, List.append_assoc] at hwhole

omit hblanks' in
theorem SpellsElements.singleton {v : Json} (h : Spells strtod text v) :
    SpellsElements strtod (blanks ++ text) [v] := by
  obtain ⟨ts, hphrase, hspelled⟩ := h
  exact ⟨ts, .oneElement hphrase, (closed_blanks hblanks).append_spelled hspelled⟩

theorem SpellsElements.cons {text' : Str} {v : Json} {vs : List Json} (h : Spells strtod text v)
    (h' : SpellsElements strtod text' vs) :
    SpellsElements strtod (blanks ++ (text ++ (',' :: blanks' ++ text'))) (v :: vs) := by
  obtain ⟨ts, hphrase, hspelled⟩ := h
  obtain ⟨ts', hphrase', hspelled'⟩ := h'
  exact ⟨_, .moreElements hphrase hphrase',
    (closed_blanks hblanks).append_spelled (spelled_comma hblanks' hspelled hspelled')⟩

/-- A key and a colon, with blanks. -/
theorem closed_key {raw key : Str} (h : Body raw key) :
    Closed strtod (blanks ++ ('"' :: (raw ++ ['"']) ++ ':' :: blanks'))
      [.valueString key, .nameSeparator] :=
  (closed_blanks hblanks).append
    ((closed_string h).append (structural_blanks_closed hblanks' rfl))

theorem SpellsMembers.singleton {raw key : Str} {v : Json} (hkey : Body raw key)
    (h : Spells strtod text v) :
    SpellsMembers strtod (blanks ++ ('"' :: (raw ++ ['"']) ++ ':' :: blanks') ++ text)
      [(key, v)] := by
  obtain ⟨ts, hphrase, hspelled⟩ := h
  exact ⟨_, .oneMember hphrase, (closed_key hblanks hblanks' hkey).append_spelled hspelled⟩

theorem SpellsMembers.cons {raw key text' blanks'' : Str} {v : Json} {ms : List (Str × Json)}
    (hblanks'' : ∀ c ∈ blanks'', isBlank c = true) (hkey : Body raw key)
    (h : Spells strtod text v) (h' : SpellsMembers strtod text' ms) :
    SpellsMembers strtod (blanks ++ ('"' :: (raw ++ ['"']) ++ ':' :: blanks') ++
      (text ++ (',' :: blanks'' ++ text'))) ((key, v) :: ms) := by
  obtain ⟨ts, hphrase, hspelled⟩ := h
  obtain ⟨ts', hphrase', hspelled'⟩ := h'
  exact ⟨_, .moreMembers hphrase hphrase', (closed_key hblanks hblanks' hkey).append_spelled
    (spelled_comma hblanks'' hspelled hspelled')⟩

end Brackets

/-! ### The text of a value -/

theorem setMember_last {key : Str} {v : Json} {ms : List (Str × Json)}
    (h : ∀ m ∈ ms, m.1 < key) : setMember key v ms = ms ++ [(key, v)] := by
  induction ms with
  | nil => rfl
  | cons m ms ih =>
    obtain ⟨hm, hms⟩ := List.forall_mem_cons.mp h
    unfold setMember
    rw [if_neg (not_lt.mpr (le_of_lt hm)), if_neg (ne_of_gt hm), ih hms, List.cons_append]

/-- Members in the order of their keys are the members of the object. -/
theorem objectOf_of_pairwise {ms : List (Str × Json)}
    (h : ms.Pairwise fun m m' => m.1 < m'.1) : objectOf ms = .object ms := by
  have hfold : ∀ ms os : List (Str × Json), (os ++ ms).Pairwise (fun m m' => m.1 < m'.1) →
      ms.foldl (fun os m => setMember m.1 m.2 os) os = os ++ ms := by
    intro ms
    induction ms with
    | nil =>
      intro os _
      exact (List.append_nil os).symm
    | cons m ms ih =>
      intro os hos
      have hlast := setMember_last (v := m.2) fun m' hm' =>
        (List.pairwise_append.mp hos).2.2 m' hm' m List.mem_cons_self
      rw [List.foldl_cons, hlast, ih]
      · rw [List.append_assoc, List.singleton_append]
      · rwa [List.append_assoc, List.singleton_append]
  unfold objectOf
  rw [hfold ms [] h, List.nil_append]

section Layout

variable {f : Format} (hblank : f.prettyPrint = true → isBlank f.indentChar = true)

include hblank

theorem isBlank_line (indent : ℕ) :
    ∀ c ∈ (if f.prettyPrint then indentation f indent else []), isBlank c = true := by
  intro c hc
  split_ifs at hc with hpretty
  · rcases List.mem_append.mp (List.mem_of_mem_take hc) with hc | hc
    · rw [List.eq_of_mem_replicate hc]
      exact hblank hpretty
    · rw [List.eq_of_mem_replicate hc]
      rfl
  · cases hc

omit hblank in
theorem isBlank_line_feed : ∀ c ∈ ['\n'], isBlank c = true := List.forall_mem_singleton.mpr rfl

theorem isBlank_newline_indentation (hpretty : f.prettyPrint = true) (indent : ℕ) :
    ∀ c ∈ '\n' :: indentation f indent, isBlank c = true := by
  have hline := isBlank_line hblank indent
  rw [if_pos hpretty] at hline
  exact List.forall_mem_cons.mpr ⟨rfl, hline⟩

omit hblank in
theorem isBlank_newline : ∀ c ∈ (if f.prettyPrint then ['\n'] else []), isBlank c = true := by
  split_ifs
  · exact List.forall_mem_singleton.mpr rfl
  · exact nofun

omit hblank in
theorem comma_eq : (if f.prettyPrint then [',', '\n'] else [',']) =
    ',' :: (if f.prettyPrint then ['\n'] else []) := by
  split_ifs <;> rfl

theorem layoutElements_spells {vs : List Json} (hvs : vs ≠ [])
    (ih : ∀ v ∈ vs, ∀ indent, ∃ v', Spells strtod (layout f indent v) v' ∧
      ReadBack (repair f) v v') (indent : ℕ) :
    ∃ vs', SpellsElements strtod (layoutElements f indent vs) vs' ∧
      ReadBackElements (repair f) vs vs' := by
  induction vs with
  | nil => exact absurd rfl hvs
  | cons v vs ih' =>
    obtain ⟨hv, hvs'⟩ := List.forall_mem_cons.mp ih
    obtain ⟨v', hspells, hread⟩ := hv indent
    have hline := isBlank_line hblank indent
    rw [layoutElements, List.append_assoc]
    cases vs with
    | nil =>
      rw [List.isEmpty_nil, if_pos rfl, List.append_nil]
      exact ⟨[v'], SpellsElements.singleton hline hspells, v', [], hread, rfl, rfl⟩
    | cons w ws =>
      rw [List.isEmpty_cons, if_neg Bool.false_ne_true, comma_eq]
      obtain ⟨ws', hspells', hread'⟩ := ih' (List.cons_ne_nil w ws) hvs'
      exact ⟨v' :: ws', SpellsElements.cons hline (@isBlank_newline f) hspells hspells', v', ws',
        hread, hread', rfl⟩

theorem layoutMembers_spells {ms : List (Str × Json)} (hms : ms ≠ [])
    (ih : ∀ m ∈ ms, ∀ indent, ∃ v', Spells strtod (layout f indent m.2) v' ∧
      ReadBack (repair f) m.2 v')
    (hkeys : ∀ m ∈ ms, ∃ key', Body (rawOf f m.1) key' ∧ Repairs (repair f) m.1 key')
    (indent : ℕ) :
    ∃ ms', SpellsMembers strtod (layoutMembers f indent ms) ms' ∧
      ReadBackMembers (repair f) ms ms' := by
  induction ms with
  | nil => exact absurd rfl hms
  | cons m ms ih' =>
    obtain ⟨key, v⟩ := m
    obtain ⟨hv, hvs⟩ := List.forall_mem_cons.mp ih
    obtain ⟨⟨key', hkey, hrepairs⟩, hkeys'⟩ := List.forall_mem_cons.mp hkeys
    obtain ⟨v', hspells, hread⟩ := hv indent
    -- blanks, the key, the colon and the value, and then a comma and the rest
    have hline := isBlank_line hblank indent
    have hcolon : (if f.prettyPrint then ['"', ':', ' '] else ['"', ':']) =
        ['"'] ++ ':' :: (if f.prettyPrint then [' '] else []) := by
      split_ifs <;> rfl
    have hspace : ∀ c ∈ (if f.prettyPrint then [' '] else []), isBlank c = true := by
      split_ifs
      · exact List.forall_mem_singleton.mpr rfl
      · exact nofun
    rw [layoutMembers, hcolon]
    cases ms with
    | nil =>
      rw [List.isEmpty_nil, if_pos rfl, List.append_nil]
      have hmember := SpellsMembers.singleton hline hspace hkey hspells
      refine ⟨[(key', v')], ?_, key', v', [], hrepairs, hread, rfl, rfl⟩
      simpa only [List.append_assoc, List.cons_append, List.nil_append] using hmember
    | cons w ws =>
      rw [List.isEmpty_cons, if_neg Bool.false_ne_true, comma_eq]
      obtain ⟨ws', hspells', hread'⟩ := ih' (List.cons_ne_nil w ws) hvs hkeys'
      have hmember := SpellsMembers.cons hline hspace (@isBlank_newline f) hkey hspells hspells'
      refine ⟨(key', v') :: ws', ?_, key', v', ws', hrepairs, hread, hread', rfl⟩
      simpa only [List.append_assoc, List.cons_append, List.nil_append] using hmember

/-- **The text of a value has its tokens**, but for the strings that are repaired. -/
theorem layout_spells (v : Json) (hfloats : ∀ text ∈ v.floats, FloatText strtod text)
    (hstrings : ∀ s ∈ v.strings, ∃ s', Body (rawOf f s) s' ∧ Repairs (repair f) s s')
    (indent : ℕ) : ∃ v', Spells strtod (layout f indent v) v' ∧ ReadBack (repair f) v v' := by
  induction v using Json.induction generalizing indent with
  | null =>
    have hlexeme : Lexeme strtod "null".toList .literalNull := .literal rfl
    exact ⟨.null, spells_scalar hlexeme.spelled rfl, rfl⟩
  | boolean b =>
    cases b with
    | false =>
      have hlexeme : Lexeme strtod "false".toList .literalFalse := .literal rfl
      exact ⟨.boolean false, spells_scalar hlexeme.spelled rfl, rfl⟩
    | true =>
      have hlexeme : Lexeme strtod "true".toList .literalTrue := .literal rfl
      exact ⟨.boolean true, spells_scalar hlexeme.spelled rfl, rfl⟩
  | integer n =>
    refine ⟨canonical (.integer n), ?_, rfl⟩
    rw [canonical]
    split_ifs with hn
    · exact spells_scalar (spelled_integer hn) rfl
    · have hint := BitVec.toInt_eq_toNat_cond n
      have hlt := n.isLt
      -- not negative: read as unsigned, it has the same digits
      split_ifs at hint with hlow
      · rw [layout, hint]
        exact spells_scalar (spelled_unsigned n) rfl
      · omega
  | unsigned n => exact ⟨.unsigned n, spells_scalar (spelled_unsigned n) rfl, rfl⟩
  | float text =>
    obtain ⟨hnumber, htype, hstrtod⟩ := hfloats text (List.mem_singleton_self text)
    have hspelled := (@Lexeme.number strtod _ hnumber).spelled
    rw [htype, numberToken, hstrtod] at hspelled
    exact ⟨.float text, spells_scalar hspelled rfl, rfl⟩
  | string s =>
    obtain ⟨s', hbody, hrepairs⟩ := hstrings s (List.mem_singleton_self s)
    exact ⟨.string s', spells_scalar (closed_string hbody).spelled rfl, s', hrepairs, rfl⟩
  | array elements ih =>
    cases elements with
    | nil =>
      exact ⟨.array [], ⟨_, .emptyArray, ((closed_structural rfl).append
        (closed_structural rfl)).spelled⟩, [], rfl, rfl⟩
    | cons v vs =>
      have hvs : ∀ w ∈ v :: vs, ∀ indent, ∃ v', Spells strtod (layout f indent w) v' ∧
          ReadBack (repair f) w v' := fun w hw indent =>
        ih w hw (fun text htext => hfloats text (Json.mem_elementFloats.mpr ⟨w, hw, htext⟩))
          (fun s hs => hstrings s (Json.mem_elementStrings.mpr ⟨w, hw, hs⟩)) indent
      rw [layout]
      split_ifs with hpretty
      · obtain ⟨vs', hspells, hread⟩ :=
          layoutElements_spells hblank (List.cons_ne_nil v vs) hvs (newIndent f indent)
        have hlines := hspells.array isBlank_line_feed
          (isBlank_newline_indentation hblank hpretty indent)
        refine ⟨.array vs', ?_, vs', hread, rfl⟩
        simpa only [List.append_assoc, List.cons_append, List.nil_append] using hlines
      · obtain ⟨vs', hspells, hread⟩ :=
          layoutElements_spells hblank (List.cons_ne_nil v vs) hvs indent
        exact ⟨.array vs', hspells.array (List.forall_mem_nil _) (List.forall_mem_nil _), vs',
          hread, rfl⟩
  | object members ih =>
    cases members with
    | nil =>
      exact ⟨objectOf [], ⟨_, .emptyObject, ((closed_structural rfl).append
        (closed_structural rfl)).spelled⟩, [], rfl, rfl⟩
    | cons m ms =>
      have hms : ∀ n ∈ m :: ms, ∀ indent, ∃ v', Spells strtod (layout f indent n.2) v' ∧
          ReadBack (repair f) n.2 v' := fun n hn indent =>
        ih n hn (fun text htext => hfloats text (Json.mem_memberFloats.mpr ⟨n, hn, htext⟩))
          (fun s hs => hstrings s (Json.mem_memberStrings.mpr ⟨n, hn, Or.inr hs⟩)) indent
      have hkeys : ∀ n ∈ m :: ms, ∃ key', Body (rawOf f n.1) key' ∧ Repairs (repair f) n.1 key' :=
        fun n hn => hstrings n.1 (Json.mem_memberStrings.mpr ⟨n, hn, Or.inl rfl⟩)
      rw [layout]
      split_ifs with hpretty
      · obtain ⟨ms', hspells, hread⟩ :=
          layoutMembers_spells hblank (List.cons_ne_nil m ms) hms hkeys (newIndent f indent)
        have hlines := hspells.object isBlank_line_feed
          (isBlank_newline_indentation hblank hpretty indent)
        refine ⟨objectOf ms', ?_, ms', hread, rfl⟩
        simpa only [List.append_assoc, List.cons_append, List.nil_append] using hlines
      · obtain ⟨ms', hspells, hread⟩ :=
          layoutMembers_spells hblank (List.cons_ne_nil m ms) hms hkeys indent
        exact ⟨objectOf ms', hspells.object (List.forall_mem_nil _) (List.forall_mem_nil _), ms',
          hread, rfl⟩

end Layout

/-! ### Parsing what was dumped -/

/-- A text of a value is parsed as the value. -/
theorem Spells.parse_eq {text : Str} {v : Json} (h : Spells strtod text v) :
    parse strtod text = .ok v := by
  obtain ⟨ts, hphrase, hspelled⟩ := h
  have hlexes := hspelled [] [] ends_nil (.ended nofun)
  rw [List.append_nil, List.append_nil] at hlexes
  exact parse_eq_ok_iff_lexes.mpr ⟨text, ts, Or.inl rfl, hlexes, hphrase⟩

theorem Valid.isUtf8 {v : Json} (h : Valid strtod v) : ∀ s ∈ v.strings, IsUtf8 s := by
  induction h with
  | null | boolean | integer | unsigned | float => exact nofun
  | string h => exact List.forall_mem_singleton.mpr h
  | array _ ih =>
    intro s hs
    obtain ⟨v, hv, hs⟩ := Json.mem_elementStrings.mp hs
    exact ih v hv s hs
  | object hkeys _ _ ih =>
    intro s hs
    obtain ⟨m, hm, rfl | hs⟩ := Json.mem_memberStrings.mp hs
    · exact hkeys m hm
    · exact ih m hm s hs

theorem Valid.floatText {v : Json} (h : Valid strtod v) :
    ∀ text ∈ v.floats, FloatText strtod text := by
  induction h with
  | null | boolean | integer | unsigned | string => exact nofun
  | float h => exact List.forall_mem_singleton.mpr h
  | array _ ih =>
    intro text htext
    obtain ⟨v, hv, htext⟩ := Json.mem_elementFloats.mp htext
    exact ih v hv text htext
  | object _ _ _ ih =>
    intro text htext
    obtain ⟨m, hm, htext⟩ := Json.mem_memberFloats.mp htext
    exact ih m hm text htext

/-- A valid value is read back as it is. -/
theorem ReadBack.eq_canonical {r : Str} {v : Json} :
    ∀ {v'}, ReadBack r v v' → Valid strtod v → v' = canonical v := by
  induction v using Json.induction with
  | null | boolean | integer | unsigned | float => exact fun h _ => h
  | string s =>
    intro v' h hvalid
    obtain ⟨s', hrepairs, rfl⟩ := h
    cases hvalid with
    | string hs =>
      -- there is nothing to repair
      exact congrArg Json.string (hrepairs.eq_of_isUtf8 hs)
  | array elements ih =>
    intro v' h hvalid
    obtain ⟨vs', hread, rfl⟩ := h
    have helements : ∀ vs' (_ : ReadBackElements r elements vs')
        (_ : ∀ v ∈ elements, Valid strtod v), vs' = canonicalElements elements := by
      clear hread hvalid
      induction elements with
      | nil =>
        intro vs' hread _
        exact hread
      | cons v vs ih' =>
        intro vs' hread hvalid
        obtain ⟨v', ws', hv, hvs, rfl⟩ := hread
        obtain ⟨hvalid, hvalid'⟩ := List.forall_mem_cons.mp hvalid
        obtain ⟨ih, ihs⟩ := List.forall_mem_cons.mp ih
        rw [ih hv hvalid, ih' ihs ws' hvs hvalid', canonicalElements]
    cases hvalid with
    | array hvalues => rw [helements vs' hread hvalues, canonical]
  | object members ih =>
    intro v' h hvalid
    obtain ⟨ms', hread, rfl⟩ := h
    have hmembers : ∀ ms' (_ : ReadBackMembers r members ms') (_ : ∀ m ∈ members, IsUtf8 m.1)
        (_ : ∀ m ∈ members, Valid strtod m.2), ms' = canonicalMembers members := by
      clear hread hvalid
      induction members with
      | nil =>
        intro ms' hread _ _
        exact hread
      | cons m ms ih' =>
        obtain ⟨key, v⟩ := m
        intro ms' hread hkeys hvalid
        obtain ⟨key', v', ns', hkey, hv, hvs, rfl⟩ := hread
        obtain ⟨hkeyvalid, hkeys⟩ := List.forall_mem_cons.mp hkeys
        obtain ⟨hvalid, hvalid'⟩ := List.forall_mem_cons.mp hvalid
        obtain ⟨ih, ihs⟩ := List.forall_mem_cons.mp ih
        rw [hkey.eq_of_isUtf8 hkeyvalid, ih hv hvalid, ih' ihs ns' hvs hkeys hvalid',
          canonicalMembers]
    cases hvalid with
    | object hkeys hvalues hsorted =>
      rw [hmembers ms' hread hkeys hvalues, canonical]
      refine objectOf_of_pairwise ?_
      rw [canonicalMembers_eq]
      exact List.pairwise_map.mpr hsorted

/-- The text of a valid value is parsed as the value. -/
theorem Valid.parse_layout {v : Json} (h : Valid strtod v) {f : Format}
    (hblank : f.prettyPrint = true → isBlank f.indentChar = true) (indent : ℕ) :
    parse strtod (layout f indent v) = .ok (canonical v) := by
  have hstrings : ∀ s ∈ v.strings, ∃ s', Body (rawOf f s) s' ∧ Repairs (repair f) s s' := by
    intro s hs
    obtain ⟨raw, hok, hesc⟩ := dumpEscaped_of_isUtf8 f (h.isUtf8 s hs)
    rw [rawOf_of_ok hok]
    exact ⟨s, hesc.body, repairs_self _ (h.isUtf8 s hs)⟩
  obtain ⟨v', hspells, hread⟩ := layout_spells hblank v h.floatText hstrings indent
  rw [hspells.parse_eq, hread.eq_canonical h]

/-- A value whose strings are valid is dumped. -/
theorem dump_of_isUtf8 {v : Json} (h : ∀ s ∈ v.strings, IsUtf8 s) {indent : ℤ}
    (hindent : indent ≤ 1024) (indentChar : Char) (ensureAscii : Bool)
    (errorHandler : ErrorHandler) :
    dump v indent indentChar ensureAscii errorHandler =
      .ok (layout (dumpFormat indent indentChar ensureAscii errorHandler) 0 v) := by
  rcases dump_cases (Or.inl hindent) indentChar ensureAscii errorHandler with ⟨hok, -⟩ | ⟨s, hs, e, he, -⟩
  · exact hok
  · obtain ⟨raw, hok, -⟩ := dumpEscaped_of_isUtf8 _ (h s hs)
    rw [hok] at he
    cases he

/-- The text does not tell the types of numbers apart. -/
theorem layout_canonical (f : Format) (v : Json) :
    ∀ indent, layout f indent (canonical v) = layout f indent v := by
  induction v using Json.induction with
  | null | boolean | unsigned | float | string => exact fun _ => rfl
  | integer n =>
    intro indent
    rw [canonical]
    split_ifs with hn
    · rfl
    · have hint := BitVec.toInt_eq_toNat_cond n
      have hlt := n.isLt
      -- not negative: the digits are the same
      split_ifs at hint with hlow
      · rw [layout, layout, hint]
      · omega
  | array elements ih =>
    have helements : ∀ indent,
        layoutElements f indent (canonicalElements elements) = layoutElements f indent elements := by
      intro indent
      induction elements with
      | nil => rfl
      | cons v vs ih' =>
        obtain ⟨hv, hvs⟩ := List.forall_mem_cons.mp ih
        rw [canonicalElements, layoutElements, layoutElements, hv, ih' hvs]
        cases vs with
        | nil => rfl
        | cons w ws => rfl
    intro indent
    cases elements with
    | nil => rfl
    | cons v vs =>
      have hinner := helements (newIndent f indent)
      have hsame := helements indent
      rw [canonicalElements] at hinner hsame
      rw [canonical, canonicalElements, layout, layout, hinner, hsame]
  | object members ih =>
    have hmembers : ∀ indent,
        layoutMembers f indent (canonicalMembers members) = layoutMembers f indent members := by
      intro indent
      induction members with
      | nil => rfl
      | cons m ms ih' =>
        obtain ⟨key, v⟩ := m
        obtain ⟨hv, hvs⟩ := List.forall_mem_cons.mp ih
        rw [canonicalMembers, layoutMembers, layoutMembers, hv, ih' hvs]
        cases ms with
        | nil => rfl
        | cons w ws => rfl
    intro indent
    cases members with
    | nil => rfl
    | cons m ms =>
      obtain ⟨key, v⟩ := m
      have hinner := hmembers (newIndent f indent)
      have hsame := hmembers indent
      rw [canonicalMembers] at hinner hsame
      rw [canonical, canonicalMembers, layout, layout, hinner, hsame]

/-- A value is as valid as it is read. -/
theorem Valid.canonical {v : Json} (h : Valid strtod v) : Valid strtod (canonical v) := by
  induction h with
  | null => exact .null
  | boolean b => exact .boolean b
  | integer n =>
    rw [JsonText.canonical]
    split_ifs
    · exact .integer n
    · exact .unsigned n
  | unsigned n => exact .unsigned n
  | float h => exact .float h
  | string h => exact .string h
  | array _ ih =>
    rw [JsonText.canonical, canonicalElements_eq]
    exact .array (List.forall_mem_map.mpr ih)
  | object hkeys _ hsorted ih =>
    rw [JsonText.canonical, canonicalMembers_eq]
    exact .object (List.forall_mem_map.mpr hkeys) (List.forall_mem_map.mpr ih)
      (List.pairwise_map.mpr hsorted)

/-- **Whatever was parsed is dumped**, in each of the formats and whatever the handler, to a
text that is parsed as the same value again, but for the types of its numbers; the
value read the second time has the same text. -/
theorem dump_of_parse (hspec : StrtodSpec strtod) {input : Str} {v : Json}
    (h : parse strtod input = .ok v) {indent : ℤ} (hindent : indent ≤ 1024) {indentChar : Char}
    (hblank : 0 ≤ indent → isBlank indentChar = true) (ensureAscii : Bool)
    (errorHandler : ErrorHandler) :
    Valid strtod v ∧ ∃ text, dump v indent indentChar ensureAscii errorHandler = .ok text ∧
      parse strtod text = .ok (canonical v) ∧
      dump (canonical v) indent indentChar ensureAscii errorHandler = .ok text := by
  have hvalid := valid_of_parse hspec h
  refine ⟨hvalid, _, dump_of_isUtf8 hvalid.isUtf8 hindent _ _ _, ?_, ?_⟩
  · refine hvalid.parse_layout ?_ 0
    intro hpretty
    exact hblank (of_decide_eq_true hpretty)
  · rw [dump_of_isUtf8 hvalid.canonical.isUtf8 hindent, layout_canonical]

/-- A value with a number of each type, in lines and in ASCII. -/
theorem dump_of_parse_numbers :
    ∃ text, dump (.object [("id".toList, .array [.integer (-7), .float "1.5".toList]),
        ("to".toList, .string ['\xc3', '\xa9'])]) 2 ' ' true .strict = .ok text ∧
      parse strtodOne text =
        .ok (.object [("id".toList, .array [.integer (-7), .float "1.5".toList]),
          ("to".toList, .string ['\xc3', '\xa9'])]) := by
  have hutf8 : ∀ s ∈ [['\xc3', '\xa9'], "id".toList, "to".toList], IsUtf8 s := by
    unfold IsUtf8
    decide
  have hvalid : Valid strtodOne
      (.object [("id".toList, .array [.integer (-7), .float "1.5".toList]),
        ("to".toList, .string ['\xc3', '\xa9'])]) := by
    refine .object (List.forall_mem_cons.mpr ⟨hutf8 _ (by decide),
      List.forall_mem_singleton.mpr (hutf8 _ (by decide))⟩)
      (List.forall_mem_cons.mpr ⟨?_, List.forall_mem_singleton.mpr (.string (hutf8 _ (by decide)))⟩)
      (List.pairwise_pair.mpr (by decide))
    exact .array (List.forall_mem_cons.mpr
      ⟨.integer _, List.forall_mem_singleton.mpr (.float floatText_strtodOne)⟩)
  have hparse := @Valid.parse_layout _ _ hvalid (dumpFormat (-1) ' ' false .strict)
    (fun h => absurd h (by decide)) 0
  obtain ⟨-, text, hdump, hread, -⟩ := dump_of_parse strtodSpec_strtodOne hparse
    (by decide : (2 : ℤ) ≤ 1024) (fun _ => rfl : 0 ≤ (2 : ℤ) → isBlank ' ' = true) true .strict
  exact ⟨text, hdump, hread⟩

/-- **A lenient dump never throws**, and its text is parsed as the value with the pieces that
are not UTF-8 replaced or left out. -/
theorem dump_lenient {v : Json} (hbytes : ∀ s ∈ v.strings, Bytes s)
    (hfloats : ∀ text ∈ v.floats, FloatText strtod text) {indent : ℤ} (hindent : indent ≤ 1024)
    {indentChar : Char} (hblank : 0 ≤ indent → isBlank indentChar = true) (ensureAscii : Bool)
    {errorHandler : ErrorHandler} (hlenient : errorHandler ≠ .strict) :
    ∃ text v', dump v indent indentChar ensureAscii errorHandler = .ok text ∧
      parse strtod text = .ok v' ∧
      ReadBack (if errorHandler = .replace then utf8 0xFFFD else []) v v' := by
  have hrepair : repair (dumpFormat indent indentChar ensureAscii errorHandler) =
      if errorHandler = .replace then utf8 0xFFFD else [] := by
    cases errorHandler <;> rfl
  have hstrings : ∀ s ∈ v.strings, ∃ s',
      Body (rawOf (dumpFormat indent indentChar ensureAscii errorHandler) s) s' ∧
        Repairs (repair (dumpFormat indent indentChar ensureAscii errorHandler)) s s' := by
    intro s hs
    obtain ⟨s', raw, hok, hesc, hrepairs⟩ := dumpEscaped_repairs (hbytes s hs)
      (show (dumpFormat indent indentChar ensureAscii errorHandler).errorHandler ≠ .strict from
        hlenient)
    rw [rawOf_of_ok hok]
    exact ⟨s', hesc.body, hrepairs⟩
  obtain ⟨v', hspells, hread⟩ := layout_spells
    (fun hpretty => hblank (of_decide_eq_true hpretty)) v hfloats hstrings 0
  rw [hrepair] at hread
  rcases dump_cases (Or.inl hindent) indentChar ensureAscii errorHandler with ⟨hok, -⟩ | ⟨s, hs, e, he, -⟩
  · exact ⟨_, v', hok, hspells.parse_eq, hread⟩
  · obtain ⟨s', raw, hok, -⟩ := dumpEscaped_repairs (hbytes s hs)
      (show (dumpFormat indent indentChar ensureAscii errorHandler).errorHandler ≠ .strict from
        hlenient)
    rw [hok] at he
    cases he

theorem dump_lenient_byte :
    ∃ text v', dump (.string ['\xff']) 2 ' ' true .replace = .ok text ∧
      parse (fun _ => none) text = .ok v' ∧ ReadBack (utf8 0xFFFD) (.string ['\xff']) v' :=
  @dump_lenient (fun _ => none) _ (List.forall_mem_singleton.mpr (List.forall_mem_singleton.mpr
    (by decide))) (List.forall_mem_nil _) 2 (by decide) ' ' (fun _ => rfl) true .replace nofun

/-- **The strict dump throws just for a string that is not UTF-8**, and says where. -/
theorem dump_strict {v : Json} (hbytes : ∀ s ∈ v.strings, Bytes s) {indent : ℤ}
    (hindent : indent ≤ 1024) (indentChar : Char) (ensureAscii : Bool) :
    ((∀ s ∈ v.strings, IsUtf8 s) ∧ ∃ text, dump v indent indentChar ensureAscii .strict = .ok text) ∨
    (∃ s ∈ v.strings, ¬ IsUtf8 s ∧ ∃ what,
      dump v indent indentChar ensureAscii .strict = .error (.thrown (.json what)) ∧
      Complaint s what) := by
  have hstrict : (dumpFormat indent indentChar ensureAscii .strict).errorHandler = .strict := rfl
  rcases dump_cases (Or.inl hindent) indentChar ensureAscii .strict with
    ⟨hok, hstrings⟩ | ⟨s, hs, e, he, herr⟩
  · left
    refine ⟨?_, _, hok⟩
    intro s hs
    rcases dumpEscaped_strict (hbytes s hs) hstrict with ⟨hutf8, -⟩ | ⟨-, what, hthrow, -⟩
    · exact hutf8
    · cases (hstrings s hs).symm.trans hthrow
  · right
    refine ⟨s, hs, ?_⟩
    rcases dumpEscaped_strict (hbytes s hs) hstrict with
      ⟨-, raw, hok⟩ | ⟨hutf8, what, hthrow, hcomplaint⟩
    · rw [hok] at he
      cases he
    · obtain rfl := Except.error.inj (he.symm.trans hthrow)
      exact ⟨hutf8, what, herr, hcomplaint⟩

/-- A stray byte is named, with its index. -/
theorem dump_strict_byte :
    dump (.string ['a', '\xff']) (-1) ' ' false .strict = .error (.thrown (.json
      ("[json.exception.type_error.316] ".toList ++
        "invalid UTF-8 byte at index 1: 0xFF".toList))) := by
  have hbytes : ∀ s ∈ (Json.string ['a', '\xff']).strings, Bytes s :=
    List.forall_mem_singleton.mpr
      (List.forall_mem_cons.mpr ⟨by decide, List.forall_mem_singleton.mpr (by decide)⟩)
  have hstray : ¬ IsUtf8 ['a', '\xff'] := by
    unfold IsUtf8
    decide
  rcases dump_strict hbytes (by decide : (-1 : ℤ) ≤ 1024) ' ' false with
    ⟨hutf8, -⟩ | ⟨s, hs, -, what, hwhat, hcomplaint⟩
  · exact absurd (hutf8 _ (List.mem_singleton_self _)) hstray
  · obtain rfl := List.mem_singleton.mp hs
    have hrefused : ¬ Refused ['a'] ∧ Refused ['a', '\xff'] := by
      unfold Refused
      decide
    rcases hcomplaint with ⟨pre, c, post, hsplit, -, hrefused', rfl⟩ | ⟨hnot, -⟩
    · rw [hwhat]
      match pre, hsplit with
      | [], hsplit =>
        obtain ⟨rfl, -⟩ := List.cons.inj hsplit
        exact absurd hrefused' hrefused.1
      | [_], hsplit =>
        obtain ⟨rfl, htail⟩ := List.cons.inj hsplit
        obtain ⟨rfl, -⟩ := List.cons.inj htail
        rfl
      | _ :: _ :: pre, hsplit =>
        have hlength := congrArg List.length hsplit
        simp at hlength
    · exact absurd hrefused.2 hnot

end JsonText
end IntBlock
