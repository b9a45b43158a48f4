import IntBlock.JsonText.Lexer
import IntBlock.Lib.Utf8

/-!
# String literals

What stands between the quotes of a string literal, as the standard describes it:
characters in UTF-8 and escapes, of which two in a row may be the surrogates of one
character.  The scanner finds just that.

## Main definitions

* `utf8` — a character.
* `Hex4 u c` — four hexadecimal digits, with their value.
* `Body raw s` — the bytes between the quotes, with the string they stand for.

## Main results

* `codepointBytes_eq` — the scanner's shifts and masks encode.
* `ranges_eq` — the scanner's ranges are those of UTF-8.
* `scanString_eq_iff` — **the scanner reads just the bodies, as what they stand for.**
* `Body.isUtf8` — a string that was read is valid UTF-8.
-/

namespace IntBlock
namespace JsonText

open Cpp

/-! ### Characters -/

/-- The codes of the bytes of a string. -/
def codes (s : Str) : List ℕ := s.map Char.toNat

/-- A string is valid UTF-8. -/
def IsUtf8 (s : Str) : Prop := Utf8.WellFormed (codes s)

/-- A character in UTF-8. -/
def utf8 (c : ℕ) : Str := ofCodes (Utf8.encode c)

theorem ofCodes_codes (s : Str) : ofCodes (codes s) = s := by
  rw [ofCodes, codes, List.map_map]
  exact List.map_id'' (fun c => Char.ofNat_toNat c) s

theorem toNat_ofNat_of_lt {n : ℕ} (h : n < 0x100) : (Char.ofNat n).toNat = n := by
  rw [Char.ofNat, dif_pos (Or.inl (by omega))]
  rfl

theorem codes_ofCodes {bs : List ℕ} (h : ∀ b ∈ bs, b < 0x100) : codes (ofCodes bs) = bs := by
  rw [ofCodes, codes, List.map_map]
  conv_rhs => rw [← List.map_id bs]
  exact List.map_congr_left fun b hb => toNat_ofNat_of_lt (h b hb)

theorem codes_append (s t : Str) : codes (s ++ t) = codes s ++ codes t := List.map_append

theorem codes_utf8 {c : ℕ} (hc : Utf8.IsScalar c) : codes (utf8 c) = Utf8.encode c :=
  codes_ofCodes (Utf8.wellFormed_encode hc).lt

theorem isUtf8_nil : IsUtf8 [] := Utf8.wellFormed_nil

theorem isUtf8_utf8_append {c : ℕ} {s : Str} (hc : Utf8.IsScalar c) (hs : IsUtf8 s) :
    IsUtf8 (utf8 c ++ s) := by
  rw [IsUtf8, codes_append, codes_utf8 hc]
  exact Utf8.wellFormed_encode_append hc hs

theorem isUtf8_append {s t : Str} (hs : IsUtf8 s) (ht : IsUtf8 t) : IsUtf8 (s ++ t) := by
  rw [IsUtf8, codes_append]
  exact Utf8.wellFormed_append hs ht

theorem isUtf8_of_forall_lt {s : Str} (h : ∀ c ∈ s, c.toNat < 0x80) : IsUtf8 s :=
  Utf8.wellFormed_of_forall_lt (List.forall_mem_map.mpr h)

/-- A valid string is read one character after another. -/
@[elab_as_elim]
theorem IsUtf8.induction {motive : (s : Str) → IsUtf8 s → Prop} (nil : motive [] isUtf8_nil)
    (cons : ∀ c s (hc : Utf8.IsScalar c) (hs : IsUtf8 s), motive s hs →
      motive (utf8 c ++ s) (isUtf8_utf8_append hc hs))
    {s : Str} (h : IsUtf8 s) : motive s h := by
  have hall : ∀ bs (hbs : Utf8.WellFormed bs), ∀ s (hs : codes s = bs),
      motive s (by rw [IsUtf8, hs]; exact hbs) := by
    intro bs hbs
    induction hbs using Utf8.WellFormed.induction with
    | nil =>
      intro s hs
      obtain rfl := List.map_eq_nil_iff.mp hs
      exact nil
    | cons c bs hc hbs ih =>
      intro s hs
      obtain ⟨s₁, s₂, rfl, hs₁, hs₂⟩ := List.map_eq_append_iff.mp hs
      have hchar : s₁ = utf8 c := by
        rw [← ofCodes_codes s₁]
        exact congrArg ofCodes hs₁
      subst hchar
      exact cons c s₂ hc (by rw [IsUtf8, codes, hs₂]; exact hbs) (ih s₂ hs₂)
  exact hall _ h s rfl

/-! ### Ranges -/

/-- **The scanner's ranges are those of UTF-8.** -/
theorem ranges_eq (byte : ℕ) : ranges byte = Utf8.follow byte := by
  have hbyte : ∀ b < 0x100, ranges b = Utf8.follow b := by decide +kernel
  rcases lt_or_ge byte 0x100 with h | h
  · exact hbyte byte h
  · have hranges : ranges byte = none := by
      unfold ranges
      rw [if_neg (by omega), if_neg (by omega), if_neg (by omega), if_neg (by omega),
        if_neg (by omega), if_neg (by omega), if_neg (by omega), if_neg (by omega)]
    have hfollow : Utf8.follow byte = none := by
      unfold Utf8.follow
      rw [if_neg (by omega), if_neg (by omega), if_neg (by omega), if_neg (by omega),
        if_neg (by omega), if_neg (by omega), if_neg (by omega), if_neg (by omega),
        if_neg (by omega)]
    rw [hranges, hfollow]

theorem nextByteInRange_eq_ok_iff {rs : List (ℕ × ℕ)} {s added rest : Str} :
    nextByteInRange rs s = .ok (added, rest) ↔
      s = added ++ rest ∧ Utf8.InBounds rs (codes added) := by
  induction rs generalizing s added with
  | nil =>
    constructor
    · intro h
      cases h
      exact ⟨rfl, List.Forall₂.nil⟩
    · rintro ⟨rfl, h⟩
      obtain rfl := List.map_eq_nil_iff.mp (Utf8.inBounds_nil.mp h)
      rfl
  | cons r rs ih =>
    cases s with
    | nil =>
      refine iff_of_false nofun ?_
      rintro ⟨hnil, h⟩
      obtain ⟨rfl, -⟩ := List.append_eq_nil_iff.mp hnil.symm
      cases h
    | cons c s =>
      rw [nextByteInRange]
      constructor
      · intro h
        split at h
        · next hc =>
          split at h
          · next added' rest' hrest =>
            cases h
            obtain ⟨rfl, hbounds⟩ := ih.mp hrest
            exact ⟨rfl, List.Forall₂.cons hc hbounds⟩
          · cases h
        · cases h
      · rintro ⟨hs, h⟩
        cases added with
        | nil => cases h
        | cons b added =>
          obtain ⟨rfl, rfl⟩ := List.cons.inj hs
          obtain ⟨hb, hbounds⟩ := Utf8.inBounds_cons_cons.mp h
          have hrest : nextByteInRange rs (added ++ rest) = .ok (added, rest) :=
            ih.mpr ⟨rfl, hbounds⟩
          rw [if_pos hb]
          exact hrest ▸ rfl

/-- A byte with the bytes its range asks for is a character. -/
theorem character_iff {c : Char} {s added rest : Str} :
    (∃ rs, ranges c.toNat = some rs ∧ nextByteInRange rs s = .ok (added, rest)) ↔
      ∃ cp, Utf8.IsScalar cp ∧ utf8 cp = c :: added ∧ s = added ++ rest := by
  constructor
  · rintro ⟨rs, hrs, h⟩
    obtain ⟨rfl, hbounds⟩ := nextByteInRange_eq_ok_iff.mp h
    rw [ranges_eq] at hrs
    obtain ⟨cp, hcp, hencode⟩ := Utf8.exists_encode_eq ⟨rs, hrs, hbounds⟩
    refine ⟨cp, hcp, ?_, rfl⟩
    rw [utf8, hencode]
    exact ofCodes_codes (c :: added)
  · rintro ⟨cp, hcp, hutf8, rfl⟩
    obtain ⟨lead, tail, hencode, ⟨rs, hrs, hbounds⟩, -⟩ := Utf8.sequence_encode hcp
    have hcodes := codes_utf8 hcp
    rw [hutf8, hencode] at hcodes
    obtain ⟨rfl, rfl⟩ := List.cons.inj hcodes
    exact ⟨rs, (ranges_eq _).trans hrs, nextByteInRange_eq_ok_iff.mpr ⟨rfl, hbounds⟩⟩

/-! ### Code points -/

/-- **The scanner's shifts and masks encode.** -/
theorem codepointBytes_eq {c : ℕ} (hc : c < 0x110000) : codepointBytes c = Utf8.encode c := by
  have hmask : ∀ n : ℕ, 0x80 ||| (n &&& 0x3F) = 0x80 + n % 64 := by
    intro n
    rw [show (0x3F : ℕ) = 2 ^ 6 - 1 by rfl, Nat.and_two_pow_sub_one_eq_mod,
      show (0x80 : ℕ) = 2 ^ 6 * 2 by rfl, Nat.two_pow_add_eq_or_of_lt (Nat.mod_lt _ (by decide))]
  unfold codepointBytes Utf8.encode
  by_cases h1 : c < 0x80
  · rw [if_pos h1, if_pos h1]
  by_cases h2 : c < 0x800
  · have hlead : 0xC0 ||| c >>> 6 = 0xC0 + c / 64 := by
      rw [Nat.shiftRight_eq_div_pow, show (0xC0 : ℕ) = 2 ^ 6 * 3 by rfl,
        Nat.two_pow_add_eq_or_of_lt (by omega)]
    rw [if_neg h1, if_neg h1, if_pos (by omega), if_pos h2, hmask, hlead]
  by_cases h3 : c < 0x10000
  · have hlead : 0xE0 ||| c >>> 12 = 0xE0 + c / 4096 := by
      rw [Nat.shiftRight_eq_div_pow, show (0xE0 : ℕ) = 2 ^ 4 * 14 by rfl,
        Nat.two_pow_add_eq_or_of_lt (by omega)]
    rw [if_neg h1, if_neg h1, if_neg (by omega), if_neg h2, if_pos (by omega), if_pos h3, hmask,
      hmask, hlead, Nat.shiftRight_eq_div_pow]
  · have hlead : 0xF0 ||| c >>> 18 = 0xF0 + c / 262144 := by
      rw [Nat.shiftRight_eq_div_pow, show (0xF0 : ℕ) = 2 ^ 3 * 30 by rfl,
        Nat.two_pow_add_eq_or_of_lt (by omega)]
    rw [if_neg h1, if_neg h1, if_neg (by omega), if_neg h2, if_neg (by omega), if_neg h3, hmask,
      hmask, hmask, hlead, Nat.shiftRight_eq_div_pow, Nat.shiftRight_eq_div_pow]

/-- Four hexadecimal digits, with their value. -/
def Hex4 (u : Str) (c : ℕ) : Prop :=
  u.length = 4 ∧ (∀ d ∈ u, isxdigit d = true) ∧ hexValue u = c

theorem xdigit?_lt {c : Char} {d : ℕ} (h : xdigit? c = some d) : d < 16 := by
  have hle : ∀ {a b : Char}, a ≤ b → a.toNat ≤ b.toNat := fun h => h
  unfold xdigit? at h
  split_ifs at h with h1 h2 h3
  · obtain rfl := Option.some.inj h
    have hc := hle h1.2
    have h9 : '9'.toNat - '0'.toNat = 9 := rfl
    omega
  · obtain rfl := Option.some.inj h
    have hc := hle h2.2
    have hf : 'f'.toNat - 'a'.toNat = 5 := rfl
    omega
  · obtain rfl := Option.some.inj h
    have hc := hle h3.2
    have hf : 'F'.toNat - 'A'.toNat = 5 := rfl
    omega

theorem getCodepointFrom_cons_eq_ok_iff {factor : ℕ} {factors : List ℕ} {v c : ℕ} {s rest : Str} :
    getCodepointFrom (factor :: factors) v s = .ok (c, rest) ↔
      ∃ x d s', s = x :: s' ∧ xdigit? x = some d ∧
        getCodepointFrom factors (v + d <<< factor) s' = .ok (c, rest) := by
  cases s with
  | nil =>
    refine iff_of_false nofun ?_
    rintro ⟨x, d, s', hs, -⟩
    cases hs
  | cons x s =>
    rw [getCodepointFrom]
    constructor
    · intro h
      split at h
      · next d hd => exact ⟨x, d, s, rfl, hd, h⟩
      · cases h
    · rintro ⟨x, d, s', hs, hd, h⟩
      obtain ⟨rfl, rfl⟩ := List.cons.inj hs
      rw [hd]
      exact h

/-- `get_codepoint` reads four hexadecimal digits. -/
theorem getCodepoint_eq_ok_iff {s rest : Str} {c : ℕ} :
    getCodepoint s = .ok (c, rest) ↔ ∃ u, s = u ++ rest ∧ Hex4 u c := by
  have hsome : ∀ {x d}, xdigit? x = some d → isxdigit x = true ∧ (xdigit? x).getD 0 = d := by
    intro x d hd
    rw [isxdigit, hd]
    exact ⟨rfl, rfl⟩
  unfold getCodepoint
  simp only [getCodepointFrom_cons_eq_ok_iff]
  constructor
  · rintro ⟨x₁, d₁, s₁, rfl, h₁, x₂, d₂, s₂, rfl, h₂, x₃, d₃, s₃, rfl, h₃, x₄, d₄, s₄, rfl, h₄, h⟩
    obtain ⟨rfl, rfl⟩ := Prod.mk.inj (Except.ok.inj h)
    refine ⟨[x₁, x₂, x₃, x₄], rfl, rfl, ?_, ?_⟩
    · simp only [List.forall_mem_cons]
      exact ⟨(hsome h₁).1, (hsome h₂).1, (hsome h₃).1, (hsome h₄).1, nofun⟩
    · simp only [hexValue, List.foldl_cons, List.foldl_nil, (hsome h₁).2, (hsome h₂).2,
        (hsome h₃).2, (hsome h₄).2, Nat.shiftLeft_eq]
      omega
  · rintro ⟨u, rfl, hlen, hdigits, rfl⟩
    obtain ⟨x₁, x₂, x₃, x₄, rfl⟩ := List.length_eq_four.mp hlen
    simp only [List.forall_mem_cons] at hdigits
    obtain ⟨h₁, h₂, h₃, h₄, -⟩ := hdigits
    obtain ⟨d₁, h₁⟩ := Option.isSome_iff_exists.mp h₁
    obtain ⟨d₂, h₂⟩ := Option.isSome_iff_exists.mp h₂
    obtain ⟨d₃, h₃⟩ := Option.isSome_iff_exists.mp h₃
    obtain ⟨d₄, h₄⟩ := Option.isSome_iff_exists.mp h₄
    refine ⟨x₁, d₁, _, rfl, h₁, x₂, d₂, _, rfl, h₂, x₃, d₃, _, rfl, h₃, x₄, d₄, _, rfl, h₄, ?_⟩
    simp only [getCodepointFrom, hexValue, List.foldl_cons, List.foldl_nil, (hsome h₁).2,
      (hsome h₂).2, (hsome h₃).2, (hsome h₄).2, Nat.shiftLeft_eq]
    congr 2
    omega

theorem Hex4.lt {u : Str} {c : ℕ} (h : Hex4 u c) : c < 0x10000 := by
  obtain ⟨hlen, hdigits, rfl⟩ := h
  obtain ⟨x₁, x₂, x₃, x₄, rfl⟩ := List.length_eq_four.mp hlen
  simp only [List.forall_mem_cons] at hdigits
  obtain ⟨h₁, h₂, h₃, h₄, -⟩ := hdigits
  obtain ⟨d₁, h₁⟩ := Option.isSome_iff_exists.mp h₁
  obtain ⟨d₂, h₂⟩ := Option.isSome_iff_exists.mp h₂
  obtain ⟨d₃, h₃⟩ := Option.isSome_iff_exists.mp h₃
  obtain ⟨d₄, h₄⟩ := Option.isSome_iff_exists.mp h₄
  have hlt₁ := xdigit?_lt h₁
  have hlt₂ := xdigit?_lt h₂
  have hlt₃ := xdigit?_lt h₃
  have hlt₄ := xdigit?_lt h₄
  simp only [hexValue, List.foldl_cons, List.foldl_nil, h₁, h₂, h₃, h₄, Option.getD_some]
  omega

/-! ### Bodies -/

/-- The code point of a pair of surrogates. -/
def surrogates (high low : ℕ) : ℕ := 0x10000 + (high - 0xD800) * 0x400 + (low - 0xDC00)

/-- The bytes between the quotes of a literal, with the string they stand for. -/
inductive Body : Str → Str → Prop
  | nil : Body [] []
  | char {c : ℕ} {raw s : Str} (hc : Utf8.IsScalar c) (hcontrol : 0x20 ≤ c) (hquote : c ≠ 0x22)
      (hbackslash : c ≠ 0x5C) (h : Body raw s) : Body (utf8 c ++ raw) (utf8 c ++ s)
  | escape {e c : Char} {raw s : Str} (he : escapes.lookup e = some c) (h : Body raw s) :
      Body ('\\' :: e :: raw) (c :: s)
  | unicode {u : Str} {c : ℕ} {raw s : Str} (hu : Hex4 u c) (hc : Utf8.IsScalar c)
      (h : Body raw s) : Body ('\\' :: 'u' :: (u ++ raw)) (utf8 c ++ s)
  | pair {u u' : Str} {high low : ℕ} {raw s : Str} (hu : Hex4 u high) (hu' : Hex4 u' low)
      (hhigh : 0xD800 ≤ high ∧ high ≤ 0xDBFF) (hlow : 0xDC00 ≤ low ∧ low ≤ 0xDFFF)
      (h : Body raw s) :
      Body ('\\' :: 'u' :: (u ++ '\\' :: 'u' :: (u' ++ raw))) (utf8 (surrogates high low) ++ s)

theorem isScalar_surrogates {high low : ℕ} (hhigh : 0xD800 ≤ high ∧ high ≤ 0xDBFF)
    (hlow : 0xDC00 ≤ low ∧ low ≤ 0xDFFF) : Utf8.IsScalar (surrogates high low) := by
  unfold Utf8.IsScalar surrogates
  omega

/-- The subtraction that takes the noise of both surrogates off. -/
theorem fromSurrogates_eq {high low : ℕ} (hhigh : 0xD800 ≤ high) (hlow : 0xDC00 ≤ low) :
    fromSurrogates high low = surrogates high low := by
  obtain ⟨a, rfl⟩ := Nat.exists_eq_add_of_le hhigh
  obtain ⟨b, rfl⟩ := Nat.exists_eq_add_of_le hlow
  have hsum : ((0xD800 + a) <<< 10) + (0xDC00 + b) = 0x35FDC00 + (0x10000 + a * 0x400 + b) := by
    rw [Nat.shiftLeft_eq]
    ring
  unfold fromSurrogates surrogates
  rw [hsum, Nat.add_sub_cancel_left, Nat.add_sub_cancel_left, Nat.add_sub_cancel_left]

theorem mem_of_lookup {α β : Type} [BEq α] [LawfulBEq α] {l : List (α × β)} {k : α} {b : β}
    (h : l.lookup k = some b) : (k, b) ∈ l := by
  obtain ⟨l₁, l₂, rfl, -⟩ := List.lookup_eq_some_iff.mp h
  exact List.mem_append_right l₁ List.mem_cons_self

/-- **A string that was read is valid UTF-8.** -/
theorem Body.isUtf8 {raw s : Str} (h : Body raw s) : IsUtf8 s := by
  induction h with
  | nil => exact isUtf8_nil
  | char hc _ _ _ _ ih => exact isUtf8_utf8_append hc ih
  | @escape e c raw s he _ ih =>
    have hascii : ∀ p ∈ escapes, p.2.toNat < 0x80 := by decide
    have hlt : c.toNat < 0x80 := hascii (e, c) (mem_of_lookup he)
    exact isUtf8_append (isUtf8_of_forall_lt (List.forall_mem_singleton.mpr hlt)) ih
  | unicode _ hc _ ih => exact isUtf8_utf8_append hc ih
  | pair _ _ hhigh hlow _ ih => exact isUtf8_utf8_append (isScalar_surrogates hhigh hlow) ih

theorem scanLowSurrogate_eq_ok_iff {high : ℕ} {s added rest : Str}
    (hhigh : 0xD800 ≤ high ∧ high ≤ 0xDBFF) :
    scanLowSurrogate high s = .ok (added, rest) ↔
      ∃ u low, s = u ++ rest ∧ Hex4 u low ∧ (0xDC00 ≤ low ∧ low ≤ 0xDFFF) ∧
        added = utf8 (surrogates high low) := by
  have hbytes : ∀ {low : ℕ}, 0xDC00 ≤ low ∧ low ≤ 0xDFFF →
      ofCodes (codepointBytes (fromSurrogates high low)) = utf8 (surrogates high low) := by
    intro low hlow
    have hlt : surrogates high low < 0x110000 := by
      unfold surrogates
      omega
    rw [fromSurrogates_eq hhigh.1 hlow.1, codepointBytes_eq hlt, utf8]
  unfold scanLowSurrogate
  constructor
  · intro h
    split at h
    · cases h
    · next low rest' hcode =>
      obtain ⟨u, rfl, hu⟩ := getCodepoint_eq_ok_iff.mp hcode
      by_cases hlow : 0xDC00 ≤ low ∧ low ≤ 0xDFFF
      · rw [if_pos hlow, hbytes hlow] at h
        obtain ⟨rfl, rfl⟩ := Prod.mk.inj (Except.ok.inj h)
        exact ⟨u, low, rfl, hu, hlow, rfl⟩
      · rw [if_neg hlow] at h
        cases h
  · rintro ⟨u, low, rfl, hu, hlow, hadded⟩
    rw [getCodepoint_eq_ok_iff.mpr ⟨u, rfl, hu⟩]
    simp only [if_pos hlow, hbytes hlow, hadded]

/-- What a unicode escape may be, after `\u`. -/
theorem scanUnicode_eq_ok_iff {s added rest : Str} :
    scanUnicode s = .ok (added, rest) ↔
      (∃ u c, s = u ++ rest ∧ Hex4 u c ∧ Utf8.IsScalar c ∧ added = utf8 c) ∨
      (∃ u high u' low, s = u ++ '\\' :: 'u' :: (u' ++ rest) ∧ Hex4 u high ∧ Hex4 u' low ∧
        (0xD800 ≤ high ∧ high ≤ 0xDBFF) ∧ (0xDC00 ≤ low ∧ low ≤ 0xDFFF) ∧
        added = utf8 (surrogates high low)) := by
  unfold scanUnicode
  constructor
  · intro h
    split at h
    · cases h
    · next c rest' hcode =>
      obtain ⟨u, rfl, hu⟩ := getCodepoint_eq_ok_iff.mp hcode
      -- a high surrogate must be followed by a low one
      by_cases hhigh : 0xD800 ≤ c ∧ c ≤ 0xDBFF
      · rw [if_pos hhigh] at h
        split at h
        · next rest'' =>
          obtain ⟨u', low, rfl, hu', hlow, hadded⟩ := (scanLowSurrogate_eq_ok_iff hhigh).mp h
          exact Or.inr ⟨u, c, u', low, rfl, hu, hu', hhigh, hlow, hadded⟩
        · cases h
        · cases h
      · rw [if_neg hhigh] at h
        by_cases hlow : 0xDC00 ≤ c ∧ c ≤ 0xDFFF
        · rw [if_pos hlow] at h
          cases h
        · rw [if_neg hlow] at h
          have hlt := hu.lt
          obtain ⟨rfl, rfl⟩ := Prod.mk.inj (Except.ok.inj h)
          refine Or.inl ⟨u, c, rfl, hu, ?_, ?_⟩
          · unfold Utf8.IsScalar
            omega
          · rw [codepointBytes_eq (by omega), utf8]
  · rintro (⟨u, c, rfl, hu, hc, hadded⟩ | ⟨u, high, u', low, rfl, hu, hu', hhigh, hlow, hadded⟩)
    · rw [getCodepoint_eq_ok_iff.mpr ⟨u, rfl, hu⟩, hadded]
      unfold Utf8.IsScalar at hc
      simp only [if_neg (show ¬ (0xD800 ≤ c ∧ c ≤ 0xDBFF) by omega),
        if_neg (show ¬ (0xDC00 ≤ c ∧ c ≤ 0xDFFF) by omega)]
      rw [codepointBytes_eq (by omega), utf8]
    · rw [getCodepoint_eq_ok_iff.mpr ⟨u, rfl, hu⟩]
      simp only [if_pos hhigh]
      exact (scanLowSurrogate_eq_ok_iff hhigh).mpr ⟨u', low, rfl, hu', hlow, hadded⟩

theorem scanEscape_eq_ok_iff {s added rest : Str} :
    scanEscape s = .ok (added, rest) ↔
      (∃ e c, s = e :: rest ∧ escapes.lookup e = some c ∧ added = [c]) ∨
      ∃ s', s = 'u' :: s' ∧ scanUnicode s' = .ok (added, rest) := by
  have hu : escapes.lookup 'u' = none := by decide
  cases s with
  | nil =>
    refine iff_of_false nofun ?_
    rintro (⟨e, c, hs, -⟩ | ⟨s', hs, -⟩)
    · cases hs
    · cases hs
  | cons x s =>
    rw [scanEscape]
    constructor
    · intro h
      split at h
      · next hx => exact Or.inr ⟨s, by rw [hx], h⟩
      · split at h
        · next c hc =>
          obtain ⟨rfl, rfl⟩ := Prod.mk.inj (Except.ok.inj h)
          exact Or.inl ⟨x, c, rfl, hc, rfl⟩
        · cases h
    · rintro (⟨e, c, hs, he, rfl⟩ | ⟨s', hs, h⟩)
      · obtain ⟨rfl, rfl⟩ := List.cons.inj hs
        have hne : x ≠ 'u' := by
          rintro rfl
          rw [hu] at he
          cases he
        rw [if_neg hne, he]
      · obtain ⟨rfl, rfl⟩ := List.cons.inj hs
        rw [if_pos rfl]
        exact h

/-! ### The scanner -/

/-- The first byte of a character is the character itself, or lies beyond ASCII. -/
theorem utf8_head {c : ℕ} {b : Char} {added : Str} (hc : Utf8.IsScalar c)
    (h : utf8 c = b :: added) : (c < 0x80 ∧ b.toNat = c) ∨ (0x80 ≤ c ∧ 0x80 ≤ b.toNat) := by
  have hcodes := codes_utf8 hc
  rw [h] at hcodes
  have hmem : b.toNat ∈ Utf8.encode c := by
    rw [← hcodes]
    exact List.mem_cons_self
  by_cases hlt : c < 0x80
  · rw [Utf8.encode_of_lt hlt, List.mem_singleton] at hmem
    exact Or.inl ⟨hlt, hmem⟩
  · exact Or.inr ⟨by omega, (Utf8.encode_bounds hc (by omega) _ hmem).1⟩

theorem eq_iff_toNat_eq {b c : Char} : b = c ↔ b.toNat = c.toNat := Char.toNat_inj.symm

theorem scanString_quote (tokenBuffer rest : Str) :
    scanString tokenBuffer ('"' :: rest) = ⟨.valueString tokenBuffer, some rest⟩ := by
  rw [scanString, if_pos rfl]

theorem scanString_backslash {tokenBuffer s added rest : Str}
    (h : scanEscape s = .ok (added, rest)) :
    scanString tokenBuffer ('\\' :: s) = scanString (tokenBuffer ++ added) rest := by
  rw [scanString, if_neg (by decide), if_pos rfl]
  split
  · next h' =>
    rw [h] at h'
    cases h'
    rfl
  · next h' =>
    rw [h] at h'
    cases h'

theorem scanString_char {tokenBuffer rest : Str} {c : ℕ} (hc : Utf8.IsScalar c)
    (hcontrol : 0x20 ≤ c) (hquote : c ≠ 0x22) (hbackslash : c ≠ 0x5C) :
    scanString tokenBuffer (utf8 c ++ rest) = scanString (tokenBuffer ++ utf8 c) rest := by
  obtain ⟨lead, tail, hencode, -, -⟩ := Utf8.sequence_encode hc
  have hutf8 : utf8 c = Char.ofNat lead :: ofCodes tail := by rw [utf8, hencode]; rfl
  have hhead := utf8_head hc hutf8
  obtain ⟨rs, hrs, hnext⟩ := character_iff.mpr ⟨c, hc, hutf8, @rfl _ (ofCodes tail ++ rest)⟩
  have h1 : ¬ Char.ofNat lead = '"' := by
    rw [eq_iff_toNat_eq, show '"'.toNat = 0x22 by rfl]
    omega
  have h2 : ¬ Char.ofNat lead = '\\' := by
    rw [eq_iff_toNat_eq, show '\\'.toNat = 0x5C by rfl]
    omega
  rw [hutf8, List.cons_append, scanString, if_neg h1, if_neg h2, if_neg (by omega)]
  split
  · next hnone =>
    rw [hrs] at hnone
    cases hnone
  · next rs' hsome =>
    obtain rfl := Option.some.inj (hrs.symm.trans hsome)
    split
    · next h' =>
      rw [hnext] at h'
      cases h'
      rfl
    · next h' =>
      rw [hnext] at h'
      cases h'

/-- The scanner reads a body up to the quote after it. -/
theorem Body.scanString_eq {raw body : Str} (h : Body raw body) (tokenBuffer rest : Str) :
    scanString tokenBuffer (raw ++ '"' :: rest) =
      ⟨.valueString (tokenBuffer ++ body), some rest⟩ := by
  induction h generalizing tokenBuffer with
  | nil => rw [List.nil_append, List.append_nil, scanString_quote]
  | char hc hcontrol hquote hbackslash _ ih =>
    rw [List.append_assoc, scanString_char hc hcontrol hquote hbackslash, ih, List.append_assoc]
  | @escape e c raw s he _ ih =>
    have hescape : scanEscape (e :: (raw ++ '"' :: rest)) = .ok ([c], raw ++ '"' :: rest) :=
      scanEscape_eq_ok_iff.mpr (Or.inl ⟨e, c, rfl, he, rfl⟩)
    rw [List.cons_append, List.cons_append, scanString_backslash hescape, ih, List.append_assoc,
      List.singleton_append]
  | @unicode u c raw s hu hc _ ih =>
    have hescape : scanEscape ('u' :: (u ++ (raw ++ '"' :: rest))) =
        .ok (utf8 c, raw ++ '"' :: rest) :=
      scanEscape_eq_ok_iff.mpr (Or.inr ⟨_, rfl, scanUnicode_eq_ok_iff.mpr
        (Or.inl ⟨u, c, rfl, hu, hc, rfl⟩)⟩)
    rw [List.cons_append, List.cons_append, List.append_assoc, scanString_backslash hescape, ih,
      List.append_assoc]
  | @pair u u' high low raw s hu hu' hhigh hlow _ ih =>
    have hescape : scanEscape ('u' :: (u ++ '\\' :: 'u' :: (u' ++ (raw ++ '"' :: rest)))) =
        .ok (utf8 (surrogates high low), raw ++ '"' :: rest) :=
      scanEscape_eq_ok_iff.mpr (Or.inr ⟨_, rfl, scanUnicode_eq_ok_iff.mpr
        (Or.inr ⟨u, high, u', low, rfl, hu, hu', hhigh, hlow, rfl⟩)⟩)
    rw [List.cons_append, List.cons_append, List.append_assoc, List.cons_append, List.cons_append,
      List.append_assoc, scanString_backslash hescape, ih, List.append_assoc]

/-- What the scanner has read as a string is a body. -/
theorem exists_body {tokenBuffer s str rest : Str}
    (h : scanString tokenBuffer s = ⟨.valueString str, some rest⟩) :
    ∃ raw body, s = raw ++ '"' :: rest ∧ Body raw body ∧ str = tokenBuffer ++ body := by
  fun_induction scanString tokenBuffer s with
  | case1 => cases h
  | case2 tokenBuffer rest' =>
    obtain ⟨hstr, hrest⟩ := Scanned.mk.inj h
    obtain rfl := Token.valueString.inj hstr
    obtain rfl := Option.some.inj hrest
    exact ⟨[], [], rfl, Body.nil, (List.append_nil _).symm⟩
  | case3 tokenBuffer s added rest' hscan _ _ ih =>
    obtain ⟨raw, body, rfl, hbody, rfl⟩ := ih h
    -- an escape: a letter, a code point or a pair of surrogates
    rcases scanEscape_eq_ok_iff.mp hscan with ⟨e, c, rfl, he, rfl⟩ | ⟨s', rfl, hunicode⟩
    · refine ⟨'\\' :: e :: raw, c :: body, rfl, Body.escape he hbody, ?_⟩
      rw [List.append_assoc, List.singleton_append]
    · rcases scanUnicode_eq_ok_iff.mp hunicode with ⟨u, c, rfl, hu, hc, hadded⟩ |
        ⟨u, high, u', low, rfl, hu, hu', hhigh, hlow, hadded⟩
      · refine ⟨_, _, ?_, Body.unicode hu hc hbody, ?_⟩
        · simp only [List.cons_append, List.append_assoc]
        · rw [hadded, List.append_assoc]
      · refine ⟨_, _, ?_, Body.pair hu hu' hhigh hlow hbody, ?_⟩
        · simp only [List.cons_append, List.append_assoc]
        · rw [hadded, List.append_assoc]
  | case4 => cases h
  | case5 => cases h
  | case6 => cases h
  | case7 tokenBuffer c s hquote hbackslash hcontrol rs hrs added rest' hnext _ ih =>
    obtain ⟨raw, body, rfl, hbody, rfl⟩ := ih h
    obtain ⟨cp, hcp, hutf8, rfl⟩ := character_iff.mp ⟨rs, hrs, hnext⟩
    have hhead := utf8_head hcp hutf8
    rw [eq_iff_toNat_eq, show '"'.toNat = 0x22 by rfl] at hquote
    rw [eq_iff_toNat_eq, show '\\'.toNat = 0x5C by rfl] at hbackslash
    refine ⟨utf8 cp ++ raw, utf8 cp ++ body, ?_,
      Body.char hcp (by omega) (by omega) (by omega) hbody, ?_⟩
    · rw [hutf8, List.cons_append, List.cons_append, List.append_assoc]
    · rw [hutf8, List.append_assoc]
  | case8 => cases h

/-- The scanner reads a string or refuses. -/
theorem exists_valueString {tokenBuffer s : Str}
    (h : (scanString tokenBuffer s).token.isLast = false) :
    ∃ str, (scanString tokenBuffer s).token = .valueString str := by
  fun_induction scanString tokenBuffer s with
  | case2 tokenBuffer => exact ⟨tokenBuffer, rfl⟩
  | case3 _ _ _ _ _ _ _ ih => exact ih h
  | case7 _ _ _ _ _ _ _ _ _ _ _ _ ih => exact ih h
  | case1 | case4 | case5 | case6 | case8 => cases h

/-- **The scanner reads just the bodies, as what they stand for.** -/
theorem scanString_eq_iff {s str rest : Str} :
    scanString [] s = ⟨.valueString str, some rest⟩ ↔
      ∃ raw, s = raw ++ '"' :: rest ∧ Body raw str := by
  constructor
  · intro h
    obtain ⟨raw, body, rfl, hbody, rfl⟩ := exists_body h
    exact ⟨raw, rfl, hbody⟩
  · rintro ⟨raw, rfl, hbody⟩
    exact hbody.scanString_eq [] rest

end JsonText
end IntBlock
