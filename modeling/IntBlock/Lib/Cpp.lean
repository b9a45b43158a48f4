import Mathlib

/-!
# Strings, exceptions and `std::stoull`

The part of the C++ language and its standard library that string handling code
rests on: byte strings, computations that may throw an exception or run into
undefined behaviour, handlers, and the lenient reading of an unsigned number in
base 16.

## Main definitions

* `Str` — a `std::string`.
* `Exec` — a computation, which may end in an `Exception` or be undefined.
* `catching p x h` — `try { x } catch`, for the exceptions satisfying `p`.
* `stoull16` — `std::stoull(s, nullptr, 16)`.
* `toString64` — `std::to_string`.
* `Reads s negative ds` — the text `s` begins with a numeral: blanks, a sign, a
  prefix, and then the digits `ds`.

## Main results

* `reads_iff` — **what the scanner of `stoull16` finds is the numeral the text
  begins with**, so that there is at most one.
* `toDigits_sixteen` — the hexadecimal digits of a number have its value.
* `stoull16_of_reads`, `stoull16_of_not_reads` — when it throws, and its value.
-/

namespace IntBlock
namespace Cpp

/-- A byte string; a byte is written as the character with its code. -/
abbrev Str := List Char

/-! ### Exceptions -/

/-- What code throws: exceptions of the standard library, of the JSON library,
and values of a type not derived from `std::exception`. -/
inductive Exception
  | runtimeError (what : Str)
  | invalidArgument
  | outOfRange
  | json (what : Str)
  | other
  deriving DecidableEq, Repr

/-- Caught by `catch (const std::exception &)`. -/
def Exception.isStd : Exception → Bool
  | runtimeError _ => true
  | invalidArgument => true
  | outOfRange => true
  | json _ => true
  | other => false

/-- Caught by `catch (const json::exception &)`. -/
def Exception.isJson : Exception → Bool
  | runtimeError _ => false
  | invalidArgument => false
  | outOfRange => false
  | json _ => true
  | other => false

/-- `e.what()` -/
def Exception.what : Exception → Str
  | runtimeError what => what
  | invalidArgument => "stoull".toList
  | outOfRange => "stoull".toList
  | json what => what
  | other => []

/-- Why there is no result: an exception, or undefined behaviour. -/
inductive Stop
  | thrown (e : Exception)
  | undefined
  deriving DecidableEq, Repr

/-- A computation that may throw, and may be undefined. -/
abbrev Exec := Except Stop

/-- `throw e` -/
def raise {α : Type} (e : Exception) : Exec α := .error (.thrown e)

/-- `try { x } catch (…) { h }`, for the exceptions satisfying `p`; no handler
catches undefined behaviour. -/
def catching {α : Type} (p : Exception → Bool) (x : Exec α) (h : Exception → Exec α) : Exec α :=
  match x with
  | .ok a => .ok a
  | .error (.thrown e) => if p e then h e else .error (.thrown e)
  | .error .undefined => .error .undefined

section Catching

variable {α : Type} (p : Exception → Bool) (h : Exception → Exec α)

@[simp] theorem catching_ok (a : α) : catching p (.ok a) h = .ok a := rfl

@[simp] theorem catching_undefined : catching p (.error .undefined) h = .error .undefined := rfl

theorem catching_thrown {e : Exception} (he : p e = true) :
    catching p (.error (.thrown e)) h = h e := by
  unfold catching
  simp only [he, if_true]

theorem catching_not_caught {e : Exception} (he : p e = false) :
    catching p (.error (.thrown e)) h = .error (.thrown e) := by
  unfold catching
  simp [he]

variable {p}

/-- What gets past a handler that returns a value was not for it. -/
theorem not_caught_of_catching {x : Exec α} {a : α} {e : Exception}
    (hx : catching p x (fun _ => .ok a) = .error (.thrown e)) : p e = false := by
  unfold catching at hx
  split at hx
  · cases hx
  · split at hx
    · cases hx
    · next hp =>
      obtain rfl := Stop.thrown.inj (Except.error.inj hx)
      simpa using hp
  · cases hx

/-- A block behind a handler that returns `a` ends well if it does itself, or if it
throws something the handler catches. -/
theorem catching_eq_ok {x : Exec α} {a b : α} :
    catching p x (fun _ => .ok a) = .ok b ↔
      x = .ok b ∨ a = b ∧ ∃ e, p e = true ∧ x = .error (.thrown e) := by
  rcases x with (e | -) | c
  · by_cases hp : p e = true
    · rw [catching_thrown p _ hp]
      constructor
      · intro h
        cases h
        exact Or.inr ⟨rfl, e, hp, rfl⟩
      · rintro (h | ⟨rfl, -⟩)
        · cases h
        · rfl
    · rw [catching_not_caught p _ (by simpa using hp)]
      constructor
      · exact fun h => nomatch h
      · rintro (h | ⟨-, e', he', h⟩)
        · cases h
        · cases h
          exact absurd he' hp
  · constructor
    · exact fun h => nomatch h
    · rintro (h | ⟨-, e, -, h⟩)
      · cases h
      · cases h
  · constructor
    · exact Or.inl
    · rintro (h | ⟨-, e, -, h⟩)
      · exact h
      · cases h

/-- A second handler of the same kind, with the same value, has nothing to do. -/
theorem catching_catching (x : Exec α) (a : α) :
    catching p (catching p x (fun _ => .ok a)) (fun _ => .ok a) = catching p x (fun _ => .ok a) := by
  rcases x with (e | -) | c
  · by_cases hp : p e = true
    · rw [catching_thrown p _ hp, catching_ok]
    · rw [catching_not_caught p _ (by simpa using hp), catching_not_caught p _ (by simpa using hp)]
  · rfl
  · rfl

end Catching

theorem bind_eq_ok {α β : Type} {x : Exec α} {f : α → Exec β} {b : β} :
    (x >>= f) = .ok b ↔ ∃ a, x = .ok a ∧ f a = .ok b := by
  cases x with
  | error e =>
    refine iff_of_false nofun ?_
    rintro ⟨a, h, -⟩
    cases h
  | ok a =>
    constructor
    · exact fun h => ⟨a, rfl, h⟩
    · rintro ⟨a', ⟨⟩, h⟩
      exact h

/-- A statement and what follows it. -/
theorem then_eq_ok {β : Type} {x : Exec Unit} {f : Unit → Exec β} {b : β} :
    (x >>= f) = .ok b ↔ x = .ok () ∧ f () = .ok b := by
  rw [bind_eq_ok]
  exact ⟨fun ⟨(), h⟩ => h, fun h => ⟨(), h⟩⟩

@[simp] theorem bind_ok {α β : Type} (a : α) (f : α → Exec β) : (Except.ok a >>= f) = f a := rfl

@[simp] theorem bind_error {α β : Type} (e : Stop) (f : α → Exec β) :
    (Except.error e >>= f) = .error e := rfl

/-! ### Hexadecimal digits -/

/-- `isspace`, in the locale `"C"`. -/
def isspace (c : Char) : Bool := c = ' ' || ('\t' ≤ c && c ≤ '\r')

/-- The value of a hexadecimal digit of either case. -/
def xdigit? (c : Char) : Option ℕ :=
  if '0' ≤ c ∧ c ≤ '9' then some (c.toNat - '0'.toNat)
  else if 'a' ≤ c ∧ c ≤ 'f' then some (c.toNat - 'a'.toNat + 10)
  else if 'A' ≤ c ∧ c ≤ 'F' then some (c.toNat - 'A'.toNat + 10)
  else none

/-- `isxdigit` -/
def isxdigit (c : Char) : Bool := (xdigit? c).isSome

/-- The number a string of hexadecimal digits stands for. -/
def hexValue (ds : Str) : ℕ := ds.foldl (fun v c => 16 * v + (xdigit? c).getD 0) 0

/-- A hexadecimal digit is no blank. -/
theorem isspace_of_isxdigit {c : Char} (hc : isxdigit c = true) : isspace c = false := by
  by_contra hspace
  rw [Bool.not_eq_false, isspace, Bool.or_eq_true, Bool.and_eq_true, decide_eq_true_eq,
    decide_eq_true_eq, decide_eq_true_eq] at hspace
  unfold isxdigit xdigit? at hc
  rcases hspace with rfl | ⟨-, hle⟩
  · revert hc
    decide
  · have hlow : c < '0' := lt_of_le_of_lt hle (by decide)
    have ha : c < 'a' := lt_of_le_of_lt hle (by decide)
    have hA : c < 'A' := lt_of_le_of_lt hle (by decide)
    rw [if_neg fun h => absurd h.1 (not_le.mpr hlow), if_neg fun h => absurd h.1 (not_le.mpr ha),
      if_neg fun h => absurd h.1 (not_le.mpr hA)] at hc
    cases hc

/-! ### Reading a number in base 16 -/

/-- The sign in front of a numeral, taken off. -/
def takeSign : Str → Bool × Str
  | '+' :: s => (false, s)
  | '-' :: s => (true, s)
  | s => (false, s)

/-- The prefix of a numeral in base 16, taken off where a digit follows it. -/
def takePrefix : Str → Str
  | '0' :: x :: d :: s =>
      if (x = 'x' ∨ x = 'X') ∧ isxdigit d then d :: s else '0' :: x :: d :: s
  | s => s

/-- The sign and the digits `strtoull` finds in base 16: it skips blanks, accepts
a sign and a prefix, and reads as many digits as there are. -/
def scan16 (s : Str) : Bool × Str :=
  let signed := takeSign (s.dropWhile isspace)
  (signed.1, (takePrefix signed.2).takeWhile isxdigit)

/-- A value of `unsigned long long` with a sign in front: negated modulo `2 ^ 64`. -/
def signed64 (negative : Bool) (v : ℕ) : BitVec 64 :=
  if negative then -BitVec.ofNat 64 v else BitVec.ofNat 64 v

/-- `std::stoull(s, nullptr, 16)` -/
def stoull16 (s : Str) : Exec (BitVec 64) :=
  let (negative, digits) := scan16 s
  if digits = [] then raise .invalidArgument
  else if 2 ^ 64 ≤ hexValue digits then raise .outOfRange
  else .ok (signed64 negative (hexValue digits))

/-! ### Writing a number in base 10 -/

/-- The decimal representation of an integer. -/
def decimal (n : ℤ) : Str := (if n < 0 then ['-'] else []) ++ Nat.toDigits 10 n.natAbs

/-- `std::to_string` of an `unsigned long long`. -/
def toString64 (v : BitVec 64) : Str := decimal v.toNat

@[simp] theorem decimal_natCast (n : ℕ) : decimal n = Nat.toDigits 10 n := by
  rw [decimal, if_neg (by omega), Int.natAbs_natCast]
  rfl

/-! ### Digits and numbers -/

theorem isxdigit_digitChar {d : ℕ} (hd : d < 16) :
    isxdigit (Nat.digitChar d) = true ∧ xdigit? (Nat.digitChar d) = some d := by
  interval_cases d <;> decide

theorem hexValue_concat (ds : Str) (c : Char) :
    hexValue (ds ++ [c]) = 16 * hexValue ds + (xdigit? c).getD 0 := by
  rw [hexValue, List.foldl_append]
  rfl

/-- The digits of `n` in base 16 have the value `n`, and no leading zero. -/
theorem toDigits_sixteen (n : ℕ) :
    (∀ c ∈ Nat.toDigits 16 n, isxdigit c = true) ∧ hexValue (Nat.toDigits 16 n) = n ∧
      (0 < n → (Nat.toDigits 16 n).head? ≠ some '0') := by
  induction n using Nat.strongRecOn with
  | ind n ih =>
    by_cases hn : n < 16
    · obtain ⟨hdigit, hvalue⟩ := isxdigit_digitChar hn
      rw [Nat.toDigits_of_lt_base hn]
      refine ⟨?_, ?_, ?_⟩
      · intro c hc
        rw [List.mem_singleton.mp hc]
        exact hdigit
      · show hexValue ([] ++ [Nat.digitChar n]) = n
        rw [hexValue_concat, hvalue]
        simp [hexValue]
      · intro hpos hzero
        rw [List.head?_cons, Option.some.injEq, Nat.digitChar_eq_zero] at hzero
        omega
    · have hlast : n % 16 < 16 := Nat.mod_lt n (by omega)
      obtain ⟨hdigit, hvalue⟩ := isxdigit_digitChar hlast
      obtain ⟨ihdigits, ihvalue, ihhead⟩ := ih (n / 16) (by omega)
      rw [Nat.toDigits_of_base_le (by omega) (by omega)]
      refine ⟨?_, ?_, ?_⟩
      · intro c hc
        rcases List.mem_append.mp hc with hmem | hmem
        · exact ihdigits c hmem
        · rw [List.mem_singleton.mp hmem]
          exact hdigit
      · rw [hexValue_concat, ihvalue, hvalue, Option.getD_some]
        omega
      · intro _
        rw [List.head?_append_of_ne_nil _ Nat.toDigits_ne_nil]
        exact ihhead (by omega)

theorem isxdigit_of_isDigit {c : Char} (hc : c.isDigit = true) : isxdigit c = true := by
  have hrange : '0' ≤ c ∧ c ≤ '9' := by
    rw [Char.isDigit, Bool.and_eq_true, decide_eq_true_eq, decide_eq_true_eq] at hc
    exact hc
  unfold isxdigit xdigit?
  rw [if_pos hrange]
  rfl

/-- Decimal digits are worth nothing in base 16 if they are worth nothing in base 10. -/
theorem hexValue_toDigits_ten (n : ℕ) : hexValue (Nat.toDigits 10 n) = 0 ↔ n = 0 := by
  induction n using Nat.strongRecOn with
  | ind n ih =>
    by_cases hn : n < 10
    · rw [Nat.toDigits_of_lt_base hn]
      change hexValue ([] ++ [Nat.digitChar n]) = 0 ↔ n = 0
      rw [hexValue_concat, (isxdigit_digitChar (by omega)).2]
      simp [hexValue]
    · have hdigit := (isxdigit_digitChar (d := n % 10) (by omega)).2
      have hrest := ih (n / 10) (by omega)
      rw [Nat.toDigits_of_base_le (by omega) (by omega), hexValue_concat, hdigit, Option.getD_some]
      omega

theorem toString64_eq_zero {v : BitVec 64} : toString64 v = "0".toList ↔ v = 0 := by
  rw [toString64, decimal_natCast]
  constructor
  · intro h
    have hvalue := congrArg (fun ds => Nat.ofDigitChars 10 ds 0) h
    simp only [Nat.ofDigitChars_ten_toDigits] at hvalue
    exact BitVec.eq_of_toNat_eq hvalue
  · rintro rfl
    rfl

theorem signed64_eq_zero {negative : Bool} {v : ℕ} (hv : v < 2 ^ 64) :
    signed64 negative v = 0 ↔ v = 0 := by
  have hword : BitVec.ofNat 64 v = 0 ↔ v = 0 := by
    constructor
    · intro h
      have hnat := congrArg BitVec.toNat h
      rw [BitVec.toNat_ofNat, Nat.mod_eq_of_lt hv] at hnat
      exact hnat
    · rintro rfl
      rfl
  cases negative with
  | false => exact hword
  | true =>
    rw [← hword]
    exact neg_eq_zero

/-- Below `2 ^ 63` the sign bit is not set. -/
theorem toInt_signed64 {v : ℕ} (hv : v < 2 ^ 63) : (signed64 false v).toInt = v := by
  rw [signed64, if_neg Bool.false_ne_true, BitVec.toInt_eq_toNat_of_lt]
  · rw [BitVec.toNat_ofNat, Nat.mod_eq_of_lt (by omega)]
  · rw [BitVec.toNat_ofNat, Nat.mod_eq_of_lt (by omega)]
    omega

/-! ### The numeral a text begins with -/

/-- The prefixes of a numeral in base 16. -/
def IsPrefix (pre : Str) : Prop := pre = [] ∨ pre = ['0', 'x'] ∨ pre = ['0', 'X']

/-- The spellings of the sign of a numeral. -/
def IsSign (negative : Bool) (sign : Str) : Prop :=
  sign = ['-'] ∧ negative = true ∨ (sign = [] ∨ sign = ['+']) ∧ negative = false

theorem isSign_nil : IsSign false [] := Or.inr ⟨Or.inl rfl, rfl⟩

/-- The text goes on with a prefix letter and a digit. -/
def PrefixTail (s : Str) : Prop := ∃ x d r, s = x :: d :: r ∧ (x = 'x' ∨ x = 'X') ∧ isxdigit d = true

/-- The text `s` begins with a numeral in base 16 with the digits `ds`: blanks, a
sign, a prefix and the digits, as many as there are.  A zero in front of a
prefix letter and a digit belongs to the prefix. -/
def Reads (s : Str) (negative : Bool) (ds : Str) : Prop :=
  ∃ blanks sign pre rest, s = blanks ++ (sign ++ (pre ++ (ds ++ rest))) ∧
    (∀ c ∈ blanks, isspace c = true) ∧ IsSign negative sign ∧ IsPrefix pre ∧
    ds ≠ [] ∧ (∀ c ∈ ds, isxdigit c = true) ∧ (∀ c ∈ rest.head?, isxdigit c = false) ∧
    ¬(pre = [] ∧ ds = ['0'] ∧ PrefixTail rest)

/-- Maximal munch: what satisfies `p` up to the first that does not. -/
theorem takeWhile_append_of_head {α : Type} {p : α → Bool} {xs rest : List α}
    (hxs : ∀ x ∈ xs, p x = true) (hrest : ∀ x ∈ rest.head?, p x = false) :
    (xs ++ rest).takeWhile p = xs ∧ (xs ++ rest).dropWhile p = rest := by
  rw [List.takeWhile_append_of_pos hxs, List.dropWhile_append_of_pos hxs]
  cases rest with
  | nil => exact ⟨List.append_nil xs, rfl⟩
  | cons x rest =>
    have hx : p x = false := hrest x rfl
    simp [hx]

theorem takeSign_of_isSign {negative : Bool} {sign s : Str} (hsign : IsSign negative sign)
    (hs : ∀ c ∈ s.head?, isxdigit c = true) : takeSign (sign ++ s) = (negative, s) := by
  rcases hsign with ⟨rfl, rfl⟩ | ⟨rfl | rfl, rfl⟩
  · rfl
  · cases s with
    | nil => rfl
    | cons c s =>
      have hc : isxdigit c = true := hs c rfl
      unfold takeSign
      split
      · next heq =>
        obtain ⟨rfl, -⟩ := List.cons.inj heq
        exact absurd hc (by decide)
      · next heq =>
        obtain ⟨rfl, -⟩ := List.cons.inj heq
        exact absurd hc (by decide)
      · rfl
  · rfl

theorem takePrefix_of_isPrefix {pre ds rest : Str} (hpre : IsPrefix pre) (hds : ds ≠ [])
    (hdigits : ∀ c ∈ ds, isxdigit c = true) (hzero : ¬(pre = [] ∧ ds = ['0'] ∧ PrefixTail rest)) :
    takePrefix (pre ++ (ds ++ rest)) = ds ++ rest := by
  obtain ⟨d, ds, rfl⟩ := List.exists_cons_of_ne_nil hds
  have hd : isxdigit d = true := hdigits d List.mem_cons_self
  rcases hpre with rfl | rfl | rfl
  · -- no prefix: a zero with a prefix letter behind it would be one
    rw [List.nil_append]
    unfold takePrefix
    split
    · next x d' r heq =>
      rw [if_neg]
      · rw [heq]
      rintro ⟨hx, hd'⟩
      cases ds with
      | nil =>
        obtain ⟨rfl, rfl⟩ := List.cons.inj heq
        exact hzero ⟨rfl, rfl, x, d', r, rfl, hx, hd'⟩
      | cons y ds =>
        obtain ⟨-, htail⟩ := List.cons.inj heq
        obtain ⟨rfl, -⟩ := List.cons.inj htail
        have hy := hdigits y (by simp)
        rcases hx with rfl | rfl
        · exact absurd hy (by decide)
        · exact absurd hy (by decide)
    · rfl
  · show takePrefix ('0' :: 'x' :: d :: (ds ++ rest)) = _
    rw [takePrefix, if_pos ⟨Or.inl rfl, hd⟩]
    rfl
  · show takePrefix ('0' :: 'X' :: d :: (ds ++ rest)) = _
    rw [takePrefix, if_pos ⟨Or.inr rfl, hd⟩]
    rfl

/-- The scanner finds the numeral. -/
theorem Reads.scan16_eq {s ds : Str} {negative : Bool} (h : Reads s negative ds) :
    scan16 s = (negative, ds) := by
  obtain ⟨blanks, sign, pre, rest, rfl, hblanks, hsign, hpre, hne, hdigits, hrest, hzero⟩ := h
  -- behind the sign stands a digit, that of the prefix or the first one
  have hhead : ∀ c ∈ (pre ++ (ds ++ rest)).head?, isxdigit c = true := by
    obtain ⟨d, ds, rfl⟩ := List.exists_cons_of_ne_nil hne
    rcases hpre with rfl | rfl | rfl
    · intro c hc
      cases hc
      exact hdigits d List.mem_cons_self
    · intro c hc
      cases hc
      decide
    · intro c hc
      cases hc
      decide
  have hnospace : ∀ c ∈ (sign ++ (pre ++ (ds ++ rest))).head?, isspace c = false := by
    rcases hsign with ⟨rfl, -⟩ | ⟨rfl | rfl, -⟩
    · intro c hc
      cases hc
      decide
    · intro c hc
      exact isspace_of_isxdigit (hhead c hc)
    · intro c hc
      cases hc
      decide
  unfold scan16
  rw [(takeWhile_append_of_head hblanks hnospace).2, takeSign_of_isSign hsign hhead]
  simp only
  rw [takePrefix_of_isPrefix hpre hne hdigits hzero, (takeWhile_append_of_head hdigits hrest).1]

theorem exists_isSign (s : Str) : ∃ sign, IsSign (takeSign s).1 sign ∧ s = sign ++ (takeSign s).2 := by
  unfold takeSign
  split
  · exact ⟨['+'], Or.inr ⟨Or.inr rfl, rfl⟩, rfl⟩
  · exact ⟨['-'], Or.inl ⟨rfl, rfl⟩, rfl⟩
  · exact ⟨[], Or.inr ⟨Or.inl rfl, rfl⟩, rfl⟩

theorem exists_isPrefix (s : Str) :
    ∃ pre, IsPrefix pre ∧ s = pre ++ takePrefix s ∧
      (pre = [] → ¬∃ rest, s = '0' :: rest ∧ PrefixTail rest) := by
  unfold takePrefix
  split
  · next x d r =>
    by_cases h : (x = 'x' ∨ x = 'X') ∧ isxdigit d = true
    · rw [if_pos h]
      refine ⟨['0', x], ?_, rfl, fun hnil => nomatch hnil⟩
      rcases h.1 with rfl | rfl
      · exact Or.inr (Or.inl rfl)
      · exact Or.inr (Or.inr rfl)
    · rw [if_neg h]
      refine ⟨[], Or.inl rfl, rfl, ?_⟩
      rintro - ⟨rest, hs, x', d', r', rfl, hx, hd⟩
      cases hs
      exact h ⟨hx, hd⟩
  · next hshape =>
    refine ⟨[], Or.inl rfl, rfl, ?_⟩
    rintro - ⟨rest, rfl, x, d, r, rfl, -, -⟩
    exact hshape x d r rfl

/-- **What the scanner finds is the numeral the text begins with.** -/
theorem reads_iff {s ds : Str} {negative : Bool} :
    Reads s negative ds ↔ scan16 s = (negative, ds) ∧ ds ≠ [] := by
  constructor
  · intro h
    refine ⟨h.scan16_eq, ?_⟩
    obtain ⟨_, _, _, _, _, _, _, _, hne, _⟩ := h
    exact hne
  · rintro ⟨hscan, hne⟩
    obtain ⟨sign, hsign, hsplit⟩ := exists_isSign (s.dropWhile isspace)
    obtain ⟨pre, hpre, hrest, hzero⟩ := exists_isPrefix (takeSign (s.dropWhile isspace)).2
    obtain ⟨hnegative, hds⟩ := Prod.mk.inj hscan
    rw [hnegative] at hsign
    -- `r` stands behind the prefix
    generalize takePrefix (takeSign (s.dropWhile isspace)).2 = r at hrest hds
    generalize (takeSign (s.dropWhile isspace)).2 = r' at hsplit hrest hzero
    have hr : r = ds ++ r.dropWhile isxdigit := by
      rw [← hds, List.takeWhile_append_dropWhile]
    refine ⟨s.takeWhile isspace, sign, pre, r.dropWhile isxdigit, ?_, ?_, hsign, hpre, hne, ?_, ?_,
      ?_⟩
    · rw [← hr, ← hrest, ← hsplit, List.takeWhile_append_dropWhile]
    · exact fun c hc => List.mem_takeWhile_imp hc
    · rw [← hds]
      exact fun c hc => List.mem_takeWhile_imp hc
    · intro c hc
      have hnot := List.head?_dropWhile_not isxdigit r
      rw [Option.mem_def.mp hc] at hnot
      simpa using hnot
    · rintro ⟨rfl, rfl, htail⟩
      exact hzero rfl ⟨_, hrest.trans hr, htail⟩

/-- A text begins with one numeral at most. -/
theorem Reads.unique {s ds ds' : Str} {negative negative' : Bool} (h : Reads s negative ds)
    (h' : Reads s negative' ds') : negative = negative' ∧ ds = ds' :=
  Prod.mk.inj (h.scan16_eq.symm.trans h'.scan16_eq)

/-- A sign and digits are read as they stand. -/
theorem reads_signed {negative : Bool} {sign ds : Str} (hsign : IsSign negative sign)
    (hne : ds ≠ []) (hdigits : ∀ c ∈ ds, isxdigit c = true) : Reads (sign ++ ds) negative ds := by
  refine ⟨[], sign, [], [], ?_, nofun, hsign, Or.inl rfl, hne, hdigits, nofun, ?_⟩
  · rw [List.append_nil]
    rfl
  · rintro ⟨-, -, x, d, r, h, -⟩
    cases h

/-- `stoull` of a text that begins with a numeral. -/
theorem stoull16_of_reads {s ds : Str} {negative : Bool} (h : Reads s negative ds) :
    stoull16 s = if 2 ^ 64 ≤ hexValue ds then raise .outOfRange
      else .ok (signed64 negative (hexValue ds)) := by
  obtain ⟨hscan, hne⟩ := reads_iff.mp h
  unfold stoull16
  rw [hscan]
  simp only [if_neg hne]

/-- `stoull` of any other text. -/
theorem stoull16_of_not_reads {s : Str} (h : ∀ negative ds, ¬Reads s negative ds) :
    stoull16 s = raise .invalidArgument := by
  unfold stoull16
  have hnil : (scan16 s).2 = [] := by
    by_contra hne
    exact h (scan16 s).1 (scan16 s).2 (reads_iff.mpr ⟨rfl, hne⟩)
  simp only [hnil, if_true]

end Cpp
end IntBlock
