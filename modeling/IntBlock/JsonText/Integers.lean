import IntBlock.JsonText.Serializer

/-!
# Integers in the output

`dump_integer` counts the digits first and fills its buffer from behind, two digits at
a time.  It fills just the bytes it counted, whatever an earlier number has left there,
and what it writes is the decimal numeral, also of the least number.

## Main definitions

* `filled` — a buffer with digits in front of a position.

## Main results

* `countDigits_eq` — the number of digits is counted right.
* `putDigits_filled` — the digits are put where they belong.
* `dumpInteger_eq` — **the numeral of each integer is written.**
-/

namespace IntBlock
namespace JsonText

open Cpp

/-! ### Counting -/

theorem toDigits_ten_of_le {n : ℕ} (h : 10 ≤ n) :
    Nat.toDigits 10 n = Nat.toDigits 10 (n / 10) ++ [Nat.digitChar (n % 10)] :=
  Nat.toDigits_of_base_le (by decide) h

/-- A number of three digits or more, and its last two. -/
theorem toDigits_hundred {n : ℕ} (h : 100 ≤ n) :
    Nat.toDigits 10 n =
      Nat.toDigits 10 (n / 100) ++ [Nat.digitChar (n % 100 / 10), Nat.digitChar (n % 100 % 10)] := by
  have htens : n / 10 % 10 = n % 100 / 10 := by omega
  have hones : n % 10 = n % 100 % 10 := by omega
  rw [toDigits_ten_of_le (by omega : 10 ≤ n), toDigits_ten_of_le (by omega : 10 ≤ n / 10),
    Nat.div_div_eq_div_mul, List.append_assoc, htens, hones]
  rfl

theorem length_toDigits_ten {n : ℕ} (h : 10 ≤ n) :
    (Nat.toDigits 10 n).length = (Nat.toDigits 10 (n / 10)).length + 1 := by
  rw [toDigits_ten_of_le h, List.length_append, List.length_singleton]

theorem length_toDigits_of_lt {n : ℕ} (h : n < 10) : (Nat.toDigits 10 n).length = 1 := by
  rw [Nat.toDigits_of_lt_base h]
  rfl

/-- **The number of digits is counted right**, four at a time. -/
theorem countDigitsFrom_eq (nDigits x : ℕ) :
    countDigitsFrom (nDigits + 1) x = nDigits + (Nat.toDigits 10 x).length := by
  induction x using Nat.strong_induction_on generalizing nDigits with
  | _ x ih =>
    rw [countDigitsFrom]
    split_ifs with h1 h2 h3 h4
    · rw [length_toDigits_of_lt h1]
    · rw [length_toDigits_ten (by omega), length_toDigits_of_lt (by omega)]
    · rw [length_toDigits_ten (by omega), length_toDigits_ten (by omega),
        length_toDigits_of_lt (by omega)]
    · rw [length_toDigits_ten (by omega), length_toDigits_ten (by omega),
        length_toDigits_ten (by omega), length_toDigits_of_lt (by omega)]
    · have hrest : x / 10 / 10 / 10 / 10 = x / 10000 := by omega
      rw [length_toDigits_ten (by omega : 10 ≤ x), length_toDigits_ten (by omega : 10 ≤ x / 10),
        length_toDigits_ten (by omega : 10 ≤ x / 10 / 10),
        length_toDigits_ten (by omega : 10 ≤ x / 10 / 10 / 10), hrest,
        Nat.add_right_comm nDigits 1 4, ih (x / 10000) (by omega)]
      omega

theorem countDigits_eq (x : ℕ) : countDigits x = (Nat.toDigits 10 x).length :=
  (countDigitsFrom_eq 0 x).trans (Nat.zero_add _)

/-- A word has at most twenty digits. -/
theorem countDigits_le {x : ℕ} (h : x < 2 ^ 64) : countDigits x ≤ 20 := by
  rw [countDigits_eq, Nat.length_toDigits_le_iff (by decide) (by decide)]
  exact lt_of_lt_of_le h (by decide)

/-! ### The buffer -/

/-- `ds` in front of position `n`, and the position of the first of them. -/
def filled (buffer : NumberBuffer) (n : ℕ) (ds : Str) : NumberBuffer × ℕ :=
  (buffer.take (n - ds.length) ++ ds ++ buffer.drop n, n - ds.length)

section Filled

variable {buffer : NumberBuffer} {n : ℕ} {ds : Str}

theorem filled_nil (buffer : NumberBuffer) (n : ℕ) : filled buffer n [] = (buffer, n) := by
  rw [filled, List.append_nil, List.length_nil, Nat.sub_zero, List.take_append_drop]

theorem putBefore_filled (hbuffer : buffer.length = numberBufferSize) (hn : n ≤ numberBufferSize)
    (hds : ds.length < n) (c : Char) :
    putBefore c (filled buffer n ds) = .ok (filled buffer n (c :: ds)) := by
  have hlength : (buffer.take (n - (ds.length + 1))).length = n - (ds.length + 1) := by
    rw [List.length_take, hbuffer]
    omega
  have hlt : n - (ds.length + 1) < buffer.length := by omega
  have htake : buffer.take (n - ds.length) =
      buffer.take (n - (ds.length + 1)) ++ [buffer.get ⟨n - (ds.length + 1), hlt⟩] := by
    rw [List.get_eq_getElem]
    rw [show n - ds.length = n - (ds.length + 1) + 1 by omega, List.take_succ_eq_append_getElem]
  unfold putBefore filled
  dsimp only
  rw [if_pos (by omega), List.length_cons, htake, List.append_assoc, List.append_assoc,
    Nat.sub_sub, List.set_append_right _ _ (by omega), hlength, Nat.sub_self]
  simp only [List.cons_append, List.set_cons_zero, List.append_assoc, List.nil_append]

/-- The table of pairs holds the digits of each number below a hundred. -/
theorem digitsTo99_getD {p : ℕ} (h : p < 100) :
    digitsTo99.getD p ('0', '0') = (Nat.digitChar (p / 10), Nat.digitChar (p % 10)) := by
  revert p
  decide

theorem putPair_filled (hbuffer : buffer.length = numberBufferSize) (hn : n ≤ numberBufferSize)
    (hds : ds.length + 1 < n) {p : ℕ} (hp : p < 100) :
    putPair p (filled buffer n ds) =
      .ok (filled buffer n (Nat.digitChar (p / 10) :: Nat.digitChar (p % 10) :: ds)) := by
  unfold putPair
  rw [digitsTo99_getD hp]
  dsimp only
  rw [putBefore_filled hbuffer hn (by omega)]
  exact putBefore_filled hbuffer hn (by rw [List.length_cons]; exact hds) _

theorem ofNat_add_zero {d : ℕ} (h : d < 10) : Char.ofNat ('0'.toNat + d) = Nat.digitChar d := by
  revert d
  decide

/-- **The digits are put where they belong.** -/
theorem putDigits_filled (hbuffer : buffer.length = numberBufferSize)
    (hn : n ≤ numberBufferSize) (x : ℕ) (hds : (Nat.toDigits 10 x).length + ds.length ≤ n) :
    putDigits x (filled buffer n ds) = .ok (filled buffer n (Nat.toDigits 10 x ++ ds)) := by
  induction x using Nat.strong_induction_on generalizing ds with
  | _ x ih =>
    rw [putDigits]
    split_ifs with h100 h10
    · rw [toDigits_hundred h100] at hds ⊢
      simp only [List.length_append, List.length_cons, List.length_nil] at hds
      rw [putPair_filled hbuffer hn (by omega) (Nat.mod_lt _ (by decide)), List.append_assoc]
      refine ih (x / 100) (by omega) ?_
      simp only [List.length_cons]
      omega
    · rw [toDigits_ten_of_le h10, Nat.toDigits_of_lt_base (by omega)] at hds ⊢
      exact putPair_filled hbuffer hn (by simp at hds; omega) (by omega)
    · rw [Nat.toDigits_of_lt_base (by omega)] at hds ⊢
      rw [ofNat_add_zero (by omega)]
      exact putBefore_filled hbuffer hn (by simp at hds; omega) _

theorem length_filled (hbuffer : buffer.length = numberBufferSize) (hn : n ≤ numberBufferSize)
    (hds : ds.length ≤ n) : (filled buffer n ds).1.length = numberBufferSize := by
  unfold filled
  rw [List.length_append, List.length_append, List.length_take, List.length_drop, hbuffer]
  omega

/-- What is in front of the position. -/
theorem take_filled (hbuffer : buffer.length = numberBufferSize) (hn : n ≤ numberBufferSize)
    (hds : ds.length ≤ n) :
    (filled buffer n ds).1.take n = buffer.take (n - ds.length) ++ ds := by
  unfold filled
  refine List.take_left' ?_
  rw [List.length_append, List.length_take, hbuffer]
  omega

end Filled

/-! ### Integers -/

/-- The sign is taken off without an overflow, also from the least number. -/
theorem toNat_removeSign {x : BitVec 64} (h : x.toInt < 0) :
    (removeSign x).toNat = x.toInt.natAbs := by
  have hneg : removeSign x = -x := by
    unfold removeSign
    rw [BitVec.neg_add, BitVec.sub_add_cancel]
  have hint := BitVec.toInt_eq_toNat_cond x
  split_ifs at hint with hlt
  · omega
  · rw [hneg, BitVec.toNat_neg, hint]
    have hx := x.isLt
    rw [Nat.mod_eq_of_lt (by omega)]
    omega

/-- The value of a `number_integer_t` or a `number_unsigned_t`. -/
def integerValue (signed : Bool) (x : BitVec 64) : ℤ := if signed then x.toInt else x.toNat

/-- **The numeral of each integer is written**, whatever an earlier one has left in the
buffer. -/
theorem dumpInteger_eq (signed : Bool) (x : BitVec 64) {buffer : NumberBuffer}
    (hbuffer : buffer.length = numberBufferSize) :
    ∃ buffer' : NumberBuffer, buffer'.length = numberBufferSize ∧
      dumpInteger signed x buffer = .ok (decimal (integerValue signed x), buffer') := by
  have hx := x.isLt
  by_cases hzero : x = 0
  · subst hzero
    refine ⟨buffer, hbuffer, ?_⟩
    rw [dumpInteger, if_pos rfl]
    cases signed <;> rfl
  unfold dumpInteger
  rw [if_neg hzero]
  by_cases hnegative : (signed && decide (x.toInt < 0)) = true
  -- a minus in front of the digits
  · have hsigned := Bool.and_eq_true_iff.mp hnegative
    have hneg : x.toInt < 0 := of_decide_eq_true hsigned.2
    have hvalue : integerValue signed x = x.toInt := if_pos hsigned.1
    have hle := countDigits_le (removeSign x).isLt
    have hset : (buffer.set 0 '-').length = numberBufferSize := by rw [List.length_set, hbuffer]
    have hdigits := countDigits_eq (removeSign x).toNat
    have hput := @putDigits_filled (buffer.set 0 '-') (1 + countDigits (removeSign x).toNat) [] hset
      (by unfold numberBufferSize; omega) (removeSign x).toNat (by simp; omega)
    rw [filled_nil, List.append_nil] at hput
    simp only [hnegative, if_true]
    rw [if_pos (by unfold numberBufferSize; omega), hput]
    have hlength := @length_filled (buffer.set 0 '-') (1 + countDigits (removeSign x).toNat)
      (Nat.toDigits 10 (removeSign x).toNat) hset (by unfold numberBufferSize; omega) (by omega)
    refine ⟨_, hlength, ?_⟩
    have htake := @take_filled (buffer.set 0 '-') (1 + countDigits (removeSign x).toNat)
      (Nat.toDigits 10 (removeSign x).toNat) hset (by unfold numberBufferSize; omega) (by omega)
    have hminus : (buffer.set 0 '-').take 1 = ['-'] := by
      cases buffer with
      | nil => cases hbuffer
      | cons c buffer => rfl
    refine congrArg Except.ok (Prod.ext ?_ rfl)
    dsimp only
    rw [htake, hdigits, Nat.add_sub_cancel, hminus, hvalue, decimal, if_pos hneg,
      toNat_removeSign hneg]
  · have hvalue : integerValue signed x = x.toNat := by
      cases signed with
      | false => rfl
      | true =>
        have hge : ¬ x.toInt < 0 := by simpa using hnegative
        have hint := BitVec.toInt_eq_toNat_cond x
        split_ifs at hint with hlt
        · exact hint
        · omega
    have hle := countDigits_le hx
    have hdigits := countDigits_eq x.toNat
    have hput := @putDigits_filled buffer (countDigits x.toNat) [] hbuffer
      (by unfold numberBufferSize; omega) x.toNat (by simp; omega)
    rw [filled_nil, List.append_nil] at hput
    simp only [hnegative, if_false, Bool.false_eq_true]
    rw [if_pos (by unfold numberBufferSize; omega), hput]
    have hlength := @length_filled buffer (countDigits x.toNat) (Nat.toDigits 10 x.toNat) hbuffer
      (by unfold numberBufferSize; omega) (by omega)
    refine ⟨_, hlength, ?_⟩
    have htake := @take_filled buffer (countDigits x.toNat) (Nat.toDigits 10 x.toNat) hbuffer
      (by unfold numberBufferSize; omega) (by omega)
    refine congrArg Except.ok (Prod.ext ?_ rfl)
    dsimp only
    rw [htake, hdigits, Nat.sub_self, List.take_zero, List.nil_append, hvalue, decimal_natCast]

end JsonText
end IntBlock
