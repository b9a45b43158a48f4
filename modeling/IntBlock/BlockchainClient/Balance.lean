import IntBlock.BlockchainClient.Quantity
import IntBlock.Lib.Json

/-!
# The balance

`hexToDecimal` of `main.cpp`, and what `main` makes of the reply to its balance
query.  The value goes through an `unsigned long long`, and every failure to
read one ends in `"0"`: an amount that is too large looks like no amount, while
a reply that is no quantity may look like some amount.

## Main definitions

* `hexToDecimal`, `balanceWei` — the conversion, and the query's use of it.
* `IsQuantity n s` — `s` is the quantity `n` as the node encodes it.
* `ReadAsZero s` — the text begins with no number other than zero.
* `BalanceSafe balance` — the replies that do not read as money by mistake.

## Main results

* `hexToDecimal_of_isHex` — the conversion of digits behind an optional prefix.
* `hexToDecimal_of_isQuantity` — **the conversion is exact up to `2 ^ 64`**, and
  `"0"` from there on.
* `isQuantity_encode` — every amount has an encoding.
* `hexToDecimal_eq_zero_iff` — when the result is `"0"`.
* `balanceWei_zero_iff` — **when a malformed balance reads as `"0"`.**
-/

namespace IntBlock
namespace BlockchainClient

open Cpp

def hexToDecimal (hex : Str) : Str :=
  let hexStr := remove0x hex
  match stoull16 hexStr with
  | .ok value => toString64 value
  -- `catch (...)`: `std::stoull` is never undefined
  | .error _ => "0".toList

/-- The balance in wei, from the result of `eth_getBalance`. -/
def balanceWei (balance : Json) : Str :=
  let balanceHex := match balance with
    | .string s => s
    | j => j.dump
  hexToDecimal balanceHex

/-- A string of hexadecimal digits, with or without a prefix, is converted exactly
as long as its value has 64 bits, and to `"0"` from there on. -/
theorem hexToDecimal_of_isHex {s ds : Str} (h : IsHex s ds) :
    hexToDecimal s =
      if hexValue ds < 2 ^ 64 then Nat.toDigits 10 (hexValue ds) else "0".toList := by
  unfold hexToDecimal
  simp only [stoull16_of_reads h.reads]
  by_cases hlt : hexValue ds < 2 ^ 64
  · rw [if_neg (not_le.mpr hlt), if_pos hlt]
    simp only [toString64, signed64, if_neg Bool.false_ne_true, decimal_natCast]
    rw [BitVec.toNat_ofNat, Nat.mod_eq_of_lt hlt]
  · rw [if_pos (not_lt.mp hlt), if_neg hlt]
    rfl

/-! ### Quantities -/

/-- The string `s` is the quantity `n`: the prefix `0x` or `0X`, and the
hexadecimal digits of `n` in either case, without leading zeros. -/
def IsQuantity (n : ℕ) (s : Str) : Prop :=
  ∃ pre ds, s = pre ++ ds ∧ (pre = ['0', 'x'] ∨ pre = ['0', 'X']) ∧ ds ≠ [] ∧
    (∀ c ∈ ds, isxdigit c = true) ∧ hexValue ds = n ∧ (ds.head? = some '0' → ds = ['0'])

/-- **The conversion of a quantity is exact as long as it has 64 bits**, and `"0"`
for every larger one. -/
theorem hexToDecimal_of_isQuantity {n : ℕ} {s : Str} (h : IsQuantity n s) :
    hexToDecimal s = if n < 2 ^ 64 then Nat.toDigits 10 n else "0".toList := by
  obtain ⟨pre, ds, hs, hpre, hne, hdigits, rfl, -⟩ := h
  exact hexToDecimal_of_isHex ⟨hne, hdigits, pre, Or.inr hpre, hs⟩

/-- The largest amount that is still converted. -/
theorem hexToDecimal_of_isQuantity_max :
    hexToDecimal "0xFFFFffffFFFFffff".toList = "18446744073709551615".toList := by
  have h : IsQuantity (2 ^ 64 - 1) "0xFFFFffffFFFFffff".toList :=
    ⟨['0', 'x'], "FFFFffffFFFFffff".toList, rfl, Or.inl rfl, by decide,
      List.all_eq_true.mp (by decide), rfl, by decide⟩
  exact (hexToDecimal_of_isQuantity h).trans (by decide)

/-- The next one reads as an empty account. -/
theorem hexToDecimal_not_exact :
    ¬∀ n s, n < 2 ^ 256 → IsQuantity n s → hexToDecimal s = Nat.toDigits 10 n := by
  intro hexact
  have h : IsQuantity (2 ^ 64) "0x10000000000000000".toList :=
    ⟨['0', 'x'], "10000000000000000".toList, rfl, Or.inl rfl, by decide,
      List.all_eq_true.mp (by decide), rfl, by decide⟩
  exact absurd (hexact _ _ (by norm_num) h) (by decide)

/-- Every amount has an encoding. -/
theorem isQuantity_encode (n : ℕ) : IsQuantity n ("0x".toList ++ Nat.toDigits 16 n) := by
  obtain ⟨hdigits, hvalue, hhead⟩ := toDigits_sixteen n
  refine ⟨['0', 'x'], Nat.toDigits 16 n, rfl, Or.inl rfl, Nat.toDigits_ne_nil, hdigits, hvalue, ?_⟩
  intro hzero
  rcases Nat.eq_zero_or_pos n with rfl | hpos
  · rfl
  · exact absurd hzero (hhead hpos)

/-! ### What reads as zero -/

/-- If the text begins with a number at all, behind a prefix that is removed,
then it is zero or too large. -/
def ReadAsZero (s : Str) : Prop :=
  ∀ negative ds, Reads (remove0x s) negative ds → hexValue ds = 0 ∨ 2 ^ 64 ≤ hexValue ds

/-- **When the result is `"0"`.** -/
theorem hexToDecimal_eq_zero_iff (s : Str) : hexToDecimal s = "0".toList ↔ ReadAsZero s := by
  unfold hexToDecimal
  by_cases hreads : ∃ negative ds, Reads (remove0x s) negative ds
  · obtain ⟨negative, ds, hds⟩ := hreads
    have hread : ReadAsZero s ↔ hexValue ds = 0 ∨ 2 ^ 64 ≤ hexValue ds := by
      constructor
      · exact fun h => h negative ds hds
      · intro h negative' ds' hds'
        obtain ⟨-, rfl⟩ := hds.unique hds'
        exact h
    simp only [hread, stoull16_of_reads hds]
    by_cases hlt : hexValue ds < 2 ^ 64
    · rw [if_neg (not_le.mpr hlt), or_iff_left (not_le.mpr hlt)]
      exact toString64_eq_zero.trans (signed64_eq_zero hlt)
    · rw [if_pos (not_lt.mp hlt)]
      exact iff_of_true rfl (Or.inr (not_lt.mp hlt))
  · push Not at hreads
    simp only [stoull16_of_not_reads hreads]
    exact iff_of_true rfl fun negative ds hds => absurd hds (hreads negative ds)

/-! ### Malformed balances -/

/-- The replies that read as `"0"` unless they are quantities: a string that is one
or begins with no number in the range, a number whose decimal digits, read in
base 16, are zero or too large, and everything else but `false`, whose text
begins with two hexadecimal letters. -/
def BalanceSafe : Json → Prop
  | .null => True
  | .boolean b => b = true
  | .integer n => n = 0 ∨ 2 ^ 64 ≤ hexValue (Nat.toDigits 10 n.toInt.natAbs)
  | .unsigned n => n = 0 ∨ 2 ^ 64 ≤ hexValue (Nat.toDigits 10 n.toNat)
  | .float text => ReadAsZero text
  | .string s => (∃ ds, IsHex s ds) ∨ ReadAsZero s
  | .array _ => True
  | .object _ => True

/-- A decimal number reads as zero if it is zero, or too large in base 16. -/
theorem readAsZero_decimal (n : ℤ) :
    ReadAsZero (decimal n) ↔ n = 0 ∨ 2 ^ 64 ≤ hexValue (Nat.toDigits 10 n.natAbs) := by
  have hdigits : ∀ c ∈ Nat.toDigits 10 n.natAbs, isxdigit c = true := fun c hc =>
    isxdigit_of_isDigit (Nat.isDigit_of_mem_toDigits (by omega) (le_refl 10) hc)
  have hreads : Reads (remove0x (decimal n)) (decide (n < 0)) (Nat.toDigits 10 n.natAbs) := by
    unfold decimal
    by_cases hn : n < 0
    · rw [if_pos hn, decide_eq_true hn]
      have hremove : remove0x (['-'] ++ Nat.toDigits 10 n.natAbs) =
          ['-'] ++ Nat.toDigits 10 n.natAbs := by
        unfold remove0x
        rw [if_neg]
        rintro (h | h)
        · cases (List.cons.inj h).1
        · cases (List.cons.inj h).1
      rw [hremove]
      exact reads_signed (Or.inl ⟨rfl, rfl⟩) Nat.toDigits_ne_nil hdigits
    · rw [if_neg hn, decide_eq_false hn, List.nil_append, remove0x_digits hdigits]
      exact reads_signed isSign_nil Nat.toDigits_ne_nil hdigits
  rw [← Int.natAbs_eq_zero, ← hexValue_toDigits_ten]
  constructor
  · exact fun h => h _ _ hreads
  · intro h negative ds hds
    obtain ⟨-, rfl⟩ := hreads.unique hds
    exact h

/-- A text that does not begin like a number reads as zero. -/
theorem readAsZero_of_head {c : Char} {s : Str} (hzero : c ≠ '0') (hplus : c ≠ '+')
    (hminus : c ≠ '-') (hspace : isspace c = false) (hdigit : isxdigit c = false) :
    ReadAsZero (c :: s) := by
  have hremove : remove0x (c :: s) = c :: s := by
    unfold remove0x
    rw [if_neg]
    rintro (h | h)
    · exact hzero (List.cons.inj h).1
    · exact hzero (List.cons.inj h).1
  have hscan : scan16 (c :: s) = (false, []) := by
    have hsign : takeSign (c :: s) = (false, c :: s) := by
      unfold takeSign
      split
      · next heq => exact absurd (List.cons.inj heq).1 hplus
      · next heq => exact absurd (List.cons.inj heq).1 hminus
      · rfl
    have htake : takePrefix (c :: s) = c :: s := by
      unfold takePrefix
      split
      · next heq => exact absurd (List.cons.inj heq).1 hzero
      · rfl
    unfold scan16
    rw [List.dropWhile_cons_of_neg (by simp [hspace]), hsign]
    simp only
    rw [htake, List.takeWhile_cons_of_neg (by simp [hdigit])]
  intro negative ds hds
  rw [hremove, reads_iff, hscan] at hds
  exact absurd (Prod.mk.inj hds.1).2.symm hds.2

/-- **When a malformed balance reads as `"0"`.** -/
theorem balanceWei_zero_iff (balance : Json) :
    ((¬∃ s ds, balance = .string s ∧ IsHex s ds) → balanceWei balance = "0".toList) ↔
      BalanceSafe balance := by
  -- what is no string is no quantity
  have hother : (∀ s, balance ≠ .string s) →
      ((¬∃ s ds, balance = .string s ∧ IsHex s ds) → balanceWei balance = "0".toList) =
        (balanceWei balance = "0".toList) := by
    intro hne
    refine propext ⟨fun h => h ?_, fun h _ => h⟩
    rintro ⟨s, ds, hs, -⟩
    exact hne s hs
  cases balance with
  | null =>
    rw [hother nofun]
    exact iff_of_true (by decide) trivial
  | boolean b =>
    rw [hother nofun]
    cases b with
    | false => exact iff_of_false (by decide) Bool.false_ne_true
    | true => exact iff_of_true (by decide) rfl
  | integer n =>
    rw [hother nofun]
    exact (hexToDecimal_eq_zero_iff _).trans ((readAsZero_decimal n.toInt).trans
      (or_congr_left ⟨fun h => BitVec.eq_of_toInt_eq h, fun h => h ▸ rfl⟩))
  | unsigned n =>
    rw [hother nofun]
    exact (hexToDecimal_eq_zero_iff _).trans ((readAsZero_decimal n.toNat).trans
      (or_congr_left ⟨fun h => BitVec.eq_of_toNat_eq (Int.ofNat.inj h), fun h => h ▸ rfl⟩))
  | float text =>
    rw [hother nofun]
    exact hexToDecimal_eq_zero_iff text
  | array elements =>
    rw [hother nofun]
    -- the text begins with a bracket, which is read as no number
    have hread : ReadAsZero (Json.array elements).dump :=
      readAsZero_of_head (by decide) (by decide) (by decide) (by decide) (by decide)
    exact iff_of_true ((hexToDecimal_eq_zero_iff _).mpr hread) trivial
  | object members =>
    rw [hother nofun]
    have hread : ReadAsZero (Json.object members).dump :=
      readAsZero_of_head (by decide) (by decide) (by decide) (by decide) (by decide)
    exact iff_of_true ((hexToDecimal_eq_zero_iff _).mpr hread) trivial
  | string s =>
    have hquantity : (∃ s' ds, Json.string s = .string s' ∧ IsHex s' ds) ↔ ∃ ds, IsHex s ds := by
      constructor
      · rintro ⟨_, ds, ⟨⟩, hds⟩
        exact ⟨ds, hds⟩
      · exact fun ⟨ds, hds⟩ => ⟨s, ds, rfl, hds⟩
    rw [hquantity, ← or_iff_not_imp_left]
    exact or_congr_right (hexToDecimal_eq_zero_iff s)

/-- A reply of `false` reads as 250 wei, and one of 100 as 256. -/
theorem balanceWei_not_zero :
    ¬((¬∃ s ds, Json.boolean false = .string s ∧ IsHex s ds) →
      balanceWei (.boolean false) = "0".toList) ∧
    balanceWei (.boolean false) = "250".toList ∧ balanceWei (.unsigned 100) = "256".toList := by
  refine ⟨fun h => ?_, by decide, by decide⟩
  exact absurd (h (by rintro ⟨s, ds, hs, -⟩; cases hs)) (by decide)

end BlockchainClient
end IntBlock
