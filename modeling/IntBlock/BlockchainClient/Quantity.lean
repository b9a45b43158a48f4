import IntBlock.Lib.Cpp

/-!
# Hexadecimal quantities

Numbers come from the node as hexadecimal strings.  Both functions that read
one, `format_timestamp` and `hexToDecimal`, first remove a prefix `0x` and then
call `std::stoull`, which accepts much more than digits.

## Main definitions

* `remove0x` — the removal of the prefix.
* `IsHex s ds` — `s` is an optional prefix and the digits `ds`, and nothing else.

## Main results

* `IsHex.reads` — **what `std::stoull` reads of such a string is its digits.**
-/

namespace IntBlock
namespace BlockchainClient

open Cpp

/-- `if (hex.substr(0, 2) == "0x" || hex.substr(0, 2) == "0X") hex = hex.substr(2);` -/
def remove0x (hex : Str) : Str :=
  if hex.take 2 = "0x".toList ∨ hex.take 2 = "0X".toList then hex.drop 2 else hex

/-- The string is an optional prefix `0x` or `0X` followed by one or more
hexadecimal digits, `ds`, and nothing else. -/
def IsHex (s ds : Str) : Prop :=
  ds ≠ [] ∧ (∀ c ∈ ds, isxdigit c = true) ∧ ∃ pre, IsPrefix pre ∧ s = pre ++ ds

/-- A string of digits begins with no prefix. -/
theorem remove0x_digits {ds : Str} (hds : ∀ c ∈ ds, isxdigit c = true) : remove0x ds = ds := by
  unfold remove0x
  rw [if_neg]
  -- the second character would be a prefix letter
  have hsecond : ∀ c, ds.take 2 = ['0', c] → isxdigit c = true := by
    intro c hc
    refine hds c (List.mem_of_mem_take (i := 2) ?_)
    rw [hc]
    exact List.mem_cons_of_mem _ (List.mem_singleton_self c)
  rintro (hx | hX)
  · exact absurd (hsecond 'x' hx) (by decide)
  · exact absurd (hsecond 'X' hX) (by decide)

theorem IsHex.remove0x_eq {s ds : Str} (h : IsHex s ds) : remove0x s = ds := by
  obtain ⟨-, hdigits, pre, hpre, rfl⟩ := h
  rcases hpre with rfl | rfl | rfl
  · exact remove0x_digits hdigits
  · rfl
  · rfl

/-- **What `std::stoull` reads of a quantity** is all of its digits. -/
theorem IsHex.reads {s ds : Str} (h : IsHex s ds) : Reads (remove0x s) false ds := by
  rw [h.remove0x_eq]
  exact reads_signed isSign_nil h.1 h.2.1

end BlockchainClient
end IntBlock
