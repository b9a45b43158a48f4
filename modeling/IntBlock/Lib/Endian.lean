import Mathlib

/-!
# Numbers in memory

The bytes of a number of a fixed width, the lowest one first, and the number that bytes
are in memory.  The order of the network is the other one.

## Main definitions

* `image n x` — the `n` bytes of `x`.
* `value bs` — the number the bytes are.
* `swap n x` — the number whose bytes are those of `x`, backwards.

## Main results

* `value_image`, `image_value` — **bytes and numbers of one width are the same.**
* `image_swap`, `swap_swap` — the two orders.
-/

namespace IntBlock
namespace Endian

abbrev Byte := BitVec 8

def image : ℕ → ℕ → List Byte
  | 0, _ => []
  | n + 1, x => BitVec.ofNat 8 x :: image n (x / 256)

def value : List Byte → ℕ
  | [] => 0
  | b :: bs => b.toNat + 256 * value bs

def swap (n x : ℕ) : ℕ := value (image n x).reverse

@[simp] theorem length_image (n x : ℕ) : (image n x).length = n := by
  induction n generalizing x with
  | zero => rfl
  | succ n ih => simp [image, ih]

theorem value_lt (bs : List Byte) : value bs < 256 ^ bs.length := by
  induction bs with
  | nil => simp [value]
  | cons b bs ih =>
    have hb := b.isLt
    simp only [value, List.length_cons, pow_succ]
    omega

/-- **The bytes of a number are that number**, where there are enough of them. -/
theorem value_image (n x : ℕ) : value (image n x) = x % 256 ^ n := by
  induction n generalizing x with
  | zero => simp [image, value, Nat.mod_one]
  | succ n ih =>
    simp only [image, value, ih, BitVec.toNat_ofNat]
    rw [pow_succ' 256 n, Nat.mod_mul]

theorem value_image_of_lt {n x : ℕ} (h : x < 256 ^ n) : value (image n x) = x := by
  rw [value_image, Nat.mod_eq_of_lt h]

/-- **The number of some bytes has these bytes.** -/
theorem image_value (bs : List Byte) : image bs.length (value bs) = bs := by
  induction bs with
  | nil => rfl
  | cons b bs ih =>
    have hb := b.isLt
    have hhead : BitVec.ofNat 8 (b.toNat + 256 * value bs) = b := by
      apply BitVec.eq_of_toNat_eq
      rw [BitVec.toNat_ofNat]
      omega
    have htail : (b.toNat + 256 * value bs) / 256 = value bs := by omega
    simp only [List.length_cons, image, value, hhead, htail, ih]

theorem image_swap (n x : ℕ) : image n (swap n x) = (image n x).reverse := by
  have h := image_value (image n x).reverse
  rwa [List.length_reverse, length_image] at h

theorem swap_swap {n x : ℕ} (h : x < 256 ^ n) : swap n (swap n x) = x := by
  rw [swap, image_swap, List.reverse_reverse, value_image_of_lt h]

/-- A byte of a number. -/
theorem getElem?_image {n i : ℕ} (h : i < n) (x : ℕ) :
    (image n x)[i]? = some (BitVec.ofNat 8 (x >>> (8 * i))) := by
  induction n generalizing i x with
  | zero => omega
  | succ n ih =>
    cases i with
    | zero => simp [image]
    | succ i =>
      have hshift : (x / 256) >>> (8 * i) = x >>> (8 * (i + 1)) := by
        rw [show 8 * (i + 1) = 8 + 8 * i by ring, Nat.shiftRight_add, Nat.shiftRight_eq_div_pow x 8]
      rw [image, List.getElem?_cons_succ, ih (by omega), hshift]

/-- The highest bytes of a number that fits into fewer are zero. -/
theorem image_add {m x : ℕ} (h : x < 256 ^ m) (n : ℕ) :
    image (m + n) x = image m x ++ List.replicate n 0 := by
  induction m generalizing x with
  | zero =>
    obtain rfl : x = 0 := by simpa using h
    rw [Nat.zero_add]
    induction n with
    | zero => rfl
    | succ n ih => simpa [image, List.replicate_succ] using ih
  | succ m ih =>
    have hx : x / 256 < 256 ^ m := by
      rw [pow_succ] at h
      omega
    rw [show m + 1 + n = m + n + 1 by ring, image, image, ih hx, List.cons_append]

end Endian
end IntBlock
