import IntBlock.Lib.SwapRemove

/-!
# Words, reverts and storage arrays of Solidity

The part of Solidity's semantics a contract over mappings and dynamic arrays
rests on: 256-bit words with checked arithmetic, calls that end in a revert or
a panic, and storage arrays whose length is itself a word.  A mapping is a
total function, zero where nothing was written, and a write to it is
`Function.update`.

## Main definitions

* `Uint256`, `Address` — the value types.
* `Panic`, `Revert` — how a call fails, over a type of custom errors.
* `revertIf` — the guard `if (c) revert E();`.
* `checkedAdd`, `checkedSub` — checked arithmetic.
* `StorageArray` — a dynamic array, with the bound of its length as a field.

## Main results

* `StorageArray.toList_push` — away from the wrap of the length, `push` appends.
* `StorageArray.get_of_getElem?`, `StorageArray.set_of_lt`, `StorageArray.pop_mk_set` —
  when the partial operations do not panic.
-/

namespace IntBlock
namespace Solidity

/-- A word, `uint256`. -/
abbrev Uint256 := BitVec 256

theorem card_uint256 : Fintype.card Uint256 = 2 ^ 256 := by
  rw [← FinEnum.card_eq_fintypeCard]
  rfl

/-- An account, `address`. -/
abbrev Address := BitVec 160

/-! ### How a call fails -/

/-- The panics of checked code. -/
inductive Panic
  /-- `Panic(0x11)`: an arithmetic overflow or underflow. -/
  | arithmetic
  /-- `Panic(0x31)`: `pop()` on an empty array. -/
  | popEmpty
  /-- `Panic(0x32)`: an index past the end of an array. -/
  | outOfBounds
  deriving DecidableEq, Repr

/-- What a failing call hands back: a custom error of the contract, or a panic. -/
inductive Revert (ε : Type)
  | custom (e : ε)
  | panic (p : Panic)
  deriving DecidableEq, Repr

section Guards

variable {ε α : Type}

/-- `if (c) revert E();` -/
def revertIf (c : Prop) [Decidable c] (e : ε) : Except (Revert ε) Unit :=
  if c then .error (.custom e) else .ok ()

@[simp] theorem revertIf_bind (c : Prop) [Decidable c] (e : ε)
    (f : Unit → Except (Revert ε) α) :
    (revertIf c e >>= f) = if c then .error (.custom e) else f () := by
  unfold revertIf
  split <;> rfl

/-- What gets past a guard was not stopped by it. -/
theorem guard_eq_ok {c : Prop} [Decidable c] {e : Revert ε} {x : Except (Revert ε) α} {a : α} :
    (if c then .error e else x) = .ok a ↔ ¬c ∧ x = .ok a := by
  by_cases hc : c
  · rw [if_pos hc]
    exact iff_of_false nofun fun h => h.1 hc
  · rw [if_neg hc]
    exact (and_iff_right hc).symm

@[simp] theorem ok_bind {β : Type} (a : α) (f : α → Except (Revert ε) β) :
    (Except.ok a >>= f) = f a := rfl

@[simp] theorem error_bind {β : Type} (e : Revert ε) (f : α → Except (Revert ε) β) :
    (Except.error e >>= f) = .error e := rfl

/-- `a + b` in checked code. -/
def checkedAdd (a b : Uint256) : Except (Revert ε) Uint256 :=
  if a.toNat + b.toNat < 2 ^ 256 then .ok (a + b) else .error (.panic .arithmetic)

/-- `a - b` in checked code. -/
def checkedSub (a b : Uint256) : Except (Revert ε) Uint256 :=
  if b.toNat ≤ a.toNat then .ok (a - b) else .error (.panic .arithmetic)

end Guards

/-! ### Storage arrays -/

/-- A dynamic storage array: the entries below its length.  The length is a
word, so there are fewer than `2 ^ 256` of them. -/
structure StorageArray (α : Type) where
  toList : List α
  length_lt : toList.length < 2 ^ 256

namespace StorageArray

variable {α ε : Type}

@[ext] theorem ext {xs ys : StorageArray α} (h : xs.toList = ys.toList) : xs = ys := by
  cases xs
  cases ys
  cases h
  rfl

/-- The array of an unwritten slot. -/
def empty : StorageArray α := ⟨[], by simp⟩

instance : Inhabited (StorageArray α) := ⟨empty⟩

/-- `xs.length` -/
def length (xs : StorageArray α) : Uint256 := BitVec.ofNat 256 xs.toList.length

@[simp] theorem toNat_length (xs : StorageArray α) : xs.length.toNat = xs.toList.length := by
  rw [length, BitVec.toNat_ofNat, Nat.mod_eq_of_lt xs.length_lt]

/-- `xs.push(x)`: the length word is incremented without a check, so that a
push at length `2 ^ 256 - 1` leaves an array of length zero. -/
def push (xs : StorageArray α) (x : α) : StorageArray α :=
  if h : (xs.toList ++ [x]).length < 2 ^ 256 then ⟨xs.toList ++ [x], h⟩ else empty

theorem toList_push {xs : StorageArray α} {x : α} (h : xs.toList.length + 1 < 2 ^ 256) :
    (xs.push x).toList = xs.toList ++ [x] := by
  have h' : (xs.toList ++ [x]).length < 2 ^ 256 := by simpa using h
  rw [push, dif_pos h']

/-- `xs[i]`, read. -/
def get (xs : StorageArray α) (i : Uint256) : Except (Revert ε) α :=
  match xs.toList[i.toNat]? with
  | some x => .ok x
  | none => .error (.panic .outOfBounds)

theorem get_of_getElem? {xs : StorageArray α} {i : Uint256} {x : α}
    (h : xs.toList[i.toNat]? = some x) : (xs.get i : Except (Revert ε) α) = .ok x := by
  rw [get, h]

/-- `xs[i] = x` -/
def set (xs : StorageArray α) (i : Uint256) (x : α) : Except (Revert ε) (StorageArray α) :=
  if i.toNat < xs.toList.length then
    .ok ⟨xs.toList.set i.toNat x, by simpa using xs.length_lt⟩
  else .error (.panic .outOfBounds)

theorem set_of_lt {xs : StorageArray α} {i : Uint256} (x : α) (h : i.toNat < xs.toList.length) :
    (xs.set i x : Except (Revert ε) (StorageArray α)) =
      .ok ⟨xs.toList.set i.toNat x, by simpa using xs.length_lt⟩ := by
  rw [set, if_pos h]

/-- `xs.pop()` -/
def pop (xs : StorageArray α) : Except (Revert ε) (StorageArray α) :=
  if xs.toList = [] then .error (.panic .popEmpty)
  else .ok ⟨xs.toList.dropLast, by have := xs.length_lt; simp; omega⟩

/-- The idiom `xs[i] = xs[xs.length - 1]; xs.pop()`, as one step. -/
def swapRemove (xs : StorageArray α) (i : Uint256) : StorageArray α :=
  ⟨xs.toList.swapRemove i.toNat, by
    have := xs.length_lt
    rw [List.length_swapRemove]
    omega⟩

@[simp] theorem toList_swapRemove (xs : StorageArray α) (i : Uint256) :
    (xs.swapRemove i).toList = xs.toList.swapRemove i.toNat := rfl

/-- `xs.length - 1` does not underflow where there is a last entry. -/
theorem checkedSub_length {xs : StorageArray α} (hxs : xs.toList ≠ []) :
    (checkedSub xs.length 1 : Except (Revert ε) Uint256) =
      .ok (BitVec.ofNat 256 (xs.toList.length - 1)) := by
  have hpos : 0 < xs.toList.length := List.length_pos_iff.mpr hxs
  have hlt := xs.length_lt
  have hle : (1 : Uint256).toNat ≤ xs.length.toNat := by
    rw [toNat_length]
    exact hpos
  rw [checkedSub, if_pos hle]
  congr 1
  apply BitVec.eq_of_toNat_eq
  rw [BitVec.toNat_sub_of_le hle, toNat_length, BitVec.toNat_ofNat, Nat.mod_eq_of_lt (by omega)]
  rfl

/-- The last entry is read without a panic. -/
theorem get_last {xs : StorageArray α} {x : α} (hx : xs.toList.getLast? = some x) :
    (xs.get (BitVec.ofNat 256 (xs.toList.length - 1)) : Except (Revert ε) α) = .ok x := by
  have hlt := xs.length_lt
  apply get_of_getElem?
  rw [BitVec.toNat_ofNat, Nat.mod_eq_of_lt (by omega), ← List.getLast?_eq_getElem?]
  exact hx

/-- Dropping the last slot after the last entry was written over another. -/
theorem pop_mk_set {xs : StorageArray α} {x : α} (hx : xs.toList.getLast? = some x) (i : Uint256)
    (h : (xs.toList.set i.toNat x).length < 2 ^ 256) :
    ((mk (xs.toList.set i.toNat x) h).pop : Except (Revert ε) (StorageArray α)) =
      .ok (xs.swapRemove i) := by
  have hne : xs.toList.set i.toNat x ≠ [] := by
    intro hnil
    rw [List.set_eq_nil_iff] at hnil
    rw [hnil] at hx
    cases hx
  rw [pop, if_neg hne]
  congr 1
  apply ext
  rw [toList_swapRemove, List.swapRemove_of_getLast? hx]

end StorageArray

end Solidity
end IntBlock
