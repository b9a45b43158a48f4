import IntBlock.Lib.Endian
import IntBlock.Lib.Utf8Decode

/-!
# The validator of text

A validator is given the bytes of a text as they arrive.

## Main definitions

* `Validator`, with `decode`, `complete` — the state of a decoder.
* `validate` — a whole text.
* `Follows v bs` — the validator has been given the bytes `bs`, and has refused none.

## Main results

* `validate_iff` — **a text is valid if it is UTF-8.**
* `Follows.decode_cases`, `Follows.complete_iff` — the same while it arrives.
-/

namespace IntBlock
namespace Websocketpp

open Endian Utf8

abbrev Validator := Decoder

/-- The bytes as the numbers they are. -/
def codes (bs : List Byte) : List ℕ := bs.map BitVec.toNat

namespace Validator

def init : Validator := ⟨utf8Accept, 0⟩

/-- The state after the bytes, and whether none of them has been refused. -/
def decode (v : Validator) : List Byte → Validator × Bool
  | [] => (v, true)
  | b :: bs =>
      let v' := Utf8.decode v b.toNat
      if v'.state = utf8Reject then (v', false) else decode v' bs

def complete (v : Validator) : Bool := v.state = utf8Accept

end Validator

def validate (s : List Byte) : Bool :=
  let r := Validator.init.decode s
  if r.2 = false then false else r.1.complete

/-! ### What has been decoded -/

theorem codes_append (bs bs' : List Byte) : codes (bs ++ bs') = codes bs ++ codes bs' :=
  List.map_append

/-- The bytes begin a text in UTF-8. -/
def BeginsUtf8 (bs : List Byte) : Prop := Utf8.run (some []) (codes bs) ≠ none

/-- The bytes are a text in UTF-8. -/
def IsUtf8 (bs : List Byte) : Prop := WellFormed (codes bs)

theorem IsUtf8.begins {bs : List Byte} (h : IsUtf8 bs) : BeginsUtf8 bs := by
  rw [BeginsUtf8, wellFormed_iff.mp h]
  exact Option.some_ne_none _

/-- A validator that was given `bs`. -/
structure Follows (v : Validator) (bs : List Byte) : Prop where
  state_lt : v.state < 9
  bounds : boundsOf v.state = Utf8.run (some []) (codes bs)
  begins : BeginsUtf8 bs

theorem follows_init : Follows Validator.init [] :=
  ⟨Nat.zero_lt_succ 8, rfl, Option.some_ne_none _⟩

/-- **The bytes decoded so far and those decoded now.** -/
theorem Validator.decode_append (v : Validator) (bs bs' : List Byte) :
    v.decode (bs ++ bs') =
      if (v.decode bs).2 = true then (v.decode bs).1.decode bs' else v.decode bs := by
  induction bs generalizing v with
  | nil => simp [Validator.decode]
  | cons b bs ih =>
    rw [List.cons_append, Validator.decode, Validator.decode]
    by_cases hreject : (Utf8.decode v b.toNat).state = utf8Reject
    · rw [if_pos hreject, if_pos hreject, if_neg (by simp)]
    · rw [if_neg hreject, if_neg hreject, ih]

namespace Follows

variable {v : Validator} {bs : List Byte}

theorem step (h : Follows v bs) (b : Byte) :
    (Utf8.decode v b.toNat).state < 9 ∧ boundsOf (Utf8.decode v b.toNat).state =
      Utf8.run (some []) (codes (bs ++ [b])) := by
  refine ⟨decode_state_lt h.state_lt b.isLt, ?_⟩
  rw [boundsOf_decode h.state_lt b.isLt, h.bounds, codes_append, Utf8.run_append]
  rfl

/-- **No byte is refused as long as the bytes begin a text**, and then the validator has
been given all of them. -/
theorem decode_cases (h : Follows v bs) (bs' : List Byte) :
    (BeginsUtf8 (bs ++ bs') ∧ (v.decode bs').2 = true ∧ Follows (v.decode bs').1 (bs ++ bs')) ∨
    (¬ BeginsUtf8 (bs ++ bs') ∧ (v.decode bs').2 = false) := by
  induction bs' generalizing v bs with
  | nil =>
    left
    rw [List.append_nil]
    exact ⟨h.begins, rfl, h⟩
  | cons b bs' ih =>
    obtain ⟨hlt, hbounds⟩ := h.step b
    rw [Validator.decode]
    by_cases hreject : (Utf8.decode v b.toNat).state = utf8Reject
    · right
      rw [if_pos hreject]
      refine ⟨?_, rfl⟩
      have hnone := (boundsOf_eq_none hlt).mpr hreject
      rw [List.append_cons, BeginsUtf8, codes_append, Utf8.run_append, ← hbounds, hnone, Utf8.run_none]
      exact fun hne => hne rfl
    · rw [if_neg hreject, List.append_cons]
      refine ih ⟨hlt, hbounds, ?_⟩
      rw [BeginsUtf8, ← hbounds]
      intro hnone
      exact hreject ((boundsOf_eq_none hlt).mp hnone)

theorem complete_iff (h : Follows v bs) : v.complete = true ↔ IsUtf8 bs := by
  rw [Validator.complete, decide_eq_true_iff, IsUtf8, wellFormed_iff, ← h.bounds,
    boundsOf_eq_some_nil h.state_lt]

end Follows

/-- **A text is valid if it is UTF-8.** -/
theorem validate_iff (s : List Byte) : validate s = true ↔ IsUtf8 s := by
  unfold validate
  dsimp only
  rcases follows_init.decode_cases s with ⟨-, hok, hfollows⟩ | ⟨hnot, hrefused⟩
  · rw [hok, if_neg (by decide)]
    exact hfollows.complete_iff
  · rw [hrefused, if_pos rfl]
    constructor
    · intro h
      cases h
    · intro h
      exact absurd h.begins hnot

end Websocketpp
end IntBlock
