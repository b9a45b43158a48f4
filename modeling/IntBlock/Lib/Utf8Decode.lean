import IntBlock.Lib.Utf8

/-!
# The table that reads UTF-8

A decoder with nine states, the bytes sorted into twelve classes: one table gives the
class of a byte, and the state that follows a state and a class.  Apart from the state
of what has been refused, each state is a list of bounds still to be met.

## Main definitions

* `utf8d` — the table.
* `Decoder` — the state and the code point, as far as it has been read.
* `boundsOf` — the bounds a state stands for.

## Main results

* `boundsOf_decode` — **a byte moves the table as it moves the automaton.**
* `boundsOf_foldl` — so do all bytes of a sequence.
* `decode_encode` — the code point found is the one encoded.
-/

namespace IntBlock
namespace Utf8

/-- The classes of the bytes, and then the states that follow each state, by class. -/
def utf8d : List ℕ := [
  0, 0, 0, 0, 0, 0, 0, 0, 0, 0, 0, 0, 0, 0, 0, 0,
  0, 0, 0, 0, 0, 0, 0, 0, 0, 0, 0, 0, 0, 0, 0, 0,
  0, 0, 0, 0, 0, 0, 0, 0, 0, 0, 0, 0, 0, 0, 0, 0,
  0, 0, 0, 0, 0, 0, 0, 0, 0, 0, 0, 0, 0, 0, 0, 0,
  0, 0, 0, 0, 0, 0, 0, 0, 0, 0, 0, 0, 0, 0, 0, 0,
  0, 0, 0, 0, 0, 0, 0, 0, 0, 0, 0, 0, 0, 0, 0, 0,
  0, 0, 0, 0, 0, 0, 0, 0, 0, 0, 0, 0, 0, 0, 0, 0,
  0, 0, 0, 0, 0, 0, 0, 0, 0, 0, 0, 0, 0, 0, 0, 0,
  1, 1, 1, 1, 1, 1, 1, 1, 1, 1, 1, 1, 1, 1, 1, 1,
  9, 9, 9, 9, 9, 9, 9, 9, 9, 9, 9, 9, 9, 9, 9, 9,
  7, 7, 7, 7, 7, 7, 7, 7, 7, 7, 7, 7, 7, 7, 7, 7,
  7, 7, 7, 7, 7, 7, 7, 7, 7, 7, 7, 7, 7, 7, 7, 7,
  8, 8, 2, 2, 2, 2, 2, 2, 2, 2, 2, 2, 2, 2, 2, 2,
  2, 2, 2, 2, 2, 2, 2, 2, 2, 2, 2, 2, 2, 2, 2, 2,
  10, 3, 3, 3, 3, 3, 3, 3, 3, 3, 3, 3, 3, 4, 3, 3,
  11, 6, 6, 6, 5, 8, 8, 8, 8, 8, 8, 8, 8, 8, 8, 8,
  0, 1, 2, 3, 5, 8, 7, 1, 1, 1, 4, 6, 1, 1, 1, 1,
  1, 1, 1, 1, 1, 1, 1, 1, 1, 1, 1, 1, 1, 1, 1, 1,
  1, 0, 1, 1, 1, 1, 1, 0, 1, 0, 1, 1, 1, 1, 1, 1,
  1, 2, 1, 1, 1, 1, 1, 2, 1, 2, 1, 1, 1, 1, 1, 1,
  1, 1, 1, 1, 1, 1, 1, 2, 1, 1, 1, 1, 1, 1, 1, 1,
  1, 2, 1, 1, 1, 1, 1, 1, 1, 2, 1, 1, 1, 1, 1, 1,
  1, 1, 1, 1, 1, 1, 1, 3, 1, 3, 1, 1, 1, 1, 1, 1,
  1, 3, 1, 1, 1, 1, 1, 3, 1, 3, 1, 1, 1, 1, 1, 1,
  1, 3, 1, 1, 1, 1, 1, 1, 1, 1, 1, 1, 1, 1, 1, 1
]

def utf8Accept : ℕ := 0

def utf8Reject : ℕ := 1

/-- The state, and the code point as far as it has been read: 32 bits. -/
structure Decoder where
  state : ℕ
  codepoint : ℕ
  deriving DecidableEq, Repr

/-- Reads one byte. -/
def decode (d : Decoder) (byte : ℕ) : Decoder :=
  let type := utf8d.getD byte utf8Reject
  { state := utf8d.getD (256 + d.state * 16 + type) utf8Reject
    codepoint :=
      if d.state ≠ utf8Accept then (byte &&& 0x3F) ||| (d.codepoint <<< 6 % 4294967296)
      else (0xFF >>> type) &&& byte }

/-- The bounds of the bytes that are to follow in a state, where there are any. -/
def boundsOf : ℕ → Option (List (ℕ × ℕ))
  | 0 => some []
  | 2 => some [(0x80, 0xBF)]
  | 3 => some [(0x80, 0xBF), (0x80, 0xBF)]
  | 4 => some [(0xA0, 0xBF), (0x80, 0xBF)]
  | 5 => some [(0x80, 0x9F), (0x80, 0xBF)]
  | 6 => some [(0x90, 0xBF), (0x80, 0xBF), (0x80, 0xBF)]
  | 7 => some [(0x80, 0xBF), (0x80, 0xBF), (0x80, 0xBF)]
  | 8 => some [(0x80, 0x8F), (0x80, 0xBF), (0x80, 0xBF)]
  | _ => none

/-! ### Classes and transitions -/

/-- The class of a byte. -/
def byteClass (byte : ℕ) : ℕ :=
  if byte < 0x80 then 0
  else if byte < 0x90 then 1
  else if byte < 0xA0 then 9
  else if byte < 0xC0 then 7
  else if byte < 0xC2 then 8
  else if byte < 0xE0 then 2
  else if byte = 0xE0 then 10
  else if byte = 0xED then 4
  else if byte < 0xF0 then 3
  else if byte = 0xF0 then 11
  else if byte < 0xF4 then 6
  else if byte = 0xF4 then 5
  else 8

/-- The states that follow each state, by class. -/
def rows : List (List ℕ) :=
  [[0, 1, 2, 3, 5, 8, 7, 1, 1, 1, 4, 6], [],
    [1, 0, 1, 1, 1, 1, 1, 0, 1, 0], [1, 2, 1, 1, 1, 1, 1, 2, 1, 2], [1, 1, 1, 1, 1, 1, 1, 2],
    [1, 2, 1, 1, 1, 1, 1, 1, 1, 2], [1, 1, 1, 1, 1, 1, 1, 3, 1, 3],
    [1, 3, 1, 1, 1, 1, 1, 3, 1, 3], [1, 3]]

/-- The state that follows a state and a class, refusal where the row does not say. -/
def next (state type : ℕ) : ℕ := (rows.getD state []).getD type utf8Reject

/-- The table holds the classes and then the transitions, in rows of sixteen. -/
theorem utf8d_eq : utf8d =
    (List.range 256).map byteClass ++ (List.range 144).map fun i => next (i / 16) (i % 16) := by
  decide +kernel

theorem byteClass_lt (byte : ℕ) : byteClass byte < 12 := by
  have hlt : ∀ byte < 0x100, byteClass byte < 12 := by decide +kernel
  rcases Nat.lt_or_ge byte 0x100 with h | h
  · exact hlt byte h
  · unfold byteClass
    rw [if_neg (by omega), if_neg (by omega), if_neg (by omega), if_neg (by omega),
      if_neg (by omega), if_neg (by omega), if_neg (by omega), if_neg (by omega),
      if_neg (by omega), if_neg (by omega), if_neg (by omega), if_neg (by omega)]
    decide

theorem next_lt : ∀ state < 9, ∀ type < 12, next state type < 9 := by decide

theorem utf8d_byte {byte : ℕ} (h : byte < 0x100) : utf8d.getD byte utf8Reject = byteClass byte := by
  rw [utf8d_eq, List.getD_append _ _ _ _ (by simpa using h), List.getD_eq_getElem _ _ (by simpa using h)]
  simp

theorem utf8d_next {state type : ℕ} (hstate : state < 9) (htype : type < 12) :
    utf8d.getD (256 + state * 16 + type) utf8Reject = next state type := by
  have hlen : ((List.range 256).map byteClass).length = 256 := by simp
  rw [utf8d_eq, List.getD_append_right _ _ _ _ (by omega), hlen,
    List.getD_eq_getElem _ _ (by simp; omega)]
  have hrow : (256 + state * 16 + type - 256) / 16 = state := by omega
  have hcolumn : (256 + state * 16 + type - 256) % 16 = type := by omega
  rw [List.getElem_map, List.getElem_range, hrow, hcolumn]

/-- No index is beyond the table. -/
theorem index_lt {state byte : ℕ} (hstate : state < 9) :
    256 + state * 16 + byteClass byte < utf8d.length := by
  have hclass := byteClass_lt byte
  rw [utf8d_eq]
  simp
  omega

/-! ### The table and the automaton -/

theorem decode_state {d : Decoder} {byte : ℕ} (hstate : d.state < 9) (hbyte : byte < 0x100) :
    (decode d byte).state = next d.state (byteClass byte) := by
  unfold decode
  dsimp only
  rw [utf8d_byte hbyte, utf8d_next hstate (byteClass_lt byte)]

theorem decode_state_lt {d : Decoder} {byte : ℕ} (hstate : d.state < 9) (hbyte : byte < 0x100) :
    (decode d byte).state < 9 := by
  rw [decode_state hstate hbyte]
  exact next_lt _ hstate _ (byteClass_lt byte)

/-- **A byte moves the table as it moves the automaton.** -/
theorem boundsOf_decode {d : Decoder} {byte : ℕ} (hstate : d.state < 9) (hbyte : byte < 0x100) :
    boundsOf (decode d byte).state = step (boundsOf d.state) byte := by
  have hnext : ∀ state < 9, ∀ byte < 0x100,
      boundsOf (next state (byteClass byte)) = step (boundsOf state) byte := by decide +kernel
  rw [decode_state hstate hbyte]
  exact hnext _ hstate _ hbyte

theorem foldl_decode_state_lt {bytes : List ℕ} {d : Decoder} (hstate : d.state < 9)
    (hbytes : ∀ b ∈ bytes, b < 0x100) : (bytes.foldl decode d).state < 9 := by
  induction bytes generalizing d with
  | nil => exact hstate
  | cons b bytes ih =>
    rw [List.forall_mem_cons] at hbytes
    exact ih (decode_state_lt hstate hbytes.1) hbytes.2

/-- **The table moves as the automaton** along a sequence. -/
theorem boundsOf_foldl {bytes : List ℕ} {d : Decoder} (hstate : d.state < 9)
    (hbytes : ∀ b ∈ bytes, b < 0x100) :
    boundsOf (bytes.foldl decode d).state = run (boundsOf d.state) bytes := by
  induction bytes generalizing d with
  | nil => rfl
  | cons b bytes ih =>
    rw [List.forall_mem_cons] at hbytes
    rw [List.foldl_cons, ih (decode_state_lt hstate hbytes.1) hbytes.2,
      boundsOf_decode hstate hbytes.1]
    rfl

/-- Between two characters there are no bytes to follow. -/
theorem boundsOf_eq_some_nil {state : ℕ} (h : state < 9) :
    boundsOf state = some [] ↔ state = utf8Accept := by
  revert state
  decide

theorem boundsOf_eq_none {state : ℕ} (h : state < 9) :
    boundsOf state = none ↔ state = utf8Reject := by
  revert state
  decide

/-! ### The code point -/

/-- The bits of a lead byte, by its class. -/
theorem codepoint_lead {d : Decoder} {byte : ℕ} {bounds : List (ℕ × ℕ)} (hd : d.state = utf8Accept)
    (h : follow byte = some bounds) : (decode d byte).codepoint = leadBits byte := by
  have hlt : byte < 0x100 := by
    by_contra hge
    unfold follow at h
    rw [if_neg (by omega), if_neg (by omega), if_neg (by omega), if_neg (by omega),
      if_neg (by omega), if_neg (by omega), if_neg (by omega), if_neg (by omega),
      if_neg (by omega)] at h
    cases h
  have hbits : ∀ byte < 0x100, (follow byte).isSome = true →
      (0xFF >>> byteClass byte) &&& byte = leadBits byte := by decide +kernel
  unfold decode
  dsimp only
  rw [if_neg (by simpa using hd), utf8d_byte hlt]
  exact hbits byte hlt (by rw [h]; rfl)

theorem codepoint_tail {d : Decoder} (byte : ℕ) (hd : d.state ≠ utf8Accept)
    (h : d.codepoint < 2 ^ 26) : (decode d byte).codepoint = 64 * d.codepoint + byte % 64 := by
  have hmod : d.codepoint <<< 6 % 4294967296 = 2 ^ 6 * d.codepoint := by
    rw [Nat.shiftLeft_eq, Nat.mod_eq_of_lt (by omega), mul_comm]
  unfold decode
  dsimp only
  rw [if_pos hd, hmod, show (0x3F : ℕ) = 2 ^ 6 - 1 by rfl, Nat.and_two_pow_sub_one_eq_mod, Nat.lor_comm,
    ← Nat.two_pow_add_eq_or_of_lt (Nat.mod_lt _ (by decide))]

/-- The bytes that are to follow are read into the code point: the bits still free are
enough for them. -/
theorem decode_tail {d : Decoder} {bounds : List (ℕ × ℕ)} {tail : List ℕ} (hstate : d.state < 9)
    (hbounds : boundsOf d.state = some bounds) (htail : InBounds bounds tail)
    (hfree : (d.codepoint + 1) * 64 ^ tail.length ≤ 2 ^ 32) (hlt : ∀ b ∈ tail, b < 0x100) :
    tail.foldl decode d =
      ⟨utf8Accept, tail.foldl (fun v b => 64 * v + b % 64) d.codepoint⟩ := by
  induction htail generalizing d with
  | nil =>
    have haccept := (boundsOf_eq_some_nil hstate).mp hbounds
    rw [List.foldl_nil, List.foldl_nil, ← haccept]
  | @cons r b rs bs hb htail ih =>
    rw [List.forall_mem_cons] at hlt
    have hpending : d.state ≠ utf8Accept := by
      intro hd
      rw [(boundsOf_eq_some_nil hstate).mpr hd] at hbounds
      cases hbounds
    rw [List.length_cons, pow_succ'] at hfree
    have hpos : 1 ≤ 64 ^ bs.length := Nat.one_le_pow _ _ (by decide)
    have hcp : d.codepoint < 2 ^ 26 := by nlinarith
    have hdecode := codepoint_tail b hpending hcp
    have hnext : boundsOf (decode d b).state = some rs := by
      rw [boundsOf_decode hstate hlt.1, hbounds, step, if_pos hb]
    have hmod : b % 64 < 64 := Nat.mod_lt _ (by decide)
    rw [List.foldl_cons, List.foldl_cons, ih (decode_state_lt hstate hlt.1) hnext ?_ hlt.2,
      hdecode]
    rw [hdecode]
    calc (64 * d.codepoint + b % 64 + 1) * 64 ^ bs.length
        ≤ (64 * d.codepoint + 64) * 64 ^ bs.length := Nat.mul_le_mul_right _ (by omega)
      _ = (d.codepoint + 1) * (64 * 64 ^ bs.length) := by ring
      _ ≤ 2 ^ 32 := hfree

/-- **The code point found is the one encoded**, whatever was found before. -/
theorem decode_encode {c : ℕ} (hc : IsScalar c) {d : Decoder} (hd : d.state = utf8Accept) :
    (encode c).foldl decode d = ⟨utf8Accept, c⟩ := by
  obtain ⟨lead, tail, hencode, ⟨bounds, hfollow, htail⟩, hpoint⟩ := sequence_encode hc
  have hlt := (wellFormed_encode hc).lt
  rw [hencode] at hlt ⊢
  rw [List.forall_mem_cons] at hlt
  have hstate : d.state < 9 := by
    rw [hd]
    decide
  have hlead := codepoint_lead hd hfollow
  have hbounds : boundsOf (decode d lead).state = some bounds := by
    rw [boundsOf_decode hstate hlt.1, hd]
    exact hfollow
  have hfree : (leadBits lead + 1) * 64 ^ tail.length ≤ 2 ^ 32 := by
    have hall : ∀ lead < 0x100, (leadBits lead + 1) * 64 ^ ((follow lead).getD []).length ≤
        2 ^ 32 := by decide +kernel
    have hlength := hall lead hlt.1
    rwa [hfollow, Option.getD_some, htail.length_eq] at hlength
  rw [List.foldl_cons, decode_tail (decode_state_lt hstate hlt.1) hbounds htail ?_ hlt.2, hlead]
  · rw [← hpoint]
    rfl
  · rwa [hlead]

end Utf8
end IntBlock
