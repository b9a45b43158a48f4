import Mathlib

/-!
# UTF-8

Scalar values and their encoding, and the automaton that reads well-formed byte
sequences from the left: between two characters it accepts a lead byte, which
fixes the bounds of the bytes to follow.

## Main definitions

* `encode` — the bytes of a scalar value.
* `WellFormed` — encodings one after another.
* `follow` — the bounds of the bytes that follow a lead byte.
* `run` — the automaton; its state is the list of the bounds still to be met.
* `Begins` — a character of which bytes are missing.

## Main results

* `sequence_encode`, `exists_encode_eq` — **the sequences the bounds allow are the
  encodings of the scalar values.**
* `wellFormed_iff` — **the automaton ends between two characters exactly on the
  well-formed sequences.**
* `run_eq_none_iff` — it refuses a sequence as soon as no well-formed one begins with it.
-/

namespace IntBlock
namespace Utf8

/-- A code point that is not a surrogate. -/
def IsScalar (c : ℕ) : Prop := c < 0xD800 ∨ (0xE000 ≤ c ∧ c < 0x110000)

instance : DecidablePred IsScalar := fun _ => inferInstanceAs (Decidable (_ ∨ _))

def encode (c : ℕ) : List ℕ :=
  if c < 0x80 then [c]
  else if c < 0x800 then [0xC0 + c / 64, 0x80 + c % 64]
  else if c < 0x10000 then [0xE0 + c / 4096, 0x80 + c / 64 % 64, 0x80 + c % 64]
  else [0xF0 + c / 262144, 0x80 + c / 4096 % 64, 0x80 + c / 64 % 64, 0x80 + c % 64]

/-- Scalar values encoded one after another. -/
def WellFormed (bs : List ℕ) : Prop := ∃ cs : List ℕ, (∀ c ∈ cs, IsScalar c) ∧ bs = cs.flatMap encode

/-! ### Sequences -/

/-- The bounds of the bytes that follow a lead byte, where it is one. -/
def follow (lead : ℕ) : Option (List (ℕ × ℕ)) :=
  if lead < 0x80 then some []
  else if lead < 0xC2 then none
  else if lead < 0xE0 then some [(0x80, 0xBF)]
  else if lead = 0xE0 then some [(0xA0, 0xBF), (0x80, 0xBF)]
  else if lead = 0xED then some [(0x80, 0x9F), (0x80, 0xBF)]
  else if lead < 0xF0 then some [(0x80, 0xBF), (0x80, 0xBF)]
  else if lead = 0xF0 then some [(0x90, 0xBF), (0x80, 0xBF), (0x80, 0xBF)]
  else if lead < 0xF4 then some [(0x80, 0xBF), (0x80, 0xBF), (0x80, 0xBF)]
  else if lead = 0xF4 then some [(0x80, 0x8F), (0x80, 0xBF), (0x80, 0xBF)]
  else none

/-- Each byte is between its bounds. -/
def InBounds (bounds : List (ℕ × ℕ)) (bs : List ℕ) : Prop :=
  List.Forall₂ (fun r b => r.1 ≤ b ∧ b ≤ r.2) bounds bs

/-- A lead byte with the bytes it asks for. -/
def Sequence (lead : ℕ) (tail : List ℕ) : Prop :=
  ∃ bounds, follow lead = some bounds ∧ InBounds bounds tail

/-- The bits a lead byte contributes. -/
def leadBits (lead : ℕ) : ℕ :=
  if lead < 0x80 then lead
  else if lead < 0xE0 then lead - 0xC0
  else if lead < 0xF0 then lead - 0xE0
  else lead - 0xF0

/-- The code point of a sequence. -/
def codePoint (lead : ℕ) (tail : List ℕ) : ℕ :=
  tail.foldl (fun v b => 64 * v + b % 64) (leadBits lead)

theorem inBounds_nil {bs : List ℕ} : InBounds [] bs ↔ bs = [] := List.forall₂_nil_left_iff

theorem inBounds_cons {r : ℕ × ℕ} {rs : List (ℕ × ℕ)} {bs : List ℕ} :
    InBounds (r :: rs) bs ↔
      ∃ b bs', bs = b :: bs' ∧ (r.1 ≤ b ∧ b ≤ r.2) ∧ InBounds rs bs' := by
  rw [InBounds, List.forall₂_cons_left_iff]
  constructor
  · rintro ⟨b, bs', hb, hbs, rfl⟩
    exact ⟨b, bs', rfl, hb, hbs⟩
  · rintro ⟨b, bs', rfl, hb, hbs⟩
    exact ⟨b, bs', hb, hbs, rfl⟩

theorem inBounds_cons_cons {r : ℕ × ℕ} {rs : List (ℕ × ℕ)} {b : ℕ} {bs : List ℕ} :
    InBounds (r :: rs) (b :: bs) ↔ (r.1 ≤ b ∧ b ≤ r.2) ∧ InBounds rs bs :=
  List.forall₂_cons

/-- **An encoding is a sequence**, and its code point is the value encoded. -/
theorem sequence_encode {c : ℕ} (hc : IsScalar c) :
    ∃ lead tail, encode c = lead :: tail ∧ Sequence lead tail ∧ codePoint lead tail = c := by
  unfold IsScalar at hc
  by_cases h1 : c < 0x80
  · refine ⟨c, [], if_pos h1, ⟨[], if_pos h1, List.Forall₂.nil⟩, ?_⟩
    simp only [codePoint, leadBits, List.foldl_nil, if_pos h1]
  by_cases h2 : c < 0x800
  · refine ⟨0xC0 + c / 64, [0x80 + c % 64], ?_, ⟨[(0x80, 0xBF)], ?_, ?_⟩, ?_⟩
    · simp only [encode, if_neg h1, if_pos h2]
    · unfold follow
      rw [if_neg (by omega), if_neg (by omega), if_pos (by omega)]
    · simp only [inBounds_cons_cons, inBounds_nil, and_true]
      omega
    · have hlead : leadBits (0xC0 + c / 64) = c / 64 := by
        unfold leadBits
        rw [if_neg (by omega), if_pos (by omega)]
        omega
      simp only [codePoint, List.foldl_cons, List.foldl_nil, hlead]
      omega
  by_cases h3 : c < 0x10000
  · refine ⟨0xE0 + c / 4096, [0x80 + c / 64 % 64, 0x80 + c % 64], ?_, ?_, ?_⟩
    · simp only [encode, if_neg h1, if_neg h2, if_pos h3]
    · -- the first and the last row with three bytes have bounds of their own
      by_cases hE0 : c / 4096 = 0
      · refine ⟨[(0xA0, 0xBF), (0x80, 0xBF)], ?_, ?_⟩
        · rw [hE0]
          rfl
        · simp only [inBounds_cons_cons, inBounds_nil, and_true]
          omega
      by_cases hED : c / 4096 = 13
      · refine ⟨[(0x80, 0x9F), (0x80, 0xBF)], ?_, ?_⟩
        · rw [hED]
          rfl
        · simp only [inBounds_cons_cons, inBounds_nil, and_true]
          omega
      · refine ⟨[(0x80, 0xBF), (0x80, 0xBF)], ?_, ?_⟩
        · unfold follow
          rw [if_neg (by omega), if_neg (by omega), if_neg (by omega), if_neg (by omega),
            if_neg (by omega), if_pos (by omega)]
        · simp only [inBounds_cons_cons, inBounds_nil, and_true]
          omega
    · have hlead : leadBits (0xE0 + c / 4096) = c / 4096 := by
        unfold leadBits
        rw [if_neg (by omega), if_neg (by omega), if_pos (by omega)]
        omega
      simp only [codePoint, List.foldl_cons, List.foldl_nil, hlead]
      omega
  · refine ⟨0xF0 + c / 262144, [0x80 + c / 4096 % 64, 0x80 + c / 64 % 64, 0x80 + c % 64],
      ?_, ?_, ?_⟩
    · simp only [encode, if_neg h1, if_neg h2, if_neg h3]
    · -- so have the first and the last row with four
      by_cases hF0 : c / 262144 = 0
      · refine ⟨[(0x90, 0xBF), (0x80, 0xBF), (0x80, 0xBF)], ?_, ?_⟩
        · rw [hF0]
          rfl
        · simp only [inBounds_cons_cons, inBounds_nil, and_true]
          omega
      by_cases hF4 : c / 262144 = 4
      · refine ⟨[(0x80, 0x8F), (0x80, 0xBF), (0x80, 0xBF)], ?_, ?_⟩
        · rw [hF4]
          rfl
        · simp only [inBounds_cons_cons, inBounds_nil, and_true]
          omega
      · refine ⟨[(0x80, 0xBF), (0x80, 0xBF), (0x80, 0xBF)], ?_, ?_⟩
        · unfold follow
          rw [if_neg (by omega), if_neg (by omega), if_neg (by omega), if_neg (by omega),
            if_neg (by omega), if_neg (by omega), if_neg (by omega), if_pos (by omega)]
        · simp only [inBounds_cons_cons, inBounds_nil, and_true]
          omega
    · have hlead : leadBits (0xF0 + c / 262144) = c / 262144 := by
        unfold leadBits
        rw [if_neg (by omega), if_neg (by omega), if_neg (by omega)]
        omega
      simp only [codePoint, List.foldl_cons, List.foldl_nil, hlead]
      omega

/-- **A sequence is an encoding**, of its code point. -/
theorem exists_encode_eq {lead : ℕ} {tail : List ℕ} (h : Sequence lead tail) :
    ∃ c, IsScalar c ∧ encode c = lead :: tail := by
  obtain ⟨bounds, hfollow, hbounds⟩ := h
  unfold follow at hfollow
  split_ifs at hfollow with h1 h2 h3 h4 h5 h6 h7 h8 h9
  -- one byte
  · obtain rfl := Option.some.inj hfollow
    rw [inBounds_nil] at hbounds
    subst hbounds
    exact ⟨lead, Or.inl (by omega), if_pos h1⟩
  -- two bytes
  · obtain rfl := Option.some.inj hfollow
    obtain ⟨b, bs, rfl, hb, hbs⟩ := inBounds_cons.mp hbounds
    rw [inBounds_nil] at hbs
    subst hbs
    simp only at hb
    refine ⟨64 * (lead - 0xC0) + (b - 0x80), Or.inl (by omega), ?_⟩
    simp only [encode]
    rw [if_neg (by omega), if_pos (by omega)]
    simp only [List.cons.injEq, and_true]
    omega
  -- three bytes
  iterate 3
    obtain rfl := Option.some.inj hfollow
    obtain ⟨b, bs, rfl, hb, hbs⟩ := inBounds_cons.mp hbounds
    obtain ⟨b', bs', rfl, hb', hbs'⟩ := inBounds_cons.mp hbs
    rw [inBounds_nil] at hbs'
    subst hbs'
    simp only at hb hb'
    refine ⟨4096 * (lead - 0xE0) + 64 * (b - 0x80) + (b' - 0x80), ?_, ?_⟩
    · unfold IsScalar
      omega
    · simp only [encode]
      rw [if_neg (by omega), if_neg (by omega), if_pos (by omega)]
      simp only [List.cons.injEq, and_true]
      omega
  -- four bytes
  all_goals
    obtain rfl := Option.some.inj hfollow
    obtain ⟨b, bs, rfl, hb, hbs⟩ := inBounds_cons.mp hbounds
    obtain ⟨b', bs', rfl, hb', hbs'⟩ := inBounds_cons.mp hbs
    obtain ⟨b'', bs'', rfl, hb'', hbs''⟩ := inBounds_cons.mp hbs'
    rw [inBounds_nil] at hbs''
    subst hbs''
    simp only at hb hb' hb''
    refine ⟨262144 * (lead - 0xF0) + 4096 * (b - 0x80) + 64 * (b' - 0x80) + (b'' - 0x80), ?_, ?_⟩
    · unfold IsScalar
      omega
    · simp only [encode]
      rw [if_neg (by omega), if_neg (by omega), if_neg (by omega)]
      simp only [List.cons.injEq, and_true]
      omega

/-! ### Well-formed sequences -/

theorem wellFormed_nil : WellFormed [] := ⟨[], nofun, rfl⟩

theorem wellFormed_encode_append {c : ℕ} {bs : List ℕ} (hc : IsScalar c) (hbs : WellFormed bs) :
    WellFormed (encode c ++ bs) := by
  obtain ⟨cs, hcs, rfl⟩ := hbs
  exact ⟨c :: cs, List.forall_mem_cons.mpr ⟨hc, hcs⟩, List.flatMap_cons.symm⟩

theorem wellFormed_append {bs bs' : List ℕ} (h : WellFormed bs) (h' : WellFormed bs') :
    WellFormed (bs ++ bs') := by
  obtain ⟨cs, hcs, rfl⟩ := h
  obtain ⟨cs', hcs', rfl⟩ := h'
  refine ⟨cs ++ cs', fun c hc => ?_, List.flatMap_append.symm⟩
  rcases List.mem_append.mp hc with hc | hc
  · exact hcs c hc
  · exact hcs' c hc

theorem wellFormed_encode {c : ℕ} (hc : IsScalar c) : WellFormed (encode c) := by
  simpa only [List.append_nil] using wellFormed_encode_append hc wellFormed_nil

/-- A well-formed sequence is read one character after another. -/
@[elab_as_elim]
theorem WellFormed.induction {motive : (bs : List ℕ) → WellFormed bs → Prop}
    (nil : motive [] wellFormed_nil)
    (cons : ∀ c bs (hc : IsScalar c) (hbs : WellFormed bs), motive bs hbs →
      motive (encode c ++ bs) (wellFormed_encode_append hc hbs))
    {bs : List ℕ} (h : WellFormed bs) : motive bs h := by
  obtain ⟨cs, hcs, rfl⟩ := id h
  induction cs with
  | nil => exact nil
  | cons c cs ih =>
    rw [List.forall_mem_cons] at hcs
    have hbs : WellFormed (cs.flatMap encode) := ⟨cs, hcs.2, rfl⟩
    exact cons c _ hcs.1 hbs (ih hcs.2 hbs)

theorem encode_of_lt {c : ℕ} (hc : c < 0x80) : encode c = [c] := if_pos hc

theorem isScalar_of_lt {c : ℕ} (hc : c < 0x80) : IsScalar c := Or.inl (by omega)

theorem wellFormed_of_forall_lt {bs : List ℕ} (h : ∀ b ∈ bs, b < 0x80) : WellFormed bs := by
  induction bs with
  | nil => exact wellFormed_nil
  | cons b bs ih =>
    rw [List.forall_mem_cons] at h
    have hb := wellFormed_encode_append (isScalar_of_lt h.1) (ih h.2)
    rwa [encode_of_lt h.1] at hb

/-- Every byte of a character beyond ASCII is at least `0x80`, and below `0x100`. -/
theorem encode_bounds {c : ℕ} (hc : IsScalar c) (hge : 0x80 ≤ c) :
    ∀ b ∈ encode c, 0x80 ≤ b ∧ b < 0x100 := by
  intro b hb
  unfold IsScalar at hc
  unfold encode at hb
  rw [if_neg (by omega)] at hb
  split_ifs at hb
  · simp only [List.mem_cons, List.not_mem_nil, or_false] at hb
    omega
  · simp only [List.mem_cons, List.not_mem_nil, or_false] at hb
    omega
  · simp only [List.mem_cons, List.not_mem_nil, or_false] at hb
    omega

/-- Bytes are bytes. -/
theorem WellFormed.lt {bs : List ℕ} (h : WellFormed bs) : ∀ b ∈ bs, b < 0x100 := by
  induction h using WellFormed.induction with
  | nil => exact nofun
  | cons c bs hc hbs ih =>
    intro b hb
    rcases List.mem_append.mp hb with hb | hb
    · by_cases hlt : c < 0x80
      · rw [encode_of_lt hlt, List.mem_singleton] at hb
        omega
      · exact (encode_bounds hc (by omega) b hb).2
    · exact ih b hb

/-! ### The automaton -/

/-- The automaton reads one byte.  Its state is the list of the bounds of the bytes
that are to follow; `none` when it has refused a byte. -/
def step : Option (List (ℕ × ℕ)) → ℕ → Option (List (ℕ × ℕ))
  | none, _ => none
  | some [], b => follow b
  | some (r :: rs), b => if r.1 ≤ b ∧ b ≤ r.2 then some rs else none

def run (state : Option (List (ℕ × ℕ))) (bs : List ℕ) : Option (List (ℕ × ℕ)) :=
  bs.foldl step state

theorem run_append (state : Option (List (ℕ × ℕ))) (bs bs' : List ℕ) :
    run state (bs ++ bs') = run (run state bs) bs' := List.foldl_append

theorem run_none (bs : List ℕ) : run none bs = none := by
  induction bs with
  | nil => rfl
  | cons b bs ih => exact ih

/-- The bytes asked for bring the automaton back between two characters. -/
theorem run_inBounds {bounds : List (ℕ × ℕ)} {bs : List ℕ} (h : InBounds bounds bs) :
    run (some bounds) bs = some [] := by
  induction h with
  | nil => rfl
  | cons hb _ ih =>
    rw [run, List.foldl_cons, step, if_pos hb]
    exact ih

theorem run_sequence {lead : ℕ} {tail : List ℕ} (h : Sequence lead tail) :
    run (some []) (lead :: tail) = some [] := by
  obtain ⟨bounds, hfollow, hbounds⟩ := h
  rw [run, List.foldl_cons, step, hfollow]
  exact run_inBounds hbounds

theorem run_encode {c : ℕ} (hc : IsScalar c) : run (some []) (encode c) = some [] := by
  obtain ⟨lead, tail, hencode, hseq, -⟩ := sequence_encode hc
  rw [hencode]
  exact run_sequence hseq

/-- What an accepted sequence begins with, where bytes are to follow. -/
theorem exists_inBounds {bounds : List (ℕ × ℕ)} {bs : List ℕ}
    (h : run (some bounds) bs = some []) :
    ∃ tail bs', bs = tail ++ bs' ∧ InBounds bounds tail ∧ run (some []) bs' = some [] := by
  induction bounds generalizing bs with
  | nil => exact ⟨[], bs, rfl, List.Forall₂.nil, h⟩
  | cons r rs ih =>
    cases bs with
    | nil => cases h
    | cons b bs =>
      rw [run, List.foldl_cons, step] at h
      by_cases hb : r.1 ≤ b ∧ b ≤ r.2
      · rw [if_pos hb] at h
        obtain ⟨tail, bs', rfl, htail, hrun⟩ := ih h
        exact ⟨b :: tail, bs', rfl, List.Forall₂.cons hb htail, hrun⟩
      · rw [if_neg hb] at h
        exact absurd ((run_none bs).symm.trans h) nofun

/-- **The automaton ends between two characters exactly on the well-formed
sequences.** -/
theorem wellFormed_iff {bs : List ℕ} : WellFormed bs ↔ run (some []) bs = some [] := by
  constructor
  · intro h
    induction h using WellFormed.induction with
    | nil => rfl
    | cons c bs hc _ ih => rw [run_append, run_encode hc, ih]
  · intro h
    -- by induction on the length: a lead byte, its bytes, and the rest
    induction hn : bs.length using Nat.strong_induction_on generalizing bs with
    | _ n ih =>
      cases bs with
      | nil => exact wellFormed_nil
      | cons lead bs =>
        rw [run, List.foldl_cons, step] at h
        cases hfollow : follow lead with
        | none =>
          rw [hfollow] at h
          exact absurd ((run_none bs).symm.trans h) nofun
        | some bounds =>
          rw [hfollow] at h
          obtain ⟨tail, bs', rfl, htail, hrun⟩ := exists_inBounds h
          obtain ⟨c, hc, hencode⟩ := exists_encode_eq ⟨bounds, hfollow, htail⟩
          have hlen : bs'.length < n := by
            rw [← hn, List.length_cons, List.length_append]
            omega
          have hrest : WellFormed bs' := ih bs'.length hlen hrun rfl
          have hwhole := wellFormed_encode_append hc hrest
          rwa [hencode] at hwhole

instance : DecidablePred WellFormed := fun _ => decidable_of_iff _ wellFormed_iff.symm

/-! ### Incomplete characters -/

/-- A lead byte with some of the bytes it asks for; `bounds` are those of the others. -/
def Begins (bs : List ℕ) (bounds : List (ℕ × ℕ)) : Prop :=
  ∃ lead met tail, bs = lead :: tail ∧ follow lead = some (met ++ bounds) ∧ InBounds met tail

theorem begins_singleton {b : ℕ} {bounds : List (ℕ × ℕ)} (h : follow b = some bounds) :
    Begins [b] bounds := ⟨b, [], [], rfl, h, List.Forall₂.nil⟩

theorem Begins.concat {bs : List ℕ} {r : ℕ × ℕ} {bounds : List (ℕ × ℕ)} {b : ℕ}
    (h : Begins bs (r :: bounds)) (hb : r.1 ≤ b ∧ b ≤ r.2) : Begins (bs ++ [b]) bounds := by
  obtain ⟨lead, met, tail, rfl, hfollow, htail⟩ := h
  refine ⟨lead, met ++ [r], tail ++ [b], rfl, ?_, ?_⟩
  · rw [hfollow, List.append_assoc, List.singleton_append]
  · exact List.rel_append htail (List.Forall₂.cons hb List.Forall₂.nil)

theorem Begins.run_eq {bs : List ℕ} {bounds : List (ℕ × ℕ)} (h : Begins bs bounds) :
    run (some []) bs = some bounds := by
  obtain ⟨lead, met, tail, rfl, hfollow, htail⟩ := h
  have hmet : run (some (met ++ bounds)) tail = some bounds := by
    clear hfollow
    induction htail with
    | nil => rfl
    | cons hb _ ih =>
      rw [run, List.foldl_cons, List.cons_append, step, if_pos hb]
      exact ih
  rw [run, List.foldl_cons, step, hfollow]
  exact hmet

/-- With all its bytes it is a character. -/
theorem Begins.exists_encode_eq {bs : List ℕ} (h : Begins bs []) :
    ∃ c, IsScalar c ∧ encode c = bs := by
  obtain ⟨lead, met, tail, rfl, hfollow, htail⟩ := h
  rw [List.append_nil] at hfollow
  exact Utf8.exists_encode_eq ⟨met, hfollow, htail⟩

theorem follow_cases {lead : ℕ} {bounds : List (ℕ × ℕ)} (h : follow lead = some bounds) :
    bounds.length ≤ 3 ∧ (∀ r ∈ bounds, r.1 ≤ r.2) ∧ (bounds = [] → lead < 0x80) := by
  unfold follow at h
  split_ifs at h
  all_goals
    obtain rfl := Option.some.inj h
    simp
  assumption

theorem Begins.length_le {bs : List ℕ} {bounds : List (ℕ × ℕ)} (h : Begins bs bounds) :
    bs.length + bounds.length ≤ 4 := by
  obtain ⟨lead, met, tail, rfl, hfollow, htail⟩ := h
  have hlength := (follow_cases hfollow).1
  rw [List.length_append, htail.length_eq] at hlength
  rw [List.length_cons]
  omega

/-- The bytes still asked for exist. -/
theorem exists_inBounds_of_run {bs : List ℕ} {state bounds : List (ℕ × ℕ)}
    (hstate : ∀ r ∈ state, r.1 ≤ r.2) (h : run (some state) bs = some bounds) :
    ∀ r ∈ bounds, r.1 ≤ r.2 := by
  induction bs generalizing state with
  | nil =>
    obtain rfl := Option.some.inj h
    exact hstate
  | cons b bs ih =>
    rw [run, List.foldl_cons] at h
    cases hstep : step (some state) b with
    | none =>
      rw [hstep] at h
      exact absurd ((run_none bs).symm.trans h) nofun
    | some state' =>
      rw [hstep] at h
      refine ih ?_ h
      cases state with
      | nil => exact (follow_cases hstep).2.1
      | cons r state =>
        rw [step] at hstep
        split_ifs at hstep
        obtain rfl := Option.some.inj hstep
        exact (List.forall_mem_cons.mp hstate).2

/-- **The automaton refuses a sequence as soon as no well-formed one begins with it.** -/
theorem run_eq_none_iff {bs : List ℕ} :
    run (some []) bs = none ↔ ∀ bs', ¬ WellFormed (bs ++ bs') := by
  constructor
  · intro h bs' hwf
    rw [wellFormed_iff, run_append, h, run_none] at hwf
    cases hwf
  · intro h
    cases hrun : run (some []) bs with
    | none => rfl
    | some bounds =>
      have hbounds := exists_inBounds_of_run (List.forall_mem_nil _) hrun
      have hmet : InBounds bounds (bounds.map Prod.fst) := by
        rw [InBounds, List.forall₂_map_right_iff, List.forall₂_same]
        intro r hr
        exact ⟨le_refl _, hbounds r hr⟩
      refine absurd ?_ (h (bounds.map Prod.fst))
      rw [wellFormed_iff, run_append, hrun]
      exact run_inBounds hmet

end Utf8
end IntBlock
