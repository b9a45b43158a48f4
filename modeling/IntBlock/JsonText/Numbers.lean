import IntBlock.JsonText.Lexer

/-!
# Number literals

The numbers of the standard: a sign, an integer part without leading zeros, a
fraction and an exponent.  The labels of `scan_number` are the states of an
automaton for them, in which every state leads to a number, so that the scanner
takes the longest text it can.

## Main definitions

* `IsNumber` — a number of the standard.
* `Completes state s` — `s` makes a number of what has led to the state.
* `Stops text left` — no number begins with `text` and the next byte.
* `typeOf` — the type a number is converted to first.

## Main results

* `completes_iff` — the automaton accepts from each state what completes it.
* `isNumber_cons` — from the first byte on, it accepts the numbers.
* `scanNumber_eq_iff` — **the scanner reads the longest number there is.**
-/

namespace IntBlock
namespace JsonText

open Cpp

/-! ### The grammar of numbers -/

def Digits (ds : Str) : Prop := ∀ d ∈ ds, d.isDigit = true

def IsInt (s : Str) : Prop :=
  s = ['0'] ∨ ∃ d ds, s = d :: ds ∧ d.isDigit = true ∧ d ≠ '0' ∧ Digits ds

def IsFrac (s : Str) : Prop := s = [] ∨ ∃ d ds, s = '.' :: d :: ds ∧ Digits (d :: ds)

/-- A sign, which may be missing, and digits, which may not. -/
def IsSigned (s : Str) : Prop :=
  ∃ sign d ds, s = sign ++ d :: ds ∧ (sign = [] ∨ sign = ['+'] ∨ sign = ['-']) ∧ Digits (d :: ds)

def IsExp (s : Str) : Prop :=
  s = [] ∨ ∃ e s', s = e :: s' ∧ (e = 'e' ∨ e = 'E') ∧ IsSigned s'

/-- A fraction and an exponent, both of which may be missing. -/
def IsTail (s : Str) : Prop := ∃ frac exp, s = frac ++ exp ∧ IsFrac frac ∧ IsExp exp

/-- A number without its sign. -/
def IsUnsigned (s : Str) : Prop := ∃ int tail, s = int ++ tail ∧ IsInt int ∧ IsTail tail

/-- **A number of the standard.** -/
def IsNumber (s : Str) : Prop := IsUnsigned s ∨ ∃ s', s = '-' :: s' ∧ IsUnsigned s'

theorem digits_nil : Digits [] := nofun

theorem digits_cons {d : Char} {ds : Str} : Digits (d :: ds) ↔ d.isDigit = true ∧ Digits ds :=
  List.forall_mem_cons

/-- What no digit is. -/
theorem isDigit_ne {d : Char} (h : d.isDigit = true) :
    d ≠ '.' ∧ d ≠ 'e' ∧ d ≠ 'E' ∧ d ≠ '+' ∧ d ≠ '-' := by
  refine ⟨?_, ?_, ?_, ?_, ?_⟩
  all_goals
    rintro rfl
    revert h
    decide

/-! ### The automaton -/

/-- `s` makes a number of what has led to the state. -/
def Completes : NumberState → Str → Prop
  | .minus, s => IsUnsigned s
  | .zero, s => IsTail s
  | .any1, s => ∃ ds tail, s = ds ++ tail ∧ Digits ds ∧ IsTail tail
  | .decimal1, s => ∃ d ds exp, s = d :: ds ++ exp ∧ Digits (d :: ds) ∧ IsExp exp
  | .decimal2, s => ∃ ds exp, s = ds ++ exp ∧ Digits ds ∧ IsExp exp
  | .exponent, s => IsSigned s
  | .sign, s => ∃ d ds, s = d :: ds ∧ Digits (d :: ds)
  | .any2, s => Digits s

theorem isExp_nil : IsExp [] := Or.inl rfl

theorem isTail_nil : IsTail [] := ⟨[], [], rfl, Or.inl rfl, isExp_nil⟩

theorem completes_nil (state : NumberState) : Completes state [] ↔ state.message = none := by
  cases state with
  | minus =>
    refine iff_of_false ?_ nofun
    rintro ⟨int, tail, h, hint, -⟩
    obtain ⟨rfl, rfl⟩ := List.append_eq_nil_iff.mp h.symm
    rcases hint with h | ⟨d, ds, h, -⟩
    · cases h
    · cases h
  | zero => exact iff_of_true isTail_nil rfl
  | any1 => exact iff_of_true ⟨[], [], rfl, digits_nil, isTail_nil⟩ rfl
  | decimal1 =>
    refine iff_of_false ?_ nofun
    rintro ⟨d, ds, exp, h, -⟩
    cases h
  | decimal2 => exact iff_of_true ⟨[], [], rfl, digits_nil, isExp_nil⟩ rfl
  | exponent =>
    refine iff_of_false ?_ nofun
    rintro ⟨sign, d, ds, h, -⟩
    exact absurd h.symm (List.append_ne_nil_of_right_ne_nil _ nofun)
  | sign =>
    refine iff_of_false ?_ nofun
    rintro ⟨d, ds, h, -⟩
    cases h
  | any2 => exact iff_of_true digits_nil rfl

theorem isExp_cons {c : Char} {s : Str} :
    IsExp (c :: s) ↔ (c = 'e' ∨ c = 'E') ∧ Completes .exponent s := by
  constructor
  · rintro (h | ⟨e, s', h, he, hs⟩)
    · cases h
    · obtain ⟨rfl, rfl⟩ := List.cons.inj h
      exact ⟨he, hs⟩
  · rintro ⟨hc, hs⟩
    exact Or.inr ⟨c, s, rfl, hc, hs⟩

/-- A digit, or what may follow the digits of an integer. -/
theorem isTail_cons {c : Char} {s : Str} :
    IsTail (c :: s) ↔
      (c = '.' ∧ Completes .decimal1 s) ∨ ((c = 'e' ∨ c = 'E') ∧ Completes .exponent s) := by
  constructor
  · rintro ⟨frac, exp, h, rfl | ⟨d, ds, rfl, hds⟩, hexp⟩
    · rw [List.nil_append] at h
      subst h
      exact Or.inr (isExp_cons.mp hexp)
    · obtain ⟨rfl, rfl⟩ := List.cons.inj h
      exact Or.inl ⟨rfl, d, ds, exp, rfl, hds, hexp⟩
  · rintro (⟨rfl, d, ds, exp, rfl, hds, hexp⟩ | h)
    · exact ⟨'.' :: d :: ds, exp, rfl, Or.inr ⟨d, ds, rfl, hds⟩, hexp⟩
    · exact ⟨[], c :: s, rfl, Or.inl rfl, isExp_cons.mpr h⟩

theorem isUnsigned_cons {c : Char} {s : Str} :
    IsUnsigned (c :: s) ↔ (c = '0' ∧ Completes .zero s) ∨
      (c.isDigit = true ∧ c ≠ '0' ∧ Completes .any1 s) := by
  constructor
  · rintro ⟨int, tail, h, rfl | ⟨d, ds, rfl, hd, hne, hds⟩, htail⟩
    · obtain ⟨rfl, rfl⟩ := List.cons.inj h
      exact Or.inl ⟨rfl, htail⟩
    · obtain ⟨rfl, rfl⟩ := List.cons.inj h
      exact Or.inr ⟨hd, hne, ds, tail, rfl, hds, htail⟩
  · rintro (⟨rfl, htail⟩ | ⟨hd, hne, ds, tail, rfl, hds, htail⟩)
    · exact ⟨['0'], s, rfl, Or.inl rfl, htail⟩
    · exact ⟨c :: ds, tail, rfl, Or.inr ⟨c, ds, rfl, hd, hne, hds⟩, htail⟩

theorem completes_any1_cons {c : Char} {s : Str} :
    Completes .any1 (c :: s) ↔ (c.isDigit = true ∧ Completes .any1 s) ∨ IsTail (c :: s) := by
  constructor
  · rintro ⟨ds, tail, h, hds, htail⟩
    cases ds with
    | nil =>
      rw [List.nil_append] at h
      rw [h]
      exact Or.inr htail
    | cons d ds =>
      obtain ⟨rfl, rfl⟩ := List.cons.inj h
      rw [digits_cons] at hds
      exact Or.inl ⟨hds.1, ds, tail, rfl, hds.2, htail⟩
  · rintro (⟨hc, ds, tail, rfl, hds, htail⟩ | htail)
    · exact ⟨c :: ds, tail, rfl, digits_cons.mpr ⟨hc, hds⟩, htail⟩
    · exact ⟨[], c :: s, rfl, digits_nil, htail⟩

theorem completes_decimal1_cons {c : Char} {s : Str} :
    Completes .decimal1 (c :: s) ↔ c.isDigit = true ∧ Completes .decimal2 s := by
  constructor
  · rintro ⟨d, ds, exp, h, hds, hexp⟩
    obtain ⟨rfl, rfl⟩ := List.cons.inj h
    rw [digits_cons] at hds
    exact ⟨hds.1, ds, exp, rfl, hds.2, hexp⟩
  · rintro ⟨hc, ds, exp, rfl, hds, hexp⟩
    exact ⟨c, ds, exp, rfl, digits_cons.mpr ⟨hc, hds⟩, hexp⟩

theorem completes_decimal2_cons {c : Char} {s : Str} :
    Completes .decimal2 (c :: s) ↔ (c.isDigit = true ∧ Completes .decimal2 s) ∨ IsExp (c :: s) := by
  constructor
  · rintro ⟨ds, exp, h, hds, hexp⟩
    cases ds with
    | nil =>
      rw [List.nil_append] at h
      rw [h]
      exact Or.inr hexp
    | cons d ds =>
      obtain ⟨rfl, rfl⟩ := List.cons.inj h
      rw [digits_cons] at hds
      exact Or.inl ⟨hds.1, ds, exp, rfl, hds.2, hexp⟩
  · rintro (⟨hc, ds, exp, rfl, hds, hexp⟩ | hexp)
    · exact ⟨c :: ds, exp, rfl, digits_cons.mpr ⟨hc, hds⟩, hexp⟩
    · exact ⟨[], c :: s, rfl, digits_nil, hexp⟩

theorem completes_sign_cons {c : Char} {s : Str} :
    Completes .sign (c :: s) ↔ c.isDigit = true ∧ Completes .any2 s := by
  constructor
  · rintro ⟨d, ds, h, hds⟩
    obtain ⟨rfl, rfl⟩ := List.cons.inj h
    exact digits_cons.mp hds
  · rintro ⟨hc, hs⟩
    exact ⟨c, s, rfl, digits_cons.mpr ⟨hc, hs⟩⟩

theorem isSigned_cons {c : Char} {s : Str} :
    IsSigned (c :: s) ↔ ((c = '+' ∨ c = '-') ∧ Completes .sign s) ∨
      (c.isDigit = true ∧ Completes .any2 s) := by
  constructor
  · rintro ⟨sign, d, ds, h, rfl | rfl | rfl, hds⟩
    · obtain ⟨rfl, rfl⟩ := List.cons.inj h
      exact Or.inr (digits_cons.mp hds)
    · obtain ⟨rfl, rfl⟩ := List.cons.inj h
      exact Or.inl ⟨Or.inl rfl, d, ds, rfl, hds⟩
    · obtain ⟨rfl, rfl⟩ := List.cons.inj h
      exact Or.inl ⟨Or.inr rfl, d, ds, rfl, hds⟩
  · rintro (⟨rfl | rfl, d, ds, rfl, hds⟩ | hds)
    · exact ⟨['+'], d, ds, rfl, Or.inr (Or.inl rfl), hds⟩
    · exact ⟨['-'], d, ds, rfl, Or.inr (Or.inr rfl), hds⟩
    · exact ⟨[], c, s, rfl, Or.inl rfl, digits_cons.mpr hds⟩

section Choices

variable {P : Prop} [Decidable P] {state₁ : NumberState} {o : Option NumberState} {s : Str}

/-- The last choice of a state. -/
theorem exists_ite_none :
    (∃ state', (if P then some state₁ else none) = some state' ∧ Completes state' s) ↔
      P ∧ Completes state₁ s := by
  by_cases hP : P
  · rw [if_pos hP]
    simp only [hP, Option.some.injEq, exists_eq_left', true_and]
  · rw [if_neg hP]
    simp only [hP, reduceCtorEq, false_and, exists_false]

/-- A choice with others after it. -/
theorem exists_ite :
    (∃ state', (if P then some state₁ else o) = some state' ∧ Completes state' s) ↔
      (P ∧ Completes state₁ s) ∨ (¬ P ∧ ∃ state', o = some state' ∧ Completes state' s) := by
  by_cases hP : P
  · rw [if_pos hP]
    simp only [hP, Option.some.injEq, exists_eq_left', true_and, not_true, false_and, or_false]
  · rw [if_neg hP]
    simp only [hP, not_false_eq_true, true_and, false_and, false_or]

end Choices

/-- One byte of what completes a state. -/
theorem completes_cons (state : NumberState) (c : Char) (s : Str) :
    Completes state (c :: s) ↔ ∃ state', state.next c = some state' ∧ Completes state' s := by
  -- a digit is none of the other characters that are asked for
  have hdigit : c.isDigit = true → ¬ c = '.' ∧ ¬ (c = 'e' ∨ c = 'E') ∧ ¬ (c = '+' ∨ c = '-') := by
    intro hc
    obtain ⟨h1, h2, h3, h4, h5⟩ := isDigit_ne hc
    exact ⟨h1, not_or.mpr ⟨h2, h3⟩, not_or.mpr ⟨h4, h5⟩⟩
  have hdot : c = '.' → ¬ (c = 'e' ∨ c = 'E') := by
    rintro rfl
    decide
  cases state with
  | minus =>
    refine isUnsigned_cons.trans ?_
    simp only [NumberState.next, exists_ite]
    tauto
  | zero =>
    refine isTail_cons.trans ?_
    simp only [NumberState.next, exists_ite]
    tauto
  | any1 =>
    rw [completes_any1_cons, isTail_cons]
    simp only [NumberState.next, exists_ite]
    tauto
  | decimal1 =>
    rw [completes_decimal1_cons]
    simp only [NumberState.next, exists_ite_none]
  | decimal2 =>
    rw [completes_decimal2_cons, isExp_cons]
    simp only [NumberState.next, exists_ite]
    tauto
  | exponent =>
    refine isSigned_cons.trans ?_
    simp only [NumberState.next, exists_ite]
    tauto
  | sign =>
    rw [completes_sign_cons]
    simp only [NumberState.next, exists_ite_none]
  | any2 =>
    refine digits_cons.trans ?_
    simp only [NumberState.next, exists_ite_none]
    rfl

/-- **The automaton accepts from each state what completes it.** -/
theorem completes_iff {state : NumberState} {s : Str} :
    Completes state s ↔ ∃ state', s.foldlM NumberState.next state = some state' ∧
      state'.message = none := by
  induction s generalizing state with
  | nil =>
    rw [completes_nil]
    constructor
    · exact fun h => ⟨state, rfl, h⟩
    · rintro ⟨state', h, hmessage⟩
      cases h
      exact hmessage
  | cons c s ih =>
    rw [completes_cons, List.foldlM_cons]
    constructor
    · rintro ⟨state₁, hnext, h⟩
      obtain ⟨state', hrun, hmessage⟩ := ih.mp h
      rw [hnext]
      exact ⟨state', hrun, hmessage⟩
    · rintro ⟨state', hrun, hmessage⟩
      obtain ⟨state₁, hnext, hrun⟩ := Option.bind_eq_some_iff.mp hrun
      exact ⟨state₁, hnext, ih.mpr ⟨state', hrun, hmessage⟩⟩

/-- Every state leads to a number. -/
theorem exists_completes (state : NumberState) : ∃ s, Completes state s := by
  have hzero : Digits ['0'] := digits_cons.mpr ⟨by decide, digits_nil⟩
  cases state with
  | minus => exact ⟨['0'], ['0'], [], rfl, Or.inl rfl, isTail_nil⟩
  | zero => exact ⟨[], isTail_nil⟩
  | any1 => exact ⟨[], [], [], rfl, digits_nil, isTail_nil⟩
  | decimal1 => exact ⟨['0'], '0', [], [], rfl, hzero, isExp_nil⟩
  | decimal2 => exact ⟨[], [], [], rfl, digits_nil, isExp_nil⟩
  | exponent => exact ⟨['0'], [], '0', [], rfl, Or.inl rfl, hzero⟩
  | sign => exact ⟨['0'], '0', [], rfl, hzero⟩
  | any2 => exact ⟨[], digits_nil⟩

/-- From the first byte on, the automaton accepts the numbers. -/
theorem isNumber_cons {c : Char} {s : Str} :
    IsNumber (c :: s) ↔ ∃ state, NumberState.first c = some state ∧ Completes state s := by
  have hminus : c = '-' → ¬ c = '0' ∧ ¬ c.isDigit = true := by
    rintro rfl
    decide
  have hnumber : IsNumber (c :: s) ↔ IsUnsigned (c :: s) ∨ (c = '-' ∧ Completes .minus s) := by
    constructor
    · rintro (h | ⟨s', h, hs⟩)
      · exact Or.inl h
      · obtain ⟨rfl, rfl⟩ := List.cons.inj h
        exact Or.inr ⟨rfl, hs⟩
    · rintro (h | ⟨rfl, hs⟩)
      · exact Or.inl h
      · exact Or.inr ⟨s, rfl, hs⟩
  rw [hnumber, isUnsigned_cons]
  simp only [NumberState.first, exists_ite]
  tauto

theorem IsNumber.exists_cons {s : Str} (h : IsNumber s) : ∃ c s', s = c :: s' := by
  cases s with
  | cons c s => exact ⟨c, s, rfl⟩
  | nil =>
    rcases h with ⟨int, tail, h, hint, -⟩ | ⟨s', h, -⟩
    · obtain ⟨rfl, -⟩ := List.append_eq_nil_iff.mp h.symm
      rcases hint with h | ⟨d, ds, h, -⟩
      · cases h
      · cases h
    · cases h

/-! ### The scanner -/

/-- The type a number is converted to first. -/
def typeOf (s : Str) : NumberType :=
  if s.any (fun c => c = '.' || c = 'e' || c = 'E') then .float
  else if s.head? = some '-' then .integer
  else .unsigned

/-- No number begins with `text` and the next byte. -/
def Stops (text left : Str) : Prop :=
  ∀ d left', left = d :: left' → ∀ more, ¬ IsNumber (text ++ d :: more)

theorem typeOf_append {s t : Str} (hs : s ≠ [])
    (ht : ∀ c ∈ t, ¬ c = '.' ∧ ¬ (c = 'e' ∨ c = 'E')) : typeOf (s ++ t) = typeOf s := by
  have hany : t.any (fun c => c = '.' || c = 'e' || c = 'E') = false := by
    rw [List.any_eq_false]
    intro c hc
    obtain ⟨hdot, he⟩ := ht c hc
    rw [not_or] at he
    simp only [hdot, he.1, he.2, decide_false, Bool.or_self, Bool.false_eq_true, not_false_eq_true]
  unfold typeOf
  rw [List.any_append, hany, Bool.or_false, List.head?_append_of_ne_nil _ hs]

theorem typeOf_concat_float {s : Str} {c : Char} (hc : c = '.' ∨ c = 'e' ∨ c = 'E') :
    typeOf (s ++ [c]) = .float := by
  have hany : (s ++ [c]).any (fun c => c = '.' || c = 'e' || c = 'E') = true := by
    rw [List.any_eq_true]
    refine ⟨c, List.mem_append_right s List.mem_cons_self, ?_⟩
    simpa only [Bool.or_eq_true, decide_eq_true_eq, or_assoc] using hc
  unfold typeOf
  rw [if_pos hany]

/-- A point leads to the fraction, an `e` to the exponent, and nothing else does. -/
theorem next_cases {state state' : NumberState} {c : Char} (h : state.next c = some state') :
    (state' = .decimal1 ∧ c = '.') ∨ (state' = .exponent ∧ (c = 'e' ∨ c = 'E')) ∨
      ((∀ type, state'.numberType type = type) ∧ ¬ c = '.' ∧ ¬ (c = 'e' ∨ c = 'E')) := by
  -- digits and signs are neither a point nor the letter of an exponent
  have hdigit : c.isDigit = true → ¬ c = '.' ∧ ¬ (c = 'e' ∨ c = 'E') := by
    intro hc
    obtain ⟨h1, h2, h3, -⟩ := isDigit_ne hc
    exact ⟨h1, not_or.mpr ⟨h2, h3⟩⟩
  have hsign : c = '+' ∨ c = '-' → ¬ c = '.' ∧ ¬ (c = 'e' ∨ c = 'E') := by
    rintro (rfl | rfl)
    all_goals decide
  have hzero : c = '0' → ¬ c = '.' ∧ ¬ (c = 'e' ∨ c = 'E') := by
    rintro rfl
    decide
  cases state with
  | minus =>
    simp only [NumberState.next] at h
    split_ifs at h with hc hc'
    all_goals obtain rfl := Option.some.inj h
    · exact Or.inr (Or.inr ⟨fun _ => rfl, hzero hc⟩)
    · exact Or.inr (Or.inr ⟨fun _ => rfl, hdigit hc'⟩)
  | zero =>
    simp only [NumberState.next] at h
    split_ifs at h with hc hc'
    all_goals obtain rfl := Option.some.inj h
    · exact Or.inl ⟨rfl, hc⟩
    · exact Or.inr (Or.inl ⟨rfl, hc'⟩)
  | any1 =>
    simp only [NumberState.next] at h
    split_ifs at h with hc hc' hc''
    all_goals obtain rfl := Option.some.inj h
    · exact Or.inr (Or.inr ⟨fun _ => rfl, hdigit hc⟩)
    · exact Or.inl ⟨rfl, hc'⟩
    · exact Or.inr (Or.inl ⟨rfl, hc''⟩)
  | decimal2 =>
    simp only [NumberState.next] at h
    split_ifs at h with hc hc'
    all_goals obtain rfl := Option.some.inj h
    · exact Or.inr (Or.inr ⟨fun _ => rfl, hdigit hc⟩)
    · exact Or.inr (Or.inl ⟨rfl, hc'⟩)
  | exponent =>
    simp only [NumberState.next] at h
    split_ifs at h with hc hc'
    all_goals obtain rfl := Option.some.inj h
    · exact Or.inr (Or.inr ⟨fun _ => rfl, hsign hc⟩)
    · exact Or.inr (Or.inr ⟨fun _ => rfl, hdigit hc'⟩)
  | decimal1 | sign | any2 =>
    simp only [NumberState.next] at h
    split_ifs at h with hc
    obtain rfl := Option.some.inj h
    exact Or.inr (Or.inr ⟨fun _ => rfl, hdigit hc⟩)

/-- `number_type` is the type of what has been read. -/
theorem numberType_next {state state' : NumberState} {c : Char} {s : Str} (hs : s ≠ [])
    (h : state.next c = some state') : state'.numberType (typeOf s) = typeOf (s ++ [c]) := by
  rcases next_cases h with ⟨rfl, hc⟩ | ⟨rfl, hc⟩ | ⟨htype, hc⟩
  · exact (typeOf_concat_float (Or.inl hc)).symm
  · exact (typeOf_concat_float (Or.inr hc)).symm
  · rw [htype, typeOf_append hs (List.forall_mem_singleton.mpr hc)]

theorem numberType_first {state : NumberState} {c : Char} (h : NumberState.first c = some state) :
    state.numberType .unsigned = typeOf [c] := by
  have hdigit : c.isDigit = true → typeOf [c] = .unsigned := by
    intro hc
    obtain ⟨h1, h2, h3, -, h5⟩ := isDigit_ne hc
    simp only [typeOf, List.any_cons, List.any_nil, List.head?_cons, h1, h2, h3, h5, decide_false,
      Bool.or_self, Bool.false_eq_true, if_false, Option.some.injEq]
  unfold NumberState.first at h
  split_ifs at h with h1 h2 h3
  · obtain rfl := Option.some.inj h
    rw [h1]
    rfl
  · obtain rfl := Option.some.inj h
    rw [h2]
    rfl
  · obtain rfl := Option.some.inj h
    exact (hdigit h3).symm

/-- The scanner goes on as far as the automaton does. -/
theorem exists_scanNumberFrom (strtod : Str → Option Str) (state : NumberState) (s tokenBuffer : Str)
    (hbuffer : tokenBuffer ≠ []) :
    ∃ text left state', s = text ++ left ∧ text.foldlM NumberState.next state = some state' ∧
      (∀ d left', left = d :: left' → state'.next d = none) ∧
      scanNumberFrom strtod state (typeOf tokenBuffer) tokenBuffer s =
        scanNumberDone strtod state' (typeOf (tokenBuffer ++ text)) (tokenBuffer ++ text) left := by
  induction s generalizing state tokenBuffer with
  | nil =>
    refine ⟨[], [], state, rfl, rfl, nofun, ?_⟩
    rw [List.append_nil]
    rfl
  | cons c s ih =>
    cases hnext : state.next c with
    | none =>
      refine ⟨[], c :: s, state, rfl, rfl, ?_, ?_⟩
      · intro d left' h
        rw [← (List.cons.inj h).1]
        exact hnext
      · rw [List.append_nil, scanNumberFrom, hnext]
    | some state₁ =>
      obtain ⟨text, left, state', rfl, hrun, hleft, hscan⟩ :=
        ih state₁ (tokenBuffer ++ [c]) (List.append_ne_nil_of_right_ne_nil _ (List.cons_ne_nil _ _))
      refine ⟨c :: text, left, state', rfl, ?_, hleft, ?_⟩
      · rw [List.foldlM_cons, hnext]
        exact hrun
      · rw [scanNumberFrom, hnext]
        dsimp only
        rw [numberType_next hbuffer hnext, hscan, List.append_assoc, List.singleton_append]

/-- What stops the automaton stops every number. -/
theorem stops_iff {c : Char} {text left : Str} {state state' : NumberState}
    (hfirst : NumberState.first c = some state)
    (hrun : text.foldlM NumberState.next state = some state') :
    Stops (c :: text) left ↔ ∀ d left', left = d :: left' → state'.next d = none := by
  have hnumber : ∀ d more, IsNumber (c :: text ++ d :: more) ↔
      ∃ state'', state'.next d = some state'' ∧ Completes state'' more := by
    intro d more
    rw [List.cons_append, isNumber_cons]
    have happend : ∀ {s}, Completes state (text ++ s) ↔ Completes state' s := by
      intro s
      rw [completes_iff, completes_iff, List.foldlM_append, hrun]
      rfl
    constructor
    · rintro ⟨state₁, hfirst₁, h⟩
      obtain rfl := Option.some.inj (hfirst.symm.trans hfirst₁)
      exact (completes_cons _ _ _).mp (happend.mp h)
    · intro h
      exact ⟨state, hfirst, happend.mpr ((completes_cons _ _ _).mpr h)⟩
  constructor
  · intro h d left' hleft
    by_contra hnext
    obtain ⟨state'', hstate⟩ := Option.ne_none_iff_exists'.mp hnext
    obtain ⟨more, hmore⟩ := exists_completes state''
    exact h d left' hleft more ((hnumber d more).mpr ⟨state'', hstate, hmore⟩)
  · intro h d left' hleft more hmore
    obtain ⟨state'', hstate, -⟩ := (hnumber d more).mp hmore
    rw [h d left' hleft] at hstate
    cases hstate

/-- A text the automaton runs through and one it stops in are no longer than each other. -/
theorem prefix_of_stop {t left t' left' : Str} {state q q' : NumberState}
    (h : t ++ left = t' ++ left') (ht : t.foldlM NumberState.next state = some q)
    (ht' : t'.foldlM NumberState.next state = some q')
    (hstop : ∀ d more, left = d :: more → q.next d = none) : t' <+: t := by
  rcases List.append_eq_append_iff.mp h with ⟨a, rfl, rfl⟩ | ⟨a, rfl, -⟩
  · cases a with
    | nil => rw [List.append_nil]
    | cons d a =>
      rw [List.foldlM_append, ht] at ht'
      have hnext := hstop d _ rfl
      rw [Option.bind_eq_bind, Option.bind_some, List.foldlM_cons, hnext] at ht'
      cases ht'
  · exact List.prefix_append t' a

theorem isLast_numberToken (strtod : Str → Option Str) (type : NumberType) (s : Str) :
    (numberToken strtod type s).isLast = false := by
  cases type with
  | unsigned =>
    unfold numberToken
    dsimp only
    split
    · rfl
    · rfl
  | integer =>
    unfold numberToken
    dsimp only
    split
    · rfl
    · rfl
  | float => rfl

/-- **The scanner reads the longest number there is**, and converts it. -/
theorem scanNumber_eq_iff {strtod : Str → Option Str} {c : Char} {rest : Str} {state : NumberState}
    {scanned : Scanned} (hfirst : NumberState.first c = some state) :
    (scanNumber strtod state c rest = scanned ∧ scanned.token.isLast = false) ↔
      ∃ text left, c :: rest = text ++ left ∧ IsNumber text ∧ Stops text left ∧
        scanned = ⟨numberToken strtod (typeOf text) text, some left⟩ := by
  obtain ⟨text, left, state', rfl, hrun, hleft, hscan⟩ :=
    exists_scanNumberFrom strtod state rest [c] (List.cons_ne_nil _ _)
  rw [← numberType_first hfirst] at hscan
  unfold scanNumber
  rw [hscan, scanNumberDone, List.singleton_append]
  constructor
  · rintro ⟨rfl, hlast⟩
    split at hlast
    · cases hlast
    · next hmessage =>
      refine ⟨c :: text, left, rfl, isNumber_cons.mpr ⟨state, hfirst, completes_iff.mpr
        ⟨state', hrun, hmessage⟩⟩, (stops_iff hfirst hrun).mpr hleft, ?_⟩
      rfl
  · rintro ⟨text', left', htext, hnumber, hstops, rfl⟩
    obtain ⟨c', t', rfl⟩ := hnumber.exists_cons
    obtain ⟨rfl, hrest⟩ := List.cons.inj htext
    change text ++ left = t' ++ left' at hrest
    obtain ⟨state₁, hfirst₁, hcompletes⟩ := isNumber_cons.mp hnumber
    obtain rfl := Option.some.inj (hfirst.symm.trans hfirst₁)
    obtain ⟨state'', hrun', hmessage⟩ := completes_iff.mp hcompletes
    have hleft' := (stops_iff hfirst hrun').mp hstops
    -- both texts are as long as the automaton goes
    have hle := prefix_of_stop hrest hrun hrun' hleft
    have hge := prefix_of_stop hrest.symm hrun' hrun hleft'
    obtain rfl : text = t' := hge.eq_of_length_le hle.length_le
    obtain rfl := List.append_cancel_left hrest
    obtain rfl := Option.some.inj (hrun.symm.trans hrun')
    simp only [hmessage]
    exact ⟨trivial, isLast_numberToken _ _ _⟩

end JsonText
end IntBlock
