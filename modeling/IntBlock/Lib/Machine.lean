import Mathlib

/-!
# Machines that take a call or refuse it

A machine is a function `exec w c` giving the state after the call `c`, or an
error.  A refused call leaves the state as it was.  Everything here is over
arbitrary types of states, calls and errors.

## Main definitions

* `step`, `run` — one call, and a list of calls, refused ones skipped.
* `outcome`, `outcomes` — the error of each call, `none` where it succeeded.
* `kept p w cs`, `keptOutcomes p w cs` — the calls of `cs` whose moment
  satisfies `p`, and their outcomes.

## Main results

* `run_invariant` — what every successful call preserves, every run preserves.
* `foldlM_eq`, `run_of_foldlM` — calls made all or nothing.
* `run_kept`, `outcomes_kept` — deleting calls that are refused anyway changes
  nothing for the others.
* `view_run`, `filter_outcomes` — **independent components**: where a call acts
  on the component of its own key only, each component runs by itself.
* `follow_invariant` — another state that is kept up with the machine.
-/

namespace IntBlock
namespace Machine

variable {W C E : Type}

/-! ### Runs -/

section Run

variable (exec : W → C → Except E W)

/-- One call; a refused one leaves the state as it was. -/
def step (w : W) (c : C) : W :=
  match exec w c with
  | .ok w' => w'
  | .error _ => w

/-- A list of calls, one after another. -/
def run (w : W) (cs : List C) : W := cs.foldl (step exec) w

/-- The error of a call, `none` if it succeeds. -/
def outcome (w : W) (c : C) : Option E :=
  match exec w c with
  | .ok _ => none
  | .error e => some e

/-- The outcome of each call of a run. -/
def outcomes : W → List C → List (C × Option E)
  | _, [] => []
  | w, c :: cs => (c, outcome exec w c) :: outcomes (step exec w c) cs

variable {exec}

theorem step_of_ok {w w' : W} {c : C} (h : exec w c = .ok w') : step exec w c = w' := by
  rw [step, h]

theorem step_of_error {w : W} {c : C} {e : E} (h : exec w c = .error e) :
    step exec w c = w := by
  rw [step, h]

theorem outcome_of_ok {w w' : W} {c : C} (h : exec w c = .ok w') : outcome exec w c = none := by
  rw [outcome, h]

theorem outcome_of_error {w : W} {c : C} {e : E} (h : exec w c = .error e) :
    outcome exec w c = some e := by
  rw [outcome, h]

/-- A call without an error has a result. -/
theorem exists_of_outcome {w : W} {c : C} (h : outcome exec w c = none) :
    ∃ w', exec w c = .ok w' := by
  cases hc : exec w c with
  | ok w' => exact ⟨w', rfl⟩
  | error e => rw [outcome_of_error hc] at h; cases h

@[simp] theorem run_nil (w : W) : run exec w [] = w := rfl

@[simp] theorem run_cons (w : W) (c : C) (cs : List C) :
    run exec w (c :: cs) = run exec (step exec w c) cs := rfl

theorem run_append (w : W) (cs cs' : List C) :
    run exec w (cs ++ cs') = run exec (run exec w cs) cs' := List.foldl_append

@[simp] theorem outcomes_cons (w : W) (c : C) (cs : List C) :
    outcomes exec w (c :: cs) = (c, outcome exec w c) :: outcomes exec (step exec w c) cs := rfl

/-- What every successful call preserves, one call preserves. -/
theorem step_invariant {P : W → Prop} (hexec : ∀ w c w', P w → exec w c = .ok w' → P w')
    {w : W} (hw : P w) (c : C) : P (step exec w c) := by
  cases h : exec w c with
  | error e => rw [step_of_error h]; exact hw
  | ok w' => rw [step_of_ok h]; exact hexec w c w' hw h

/-- **What every successful call preserves, every run preserves.** -/
theorem run_invariant {P : W → Prop} (hexec : ∀ w c w', P w → exec w c = .ok w' → P w')
    {w : W} (hw : P w) (cs : List C) : P (run exec w cs) := by
  induction cs generalizing w with
  | nil => exact hw
  | cons c cs ih => exact ih (step_invariant hexec hw c)

/-- **All or nothing**: calls chained so that the first error ends the chain reach
the state of the run if all of them succeed, and report the first error if not. -/
theorem foldlM_eq (w : W) (cs : List C) :
    cs.foldlM exec w =
      match (outcomes exec w cs).findSome? Prod.snd with
      | none => .ok (run exec w cs)
      | some e => .error e := by
  induction cs generalizing w with
  | nil => rfl
  | cons c cs ih =>
    rw [List.foldlM_cons, outcomes_cons, List.findSome?_cons, run_cons]
    cases hc : exec w c with
    | error e =>
      rw [outcome_of_error hc]
      rfl
    | ok w' =>
      rw [outcome_of_ok hc, step_of_ok hc]
      exact ih w'

/-- Calls that succeed one after another are a run. -/
theorem run_of_foldlM {w w' : W} {cs : List C} (h : cs.foldlM exec w = .ok w') :
    run exec w cs = w' ∧ ∀ o ∈ outcomes exec w cs, o.2 = none := by
  rw [foldlM_eq] at h
  split at h
  · next hnone =>
    rw [List.findSome?_eq_none_iff] at hnone
    exact ⟨Except.ok.inj h, hnone⟩
  · cases h

end Run

/-! ### Deleting refused calls -/

section Kept

variable (exec : W → C → Except E W) (p : W → C → Bool)

/-- The calls of a run made at a moment satisfying `p`. -/
def kept : W → List C → List C
  | _, [] => []
  | w, c :: cs => if p w c then c :: kept (step exec w c) cs else kept (step exec w c) cs

/-- The outcomes these calls had in the whole run. -/
def keptOutcomes : W → List C → List (C × Option E)
  | _, [] => []
  | w, c :: cs =>
      if p w c then (c, outcome exec w c) :: keptOutcomes (step exec w c) cs
      else keptOutcomes (step exec w c) cs

variable {exec p}

/-- **Calls that are refused anyway can be deleted**: the state reached is the same. -/
theorem run_kept (hp : ∀ w c, p w c = false → step exec w c = w) (w : W) (cs : List C) :
    run exec w (kept exec p w cs) = run exec w cs := by
  induction cs generalizing w with
  | nil => rfl
  | cons c cs ih =>
    rw [run_cons, kept]
    split
    · rw [run_cons, ih]
    · next h => rw [hp w c (by simpa using h), ih]

/-- The calls that stay have the outcomes they had. -/
theorem outcomes_kept (hp : ∀ w c, p w c = false → step exec w c = w) (w : W) (cs : List C) :
    outcomes exec w (kept exec p w cs) = keptOutcomes exec p w cs := by
  induction cs generalizing w with
  | nil => rfl
  | cons c cs ih =>
    rw [kept, keptOutcomes]
    split
    · rw [outcomes_cons, ih]
    · next h => rw [hp w c (by simpa using h), ih]

end Kept

/-! ### Independent components -/

section Components

variable {K V : Type} [DecidableEq K]
variable {exec : W → C → Except E W} {loc : V → C → Except E V}

/-- A call acts on the component `view · (key c)` as `loc` does, and on no other. -/
structure ActsOn (exec : W → C → Except E W) (loc : V → C → Except E V) (key : C → K)
    (view : W → K → V) (w : W) (c : C) : Prop where
  outcome_eq : outcome exec w c = outcome loc (view w (key c)) c
  view_step : view (step exec w c) = Function.update (view w) (key c) (step loc (view w (key c)) c)

variable {key : C → K} {view : W → K → V} {P : W → Prop} {A : C → Prop}

/-- **Each component runs by itself**, on the calls of its own key. -/
theorem view_run (hacts : ∀ w c, P w → A c → ActsOn exec loc key view w c)
    (hP : ∀ w c, P w → A c → P (step exec w c))
    {w : W} (hw : P w) {cs : List C} (hcs : ∀ c ∈ cs, A c) (k : K) :
    view (run exec w cs) k = run loc (view w k) (cs.filter fun c => key c = k) := by
  induction cs generalizing w with
  | nil => rfl
  | cons c cs ih =>
    have hc := hcs c List.mem_cons_self
    rw [run_cons, ih (hP w c hw hc) fun c' h => hcs c' (List.mem_cons_of_mem _ h),
      (hacts w c hw hc).view_step]
    by_cases hk : key c = k
    · subst hk
      rw [Function.update_self, List.filter_cons_of_pos (by simp), run_cons]
    · rw [Function.update_of_ne (Ne.symm hk), List.filter_cons_of_neg (by simpa using hk)]

/-- The calls of one key have the outcomes they have in the component's own run. -/
theorem filter_outcomes (hacts : ∀ w c, P w → A c → ActsOn exec loc key view w c)
    (hP : ∀ w c, P w → A c → P (step exec w c))
    {w : W} (hw : P w) {cs : List C} (hcs : ∀ c ∈ cs, A c) (k : K) :
    (outcomes exec w cs).filter (fun o => key o.1 = k) =
      outcomes loc (view w k) (cs.filter fun c => key c = k) := by
  induction cs generalizing w with
  | nil => rfl
  | cons c cs ih =>
    have hc := hcs c List.mem_cons_self
    have hih := ih (hP w c hw hc) fun c' h => hcs c' (List.mem_cons_of_mem _ h)
    rw [(hacts w c hw hc).view_step] at hih
    rw [outcomes_cons]
    by_cases hk : key c = k
    · subst hk
      rw [Function.update_self] at hih
      rw [List.filter_cons_of_pos (by simp), List.filter_cons_of_pos (by simp), outcomes_cons,
        (hacts w c hw hc).outcome_eq, hih]
    · rw [Function.update_of_ne (Ne.symm hk)] at hih
      rw [List.filter_cons_of_neg (by simpa using hk), List.filter_cons_of_neg (by simpa using hk),
        hih]

end Components

/-! ### Following a machine -/

section Follow

variable {S : Type} (exec : W → C → Except E W) (next : S → W → C → S) (q : W → C → Prop)

/-- What `next` makes of a state in the course of a run. -/
def follow : S → W → List C → S
  | s, _, [] => s
  | s, w, c :: cs => follow (next s w c) (step exec w c) cs

/-- Every call of a run satisfies `q` at its moment. -/
def Throughout : W → List C → Prop
  | _, [] => True
  | w, c :: cs => q w c ∧ Throughout (step exec w c) cs

variable {exec next q}

/-- **What every call keeps between the two states, every run keeps.** -/
theorem follow_invariant {I : S → W → Prop}
    (hstep : ∀ s w c, I s w → q w c → I (next s w c) (step exec w c)) {s : S} {w : W} (h : I s w)
    {cs : List C} (hcs : Throughout exec q w cs) :
    I (follow exec next s w cs) (run exec w cs) := by
  induction cs generalizing s w with
  | nil => exact h
  | cons c cs ih =>
    obtain ⟨hc, hcs⟩ := hcs
    exact ih (hstep s w c h hc) hcs

end Follow

end Machine
end IntBlock
