import Mathlib

/-!
# Schedules of several parties

The parties of a concurrent program take their steps in some order.  A step is a
function `step s a` giving the state after the action `a`, or `none` where `a` is
not enabled: its party is blocked, or has nothing to do.  A schedule is the list
of the actions taken.  Everything here is over arbitrary types of states and
actions.

## Main definitions

* `run` — the state a schedule leads to.
* `Takes p a as` — the schedule takes `a` in a state satisfying `p`.
* `Guarded p a q as` — and never without an action satisfying `q` before.

## Main results

* `run_invariant` — what the actions of a schedule preserve, the schedule preserves.
* `history_invariant` — **the same for a relation between the state and the
  actions that led to it.**
-/

namespace IntBlock
namespace Schedule

variable {S A : Type}

section Run

variable (step : S → A → Option S)

/-- The state a schedule leads to, `none` if some action of it is not enabled. -/
def run (s : S) (as : List A) : Option S := as.foldlM step s

variable {step}

@[simp] theorem run_nil (s : S) : run step s [] = some s := rfl

@[simp] theorem run_cons (s : S) (a : A) (as : List A) :
    run step s (a :: as) = (step s a).bind fun s' => run step s' as := rfl

theorem run_append (s : S) (as as' : List A) :
    run step s (as ++ as') = (run step s as).bind fun s' => run step s' as' :=
  List.foldlM_append

theorem run_concat (s : S) (as : List A) (a : A) :
    run step s (as ++ [a]) = (run step s as).bind fun s' => step s' a := by
  rw [run_append]
  congr 1
  funext s'
  exact Option.bind_fun_some (step s' a)

/-- The last action of a schedule is taken in the state the others lead to. -/
theorem run_concat_eq_some {s s' : S} {as : List A} {a : A} :
    run step s (as ++ [a]) = some s' ↔ ∃ t, run step s as = some t ∧ step t a = some s' := by
  rw [run_concat, Option.bind_eq_some_iff]

/-- **A relation between the actions taken and the state reached** that holds at
the start and is kept by every step holds after every schedule. -/
theorem history_invariant {P : List A → S → Prop} {s₀ : S} (hstart : P [] s₀)
    (hstep : ∀ as s a s', P as s → step s a = some s' → run step s₀ as = some s →
      P (as ++ [a]) s')
    {as : List A} {s : S} (h : run step s₀ as = some s) : P as s := by
  induction as using List.reverseRecOn generalizing s with
  | nil =>
    obtain rfl : s₀ = s := Option.some.inj h
    exact hstart
  | append_singleton as a ih =>
    obtain ⟨t, hrun, ht⟩ := run_concat_eq_some.mp h
    exact hstep as t a s (ih hrun) ht hrun

/-- What the actions satisfying `q` preserve, every schedule of such actions preserves. -/
theorem run_invariant {P : S → Prop} {q : A → Prop}
    (hstep : ∀ s a s', P s → q a → step s a = some s' → P s') {s s' : S} (hs : P s) {as : List A}
    (has : ∀ a ∈ as, q a) (h : run step s as = some s') : P s' := by
  induction as generalizing s with
  | nil =>
    obtain rfl : s = s' := Option.some.inj h
    exact hs
  | cons a as ih =>
    obtain ⟨t, ht, hrun⟩ := Option.bind_eq_some_iff.mp h
    have hPt : P t := hstep s a t hs (has a List.mem_cons_self) ht
    exact ih hPt (fun b hb => has b (List.mem_cons_of_mem _ hb)) hrun

end Run

/-! ### What comes before what -/

section Order

variable (step : S → A → Option S) (s₀ : S) (p : S → Prop) (a : A)

/-- The schedule takes `a` in a state satisfying `p`. -/
def Takes (as : List A) : Prop :=
  ∃ pre s, pre ++ [a] <+: as ∧ run step s₀ pre = some s ∧ p s

/-- The schedule takes `a` in a state satisfying `p` only after an action satisfying `q`. -/
def Guarded (q : A → Bool) (as : List A) : Prop :=
  ∀ pre s, pre ++ [a] <+: as → run step s₀ pre = some s → p s → ∃ b ∈ pre, q b

variable {step s₀ p a}

theorem Takes.append {as : List A} (h : Takes step s₀ p a as) (as' : List A) :
    Takes step s₀ p a (as ++ as') := by
  obtain ⟨pre, s, hpre, hrun, hs⟩ := h
  exact ⟨pre, s, hpre.trans (List.prefix_append as as'), hrun, hs⟩

theorem Takes.concat {as : List A} {s : S} (hrun : run step s₀ as = some s) (hs : p s) :
    Takes step s₀ p a (as ++ [a]) :=
  ⟨as, s, List.prefix_refl _, hrun, hs⟩

theorem Guarded.exists_of_takes {q : A → Bool} {as pre : List A} (h : Guarded step s₀ p a q as)
    (hpre : pre <+: as) (htakes : Takes step s₀ p a pre) : ∃ b ∈ pre, q b := by
  obtain ⟨pre', s, hpre', hrun, hs⟩ := htakes
  obtain ⟨b, hb, hq⟩ := h pre' s (hpre'.trans hpre) hrun hs
  exact ⟨b, hpre'.subset (List.mem_append_left _ hb), hq⟩

end Order

end Schedule
end IntBlock
