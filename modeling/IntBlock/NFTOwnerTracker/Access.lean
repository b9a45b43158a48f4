import IntBlock.NFTOwnerTracker.Effects

/-!
# Who influences the contract

Every mutator is guarded by `onlyAdmin`, and only a successful `changeAdmin`
changes who that is.

## Main definitions

* `byAdmin w tx` — whether the sender of `tx` is the admin of `w`.

## Main results

* `exec_of_ne_admin` — a call by anybody else is refused.
* `exists_changeAdmin` — who has become admin was made so by a call of the
  admin then in office.
* `run_byAdmin` — **only the admin of the moment influences the contract.**
-/

namespace IntBlock
namespace NFTOwnerTracker

open Solidity

/-- The sender is the admin of the moment. -/
def byAdmin (w : World) (tx : Tx) : Bool := tx.sender = w.storage.admin

/-- Every mutator checks the sender before it does anything. -/
theorem exec_of_ne_admin {w : World} {tx : Tx} (h : tx.sender ≠ w.storage.admin) :
    exec w tx = .error (.custom .unauthorized) := by
  obtain ⟨sender, call⟩ := tx
  cases call with
  | changeAdmin a => simp only [exec, changeAdmin, onlyAdmin_bind, if_pos h]
  | registerNFT t o => simp only [exec, registerNFT, onlyAdmin_bind, if_pos h]
  | registerBatchNFTs ts o => simp only [exec, registerBatchNFTs, onlyAdmin_bind, if_pos h]
  | transferNFT t q => simp only [exec, transferNFT, onlyAdmin_bind, if_pos h]

theorem step_of_not_byAdmin {w : World} {tx : Tx} (h : byAdmin w tx = false) :
    Machine.step exec w tx = w :=
  Machine.step_of_error (exec_of_ne_admin (by simpa [byAdmin] using h))

/-- Updates that report no change of the admin make none. -/
theorem Emits.admin_eq {s s' : Storage} {es : List Event} (h : Emits s es s')
    (hes : ∀ e ∈ es, ∀ p a, e ≠ .adminChanged p a) : s'.admin = s.admin := by
  induction h with
  | nil s => rfl
  | @cons s s' e es he hrest ih =>
    rw [ih fun e' he' => hes e' (List.mem_cons_of_mem _ he')]
    cases e with
    | nftRegistered t o => rfl
    | nftTransferred t p q => rfl
    | adminChanged p a => exact absurd rfl (hes _ List.mem_cons_self p a)

/-- A call after which the admin is another was a `changeAdmin` of the admin before. -/
theorem eq_changeAdmin_of_exec {w w' : World} (hw : w.storage.Valid) {tx : Tx}
    (h : exec w tx = .ok w') (hne : w'.storage.admin ≠ w.storage.admin) :
    tx = ⟨w.storage.admin, .changeAdmin w'.storage.admin⟩ := by
  obtain ⟨hsender, hemits, -⟩ := exec_ok hw h
  obtain ⟨sender, call⟩ := tx
  cases call with
  | changeAdmin a =>
    obtain rfl : sender = w.storage.admin := hsender
    rw [hemits.of_single.2]
    rfl
  | registerNFT t o =>
    refine absurd (hemits.admin_eq ?_) hne
    simp [Call.events]
  | registerBatchNFTs ts o =>
    refine absurd (hemits.admin_eq ?_) hne
    simp [Call.events]
  | transferNFT t q =>
    refine absurd (hemits.admin_eq ?_) hne
    simp [Call.events]

/-- Who has become admin in a run was made so by a successful `changeAdmin` of
the admin then in office. -/
theorem exists_changeAdmin {x : Address} (txs : List Tx) {w : World} (hw : w.storage.Valid)
    (hbefore : w.storage.admin ≠ x) (hafter : (Machine.run exec w txs).storage.admin = x) :
    ∃ pre c post, txs = pre ++ c :: post ∧
      c = ⟨(Machine.run exec w pre).storage.admin, .changeAdmin x⟩ ∧
      Machine.outcome exec (Machine.run exec w pre) c = none := by
  induction txs generalizing w with
  | nil => exact absurd hafter hbefore
  | cons tx txs ih =>
    by_cases hnow : (Machine.step exec w tx).storage.admin = x
    · -- this very call made `x` the admin
      cases h : exec w tx with
      | error e =>
        rw [Machine.step_of_error h] at hnow
        exact absurd hnow hbefore
      | ok w' =>
        rw [Machine.step_of_ok h] at hnow
        subst hnow
        exact ⟨[], tx, txs, rfl, eq_changeAdmin_of_exec hw h (Ne.symm hbefore),
          Machine.outcome_of_ok h⟩
    · obtain ⟨pre, c, post, hsplit, hc, hok⟩ := ih (valid_step hw tx) hnow hafter
      exact ⟨tx :: pre, c, post, by rw [hsplit]; rfl, hc, hok⟩

/-- **Only the admin of the moment influences the contract.**  Deleting the
calls of all others from a run changes neither the world it ends in nor the
outcome of a call that is left; the admin is never the zero address; and who has
handed the contract over has no effect on it until made admin again. -/
theorem run_byAdmin {deployer : Address} (hdeployer : deployer ≠ 0) (txs : List Tx) :
    let w₀ := deploy deployer
    let w := Machine.run exec w₀ txs
    Machine.run exec w₀ (Machine.kept exec byAdmin w₀ txs) = w ∧
    Machine.outcomes exec w₀ (Machine.kept exec byAdmin w₀ txs) =
      Machine.keptOutcomes exec byAdmin w₀ txs ∧
    w.storage.admin ≠ 0 ∧
    ∀ (x y : Address) (w' : World), exec w ⟨x, .changeAdmin y⟩ = .ok w' → y ≠ x →
      ∀ (later : List Tx) (tx : Tx), tx.sender = x →
        Machine.step exec (Machine.run exec w' later) tx ≠ Machine.run exec w' later →
        ∃ pre c post, later = pre ++ c :: post ∧
          c = ⟨(Machine.run exec w' pre).storage.admin, .changeAdmin x⟩ ∧
          Machine.outcome exec (Machine.run exec w' pre) c = none := by
  intro w₀ w
  have hrefused : ∀ (w : World) (tx : Tx), byAdmin w tx = false → Machine.step exec w tx = w :=
    fun _ _ => step_of_not_byAdmin
  refine ⟨Machine.run_kept hrefused w₀ txs, Machine.outcomes_kept hrefused w₀ txs,
    admin_ne_zero_run hdeployer txs, ?_⟩
  intro x y w' h hyx later tx hsender heffect
  have hw : w.storage.Valid := valid_run (.deploy deployer) txs
  have hw' : w'.storage.Valid := valid_of_exec hw h
  have hadmin : w'.storage.admin = y := by
    obtain ⟨-, hemits, -⟩ := exec_ok hw h
    rw [hemits.of_single.2]
    rfl
  -- a call of `x` that has an effect is made by the admin
  have hoffice : (Machine.run exec w' later).storage.admin = x := by
    by_contra hne
    exact heffect (Machine.step_of_error (exec_of_ne_admin (by rw [hsender]; exact Ne.symm hne)))
  exact exists_changeAdmin later hw' (hadmin ▸ hyx) hoffice

/-- A call slipped in by the former admin is deleted without a trace. -/
theorem run_byAdmin_former :
    Machine.run exec (deploy 1) [⟨1, .changeAdmin 2⟩, ⟨2, .registerNFT 7 3⟩] =
      Machine.run exec (deploy 1)
        [⟨1, .changeAdmin 2⟩, ⟨1, .registerNFT 9 1⟩, ⟨2, .registerNFT 7 3⟩] :=
  (run_byAdmin (show (1 : Address) ≠ 0 by decide)
    [⟨1, .changeAdmin 2⟩, ⟨1, .registerNFT 9 1⟩, ⟨2, .registerNFT 7 3⟩]).1

end NFTOwnerTracker
end IntBlock
