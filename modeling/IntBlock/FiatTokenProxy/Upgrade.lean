import IntBlock.FiatTokenProxy.Contract
import IntBlock.Lib.Machine

/-!
# Upgrades

The proxy among other contracts, over whole runs: transactions of anybody, and new
contracts.  Its two slots are a register of who the admin is and which implementation
is in use.  Only the admin's own transactions change it, whatever is called meanwhile,
as long as the admin is no contract and upgrades to code that leaves the slots alone.

## Main definitions

* `Registry` — the admin and the implementation.
* `Guarded p trusted s w` — the proxy at `p` has this registry.
* `Prudent` — what is expected of the admin and of new contracts.
* `registered` — the registry after a step.

## Main results

* `enter_of_not_admin` — a call by somebody else is one of the implementation.
* `guarded_step` — the registry after a step.
* `guarded_run` — **the registry after a run is what the admin's transactions made of
  it.**
-/

namespace IntBlock
namespace FiatTokenProxy

open Evm

/-- The slots of the proxy. -/
def slots : Set Word := {adminSlot, implementationSlot}

/-- What the slots are for. -/
structure Registry where
  admin : Address
  implementation : Address

/-- The proxy at `p` has this registry: an admin without code, and an implementation that
can be trusted. -/
structure Guarded (p : Address) (trusted : Set Address) (s : Registry) (w : World) : Prop where
  own : ∃ c, w.contracts p = some c ∧ c.code = code
  keeps : ∀ account ∈ trusted, ∀ c, w.contracts account = some c →
    ∀ f, (c.code f).Keeps slots trusted
  admin_eq : adminOf w p = s.admin
  admin_ne_zero : s.admin ≠ 0
  admin_no_code : w.contracts s.admin = none
  implementation_eq : implementationOf w p = s.implementation
  implementation_trusted : s.implementation ∈ trusted
  implementation_code : w.contracts s.implementation ≠ none

section Guarded

variable {p : Address} {trusted : Set Address} {s : Registry} {w w' : World}

theorem Same.adminOf (h : Same p slots w w') : adminOf w' p = adminOf w p :=
  congrArg (BitVec.setWidth 160) (h.storage adminSlot (Or.inl rfl))

theorem Same.implementationOf (h : Same p slots w w') :
    implementationOf w' p = implementationOf w p :=
  congrArg (BitVec.setWidth 160) (h.storage implementationSlot (Or.inr rfl))

theorem Guarded.same (h : Guarded p trusted s w) (hsame : Same p slots w w') :
    Guarded p trusted s w' := by
  have hcontracts := hsame.contracts
  refine ⟨?_, ?_, (Same.adminOf hsame).trans h.admin_eq, h.admin_ne_zero, ?_,
    (Same.implementationOf hsame).trans h.implementation_eq, h.implementation_trusted, ?_⟩
  · rw [hcontracts]
    exact h.own
  · rw [hcontracts]
    exact h.keeps
  · rw [hcontracts]
    exact h.admin_no_code
  · rw [hcontracts]
    exact h.implementation_code

theorem Guarded.fence (h : Guarded p trusted s w) : Fence p slots trusted {s.admin} code w where
  own := h.own
  keeps := h.keeps
  outsider := by
    rintro account rfl
    exact h.admin_no_code

/-- The proxy is not its admin. -/
theorem Guarded.ne_admin (h : Guarded p trusted s w) : p ≠ s.admin := by
  rintro rfl
  obtain ⟨c, hc, -⟩ := h.own
  cases hc.symm.trans h.admin_no_code

/-- Calls that are not from the admin keep the registry. -/
theorem guarded_keeping (p : Address) (trusted : Set Address) (s : Registry) (depth : ℕ) :
    Keeping p slots trusted {s.admin} (Guarded p trusted s) (enter depth) := by
  refine @enter_same p slots trusted {s.admin} code (Guarded p trusted s)
    (fun w w' hw hsame => hw.same hsame) (fun w hw => hw.fence) ?_ depth
  rintro enter f w w' out henter hw hsender rfl h
  rw [exec_code_of_not_admin (hw.admin_eq ▸ hsender)] at h
  split_ifs at h with hrejected
  refine henter _ f w w' out hw ⟨fun _ => hsender, Or.inr hw.ne_admin, fun _ => Or.inr ?_⟩ h
  rw [hw.implementation_eq]
  exact hw.implementation_trusted

/-- **A call by somebody else is one of the implementation**, one level deeper. -/
theorem enter_of_not_admin {c : Contract} (hc : w.contracts p = some c) (hcode : c.code = code)
    {f : Frame} (hthis : f.this = p) (hsender : f.sender ≠ adminOf w p) (depth : ℕ) :
    enter (depth + 1) p f w =
      if rejected f then .reverted [] else enter depth (implementationOf w p) f w := by
  subst hthis
  rw [enter, hc]
  dsimp only
  rw [hcode]
  exact exec_code_of_not_admin hsender

end Guarded

/-! ### Runs -/

/-- The admin hands over to no contract, and upgrades to trusted code. -/
def PrudentCall (trusted : Set Address) (w : World) : Option Call → Prop
  | some (.changeAdmin newAdmin) => w.contracts newAdmin = none
  | some (.upgradeTo newImplementation) => newImplementation ∈ trusted
  | some (.upgradeToAndCall newImplementation _) => newImplementation ∈ trusted
  | _ => True

/-- What is expected of the admin, and of what is created at an address that is trusted. -/
def Prudent (p : Address) (trusted : Set Address) (w : World) : Step → Prop
  | .transaction tx =>
      tx.sender = adminOf w p → tx.target = p → PrudentCall trusted w (decode tx.data)
  | .create account c =>
      account ≠ adminOf w p ∧ (account ∈ trusted → ∀ f, (c.code f).Keeps slots trusted)

/-- The registry after a call by the admin. -/
def Registry.called (s : Registry) : Option Call → Registry
  | some (.changeAdmin newAdmin) => { s with admin := newAdmin }
  | some (.upgradeTo newImplementation) => { s with implementation := newImplementation }
  | some (.upgradeToAndCall newImplementation _) => { s with implementation := newImplementation }
  | _ => s

/-- The registry after a step: only transactions of the admin that are not reverted do
anything. -/
def registered (p : Address) (s : Registry) (w : World) : Step → Registry
  | .transaction tx =>
      match outcome w tx with
      | .returned _ _ =>
          if tx.sender = s.admin ∧ tx.target = p then s.called (decode tx.data) else s
      | .reverted _ => s
  | .create _ _ => s

section Runs

variable {p : Address} {trusted : Set Address} {s : Registry} {w w' : World}

theorem Guarded.create (h : Guarded p trusted s w) {account : Address} {c : Contract}
    (hnew : w.contracts account = none) (hprudent : Prudent p trusted w (.create account c)) :
    Guarded p trusted s
      { w with contracts := Function.update w.contracts account (some c) } := by
  obtain ⟨hadmin, hkeeps⟩ := hprudent
  rw [h.admin_eq] at hadmin
  -- what was there stays there
  have hold : ∀ a, w.contracts a ≠ none →
      Function.update w.contracts account (some c) a = w.contracts a := by
    intro a ha
    refine Function.update_of_ne ?_ _ _
    rintro rfl
    exact ha hnew
  obtain ⟨c', hc', hcode⟩ := h.own
  refine ⟨⟨c', ?_, hcode⟩, ?_, h.admin_eq, h.admin_ne_zero, ?_, h.implementation_eq,
    h.implementation_trusted, ?_⟩
  · exact (hold p (by rw [hc']; exact Option.some_ne_none c')).trans hc'
  · intro a ha c₁ hc₁ f
    by_cases heq : a = account
    · subst heq
      dsimp only at hc₁
      rw [Function.update_self] at hc₁
      cases hc₁
      exact hkeeps ha f
    · dsimp only at hc₁
      rw [Function.update_of_ne heq] at hc₁
      exact h.keeps a ha c₁ hc₁ f
  · exact (Function.update_of_ne (Ne.symm hadmin) _ _).trans h.admin_no_code
  · dsimp only
    rw [hold _ h.implementation_code]
    exact h.implementation_code

theorem Guarded.adminSet (h : Guarded p trusted s w) {newAdmin : Address} (hzero : newAdmin ≠ 0)
    (hcode : w.contracts newAdmin = none) :
    Guarded p trusted { s with admin := newAdmin } (adminSet w p newAdmin) where
  own := h.own
  keeps := h.keeps
  admin_eq := adminOf_adminSet w p newAdmin
  admin_ne_zero := hzero
  admin_no_code := hcode
  implementation_eq := (implementationOf_adminSet w p newAdmin).trans h.implementation_eq
  implementation_trusted := h.implementation_trusted
  implementation_code := h.implementation_code

theorem Guarded.implementationSet (h : Guarded p trusted s w) {newImplementation : Address}
    (htrusted : newImplementation ∈ trusted) (hsize : w.codeSize newImplementation ≠ 0) :
    Guarded p trusted { s with implementation := newImplementation }
      (implementationSet w p newImplementation) where
  own := h.own
  keeps := h.keeps
  admin_eq := (adminOf_implementationSet w p newImplementation).trans h.admin_eq
  admin_ne_zero := h.admin_ne_zero
  admin_no_code := h.admin_no_code
  implementation_eq := implementationOf_implementationSet w p newImplementation
  implementation_trusted := htrusted
  implementation_code := by
    intro hnone
    apply hsize
    unfold World.codeSize
    rw [show w.contracts newImplementation = none from hnone]

/-- What a call by the admin returns with. -/
theorem Guarded.adminOutcome (h : Guarded p trusted s w) {f : Frame} (hthis : f.this = p)
    {depth : ℕ} {out : Data}
    (hprudent : PrudentCall trusted w (decode f.data))
    (hreturned : FiatTokenProxy.adminOutcome (enter depth) f w = .returned w' out) :
    Guarded p trusted (s.called (decode f.data)) w' := by
  subst hthis
  unfold FiatTokenProxy.adminOutcome at hreturned
  cases hdecode : decode f.data with
  | none =>
    rw [hdecode] at hreturned
    cases hreturned
  | some g =>
    rw [hdecode] at hreturned hprudent
    cases g with
    | admin =>
      dsimp only at hreturned
      split_ifs at hreturned
      cases hreturned
      exact h
    | implementation =>
      dsimp only at hreturned
      split_ifs at hreturned
      cases hreturned
      exact h
    | changeAdmin newAdmin =>
      dsimp only at hreturned
      split_ifs at hreturned with hvalue hzero
      cases hreturned
      exact h.adminSet hzero hprudent
    | upgradeTo newImplementation =>
      dsimp only at hreturned
      split_ifs at hreturned with hvalue hsize
      cases hreturned
      exact h.implementationSet hprudent hsize
    | upgradeToAndCall newImplementation data =>
      dsimp only at hreturned
      split_ifs at hreturned with hsize
      have hset := h.implementationSet hprudent hsize
      cases hcall : callWith (enter depth) ⟨f.this, f.this, f.value, padded data⟩
          (FiatTokenProxy.implementationSet w f.this newImplementation) with
      | reverted out' =>
        rw [hcall] at hreturned
        cases hreturned
      | returned w'' out' =>
        rw [hcall] at hreturned
        cases hreturned
        -- the call is from the proxy itself, which is not the admin
        refine hset.same (callWith_same (fun w w' hw hsame => hw.same hsame)
          (guarded_keeping f.this trusted _ depth) ⟨fun _ => ?_, Or.inl rfl, Or.inl⟩ hset hcall)
        exact h.ne_admin

theorem PrudentCall.same {g : Option Call} (h : PrudentCall trusted w g)
    (hsame : Same p slots w w') : PrudentCall trusted w' g := by
  cases g with
  | none => trivial
  | some g =>
    cases g with
    | admin | implementation => trivial
    | changeAdmin newAdmin => exact (congrFun hsame.contracts newAdmin).trans h
    | upgradeTo | upgradeToAndCall => exact h

/-- A transaction that is not the admin's, or not for the proxy. -/
theorem Guarded.transaction_other (h : Guarded p trusted s w) {tx : Tx} {out : Data}
    (hother : ¬ (tx.sender = s.admin ∧ tx.target = p))
    (hreturned : callWith (enter (callDepth + 1)) tx.frame w = .returned w' out) :
    Guarded p trusted s w' := by
  refine h.same (callWith_same (fun w w' hw hsame => hw.same hsame)
    (guarded_keeping p trusted s (callDepth + 1)) ⟨?_, Or.inl rfl, Or.inl⟩ h hreturned)
  exact fun htarget hsender => hother ⟨hsender, htarget⟩

/-- A transaction of the admin for the proxy. -/
theorem Guarded.transaction_admin (h : Guarded p trusted s w) {tx : Tx} {out : Data}
    (hsender : tx.sender = s.admin) (htarget : tx.target = p)
    (hprudent : PrudentCall trusted w (decode tx.data))
    (hreturned : callWith (enter (callDepth + 1)) tx.frame w = .returned w' out) :
    Guarded p trusted (s.called (decode tx.data)) w' := by
  unfold callWith at hreturned
  cases htransfer : w.transfer tx.frame.sender tx.frame.this tx.frame.value with
  | none =>
    rw [htransfer] at hreturned
    cases hreturned
  | some w₁ =>
    rw [htransfer] at hreturned
    have hsame : Same p slots w w₁ := same_transfer htransfer
    have h₁ := h.same hsame
    have hprudent₁ : PrudentCall trusted w₁ (decode tx.frame.data) := hprudent.same hsame
    obtain ⟨c, hc, hcode⟩ := h₁.own
    have hthis : tx.frame.this = p := htarget
    dsimp only at hreturned
    rw [hthis, enter, hc] at hreturned
    dsimp only at hreturned
    rw [hcode, exec_code_of_admin (by rw [hthis, h₁.admin_eq]; exact hsender)] at hreturned
    exact h₁.adminOutcome hthis hprudent₁ hreturned

/-- **The registry after a step.** -/
theorem guarded_step (h : Guarded p trusted s w) {step : Step} (hprudent : Prudent p trusted w step) :
    Guarded p trusted (registered p s w step) (Machine.step perform w step) := by
  cases step with
  | create account c =>
    by_cases hnew : w.contracts account = none
    · rw [Machine.step_of_ok (perform_create hnew c)]
      exact h.create hnew hprudent
    · rw [Machine.step_of_error (perform_create_of_ne hnew c)]
      exact h
  | transaction tx =>
    unfold registered
    dsimp only
    cases houtcome : outcome w tx with
    | reverted out =>
      rw [Machine.step_of_error (perform_of_reverted houtcome)]
      exact h
    | returned w' out =>
      rw [Machine.step_of_ok (perform_of_returned houtcome)]
      have hreturned := (outcome_eq_returned houtcome).2
      by_cases hadmin : tx.sender = s.admin ∧ tx.target = p
      · dsimp only
        rw [if_pos hadmin]
        exact h.transaction_admin hadmin.1 hadmin.2
          (hprudent (hadmin.1.trans h.admin_eq.symm) hadmin.2) hreturned
      · dsimp only
        rw [if_neg hadmin]
        exact h.transaction_other hadmin hreturned

/-- **The registry after a run** is what the admin's transactions made of it: however the
contracts call each other, nobody else's transaction changes the admin or the
implementation, the admin is never zero, and the implementation always has code. -/
theorem guarded_run (h : Guarded p trusted s w) {steps : List Step}
    (hprudent : Machine.Throughout perform (Prudent p trusted) w steps) :
    Guarded p trusted (Machine.follow perform (registered p) s w steps)
      (Machine.run perform w steps) :=
  @Machine.follow_invariant _ _ _ _ perform (registered p) (Prudent p trusted) (Guarded p trusted)
    (fun _ _ _ h hc => guarded_step h hc) s w h steps hprudent

/-! ### From the beginning -/

/-- The constructor leaves the deployer and the implementation in the slots. -/
theorem deploy_eq_some {c : Contract} {f : Frame} {implementation : Address}
    (h : deploy c f implementation w = some w') :
    w.contracts f.this = none ∧ w.codeSize implementation ≠ 0 ∧
      w'.contracts = Function.update w.contracts f.this (some c) ∧
      adminOf w' f.this = f.sender ∧ implementationOf w' f.this = implementation := by
  unfold deploy at h
  cases hnew : w.contracts f.this with
  | some c' =>
    rw [hnew] at h
    cases h
  | none =>
    rw [hnew] at h
    unfold constructor at h
    -- the constructor is not payable
    by_cases hvalue : f.value ≠ 0
    · rw [if_pos hvalue] at h
      cases h
    rw [if_neg hvalue, exec_setImplementation] at h
    -- and asks for the code of the implementation
    by_cases hsize : w.codeSize implementation = 0
    · rw [if_pos hsize] at h
      cases h
    rw [if_neg hsize] at h
    obtain rfl := Option.some.inj h
    have hslots : implementationSlot ≠ adminSlot := by decide
    refine ⟨rfl, hsize, rfl, ?_, ?_⟩
    · unfold adminOf World.store
      simp only [Function.update_self]
      exact setWidth_address f.sender
    · unfold implementationOf World.store
      simp only [Function.update_self, Function.update_of_ne hslots]
      exact setWidth_address implementation

/-- **From its deployment on**, the registry of the proxy is what its admin's transactions
have made of it.  Code is what `Prog` has: it creates no contracts (`Step.create` does,
between transactions), and is not taken away by `SELFDESTRUCT`. -/
theorem registry_of_deploy {c : Contract} (hcode : c.code = code) {f : Frame}
    (hzero : f.sender ≠ 0) (hsender : w.contracts f.sender = none) (hne : f.sender ≠ f.this)
    {implementation : Address} (htrusted : implementation ∈ trusted) (hthis : f.this ∉ trusted)
    (hkeeps : ∀ account ∈ trusted, ∀ c, w.contracts account = some c →
      ∀ f, (c.code f).Keeps slots trusted)
    (hdeploy : deploy c f implementation w = some w') {steps : List Step}
    (hprudent : Machine.Throughout perform (Prudent f.this trusted) w' steps) :
    Guarded f.this trusted
      (Machine.follow perform (registered f.this) ⟨f.sender, implementation⟩ w' steps)
      (Machine.run perform w' steps) := by
  obtain ⟨hnew, hsize, hcontracts, hadmin, himplementation⟩ := deploy_eq_some hdeploy
  have hold : ∀ account, account ≠ f.this → w'.contracts account = w.contracts account := by
    intro account haccount
    rw [hcontracts, Function.update_of_ne haccount]
  have himpl : w.contracts implementation ≠ none := by
    intro hnone
    apply hsize
    unfold World.codeSize
    rw [hnone]
  -- the proxy is not trusted, so that the trusted code is as it was
  refine guarded_run ⟨⟨c, ?_, hcode⟩, ?_, hadmin, hzero, ?_, himplementation, htrusted, ?_⟩ hprudent
  · rw [hcontracts, Function.update_self]
  · intro account haccount c' hc'
    have haccount' : account ≠ f.this := fun heq => hthis (heq ▸ haccount)
    exact hkeeps account haccount c' ((hold account haccount').symm.trans hc')
  · exact (hold f.sender hne).trans hsender
  · rw [hold implementation fun heq => hthis (heq ▸ htrusted)]
    exact himpl

end Runs

/-- A contract that returns what it is called with, and the only one there is. -/
def echo : Contract := ⟨fun f => .stop f.data, 1, Nat.one_pos⟩

def echoWorld : World where
  contracts := Function.update (fun _ => none) 2 (some echo)
  storage _ _ := 0
  balances _ := 0
  logs := []

/-- The proxy at 3, deployed by 1, is handed over to 5. -/
theorem registry_of_deploy_handover :
    ∃ w', deploy ⟨code, 1, by decide⟩ ⟨3, 1, 0, []⟩ 2 echoWorld = some w' ∧
      Guarded 3 {2}
        (Machine.follow perform (registered 3) ⟨1, 2⟩ w'
          [.transaction ⟨1, 3, 0, [0x8f, 0x28, 0x39, 0x70] ++ word 5⟩])
        (Machine.run perform w' [.transaction ⟨1, 3, 0, [0x8f, 0x28, 0x39, 0x70] ++ word 5⟩]) := by
  have hkeeps : ∀ account ∈ ({2} : Set Address), ∀ c, echoWorld.contracts account = some c →
      ∀ f, (c.code f).Keeps slots {2} := by
    rintro account rfl c hc f
    cases hc
    trivial
  have hdecode : decode ([0x8f, 0x28, 0x39, 0x70] ++ word 5) = some (.changeAdmin 5) := by
    decide +kernel
  refine ⟨_, rfl, @registry_of_deploy {2} echoWorld _ ⟨code, 1, by decide⟩ rfl ⟨3, 1, 0, []⟩
    (by decide) rfl (by decide) 2 rfl (fun h => absurd h (by decide)) hkeeps rfl _ ⟨?_, trivial⟩⟩
  intro _ _
  rw [hdecode]
  rfl

end FiatTokenProxy
end IntBlock
