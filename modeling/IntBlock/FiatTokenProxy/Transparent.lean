import IntBlock.FiatTokenProxy.Upgrade
import IntBlock.Lib.EvmAlike

/-!
# Transparency

The proxy and the implementation cannot be told apart: with the implementation's code at
the address of the proxy, a transaction that is not the admin's returns the same,
reverts with the same, and leaves the same behind, whatever contracts call each other on
the way.  Two things remain of the proxy: it rejects a value sent with the selector of
one of the admin's functions that take none, and its code has a size of its own.

## Main definitions

* `checkedImplementation` — the implementation's code, with these two things.
* `Undisturbed` — the proxy among contracts that do not delegate to it.
* `Quiet` — a step that is not the admin's.

## Main results

* `code_checkedImplementation` — when it is just the implementation's code.
* `outcome_alike` — a transaction has the outcome it would have without the proxy.
* `run_direct` — **so have all transactions of a run.**
-/

namespace IntBlock
namespace FiatTokenProxy

open Evm

/-- The code of the implementation in the place of the proxy `c`, with two things of the
proxy's kept: a call with a value is reverted where it has the selector of an admin
function that takes none, and the code is as long as the proxy's. -/
def checkedImplementation (impl : Contract) (c : Contract) : Contract where
  code f := if rejected f then .revert [] else impl.code f
  size := c.size
  size_pos := c.size_pos

/-- It is the implementation's code where that reverts such a call as well, as code without
a payable function of that selector does. -/
theorem code_checkedImplementation {impl : Contract} (c : Contract)
    (h : ∀ f, rejected f = true → impl.code f = .revert []) :
    (checkedImplementation impl c).code = impl.code := by
  funext f
  unfold checkedImplementation
  dsimp only
  by_cases hrejected : rejected f = true
  · rw [if_pos hrejected, h f hrejected]
  · rw [if_neg hrejected]

/-- The proxy `c` in front of `impl`, among contracts that do not delegate to it. -/
structure Undisturbed (p : Address) (trusted : Set Address) (s : Registry) (c impl : Contract)
    (w : World) : Prop extends Guarded p trusted s w where
  proxy : w.contracts p = some c
  impl : w.contracts s.implementation = some impl
  impl_ne : s.implementation ≠ p
  avoids : ∀ account c, account ≠ p → w.contracts account = some c → ∀ f, (c.code f).Avoids p

section Within

variable {within : Address → Frame → World → Prop} {enter : Address → Frame → World → Outcome}
  {f : Frame} {w : World}

theorem execWithin_require (condition : Bool) (out : Data) (next : Prog) :
    ExecWithin within enter f (require condition out next) w ↔
      (condition = true → ExecWithin within enter f next w) := by
  unfold require
  cases condition with
  | true => exact ⟨fun h _ => h, fun h => h rfl⟩
  | false => exact iff_of_true trivial nofun

theorem execWithin_fallback (h : f.sender ≠ adminOf w f.this)
    (hwithin : ExecWithin within enter f (_fallback f) w) :
    within (implementationOf w f.this) f w := by
  unfold _fallback _willFallback _admin at hwithin
  rw [ExecWithin, execWithin_require] at hwithin
  have hdelegate := hwithin (decide_eq_true h)
  unfold _implementation _delegate at hdelegate
  rw [ExecWithin, ExecWithin] at hdelegate
  exact hdelegate.1

theorem execWithin_ifAdmin (h : f.sender ≠ adminOf w f.this) {body : Prog}
    (hwithin : ExecWithin within enter f (ifAdmin f body) w) :
    within (implementationOf w f.this) f w := by
  unfold ifAdmin _admin at hwithin
  rw [ExecWithin] at hwithin
  dsimp only at hwithin
  rw [if_neg (show ¬ f.sender = (w.storage f.this adminSlot).setWidth 160 from h)] at hwithin
  exact execWithin_fallback h hwithin

/-- What the proxy delegates stays within. -/
theorem execWithin_code (h : f.sender ≠ adminOf w f.this) (hrejected : rejected f = false)
    (hwithin : ExecWithin within enter f (code f) w) :
    within (implementationOf w f.this) f w := by
  unfold code at hwithin
  unfold rejected at hrejected
  cases hdecode : decode f.data with
  | none =>
    rw [hdecode] at hwithin
    exact execWithin_fallback h hwithin
  | some g =>
    rw [hdecode] at hwithin hrejected
    dsimp only at hwithin hrejected
    rw [if_neg (by simpa using hrejected)] at hwithin
    cases g with
    | admin | implementation | changeAdmin | upgradeTo | upgradeToAndCall =>
      exact execWithin_ifAdmin h hwithin

end Within

section Undisturbed

variable {p : Address} {trusted : Set Address} {s : Registry} {c impl : Contract} {w w' u : World}

theorem Undisturbed.same (h : Undisturbed p trusted s c impl w) (hsame : Same p slots w w') :
    Undisturbed p trusted s c impl w' where
  toGuarded := h.toGuarded.same hsame
  proxy := by
    rw [hsame.contracts]
    exact h.proxy
  impl := by
    rw [hsame.contracts]
    exact h.impl
  impl_ne := h.impl_ne
  avoids := by
    rw [hsame.contracts]
    exact h.avoids

theorem Undisturbed.code_eq (h : Undisturbed p trusted s c impl w) : c.code = code := by
  obtain ⟨c', hc', hcode⟩ := h.own
  obtain rfl := Option.some.inj (h.proxy.symm.trans hc')
  exact hcode

theorem undisturbed_keeping (p : Address) (trusted : Set Address) (s : Registry) (c impl : Contract)
    (depth : ℕ) :
    Keeping p slots trusted {s.admin} (Undisturbed p trusted s c impl) (enter depth) :=
  fun account f w w' out hw hfits h =>
    guarded_keeping p trusted s depth account f w w' out hw.toGuarded hfits h

/-- **Calls are alike**, with the proxy and without. -/
theorem direct_alike (p : Address) (trusted : Set Address) (s : Registry) (c impl : Contract)
    (depth : ℕ) :
    AlikeCalls p (checkedImplementation impl c) trusted {s.admin} (Undisturbed p trusted s c impl)
      (Within depth) (Within depth) (enter depth) (enter depth) := by
  refine @enter_alike p (checkedImplementation impl c) slots trusted {s.admin} code _
    (fun w w' hw hsame => hw.same hsame) (fun w hw => hw.toGuarded.fence) (fun w hw => hw.avoids)
    (undisturbed_keeping p trusted s c impl) ?_ depth
  rintro depth ih f w u hw halike hsender rfl hwithin
  have hne : f.sender ≠ adminOf w f.this := by
    rw [hw.admin_eq]
    exact hsender
  have himpl := hw.implementation_eq
  rw [Within, hw.proxy] at hwithin
  dsimp only at hwithin
  rw [hw.code_eq] at hwithin
  have hproxy := enter_of_not_admin hw.proxy hw.code_eq rfl hne depth
  rw [himpl] at hproxy
  rw [hproxy]
  rw [Within, enter, halike.replaced]
  dsimp only [checkedImplementation]
  cases hrejected : rejected f with
  | true => exact ⟨trivial, .reverted []⟩
  | false =>
    have hdelegated := execWithin_code hne hrejected hwithin
    rw [himpl] at hdelegated
    simp only [Bool.false_eq_true, if_false]
    cases depth with
    | zero => exact absurd hdelegated id
    | succ depth =>
      rw [Within, hw.impl] at hdelegated
      rw [enter, hw.impl]
      -- one level less on the side of the proxy
      obtain ⟨hwithin', halike'⟩ := exec_alike (fun w w' hw hsame => hw.same hsame)
        (undisturbed_keeping f.this trusted s c impl depth) (ih depth (Nat.le_succ depth))
        (fun _ => hsender) hw.ne_admin
        (fun _ => hw.keeps _ hw.implementation_trusted impl hw.impl f)
        (hw.avoids _ impl hw.impl_ne hw.impl f) hw halike hdelegated
      obtain ⟨hwithin'', hexec⟩ := exec_agrees (enter_of_within depth) hwithin'
      rw [hexec]
      exact ⟨hwithin'', halike'⟩

/-- The world with the implementation in the place of the proxy, as far as
`checkedImplementation` is that. -/
def withImplementation (w : World) (p : Address) (c impl : Contract) : World :=
  { w with contracts := Function.update w.contracts p (some (checkedImplementation impl c)) }

theorem Undisturbed.alike (h : Undisturbed p trusted s c impl w) :
    Alike p (checkedImplementation impl c) w (withImplementation w p c impl) where
  storage := rfl
  balances := rfl
  logs := rfl
  contracts _ hne := Function.update_of_ne hne _ _
  replaced := Function.update_self _ _ _
  size := by
    unfold World.codeSize
    rw [h.proxy]
    rfl

/-- **A transaction has the outcome it would have without the proxy**: the same output, and
the same storage, balances and events afterwards. -/
theorem outcome_alike (h : Undisturbed p trusted s c impl w)
    (halike : Alike p (checkedImplementation impl c) w u)
    {tx : Tx} (hother : ¬ (tx.sender = s.admin ∧ tx.target = p))
    (hwithin : CallWithin (Within (callDepth + 1)) tx.frame w) :
    AlikeOutcome p (checkedImplementation impl c) (outcome w tx) (outcome u tx) := by
  have hcalls := direct_alike p trusted s c impl (callDepth + 1)
  have hfits : Fits p trusted {s.admin} tx.frame.this tx.frame :=
    ⟨fun htarget hsender => hother ⟨hsender, htarget⟩, Or.inl rfl, Or.inl⟩
  have hresult := (callWith_alike (fun w w' hw hsame => hw.same hsame) hcalls hfits h halike
    hwithin).2
  unfold outcome
  by_cases hsender : tx.sender = p
  · -- the proxy sends no transactions
    rw [hsender, h.proxy, halike.replaced]
    exact .reverted []
  · rw [halike.contracts tx.sender hsender]
    cases w.contracts tx.sender with
    | none => exact hresult
    | some c' => exact .reverted []

/-! ### Runs -/

/-- A step that is not the admin's; what is created does not delegate to the proxy. -/
def Quiet (p : Address) (trusted : Set Address) (s : Registry) (w : World) : Step → Prop
  | .transaction tx =>
      ¬ (tx.sender = s.admin ∧ tx.target = p) ∧ CallWithin (Within (callDepth + 1)) tx.frame w
  | .create account c =>
      account ≠ s.admin ∧ (account ∈ trusted → ∀ f, (c.code f).Keeps slots trusted) ∧
        ∀ f, (c.code f).Avoids p

/-- What a step is answered: whether it succeeded, and with what. -/
def answer (w : World) : Step → Bool × Data
  | .transaction tx =>
      match outcome w tx with
      | .returned _ out => (true, out)
      | .reverted out => (false, out)
  | .create account _ => ((w.contracts account).isNone, [])

def answers : World → List Step → List (Bool × Data)
  | _, [] => []
  | w, step :: steps => answer w step :: answers (Machine.step perform w step) steps

theorem Undisturbed.create (h : Undisturbed p trusted s c impl w) {account : Address}
    {c' : Contract} (hnew : w.contracts account = none)
    (hquiet : Quiet p trusted s w (.create account c')) :
    Undisturbed p trusted s c impl
      { w with contracts := Function.update w.contracts account (some c') } := by
  obtain ⟨hadmin, hkeeps, havoids⟩ := hquiet
  have hold : ∀ a c₁, w.contracts a = some c₁ →
      Function.update w.contracts account (some c') a = some c₁ := by
    intro a c₁ hc₁
    refine (Function.update_of_ne ?_ _ _).trans hc₁
    rintro rfl
    cases hnew.symm.trans hc₁
  refine ⟨h.toGuarded.create hnew ⟨?_, hkeeps⟩, hold p c h.proxy, hold _ impl h.impl, h.impl_ne, ?_⟩
  · rw [h.admin_eq]
    exact hadmin
  · intro a c₁ ha hc₁
    by_cases heq : a = account
    · subst heq
      dsimp only at hc₁
      rw [Function.update_self] at hc₁
      cases hc₁
      exact havoids
    · dsimp only at hc₁
      rw [Function.update_of_ne heq] at hc₁
      exact h.avoids a c₁ ha hc₁

theorem Undisturbed.step (h : Undisturbed p trusted s c impl w) {step : Step}
    (hquiet : Quiet p trusted s w step) :
    Undisturbed p trusted s c impl (Machine.step perform w step) := by
  cases step with
  | create account c' =>
    by_cases hnew : w.contracts account = none
    · rw [Machine.step_of_ok (perform_create hnew c')]
      exact h.create hnew hquiet
    · rw [Machine.step_of_error (perform_create_of_ne hnew c')]
      exact h
  | transaction tx =>
    cases houtcome : outcome w tx with
    | reverted out =>
      rw [Machine.step_of_error (perform_of_reverted houtcome)]
      exact h
    | returned w' out =>
      rw [Machine.step_of_ok (perform_of_returned houtcome)]
      refine h.same (callWith_same (fun w w' hw hsame => hw.same hsame)
        (undisturbed_keeping p trusted s c impl (callDepth + 1)) ⟨?_, Or.inl rfl, Or.inl⟩ h
        (outcome_eq_returned houtcome).2)
      exact fun htarget hsender => hquiet.1 ⟨hsender, htarget⟩

/-- A step in both worlds. -/
theorem step_direct (h : Undisturbed p trusted s c impl w)
    (halike : Alike p (checkedImplementation impl c) w u)
    {step : Step} (hquiet : Quiet p trusted s w step) :
    answer u step = answer w step ∧
      Alike p (checkedImplementation impl c) (Machine.step perform w step)
        (Machine.step perform u step) := by
  cases step with
  | create account c' =>
    by_cases hp : account = p
    · subst hp
      -- the address is taken in both worlds
      have hold : w.contracts account ≠ none := by
        rw [h.proxy]
        exact Option.some_ne_none c
      have hold' : u.contracts account ≠ none := by
        rw [halike.replaced]
        exact Option.some_ne_none _
      rw [Machine.step_of_error (perform_create_of_ne hold c'),
        Machine.step_of_error (perform_create_of_ne hold' c')]
      refine ⟨?_, halike⟩
      unfold answer
      dsimp only
      rw [h.proxy, halike.replaced]
      rfl
    · -- elsewhere the contracts are the same
      have hsame := halike.contracts account hp
      refine ⟨?_, ?_⟩
      · unfold answer
        dsimp only
        rw [hsame]
      · by_cases hnew : w.contracts account = none
        · rw [Machine.step_of_ok (perform_create hnew c'),
            Machine.step_of_ok (perform_create (hsame.trans hnew) c')]
          exact halike.create hp c'
        · rw [Machine.step_of_error (perform_create_of_ne hnew c'),
            Machine.step_of_error (perform_create_of_ne (hsame ▸ hnew) c')]
          exact halike
  | transaction tx =>
    unfold answer
    dsimp only
    rcases (outcome_alike h halike hquiet.1 hquiet.2).cases with
      ⟨w', u', out, hw', hu', halike'⟩ | ⟨out, hw', hu'⟩
    · rw [Machine.step_of_ok (perform_of_returned hw'), Machine.step_of_ok (perform_of_returned hu'),
        hw', hu']
      exact ⟨rfl, halike'⟩
    · rw [Machine.step_of_error (perform_of_reverted hw'),
        Machine.step_of_error (perform_of_reverted hu'), hw', hu']
      exact ⟨rfl, halike⟩

/-- **The proxy and the implementation cannot be told apart** by a run of transactions of
anybody but the admin: each is answered the same, and what is left behind is the same.
Code is what `Prog` has: it creates no contracts, and is not taken away by `SELFDESTRUCT`. -/
theorem run_direct (h : Undisturbed p trusted s c impl w) {steps : List Step}
    (hquiet : Machine.Throughout perform (Quiet p trusted s) w steps) :
    answers (withImplementation w p c impl) steps = answers w steps ∧
      Alike p (checkedImplementation impl c) (Machine.run perform w steps)
        (Machine.run perform (withImplementation w p c impl) steps) ∧
      ((∀ f, rejected f = true → impl.code f = .revert []) →
        (checkedImplementation impl c).code = impl.code) := by
  have hrun : ∀ steps w u, Undisturbed p trusted s c impl w →
      Alike p (checkedImplementation impl c) w u →
      Machine.Throughout perform (Quiet p trusted s) w steps →
      answers u steps = answers w steps ∧
        Alike p (checkedImplementation impl c) (Machine.run perform w steps)
          (Machine.run perform u steps) := by
    intro steps
    induction steps with
    | nil => exact fun w u _ halike _ => ⟨rfl, halike⟩
    | cons step steps ih =>
      intro w u hw halike hquiet
      obtain ⟨hstep, hsteps⟩ := hquiet
      obtain ⟨hanswer, halike'⟩ := step_direct hw halike hstep
      obtain ⟨hanswers, hfinal⟩ := ih _ _ (hw.step hstep) halike' hsteps
      refine ⟨?_, hfinal⟩
      rw [answers, answers, hanswer, hanswers]
  obtain ⟨hanswers, hfinal⟩ := hrun steps w _ h h.alike hquiet
  exact ⟨hanswers, hfinal, code_checkedImplementation c⟩

end Undisturbed

def echoProxy : Contract := ⟨code, 1, Nat.one_pos⟩

/-- The proxy at 3, of the admin 1, in front of the echo at 2. -/
def proxyWorld : World where
  contracts := Function.update (Function.update (fun _ => none) 2 (some echo)) 3 (some echoProxy)
  storage _ slot :=
    if slot = adminSlot then 1
    else if slot = implementationSlot then 2
    else 0
  balances _ := 0
  logs := []

/-- A call by 7. -/
theorem run_direct_echo :
    answers (withImplementation proxyWorld 3 echoProxy echo) [.transaction ⟨7, 3, 0, [1, 2]⟩] =
        answers proxyWorld [.transaction ⟨7, 3, 0, [1, 2]⟩] ∧
      Alike 3 (checkedImplementation echo echoProxy)
        (Machine.run perform proxyWorld [.transaction ⟨7, 3, 0, [1, 2]⟩])
        (Machine.run perform (withImplementation proxyWorld 3 echoProxy echo)
          [.transaction ⟨7, 3, 0, [1, 2]⟩]) := by
  have hcontracts : ∀ account c, account ≠ 3 → proxyWorld.contracts account = some c →
      c = echo := by
    intro account c hne hc
    unfold proxyWorld at hc
    dsimp only at hc
    rw [Function.update_of_ne hne] at hc
    by_cases htwo : account = 2
    · rw [htwo, Function.update_self] at hc
      exact (Option.some.inj hc).symm
    · rw [Function.update_of_ne htwo] at hc
      cases hc
  have hworld : Undisturbed 3 {2} ⟨1, 2⟩ echoProxy echo proxyWorld := by
    refine ⟨⟨⟨echoProxy, rfl, rfl⟩, ?_, rfl, by decide, rfl, rfl, rfl, nofun⟩, rfl, rfl, by decide, ?_⟩
    · rintro account rfl c hc f
      rw [hcontracts 2 c (by decide) hc]
      trivial
    · intro account c hne hc f
      rw [hcontracts account c hne hc]
      trivial
  have hwithin : CallWithin (Within (callDepth + 1)) (Tx.frame ⟨7, 3, 0, [1, 2]⟩) proxyWorld := by
    have hboth : True ∧ True := ⟨trivial, trivial⟩
    exact hboth
  obtain ⟨hanswers, hfinal, -⟩ := @run_direct 3 {2} ⟨1, 2⟩ echoProxy echo proxyWorld hworld
    [.transaction ⟨7, 3, 0, [1, 2]⟩] ⟨⟨fun h => absurd h.1 (by decide), hwithin⟩, trivial⟩
  exact ⟨hanswers, hfinal⟩

end FiatTokenProxy
end IntBlock
