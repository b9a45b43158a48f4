import IntBlock.Lib.Evm

/-!
# Replacing the code of an account

Two worlds that are alike but for the code of one account.  If the two codes do the same
whenever they are called, so does everybody's code that calls the account, however
deep; code that delegates to the account is left out, since it would run the one or the
other on storage of its own.

The two codes may nest differently, so that one of them may run into the depth limit
where the other does not.  What is shown is for runs that stay within it.

## Main definitions

* `Within` — a run that stays within a depth.
* `Alike`, `AlikeOutcome` — worlds and outcomes that are alike.
* `Prog.Avoids` — a program that does not delegate to the account.

## Main results

* `enter_of_within` — a run within a depth is the same with more of it.
* `enter_alike` — **calls are alike if those of the account itself are.**
-/

namespace IntBlock
namespace Evm

/-! ### Staying within a depth -/

def CallWithin (within : Address → Frame → World → Prop) (f : Frame) (w : World) : Prop :=
  match w.transfer f.sender f.this f.value with
  | some w' => within f.this f w'
  | none => True

/-- The calls a program makes stay `within`. -/
def ExecWithin (within : Address → Frame → World → Prop)
    (enter : Address → Frame → World → Outcome) (f : Frame) : Prog → World → Prop
  | .stop _, _ => True
  | .revert _, _ => True
  | .selfdestruct _, _ => True
  | .sload slot next, w => ExecWithin within enter f (next (w.storage f.this slot)) w
  | .sstore slot value next, w => ExecWithin within enter f next (w.store f.this slot value)
  | .extcodesize account next, w => ExecWithin within enter f (next (w.codeSize account)) w
  | .balance account next, w => ExecWithin within enter f (next (w.balances account)) w
  | .log topics out next, w => ExecWithin within enter f next (w.log f.this topics out)
  | .call target value data next, w =>
      CallWithin within ⟨target, f.this, value, data⟩ w ∧
        match callWith enter ⟨target, f.this, value, data⟩ w with
        | .returned w' out => ExecWithin within enter f (next true out) w'
        | .reverted out => ExecWithin within enter f (next false out) w
  | .delegatecall target data next, w =>
      within target { f with data := data } w ∧
        match enter target { f with data := data } w with
        | .returned w' out => ExecWithin within enter f (next true out) w'
        | .reverted out => ExecWithin within enter f (next false out) w

/-- A run that does not nest deeper. -/
def Within : ℕ → Address → Frame → World → Prop
  | 0, _, _, _ => False
  | depth + 1, account, f, w =>
      match w.contracts account with
      | none => True
      | some c => ExecWithin (Within depth) (enter depth) f (c.code f) w

/-- The calls that stay `within` do so `within'`, with the same outcome. -/
def Agrees (within within' : Address → Frame → World → Prop)
    (enter enter' : Address → Frame → World → Outcome) : Prop :=
  ∀ account f w, within account f w →
    within' account f w ∧ enter' account f w = enter account f w

section Agrees

variable {within within' : Address → Frame → World → Prop}
  {enter₁ enter₂ : Address → Frame → World → Outcome} {f : Frame} {w : World}

theorem callWith_agrees (h : Agrees within within' enter₁ enter₂) (hwithin : CallWithin within f w) :
    CallWithin within' f w ∧ callWith enter₂ f w = callWith enter₁ f w := by
  unfold CallWithin at hwithin ⊢
  unfold callWith
  cases htransfer : w.transfer f.sender f.this f.value with
  | none => exact ⟨trivial, rfl⟩
  | some w' =>
    rw [htransfer] at hwithin
    exact h f.this f w' hwithin

theorem exec_agrees (h : Agrees within within' enter₁ enter₂) {prog : Prog}
    (hwithin : ExecWithin within enter₁ f prog w) :
    ExecWithin within' enter₂ f prog w ∧ exec enter₂ f prog w = exec enter₁ f prog w := by
  induction prog generalizing w with
  | stop | revert | selfdestruct => exact ⟨trivial, rfl⟩
  | sload slot next ih => exact ih _ hwithin
  | sstore slot value next ih => exact ih hwithin
  | extcodesize account next ih => exact ih _ hwithin
  | balance account next ih => exact ih _ hwithin
  | log topics out next ih => exact ih hwithin
  | call target value data next ih =>
    rw [ExecWithin] at hwithin
    obtain ⟨hcall, hrest⟩ := hwithin
    -- the answer is the same, and so is what comes next
    obtain ⟨hcall', heq⟩ := callWith_agrees h hcall
    rw [ExecWithin, exec, exec, heq]
    cases hresult : callWith enter₁ ⟨target, f.this, value, data⟩ w with
    | returned w' out =>
      rw [hresult] at hrest
      obtain ⟨hrest', hexec⟩ := ih true out hrest
      exact ⟨⟨hcall', hrest'⟩, hexec⟩
    | reverted out =>
      rw [hresult] at hrest
      obtain ⟨hrest', hexec⟩ := ih false out hrest
      exact ⟨⟨hcall', hrest'⟩, hexec⟩
  | delegatecall target data next ih =>
    rw [ExecWithin] at hwithin
    obtain ⟨hcall, hrest⟩ := hwithin
    obtain ⟨hcall', heq⟩ := h target { f with data := data } w hcall
    rw [ExecWithin, exec, exec, heq]
    cases hresult : enter₁ target { f with data := data } w with
    | returned w' out =>
      rw [hresult] at hrest
      obtain ⟨hrest', hexec⟩ := ih true out hrest
      exact ⟨⟨hcall', hrest'⟩, hexec⟩
    | reverted out =>
      rw [hresult] at hrest
      obtain ⟨hrest', hexec⟩ := ih false out hrest
      exact ⟨⟨hcall', hrest'⟩, hexec⟩

end Agrees

/-- **A run within a depth is the same with more of it.** -/
theorem enter_of_within (depth : ℕ) :
    Agrees (Within depth) (Within (depth + 1)) (enter depth) (enter (depth + 1)) := by
  induction depth with
  | zero =>
    intro account f w hwithin
    exact absurd hwithin id
  | succ depth ih =>
    intro account f w hwithin
    rw [Within] at hwithin
    rw [Within, enter, enter]
    cases hcode : w.contracts account with
    | none => exact ⟨trivial, rfl⟩
    | some c =>
      rw [hcode] at hwithin
      exact exec_agrees ih hwithin

/-! ### Worlds that are alike -/

/-- The second world has `other` at the account, and is the first one but for that. -/
structure Alike (p : Address) (other : Contract) (w u : World) : Prop where
  storage : u.storage = w.storage
  balances : u.balances = w.balances
  logs : u.logs = w.logs
  contracts : ∀ account, account ≠ p → u.contracts account = w.contracts account
  replaced : u.contracts p = some other
  size : w.codeSize p = other.size

/-- The same is returned, with worlds that are alike, or the same is the reason to revert. -/
inductive AlikeOutcome (p : Address) (other : Contract) : Outcome → Outcome → Prop
  | returned {w u : World} (h : Alike p other w u) (out : Data) :
      AlikeOutcome p other (.returned w out) (.returned u out)
  | reverted (out : Data) : AlikeOutcome p other (.reverted out) (.reverted out)

theorem AlikeOutcome.cases {p : Address} {other : Contract} {r r' : Outcome}
    (h : AlikeOutcome p other r r') :
    (∃ w u out, r = .returned w out ∧ r' = .returned u out ∧ Alike p other w u) ∨
    ∃ out, r = .reverted out ∧ r' = .reverted out := by
  cases h with
  | returned h out => exact Or.inl ⟨_, _, out, rfl, rfl, h⟩
  | reverted out => exact Or.inr ⟨out, rfl, rfl⟩

/-- A program that does not delegate to the account. -/
def Prog.Avoids (p : Address) : Prog → Prop
  | .stop _ => True
  | .revert _ => True
  | .selfdestruct _ => True
  | .sload _ next => ∀ value, (next value).Avoids p
  | .sstore _ _ next => next.Avoids p
  | .extcodesize _ next => ∀ size, (next size).Avoids p
  | .balance _ next => ∀ value, (next value).Avoids p
  | .log _ _ next => next.Avoids p
  | .call _ _ _ next => ∀ success out, (next success out).Avoids p
  | .delegatecall target _ next => target ≠ p ∧ ∀ success out, (next success out).Avoids p

section Alike

variable {p : Address} {other : Contract} {w u : World}

theorem Alike.codeSize (h : Alike p other w u) (account : Address) :
    u.codeSize account = w.codeSize account := by
  by_cases hp : account = p
  · subst hp
    rw [h.size]
    unfold World.codeSize
    rw [h.replaced]
  · unfold World.codeSize
    rw [h.contracts account hp]

theorem Alike.store (h : Alike p other w u) (account : Address) (slot value : Word) :
    Alike p other (w.store account slot value) (u.store account slot value) := by
  refine ⟨?_, h.balances, h.logs, h.contracts, h.replaced, h.size⟩
  unfold World.store
  dsimp only
  rw [h.storage]

theorem Alike.log (h : Alike p other w u) (account : Address) (topics : List Word) (out : Data) :
    Alike p other (w.log account topics out) (u.log account topics out) := by
  refine ⟨h.storage, h.balances, ?_, h.contracts, h.replaced, h.size⟩
  unfold World.log
  dsimp only
  rw [h.logs]

theorem Alike.sweep (h : Alike p other w u) (account beneficiary : Address) :
    Alike p other (w.sweep account beneficiary) (u.sweep account beneficiary) := by
  refine ⟨h.storage, ?_, h.logs, h.contracts, h.replaced, h.size⟩
  unfold World.sweep
  dsimp only
  rw [h.balances]

theorem Alike.transfer (h : Alike p other w u) (sender target : Address) (value : ℕ) :
    (w.transfer sender target value = none ∧ u.transfer sender target value = none) ∨
    ∃ w' u', w.transfer sender target value = some w' ∧
      u.transfer sender target value = some u' ∧ Alike p other w' u' := by
  unfold World.transfer
  rw [h.balances]
  by_cases hvalue : value ≤ w.balances sender
  · right
    rw [if_pos hvalue, if_pos hvalue]
    exact ⟨_, _, rfl, rfl, h.storage, rfl, h.logs, h.contracts, h.replaced, h.size⟩
  · left
    rw [if_neg hvalue, if_neg hvalue]
    exact ⟨rfl, rfl⟩

theorem Alike.create (h : Alike p other w u) {account : Address} (hne : account ≠ p)
    (c' : Contract) :
    Alike p other
      { w with contracts := Function.update w.contracts account (some c') }
      { u with contracts := Function.update u.contracts account (some c') } := by
  refine ⟨h.storage, h.balances, h.logs, ?_, ?_, ?_⟩
  · intro a ha
    dsimp only
    by_cases heq : a = account
    · subst heq
      rw [Function.update_self, Function.update_self]
    · rw [Function.update_of_ne heq, Function.update_of_ne heq]
      exact h.contracts a ha
  · exact (Function.update_of_ne (Ne.symm hne) _ _).trans h.replaced
  · refine Eq.trans ?_ h.size
    unfold World.codeSize
    dsimp only
    rw [Function.update_of_ne (Ne.symm hne)]

end Alike

/-- The calls that fit are alike. -/
def AlikeCalls (p : Address) (other : Contract) (trusted outsiders : Set Address)
    (P : World → Prop) (within within' : Address → Frame → World → Prop)
    (enter enter' : Address → Frame → World → Outcome) : Prop :=
  ∀ account f w u, P w → Alike p other w u → Fits p trusted outsiders account f →
    (account = p → f.this = p) → within account f w →
    within' account f u ∧ AlikeOutcome p other (enter account f w) (enter' account f u)

section AlikeCalls

variable {p : Address} {other : Contract} {slots : Set Word} {trusted outsiders : Set Address}
  {P : World → Prop} {within within' : Address → Frame → World → Prop}
  {enter₁ enter₂ : Address → Frame → World → Outcome} {f : Frame} {w u : World}

theorem callWith_alike (hP : ∀ w w', P w → Same p slots w w' → P w')
    (hcalls : AlikeCalls p other trusted outsiders P within within' enter₁ enter₂)
    (hfits : Fits p trusted outsiders f.this f) (hw : P w) (halike : Alike p other w u)
    (hwithin : CallWithin within f w) :
    CallWithin within' f u ∧ AlikeOutcome p other (callWith enter₁ f w) (callWith enter₂ f u) := by
  unfold CallWithin at hwithin ⊢
  unfold callWith
  rcases halike.transfer f.sender f.this f.value with ⟨hw', hu'⟩ | ⟨w', u', hw', hu', halike'⟩
  · rw [hw', hu']
    exact ⟨trivial, .reverted []⟩
  · rw [hw'] at hwithin
    rw [hw', hu']
    exact hcalls f.this f w' u' (hP w w' hw (same_transfer hw')) halike' hfits id hwithin

/-- A program does the same in both worlds if the calls it makes do. -/
theorem exec_alike (hP : ∀ w w', P w → Same p slots w w' → P w')
    (hkeeping : Keeping p slots trusted outsiders P enter₁)
    (hcalls : AlikeCalls p other trusted outsiders P within within' enter₁ enter₂)
    (hsender : f.this = p → f.sender ∉ outsiders) (hthis : f.this ∉ outsiders) {prog : Prog}
    (hkeeps : f.this = p → prog.Keeps slots trusted) (havoids : prog.Avoids p) (hw : P w)
    (halike : Alike p other w u) (hwithin : ExecWithin within enter₁ f prog w) :
    ExecWithin within' enter₂ f prog u ∧
      AlikeOutcome p other (exec enter₁ f prog w) (exec enter₂ f prog u) := by
  induction prog generalizing w u with
  | stop out => exact ⟨trivial, .returned halike out⟩
  | revert out => exact ⟨trivial, .reverted out⟩
  | selfdestruct beneficiary => exact ⟨trivial, .returned (halike.sweep _ _) []⟩
  | sload slot next ih =>
    rw [ExecWithin, exec, exec, halike.storage]
    exact ih _ (fun hp => hkeeps hp _) (havoids _) hw halike hwithin
  | sstore slot value next ih =>
    have hstore : Same p slots w (w.store f.this slot value) :=
      same_store fun hp => (hkeeps hp).1
    exact ih (fun hp => (hkeeps hp).2) havoids (hP _ _ hw hstore) (halike.store _ _ _) hwithin
  | extcodesize account next ih =>
    rw [ExecWithin, exec, exec, halike.codeSize]
    exact ih _ (fun hp => hkeeps hp _) (havoids _) hw halike hwithin
  | balance account next ih =>
    rw [ExecWithin, exec, exec, halike.balances]
    exact ih _ (fun hp => hkeeps hp _) (havoids _) hw halike hwithin
  | log topics out next ih =>
    exact ih hkeeps havoids (hP _ _ hw (same_log _ _ _)) (halike.log _ _ _) hwithin
  | call target value data next ih =>
    rw [ExecWithin] at hwithin
    obtain ⟨hcall, hrest⟩ := hwithin
    -- a frame of the callee's own
    have hfits : Fits p trusted outsiders target ⟨target, f.this, value, data⟩ :=
      ⟨fun _ => hthis, Or.inl rfl, Or.inl⟩
    obtain ⟨hcall', hresult⟩ := callWith_alike hP hcalls hfits hw halike hcall
    rw [ExecWithin, exec, exec]
    rcases hresult.cases with ⟨w', u', out, hw', hu', halike'⟩ | ⟨out, hw', hu'⟩
    · rw [hw'] at hrest
      rw [hw', hu']
      have hsame := callWith_same hP hkeeping hfits hw hw'
      obtain ⟨hrest', hexec⟩ := ih true out (fun hp => hkeeps hp _ _) (havoids _ _)
        (hP _ _ hw hsame) halike' hrest
      exact ⟨⟨hcall', hrest'⟩, hexec⟩
    · rw [hw'] at hrest
      rw [hw', hu']
      obtain ⟨hrest', hexec⟩ := ih false out (fun hp => hkeeps hp _ _) (havoids _ _) hw halike hrest
      exact ⟨⟨hcall', hrest'⟩, hexec⟩
  | delegatecall target data next ih =>
    rw [ExecWithin] at hwithin
    obtain ⟨hcall, hrest⟩ := hwithin
    -- code that runs in this frame, and is not that of `p`
    obtain ⟨hne, havoids⟩ := havoids
    have hfits : Fits p trusted outsiders target { f with data := data } :=
      ⟨hsender, Or.inr hthis, fun hp => Or.inr (hkeeps hp).1⟩
    obtain ⟨hcall', hresult⟩ := hcalls target { f with data := data } w u hw halike hfits
      (fun hp => absurd hp hne) hcall
    rw [ExecWithin, exec, exec]
    rcases hresult.cases with ⟨w', u', out, hw', hu', halike'⟩ | ⟨out, hw', hu'⟩
    · rw [hw'] at hrest
      rw [hw', hu']
      have hsame := hkeeping target { f with data := data } w w' out hw hfits hw'
      obtain ⟨hrest', hexec⟩ := ih true out (fun hp => (hkeeps hp).2 _ _) (havoids _ _)
        (hP _ _ hw hsame) halike' hrest
      exact ⟨⟨hcall', hrest'⟩, hexec⟩
    · rw [hw'] at hrest
      rw [hw', hu']
      obtain ⟨hrest', hexec⟩ := ih false out (fun hp => (hkeeps hp).2 _ _) (havoids _ _) hw halike
        hrest
      exact ⟨⟨hcall', hrest'⟩, hexec⟩

end AlikeCalls

/-- **Calls are alike at each depth if those of the account itself are**, where its own code
may rely on all calls of a lesser depth. -/
theorem enter_alike {p : Address} {other : Contract} {slots : Set Word}
    {trusted outsiders : Set Address} {own : Frame → Prog} {P : World → Prop}
    (hP : ∀ w w', P w → Same p slots w w' → P w')
    (hfence : ∀ w, P w → Fence p slots trusted outsiders own w)
    (havoids : ∀ w, P w → ∀ account c, account ≠ p → w.contracts account = some c →
      ∀ f, (c.code f).Avoids p)
    (hkeeping : ∀ depth, Keeping p slots trusted outsiders P (enter depth))
    (hown : ∀ depth, (∀ d ≤ depth, AlikeCalls p other trusted outsiders P (Within d) (Within d)
        (enter d) (enter d)) →
      ∀ f w u, P w → Alike p other w u → f.sender ∉ outsiders → f.this = p →
      Within (depth + 1) p f w → Within (depth + 1) p f u ∧
        AlikeOutcome p other (enter (depth + 1) p f w) (enter (depth + 1) p f u)) (depth : ℕ) :
    AlikeCalls p other trusted outsiders P (Within depth) (Within depth) (enter depth)
      (enter depth) := by
  induction depth using Nat.strong_induction_on with
  | _ depth ih =>
    intro account f w u hw halike hfits hthis hwithin
    cases depth with
    | zero => exact absurd hwithin id
    | succ depth =>
      by_cases hp : account = p
      · subst hp
        -- the account itself, which may rely on all calls of a lesser depth
        exact hown depth (fun d hd => ih d (Nat.lt_succ_of_le hd)) f w u hw halike
          (hfits.sender (hthis rfl)) (hthis rfl) hwithin
      · -- any other account has the same code in both worlds
        rw [Within] at hwithin
        rw [Within, enter, enter, halike.contracts account hp]
        cases hcode : w.contracts account with
        | none => exact ⟨trivial, .returned halike []⟩
        | some c =>
          rw [hcode] at hwithin
          have hw' := hfence w hw
          have hthis' := hfits.this_not_mem hw' hcode
          refine exec_alike hP (hkeeping depth) (ih depth (Nat.lt_succ_self depth)) hfits.sender
            hthis' (fun hpthis => ?_) (havoids w hw account c hp hcode f) hw halike hwithin
          rcases hfits.fenced hpthis with heq | htrusted
          · exact absurd heq hp
          · exact hw'.keeps account htrusted c hcode f

end Evm
end IntBlock
