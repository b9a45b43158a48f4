import Mathlib

/-!
# Contracts that call each other

Accounts of the Ethereum virtual machine: storage, balances and code, where the code of
one account may call another one, run its code on storage of its own, and be called
again meanwhile.  Code is given by what it does: a program is a tree whose nodes are
operations, each with what comes next for every answer.  Calls nest up to the depth the
machine allows, so that the interpreter is total.

Not every operation is there.  No program creates a contract: they appear between the
transactions, by steps of their own.  That code is never taken away is how the machine has
been since its Cancun upgrade, where `SELFDESTRUCT` moves the balance and leaves the code of
every account that was there before the transaction.  Gas, static calls, `CALLCODE`,
transient storage, the hash and the bytes of code, and what a program can see of the block
are left out.

There is one rule about other people's code.  Some slots of an account are fenced: the
account's own code changes them for some senders only, and the code it delegates to
never does.  Then nothing changes them in a call from anybody else, however the
contracts call each other.

## Main definitions

* `Prog`, `Contract` — what code does.
* `World` — the accounts.
* `enter` — the code of an account, run in a frame.
* `perform` — a transaction, or a new contract.
* `Prog.Keeps` — a program that leaves the fenced slots alone.
* `Fence` — the state of the fenced account and of those around it.

## Main results

* `enter_same` — **fenced slots stay as they are in every call that fits.**
-/

namespace IntBlock
namespace Evm

abbrev Word := BitVec 256

abbrev Address := BitVec 160

abbrev Data := List (BitVec 8)

/-! ### Programs -/

/-- What code sees of the call it runs in: the account whose storage it has, and the
message. -/
structure Frame where
  this : Address
  sender : Address
  value : ℕ
  data : Data

/-- What code does; there is no `CREATE` and no `CREATE2`. -/
inductive Prog
  | stop (out : Data)
  | revert (out : Data)
  | selfdestruct (beneficiary : Address)
  | sload (slot : Word) (next : Word → Prog)
  | sstore (slot value : Word) (next : Prog)
  | extcodesize (account : Address) (next : ℕ → Prog)
  | balance (account : Address) (next : ℕ → Prog)
  | log (topics : List Word) (out : Data) (next : Prog)
  | call (target : Address) (value : ℕ) (data : Data) (next : Bool → Data → Prog)
  | delegatecall (target : Address) (data : Data) (next : Bool → Data → Prog)

/-- The code of an account. -/
structure Contract where
  code : Frame → Prog
  size : ℕ
  size_pos : 0 < size

/-- An event, with the account it is from. -/
structure Log where
  account : Address
  topics : List Word
  out : Data

structure World where
  contracts : Address → Option Contract
  storage : Address → Word → Word
  balances : Address → ℕ
  logs : List Log

namespace World

/-- `EXTCODESIZE` -/
def codeSize (w : World) (account : Address) : ℕ :=
  match w.contracts account with
  | some c => c.size
  | none => 0

def store (w : World) (account : Address) (slot value : Word) : World :=
  { w with
    storage := Function.update w.storage account
      (Function.update (w.storage account) slot value) }

def log (w : World) (account : Address) (topics : List Word) (out : Data) : World :=
  { w with logs := w.logs ++ [⟨account, topics, out⟩] }

/-- `SELFDESTRUCT`: all of the balance goes to the beneficiary, and the code stays. -/
def sweep (w : World) (account beneficiary : Address) : World :=
  let balances := Function.update w.balances account 0
  { w with
    balances := Function.update balances beneficiary (balances beneficiary + w.balances account) }

/-- The value of a call, where the sender has as much. -/
def transfer (w : World) (sender target : Address) (value : ℕ) : Option World :=
  if value ≤ w.balances sender then
    let balances := Function.update w.balances sender (w.balances sender - value)
    some { w with balances := Function.update balances target (balances target + value) }
  else none

end World

/-! ### The interpreter -/

/-- How a call ends: with a world, or without having changed the one it began in. -/
inductive Outcome
  | returned (w : World) (out : Data)
  | reverted (out : Data)

/-- A message call: the value is transferred, and the code run in a frame of its own. -/
def callWith (enter : Address → Frame → World → Outcome) (f : Frame) (w : World) : Outcome :=
  match w.transfer f.sender f.this f.value with
  | some w' => enter f.this f w'
  | none => .reverted []

/-- A program run in a frame, with `enter` for its calls. -/
def exec (enter : Address → Frame → World → Outcome) (f : Frame) : Prog → World → Outcome
  | .stop out, w => .returned w out
  | .revert out, _ => .reverted out
  | .selfdestruct beneficiary, w => .returned (w.sweep f.this beneficiary) []
  | .sload slot next, w => exec enter f (next (w.storage f.this slot)) w
  | .sstore slot value next, w => exec enter f next (w.store f.this slot value)
  | .extcodesize account next, w => exec enter f (next (w.codeSize account)) w
  | .balance account next, w => exec enter f (next (w.balances account)) w
  | .log topics out next, w => exec enter f next (w.log f.this topics out)
  | .call target value data next, w =>
      match callWith enter ⟨target, f.this, value, data⟩ w with
      | .returned w' out => exec enter f (next true out) w'
      | .reverted out => exec enter f (next false out) w
  | .delegatecall target data next, w =>
      match enter target { f with data := data } w with
      | .returned w' out => exec enter f (next true out) w'
      | .reverted out => exec enter f (next false out) w

/-- The code of an account run in a frame, which is not its own where it was delegated
to.  A call that nests too deep fails, and one to an account without code succeeds. -/
def enter : ℕ → Address → Frame → World → Outcome
  | 0, _, _, _ => .reverted []
  | depth + 1, account, f, w =>
      match w.contracts account with
      | none => .returned w []
      | some c => exec (enter depth) f (c.code f) w

/-- Calls nest up to this depth. -/
def callDepth : ℕ := 1024

/-- A transaction, whose sender has no code. -/
structure Tx where
  sender : Address
  target : Address
  value : ℕ
  data : Data

def Tx.frame (tx : Tx) : Frame := ⟨tx.target, tx.sender, tx.value, tx.data⟩

/-- How a transaction ends. -/
def outcome (w : World) (tx : Tx) : Outcome :=
  match w.contracts tx.sender with
  | none => callWith (enter (callDepth + 1)) tx.frame w
  | some _ => .reverted []

/-- What happens to the world: a transaction, or a contract at a new address. -/
inductive Step
  | transaction (tx : Tx)
  | create (account : Address) (c : Contract)

/-- The world afterwards; a transaction that is reverted is an error. -/
def perform (w : World) : Step → Except Data World
  | .transaction tx =>
      match outcome w tx with
      | .returned w' _ => .ok w'
      | .reverted out => .error out
  | .create account c =>
      match w.contracts account with
      | none => .ok { w with contracts := Function.update w.contracts account (some c) }
      | some _ => .error []

section Perform

variable {w w' : World} {tx : Tx} {account : Address} {out : Data}

theorem perform_of_returned (h : outcome w tx = .returned w' out) :
    perform w (.transaction tx) = .ok w' := by
  unfold perform
  dsimp only
  rw [h]

theorem perform_of_reverted (h : outcome w tx = .reverted out) :
    perform w (.transaction tx) = .error out := by
  unfold perform
  dsimp only
  rw [h]

theorem perform_create (h : w.contracts account = none) (c : Contract) :
    perform w (.create account c) =
      .ok { w with contracts := Function.update w.contracts account (some c) } := by
  unfold perform
  dsimp only
  rw [h]

theorem perform_create_of_ne (h : w.contracts account ≠ none) (c : Contract) :
    perform w (.create account c) = .error [] := by
  obtain ⟨c', hc'⟩ := Option.ne_none_iff_exists'.mp h
  unfold perform
  dsimp only
  rw [hc']

/-- A transaction with an effect is a call, from an account without code. -/
theorem outcome_eq_returned (h : outcome w tx = .returned w' out) :
    w.contracts tx.sender = none ∧
      callWith (enter (callDepth + 1)) tx.frame w = .returned w' out := by
  unfold outcome at h
  cases hcode : w.contracts tx.sender with
  | none =>
    rw [hcode] at h
    exact ⟨rfl, h⟩
  | some c =>
    rw [hcode] at h
    cases h

end Perform

/-! ### Fenced slots -/

/-- A program that stores to no slot of `slots`, and delegates to trusted code only. -/
def Prog.Keeps (slots : Set Word) (trusted : Set Address) : Prog → Prop
  | .stop _ => True
  | .revert _ => True
  | .selfdestruct _ => True
  | .sload _ next => ∀ value, (next value).Keeps slots trusted
  | .sstore slot _ next => slot ∉ slots ∧ next.Keeps slots trusted
  | .extcodesize _ next => ∀ size, (next size).Keeps slots trusted
  | .balance _ next => ∀ value, (next value).Keeps slots trusted
  | .log _ _ next => next.Keeps slots trusted
  | .call _ _ _ next => ∀ success out, (next success out).Keeps slots trusted
  | .delegatecall target _ next => target ∈ trusted ∧ ∀ success out, (next success out).Keeps slots trusted

/-- Nobody's code has changed, and neither have the slots of the account. -/
structure Same (account : Address) (slots : Set Word) (w w' : World) : Prop where
  contracts : w'.contracts = w.contracts
  storage : ∀ slot ∈ slots, w'.storage account slot = w.storage account slot

section Same

variable {p : Address} {slots : Set Word} {w w' w'' : World}

@[refl] theorem Same.refl (p : Address) (slots : Set Word) (w : World) : Same p slots w w :=
  ⟨rfl, fun _ _ => rfl⟩

theorem Same.trans (h : Same p slots w w') (h' : Same p slots w' w'') : Same p slots w w'' where
  contracts := h'.contracts.trans h.contracts
  storage slot hslot := (h'.storage slot hslot).trans (h.storage slot hslot)

theorem same_store {account : Address} {slot value : Word} (h : account = p → slot ∉ slots) :
    Same p slots w (w.store account slot value) where
  contracts := rfl
  storage slot' hslot' := by
    unfold World.store
    by_cases hp : p = account
    · subst hp
      have hne : slot' ≠ slot := fun heq => h rfl (heq ▸ hslot')
      simp only [Function.update_self, Function.update_of_ne hne]
    · simp only [Function.update_of_ne hp]

theorem same_log (account : Address) (topics : List Word) (out : Data) :
    Same p slots w (w.log account topics out) := ⟨rfl, fun _ _ => rfl⟩

theorem same_sweep (account beneficiary : Address) :
    Same p slots w (w.sweep account beneficiary) := ⟨rfl, fun _ _ => rfl⟩

theorem same_transfer {sender target : Address} {value : ℕ} (h : w.transfer sender target value = some w') :
    Same p slots w w' := by
  unfold World.transfer at h
  split_ifs at h with hvalue
  cases h
  exact ⟨rfl, fun _ _ => rfl⟩

end Same

/-- The fenced account has its code, and so has the code it trusts; the outsiders are
accounts without code. -/
structure Fence (p : Address) (slots : Set Word) (trusted outsiders : Set Address)
    (own : Frame → Prog) (w : World) : Prop where
  own : ∃ c, w.contracts p = some c ∧ c.code = own
  keeps : ∀ account ∈ trusted, ∀ c, w.contracts account = some c →
    ∀ f, (c.code f).Keeps slots trusted
  outsider : ∀ account ∈ outsiders, w.contracts account = none

/-- A call in which only trusted code has the storage of the fenced account, and no outsider
is its sender. -/
structure Fits (p : Address) (trusted outsiders : Set Address) (account : Address) (f : Frame) :
    Prop where
  sender : f.this = p → f.sender ∉ outsiders
  this : f.this = account ∨ f.this ∉ outsiders
  fenced : f.this = p → account = p ∨ account ∈ trusted

section Fence

variable {p : Address} {slots : Set Word} {trusted outsiders : Set Address}
  {own : Frame → Prog} {w w' : World} {account : Address} {f : Frame}

theorem Fence.same (h : Fence p slots trusted outsiders own w) (hsame : Same p slots w w') :
    Fence p slots trusted outsiders own w' where
  own := by
    rw [hsame.contracts]
    exact h.own
  keeps := by
    rw [hsame.contracts]
    exact h.keeps
  outsider := by
    rw [hsame.contracts]
    exact h.outsider

/-- No outsider runs code. -/
theorem Fits.this_not_mem (h : Fits p trusted outsiders account f)
    (hw : Fence p slots trusted outsiders own w) {c : Contract}
    (hcode : w.contracts account = some c) : f.this ∉ outsiders := by
  rcases h.this with hthis | hthis
  · intro hout
    rw [hthis] at hout
    cases (hw.outsider account hout).symm.trans hcode
  · exact hthis

/-- The calls made by a program keep the slots. -/
def Keeping (p : Address) (slots : Set Word) (trusted outsiders : Set Address)
    (P : World → Prop) (enter : Address → Frame → World → Outcome) : Prop :=
  ∀ account f w w' out, P w → Fits p trusted outsiders account f →
    enter account f w = .returned w' out → Same p slots w w'

theorem callWith_same {P : World → Prop} (hP : ∀ w w', P w → Same p slots w w' → P w')
    {enter : Address → Frame → World → Outcome} (henter : Keeping p slots trusted outsiders P enter)
    {f : Frame} (hfits : Fits p trusted outsiders f.this f) {out : Data} (hw : P w)
    (h : callWith enter f w = .returned w' out) : Same p slots w w' := by
  unfold callWith at h
  cases htransfer : w.transfer f.sender f.this f.value with
  | none =>
    rw [htransfer] at h
    cases h
  | some w₁ =>
    rw [htransfer] at h
    have hsame : Same p slots w w₁ := same_transfer htransfer
    exact hsame.trans (henter f.this f w₁ w' out (hP _ _ hw hsame) hfits h)

/-- A program keeps the slots if the calls it makes do. -/
theorem exec_same {P : World → Prop} (hP : ∀ w w', P w → Same p slots w w' → P w')
    {enter : Address → Frame → World → Outcome} (henter : Keeping p slots trusted outsiders P enter)
    {f : Frame} (hsender : f.this = p → f.sender ∉ outsiders) (hthis : f.this ∉ outsiders)
    {prog : Prog}
    (hkeeps : f.this = p → prog.Keeps slots trusted) {out : Data} (hw : P w)
    (h : exec enter f prog w = .returned w' out) : Same p slots w w' := by
  induction prog generalizing w with
  | stop out =>
    cases h
    rfl
  | revert out => cases h
  | selfdestruct beneficiary =>
    cases h
    exact same_sweep _ _
  | sload slot next ih => exact ih _ (fun hp => hkeeps hp _) hw h
  | sstore slot value next ih =>
    have hstore : Same p slots w (w.store f.this slot value) :=
      same_store fun hp => (hkeeps hp).1
    exact hstore.trans (ih (fun hp => (hkeeps hp).2) (hP _ _ hw hstore) h)
  | extcodesize account next ih => exact ih _ (fun hp => hkeeps hp _) hw h
  | balance account next ih => exact ih _ (fun hp => hkeeps hp _) hw h
  | log topics out next ih =>
    have hlog : Same p slots w (w.log f.this topics out) := same_log _ _ _
    exact hlog.trans (ih hkeeps (hP _ _ hw hlog) h)
  | call target value data next ih =>
    rw [exec] at h
    cases hcall : callWith enter ⟨target, f.this, value, data⟩ w with
    | returned w₁ out₁ =>
      rw [hcall] at h
      -- the callee has a frame of its own, and this account is the sender
      have hsame := callWith_same hP henter ⟨fun _ => hthis, Or.inl rfl, Or.inl⟩ hw hcall
      exact hsame.trans (ih true out₁ (fun hp => hkeeps hp _ _) (hP _ _ hw hsame) h)
    | reverted out₁ =>
      rw [hcall] at h
      exact ih false out₁ (fun hp => hkeeps hp _ _) hw h
  | delegatecall target data next ih =>
    rw [exec] at h
    cases hcall : enter target { f with data := data } w with
    | returned w₁ out₁ =>
      rw [hcall] at h
      -- the frame stays, so that in the fenced account the code is trusted
      have hsame := henter target { f with data := data } w w₁ out₁ hw
        ⟨hsender, Or.inr hthis, fun hp => Or.inr (hkeeps hp).1⟩ hcall
      exact hsame.trans (ih true out₁ (fun hp => (hkeeps hp).2 _ _) (hP _ _ hw hsame) h)
    | reverted out₁ =>
      rw [hcall] at h
      exact ih false out₁ (fun hp => (hkeeps hp).2 _ _) hw h

/-- **Fenced slots stay as they are in every call that fits**, at whatever depth, if the
account's own code leaves them alone for those who are not outsiders. -/
theorem enter_same {P : World → Prop} (hP : ∀ w w', P w → Same p slots w w' → P w')
    (hfence : ∀ w, P w → Fence p slots trusted outsiders own w)
    (hown : ∀ enter f w w' out, Keeping p slots trusted outsiders P enter → P w →
      f.sender ∉ outsiders → f.this = p → exec enter f (own f) w = .returned w' out →
      Same p slots w w') (depth : ℕ) :
    Keeping p slots trusted outsiders P (enter depth) := by
  induction depth with
  | zero =>
    intro account f w w' out _ _ h
    cases h
  | succ depth ih =>
    intro account f w w' out hw hfits h
    rw [enter] at h
    cases hcode : w.contracts account with
    | none =>
      rw [hcode] at h
      cases h
      rfl
    | some c =>
      rw [hcode] at h
      have hw' := hfence w hw
      have hthis := hfits.this_not_mem hw' hcode
      by_cases hp : f.this = p
      · rcases hfits.fenced hp with rfl | htrusted
        · -- the account's own code
          obtain ⟨c', hc', rfl⟩ := hw'.own
          obtain rfl := Option.some.inj (hcode.symm.trans hc')
          exact hown (enter depth) f w w' out ih hw (hfits.sender hp) hp h
        · exact exec_same hP ih hfits.sender hthis
            (fun _ => hw'.keeps account htrusted c hcode f) hw h
      · exact exec_same hP ih hfits.sender hthis (fun hp' => absurd hp' hp) hw h

end Fence

end Evm
end IntBlock
