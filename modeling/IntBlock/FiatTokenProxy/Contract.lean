import IntBlock.Lib.Evm

/-!
# The proxy

`FiatTokenProxy` of `xxx.sol` with the contracts it inherits from: `Proxy`,
`UpgradeabilityProxy` and `AdminUpgradeabilityProxy`.  Its admin may replace the
implementation; everybody else's calls are delegated to it.  The functions take what
comes after them as an argument, as a program does.

## Main definitions

* `code` — the dispatcher, with `fallback` and the five functions of the admin.
* `constructor`, `deploy` — the constructor.
* `decode` — which of the functions is called.
* `adminOf`, `implementationOf` — what is in the two slots.

## Main results

* `exec_code_of_admin` — **what a call by the admin does.**
* `exec_code_of_not_admin` — **any other call is the implementation's.**
-/

namespace IntBlock
namespace FiatTokenProxy

open Evm

/-! ### The calldata -/

def natOf (bytes : Data) : ℕ := bytes.foldl (fun n b => n * 256 + b.toNat) 0

/-- Bytes of the calldata; those beyond its end are zero. -/
def calldata (data : Data) (offset length : ℕ) : Data :=
  (List.range length).map fun i => data.getD (offset + i) 0

/-- `CALLDATALOAD` -/
def calldataload (data : Data) (offset : ℕ) : Word := BitVec.ofNat 256 (natOf (calldata data offset 32))

/-- The word as bytes. -/
def word (w : Word) : Data := (List.range 32).map fun i => (w >>> (8 * (31 - i))).setWidth 8

/-- The bytes with zeros up to a whole number of words. -/
def padded (bytes : Data) : Data := bytes ++ List.replicate (31 - (bytes.length + 31) % 32) 0

/-- The data of `require` with a message: `Error(string)`. -/
def errorData (message : String) : Data :=
  let bytes := message.toList.map fun c => BitVec.ofNat 8 c.toNat
  [0x08, 0xc3, 0x79, 0xa0] ++ word 0x20 ++ word (BitVec.ofNat 256 bytes.length) ++ padded bytes

/-- The functions of the admin. -/
inductive Call
  | admin
  | implementation
  | changeAdmin (newAdmin : Address)
  | upgradeTo (newImplementation : Address)
  | upgradeToAndCall (newImplementation : Address) (data : Data)
  deriving DecidableEq

/-- An argument that is an address. -/
def addressArg (data : Data) (i : ℕ) : Address := (calldataload data (4 + 32 * i)).setWidth 160

/-- An argument of bytes: its offset, its length there, and the bytes after that. -/
def bytesArg (data : Data) (i : ℕ) : Data :=
  let offset := calldataload data (4 + 32 * i) + 4
  let length := calldataload data offset.toNat
  calldata data (offset.toNat + 32) length.toNat

/-- The function with the selector at the beginning of the calldata. -/
def decode (data : Data) : Option Call :=
  if data.length < 4 then none
  else
    let selector := natOf (data.take 4)
    if selector = 0xf851a440 then some .admin
    else if selector = 0x5c60da1b then some .implementation
    else if selector = 0x8f283970 then some (.changeAdmin (addressArg data 0))
    else if selector = 0x3659cfe6 then some (.upgradeTo (addressArg data 0))
    else if selector = 0x4f1ef286 then some (.upgradeToAndCall (addressArg data 0) (bytesArg data 1))
    else none

/-- `payable`: the other functions revert where they are sent a value. -/
def Call.payable : Call → Bool
  | .upgradeToAndCall _ _ => true
  | _ => false

/-! ### The functions -/

/-- keccak256("org.zeppelinos.proxy.implementation") -/
def implementationSlot : Word := 0x7050c9e0f4ca769c69bd3a8ef740bc37934f8e2c036e5a723fd8ee048ed3f8c3

/-- keccak256("org.zeppelinos.proxy.admin") -/
def adminSlot : Word := 0x10d6a54a4754c8869d6886b5f5d7fbfa5b4522237ea5c60d11bc4e7a1ff9390b

/-- keccak256("Upgraded(address)") -/
def upgraded : Word := 0xbc7cd75a20ee27fd9adebab32041f755214dbc6bffa90cc0225b39da2e5c2d3b

/-- keccak256("AdminChanged(address,address)") -/
def adminChanged : Word := 0x7e644d79422f17c01e4894b5f4f588d331ebfa28653d42ae832dc59e38c9798f

def require (condition : Bool) (out : Data) (next : Prog) : Prog :=
  if condition then next else .revert out

/-- `AddressUtils.isContract` -/
def isContract (addr : Address) (next : Bool → Prog) : Prog :=
  .extcodesize addr fun size => next (decide (0 < size))

def _implementation (next : Address → Prog) : Prog :=
  .sload implementationSlot fun impl => next (impl.setWidth 160)

def _setImplementation (newImplementation : Address) (next : Prog) : Prog :=
  isContract newImplementation fun isContract =>
    require isContract (errorData "Cannot set a proxy implementation to a non-contract address")
      (.sstore implementationSlot (newImplementation.setWidth 256) next)

def _upgradeTo (newImplementation : Address) (next : Prog) : Prog :=
  _setImplementation newImplementation
    (.log [upgraded] (word (newImplementation.setWidth 256)) next)

def _admin (next : Address → Prog) : Prog :=
  .sload adminSlot fun adm => next (adm.setWidth 160)

def _setAdmin (newAdmin : Address) (next : Prog) : Prog :=
  .sstore adminSlot (newAdmin.setWidth 256) next

section Functions

variable (f : Frame)

def _delegate (implementation : Address) : Prog :=
  .delegatecall implementation f.data fun result out => if result then .stop out else .revert out

def _willFallback (next : Prog) : Prog :=
  _admin fun adm =>
    require (f.sender ≠ adm) (errorData "Cannot call fallback function from the proxy admin") next

def _fallback : Prog := _willFallback f (_implementation fun impl => _delegate f impl)

/-- The modifier. -/
def ifAdmin (body : Prog) : Prog :=
  _admin fun adm => if f.sender = adm then body else _fallback f

def admin : Prog := ifAdmin f (_admin fun adm => .stop (word (adm.setWidth 256)))

def implementation : Prog := ifAdmin f (_implementation fun impl => .stop (word (impl.setWidth 256)))

def changeAdmin (newAdmin : Address) : Prog :=
  ifAdmin f
    (require (newAdmin ≠ 0) (errorData "Cannot change the admin of a proxy to the zero address")
      (_admin fun adm =>
        .log [adminChanged] (word (adm.setWidth 256) ++ word (newAdmin.setWidth 256))
          (_setAdmin newAdmin (.stop []))))

def upgradeTo (newImplementation : Address) : Prog :=
  ifAdmin f (_upgradeTo newImplementation (.stop []))

/-- The argument of `call` is padded to a whole number of words. -/
def upgradeToAndCall (newImplementation : Address) (data : Data) : Prog :=
  ifAdmin f
    (_upgradeTo newImplementation
      (.call f.this f.value (padded data) fun success _ => require success [] (.stop [])))

/-- The function that is called. -/
def dispatch : Call → Prog
  | .admin => admin f
  | .implementation => implementation f
  | .changeAdmin newAdmin => changeAdmin f newAdmin
  | .upgradeTo newImplementation => upgradeTo f newImplementation
  | .upgradeToAndCall newImplementation data => upgradeToAndCall f newImplementation data

/-- The dispatcher. -/
def code : Prog :=
  match decode f.data with
  | some g => if g.payable = false ∧ f.value ≠ 0 then .revert [] else dispatch f g
  | none => _fallback f

/-- The constructor, which is not payable. -/
def constructor (implementation : Address) : Prog :=
  if f.value ≠ 0 then .revert []
  else _setImplementation implementation (_setAdmin f.sender (.stop []))

end Functions

/-- The creation of the proxy `c` at `f.this`: the constructor, and then the code. -/
def deploy (c : Contract) (f : Frame) (implementation : Address) (w : World) : Option World :=
  match w.contracts f.this, exec (enter callDepth) f (constructor f implementation) w with
  | none, .returned w' _ =>
      some { w' with contracts := Function.update w'.contracts f.this (some c) }
  | _, _ => none

/-! ### The slots -/

def adminOf (w : World) (p : Address) : Address := (w.storage p adminSlot).setWidth 160

def implementationOf (w : World) (p : Address) : Address :=
  (w.storage p implementationSlot).setWidth 160

/-- The world after `changeAdmin`. -/
def adminSet (w : World) (p newAdmin : Address) : World :=
  (w.log p [adminChanged]
    (word ((adminOf w p).setWidth 256) ++ word (newAdmin.setWidth 256))).store p adminSlot
      (newAdmin.setWidth 256)

/-- The world after an upgrade. -/
def implementationSet (w : World) (p newImplementation : Address) : World :=
  (w.store p implementationSlot (newImplementation.setWidth 256)).log p [upgraded]
    (word (newImplementation.setWidth 256))

theorem setWidth_address (a : Address) : (a.setWidth 256).setWidth 160 = a :=
  BitVec.setWidth_setWidth_of_le a (by decide)

@[simp] theorem adminOf_adminSet (w : World) (p a : Address) : adminOf (adminSet w p a) p = a := by
  unfold adminOf adminSet World.store
  simp only [Function.update_self]
  exact setWidth_address a

@[simp] theorem implementationOf_adminSet (w : World) (p a : Address) :
    implementationOf (adminSet w p a) p = implementationOf w p := by
  have hne : implementationSlot ≠ adminSlot := by decide
  unfold implementationOf adminSet World.store World.log
  simp only [Function.update_self, Function.update_of_ne hne]

@[simp] theorem adminOf_implementationSet (w : World) (p i : Address) :
    adminOf (implementationSet w p i) p = adminOf w p := by
  have hne : adminSlot ≠ implementationSlot := by decide
  unfold adminOf implementationSet World.store World.log
  simp only [Function.update_self, Function.update_of_ne hne]

@[simp] theorem implementationOf_implementationSet (w : World) (p i : Address) :
    implementationOf (implementationSet w p i) p = i := by
  unfold implementationOf implementationSet World.store World.log
  simp only [Function.update_self]
  exact setWidth_address i

/-! ### What a call does -/

/-- What a call by the admin should do, with `enter` for the call after an upgrade. -/
def adminOutcome (enter : Address → Frame → World → Outcome) (f : Frame) (w : World) : Outcome :=
  match decode f.data with
  | none => .reverted (errorData "Cannot call fallback function from the proxy admin")
  | some .admin =>
      if f.value ≠ 0 then .reverted []
      else .returned w (word ((adminOf w f.this).setWidth 256))
  | some .implementation =>
      if f.value ≠ 0 then .reverted []
      else .returned w (word ((implementationOf w f.this).setWidth 256))
  | some (.changeAdmin newAdmin) =>
      if f.value ≠ 0 then .reverted []
      else if newAdmin = 0 then
        .reverted (errorData "Cannot change the admin of a proxy to the zero address")
      else .returned (adminSet w f.this newAdmin) []
  | some (.upgradeTo newImplementation) =>
      if f.value ≠ 0 then .reverted []
      else if w.codeSize newImplementation = 0 then
        .reverted (errorData "Cannot set a proxy implementation to a non-contract address")
      else .returned (implementationSet w f.this newImplementation) []
  | some (.upgradeToAndCall newImplementation data) =>
      if w.codeSize newImplementation = 0 then
        .reverted (errorData "Cannot set a proxy implementation to a non-contract address")
      else
        match callWith enter ⟨f.this, f.this, f.value, padded data⟩
            (implementationSet w f.this newImplementation) with
        | .returned w' _ => .returned w' []
        | .reverted _ => .reverted []

/-- A call with a value to a function of the admin that is not payable. -/
def rejected (f : Frame) : Bool :=
  match decode f.data with
  | some g => !g.payable && decide (f.value ≠ 0)
  | none => false

section Exec

variable {enter : Address → Frame → World → Outcome} {f : Frame} {w : World}

theorem exec_require (condition : Bool) (out : Data) (next : Prog) :
    exec enter f (require condition out next) w =
      if condition then exec enter f next w else .reverted out := by
  unfold require
  cases condition with
  | true => rfl
  | false => rfl

theorem exec_setImplementation (newImplementation : Address) (next : Prog) :
    exec enter f (_setImplementation newImplementation next) w =
      if w.codeSize newImplementation = 0 then
        .reverted (errorData "Cannot set a proxy implementation to a non-contract address")
      else exec enter f next
        (w.store f.this implementationSlot (newImplementation.setWidth 256)) := by
  unfold _setImplementation isContract
  rw [exec, exec_require]
  by_cases hsize : w.codeSize newImplementation = 0
  · rw [if_pos hsize, hsize]
    rfl
  · rw [if_neg hsize, if_pos (decide_eq_true (Nat.pos_of_ne_zero hsize))]
    rfl

theorem exec_upgradeTo (newImplementation : Address) (next : Prog) :
    exec enter f (_upgradeTo newImplementation next) w =
      if w.codeSize newImplementation = 0 then
        .reverted (errorData "Cannot set a proxy implementation to a non-contract address")
      else exec enter f next (implementationSet w f.this newImplementation) :=
  exec_setImplementation newImplementation _

theorem exec_admin (next : Address → Prog) :
    exec enter f (_admin next) w = exec enter f (next (adminOf w f.this)) w := rfl

theorem exec_implementation (next : Address → Prog) :
    exec enter f (_implementation next) w =
      exec enter f (next (implementationOf w f.this)) w := rfl

theorem exec_delegate (implementation : Address) :
    exec enter f (_delegate f implementation) w = enter implementation f w := by
  unfold _delegate
  rw [exec]
  cases enter implementation f w with
  | returned w' out => rfl
  | reverted out => rfl

theorem exec_fallback_of_admin (h : f.sender = adminOf w f.this) :
    exec enter f (_fallback f) w =
      .reverted (errorData "Cannot call fallback function from the proxy admin") := by
  unfold _fallback _willFallback
  rw [exec_admin, exec_require, if_neg (by simpa using h)]

theorem exec_fallback_of_not_admin (h : f.sender ≠ adminOf w f.this) :
    exec enter f (_fallback f) w = enter (implementationOf w f.this) f w := by
  unfold _fallback _willFallback
  rw [exec_admin, exec_require, if_pos (by simpa using h), exec_implementation, exec_delegate]

theorem exec_ifAdmin_of_admin (h : f.sender = adminOf w f.this) (body : Prog) :
    exec enter f (ifAdmin f body) w = exec enter f body w := by
  unfold ifAdmin
  rw [exec_admin, if_pos h]

theorem exec_ifAdmin_of_not_admin (h : f.sender ≠ adminOf w f.this) (body : Prog) :
    exec enter f (ifAdmin f body) w = enter (implementationOf w f.this) f w := by
  unfold ifAdmin
  rw [exec_admin, if_neg h]
  exact exec_fallback_of_not_admin h

theorem exec_changeAdmin_of_admin (h : f.sender = adminOf w f.this) (newAdmin : Address) :
    exec enter f (changeAdmin f newAdmin) w =
      if newAdmin = 0 then
        .reverted (errorData "Cannot change the admin of a proxy to the zero address")
      else .returned (adminSet w f.this newAdmin) [] := by
  unfold changeAdmin
  rw [exec_ifAdmin_of_admin h, exec_require]
  by_cases hzero : newAdmin = 0
  · rw [if_pos hzero, if_neg (by simpa using hzero)]
  · rw [if_neg hzero, if_pos (by simpa using hzero)]
    rfl

theorem exec_upgradeToAndCall_of_admin (h : f.sender = adminOf w f.this)
    (newImplementation : Address) (data : Data) :
    exec enter f (upgradeToAndCall f newImplementation data) w =
      if w.codeSize newImplementation = 0 then
        .reverted (errorData "Cannot set a proxy implementation to a non-contract address")
      else
        match callWith enter ⟨f.this, f.this, f.value, padded data⟩
            (implementationSet w f.this newImplementation) with
        | .returned w' _ => .returned w' []
        | .reverted _ => .reverted [] := by
  unfold upgradeToAndCall
  rw [exec_ifAdmin_of_admin h, exec_upgradeTo, exec]
  cases callWith enter ⟨f.this, f.this, f.value, padded data⟩
      (implementationSet w f.this newImplementation) with
  | returned w' out => rfl
  | reverted out => rfl

/-- **What a call by the admin does**: one of the five functions, and nothing else. -/
theorem exec_code_of_admin (h : f.sender = adminOf w f.this) :
    exec enter f (code f) w = adminOutcome enter f w := by
  unfold code adminOutcome
  cases hdecode : decode f.data with
  | none => exact exec_fallback_of_admin h
  | some g =>
    by_cases hvalue : f.value = 0
    · cases g with
      | admin =>
        simp only [Call.payable, hvalue, ne_eq, not_true_eq_false, and_false, if_false]
        exact exec_ifAdmin_of_admin h _
      | implementation =>
        simp only [Call.payable, hvalue, ne_eq, not_true_eq_false, and_false, if_false]
        exact exec_ifAdmin_of_admin h _
      | changeAdmin newAdmin =>
        simp only [Call.payable, hvalue, ne_eq, not_true_eq_false, and_false, if_false]
        exact exec_changeAdmin_of_admin h newAdmin
      | upgradeTo newImplementation =>
        simp only [Call.payable, hvalue, ne_eq, not_true_eq_false, and_false, if_false]
        exact (exec_ifAdmin_of_admin h _).trans (exec_upgradeTo newImplementation _)
      | upgradeToAndCall newImplementation data =>
        exact exec_upgradeToAndCall_of_admin h newImplementation data
    · cases g with
      | admin | implementation | changeAdmin | upgradeTo =>
        simp only [Call.payable, hvalue, ne_eq, not_false_eq_true, and_true, if_true]
        rfl
      | upgradeToAndCall newImplementation data =>
        exact exec_upgradeToAndCall_of_admin h newImplementation data

/-- **Any other call is the implementation's**, but for one that is rejected. -/
theorem exec_code_of_not_admin (h : f.sender ≠ adminOf w f.this) :
    exec enter f (code f) w =
      if rejected f then .reverted [] else enter (implementationOf w f.this) f w := by
  unfold code rejected
  cases hdecode : decode f.data with
  | none => exact exec_fallback_of_not_admin h
  | some g =>
    have hdispatch : exec enter f (dispatch f g) w = enter (implementationOf w f.this) f w := by
      cases g with
      | admin | implementation | changeAdmin | upgradeTo | upgradeToAndCall =>
        exact exec_ifAdmin_of_not_admin h _
    dsimp only
    by_cases hrejected : g.payable = false ∧ f.value ≠ 0
    · rw [if_pos hrejected, if_pos (by simpa using hrejected)]
      rfl
    · rw [if_neg hrejected, if_neg (by simpa using hrejected)]
      exact hdispatch

end Exec
end FiatTokenProxy
end IntBlock
