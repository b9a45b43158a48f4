import IntBlock.NFTOwnerTracker.Index

/-!
# What a call does

One equation for each mutator: the errors in the order in which they are found,
and the world after the call.  A successful call is a list of elementary
updates, one for each event it emits; what such an update preserves, every run
preserves.

## Main definitions

* `Storage.apply s e` — the update of the storage the event `e` reports.
* `Storage.Enabled s e` — when the contract makes that update.
* `Emits s es s'` — `es` are enabled one after another and lead from `s` to `s'`.
* `Call.events` — the events a call emits when it succeeds.

## Main results

* `registerNFT_eq`, `registerBatchBody_eq`, `changeAdmin_eq`, `transferNFT_eq` —
  the mutators, as case distinctions.
* `exec_ok` — **what a successful call has done.**
* `Reachable.valid` — every reachable storage is valid.
-/

namespace IntBlock
namespace NFTOwnerTracker

open Solidity

/-! ### The mutators as case distinctions -/

@[simp] theorem onlyAdmin_bind {α : Type} (sender : Address) (s : Storage) (f : Unit → Result α) :
    (onlyAdmin sender s >>= f) =
      if sender ≠ s.admin then .error (.custom .unauthorized) else f () :=
  revertIf_bind _ _ _

theorem changeAdmin_eq (sender newAdmin : Address) (w : World) :
    changeAdmin sender newAdmin w =
      if sender ≠ w.storage.admin then .error (.custom .unauthorized)
      else if newAdmin = 0 then .error (.custom .invalidAddress)
      else .ok ⟨{ w.storage with admin := newAdmin },
        w.log ++ [.adminChanged w.storage.admin newAdmin]⟩ := by
  simp only [changeAdmin, onlyAdmin_bind, revertIf_bind]
  rfl

theorem registerBatchBody_eq (owner : Address) (w : World) (tokenId : Uint256) :
    registerBatchBody owner w tokenId =
      if w.storage.tokenOwners tokenId ≠ 0 then .error (.custom .tokenAlreadyExists)
      else if w.storage.totalTokens.toNat + 1 < 2 ^ 256 then
        .ok ⟨w.storage.register tokenId owner, w.log ++ [.nftRegistered tokenId owner]⟩
      else .error (.panic .arithmetic) := by
  simp only [registerBatchBody, revertIf_bind]
  congr 1
  have hone : (1 : Uint256).toNat = 1 := rfl
  rw [checkedAdd, hone]
  by_cases htotal : w.storage.totalTokens.toNat + 1 < 2 ^ 256
  · rw [if_pos htotal, if_pos htotal]
    rfl
  · rw [if_neg htotal, if_neg htotal]
    rfl

/-- A round of the batch loop that does not revert. -/
theorem registerBatchBody_ok {owner : Address} {w w' : World} {tokenId : Uint256}
    (h : registerBatchBody owner w tokenId = .ok w') :
    w.storage.tokenOwners tokenId = 0 ∧ w.storage.totalTokens.toNat + 1 < 2 ^ 256 ∧
      w' = ⟨w.storage.register tokenId owner, w.log ++ [.nftRegistered tokenId owner]⟩ := by
  rw [registerBatchBody_eq] at h
  obtain ⟨ht, h⟩ := guard_eq_ok.mp h
  split at h
  · next htotal => exact ⟨not_not.mp ht, htotal, (Except.ok.inj h).symm⟩
  · cases h

/-- One registration is one round of the batch loop, behind the two guards. -/
theorem registerNFT_eq (sender : Address) (tokenId : Uint256) (owner : Address) (w : World) :
    registerNFT sender tokenId owner w =
      if sender ≠ w.storage.admin then .error (.custom .unauthorized)
      else if owner = 0 then .error (.custom .invalidAddress)
      else registerBatchBody owner w tokenId := by
  simp only [registerNFT, registerBatchBody, onlyAdmin_bind, revertIf_bind]

theorem registerBatchNFTs_eq (sender : Address) (tokenIds : List Uint256) (owner : Address)
    (w : World) :
    registerBatchNFTs sender tokenIds owner w =
      if sender ≠ w.storage.admin then .error (.custom .unauthorized)
      else if owner = 0 then .error (.custom .invalidAddress)
      else tokenIds.foldlM (registerBatchBody owner) w := by
  simp only [registerBatchNFTs, onlyAdmin_bind, revertIf_bind]

/-- On a valid storage none of the array accesses of `transferNFT` panics. -/
theorem transferNFT_eq {w : World} (hw : w.storage.Valid) (sender : Address) (tokenId : Uint256)
    (newOwner : Address) :
    transferNFT sender tokenId newOwner w =
      if sender ≠ w.storage.admin then .error (.custom .unauthorized)
      else if newOwner = 0 then .error (.custom .invalidAddress)
      else if w.storage.tokenOwners tokenId = 0 then .error (.custom .tokenNotFound)
      else if w.storage.tokenOwners tokenId = newOwner then .error (.custom .sameOwner)
      else .ok ⟨w.storage.transfer tokenId newOwner,
        w.log ++ [.nftTransferred tokenId (w.storage.tokenOwners tokenId) newOwner]⟩ := by
  simp only [transferNFT, onlyAdmin_bind, revertIf_bind]
  by_cases ht : w.storage.tokenOwners tokenId = 0
  · simp only [if_pos ht]
  · simp only [if_neg ht]
    obtain ⟨x, hx⟩ := hw.exists_getLast? ht
    congr 3
    rw [StorageArray.checkedSub_length (hw.ownedTokens_ne_nil ht), ok_bind, StorageArray.get_last hx,
      ok_bind, StorageArray.set_of_lt x (hw.index_lt ht), ok_bind]
    simp only [Function.update_self, StorageArray.pop_mk_set hx, Function.update_idem]
    rw [Storage.transfer_of_getLast? newOwner hx]
    rfl

/-! ### Elementary updates -/

namespace Storage

/-- The update an event reports. -/
def apply (s : Storage) : Event → Storage
  | .nftRegistered t o => s.register t o
  | .nftTransferred t _ q => s.transfer t q
  | .adminChanged _ a => { s with admin := a }

/-- When the contract makes the update an event reports. -/
def Enabled (s : Storage) : Event → Prop
  | .nftRegistered t o => s.tokenOwners t = 0 ∧ o ≠ 0 ∧ s.totalTokens.toNat + 1 < 2 ^ 256
  | .nftTransferred t p q => s.tokenOwners t = p ∧ p ≠ 0 ∧ q ≠ 0 ∧ p ≠ q
  | .adminChanged p a => s.admin = p ∧ a ≠ 0

/-- Every update the contract makes keeps the storage valid. -/
theorem Valid.apply {s : Storage} (hs : s.Valid) {e : Event} (he : s.Enabled e) :
    (s.apply e).Valid := by
  cases e with
  | nftRegistered t o => exact hs.register he.1 he.2.1 he.2.2
  | nftTransferred t p q => exact hs.transfer (he.1 ▸ he.2.1) he.2.2.1
  | adminChanged p a => exact hs.withAdmin a

end Storage

/-- The events `es` are enabled one after another and lead from `s` to `s'`. -/
inductive Emits : Storage → List Event → Storage → Prop
  | nil (s : Storage) : Emits s [] s
  | cons {s s' : Storage} {e : Event} {es : List Event} (he : s.Enabled e)
      (hes : Emits (s.apply e) es s') : Emits s (e :: es) s'

theorem Emits.single {s : Storage} {e : Event} (he : s.Enabled e) : Emits s [e] (s.apply e) :=
  .cons he (.nil _)

theorem Emits.of_single {s s' : Storage} {e : Event} (h : Emits s [e] s') :
    s.Enabled e ∧ s' = s.apply e := by
  cases h with
  | cons he hrest =>
    cases hrest
    exact ⟨he, rfl⟩

/-- What each elementary update preserves, a successful call preserves. -/
theorem Emits.induct {P : Storage → Prop} (hP : ∀ s e, P s → s.Enabled e → P (s.apply e))
    {s s' : Storage} {es : List Event} (h : Emits s es s') (hs : P s) : P s' := by
  induction h with
  | nil s => exact hs
  | cons he hes ih => exact ih (hP _ _ hs he)

theorem Emits.valid {s s' : Storage} {es : List Event} (h : Emits s es s') (hs : s.Valid) :
    s'.Valid :=
  h.induct (fun _ _ hs he => hs.apply he) hs

/-! ### Successful calls -/

/-- The events a call emits when it succeeds. -/
def Call.events (s : Storage) : Call → List Event
  | .changeAdmin a => [.adminChanged s.admin a]
  | .registerNFT t o => [.nftRegistered t o]
  | .registerBatchNFTs ts o => ts.map fun t => .nftRegistered t o
  | .transferNFT t q => [.nftTransferred t (s.tokenOwners t) q]

/-- The loop of a batch that does not revert registers the tokens one by one. -/
theorem emits_of_registerBatchBody {owner : Address} (ho : owner ≠ 0) {ts : List Uint256}
    {w w' : World} (h : ts.foldlM (registerBatchBody owner) w = .ok w') :
    Emits w.storage (ts.map fun t => .nftRegistered t owner) w'.storage ∧
      w'.log = w.log ++ ts.map fun t => .nftRegistered t owner := by
  induction ts generalizing w with
  | nil => cases h; exact ⟨.nil _, by simp⟩
  | cons t ts ih =>
    rw [List.foldlM_cons] at h
    cases hbody : registerBatchBody owner w t with
    | error e =>
      rw [hbody] at h
      cases h
    | ok w₁ =>
      rw [hbody, ok_bind] at h
      obtain ⟨ht, htotal, rfl⟩ := registerBatchBody_ok hbody
      obtain ⟨hemits, hlog⟩ := ih h
      exact ⟨.cons ⟨ht, ho, htotal⟩ hemits, by rw [hlog]; simp⟩

/-- **What a successful call has done**: the sender was the admin, the updates
its events report were all enabled, and the events were emitted. -/
theorem exec_ok {w w' : World} (hw : w.storage.Valid) {tx : Tx} (h : exec w tx = .ok w') :
    tx.sender = w.storage.admin ∧ Emits w.storage (tx.call.events w.storage) w'.storage ∧
      w'.log = w.log ++ tx.call.events w.storage := by
  obtain ⟨sender, call⟩ := tx
  cases call with
  | changeAdmin a =>
    simp only [exec, changeAdmin_eq] at h
    obtain ⟨hsender, h⟩ := guard_eq_ok.mp h
    obtain ⟨ha, h⟩ := guard_eq_ok.mp h
    cases h
    exact ⟨not_not.mp hsender, .single ⟨rfl, ha⟩, rfl⟩
  | registerNFT t o =>
    simp only [exec, registerNFT_eq] at h
    obtain ⟨hsender, h⟩ := guard_eq_ok.mp h
    obtain ⟨ho, h⟩ := guard_eq_ok.mp h
    obtain ⟨ht, htotal, rfl⟩ := registerBatchBody_ok h
    exact ⟨not_not.mp hsender, .single ⟨ht, ho, htotal⟩, rfl⟩
  | registerBatchNFTs ts o =>
    simp only [exec, registerBatchNFTs_eq] at h
    obtain ⟨hsender, h⟩ := guard_eq_ok.mp h
    obtain ⟨ho, h⟩ := guard_eq_ok.mp h
    obtain ⟨hemits, hlog⟩ := emits_of_registerBatchBody ho h
    exact ⟨not_not.mp hsender, hemits, hlog⟩
  | transferNFT t q =>
    simp only [exec, transferNFT_eq hw] at h
    obtain ⟨hsender, h⟩ := guard_eq_ok.mp h
    obtain ⟨hq, h⟩ := guard_eq_ok.mp h
    obtain ⟨ht, h⟩ := guard_eq_ok.mp h
    obtain ⟨hne, h⟩ := guard_eq_ok.mp h
    cases h
    exact ⟨not_not.mp hsender, .single ⟨rfl, ht, hq, hne⟩, rfl⟩

/-- A successful call keeps the storage valid. -/
theorem valid_of_exec {w w' : World} {tx : Tx} (hw : w.storage.Valid) (h : exec w tx = .ok w') :
    w'.storage.Valid :=
  (exec_ok hw h).2.1.valid hw

theorem valid_step {w : World} (hw : w.storage.Valid) (tx : Tx) :
    (Machine.step exec w tx).storage.Valid :=
  Machine.step_invariant (P := fun w : World => w.storage.Valid) (fun _ _ _ => valid_of_exec) hw tx

theorem valid_run {w : World} (hw : w.storage.Valid) (txs : List Tx) :
    (Machine.run exec w txs).storage.Valid :=
  Machine.run_invariant (P := fun w : World => w.storage.Valid) (fun _ _ _ => valid_of_exec) hw txs

/-- **Every reachable storage is valid.** -/
theorem Reachable.valid {w : World} (hw : Reachable w) : w.storage.Valid := by
  obtain ⟨deployer, txs, rfl⟩ := hw
  exact valid_run (.deploy deployer) txs

/-- The admin is nobody's zero address, if the deployer was not. -/
theorem admin_ne_zero_run {deployer : Address} (hdeployer : deployer ≠ 0) (txs : List Tx) :
    (Machine.run exec (deploy deployer) txs).storage.admin ≠ 0 := by
  have happly : ∀ (s : Storage) (e : Event), s.admin ≠ 0 → s.Enabled e → (s.apply e).admin ≠ 0 := by
    intro s e hs he
    cases e with
    | nftRegistered t o => exact hs
    | nftTransferred t p q => exact hs
    | adminChanged p a => exact he.2
  have hstep : ∀ (w : World) (tx : Tx) (w' : World),
      (w.storage.Valid ∧ w.storage.admin ≠ 0) → exec w tx = .ok w' →
        w'.storage.Valid ∧ w'.storage.admin ≠ 0 := by
    rintro w tx w' ⟨hvalid, hadmin⟩ h
    obtain ⟨-, hemits, -⟩ := exec_ok hvalid h
    exact ⟨hemits.valid hvalid, hemits.induct happly hadmin⟩
  exact (Machine.run_invariant hstep ⟨.deploy deployer, hdeployer⟩ txs).2

theorem Reachable.run {w : World} (hw : Reachable w) (txs : List Tx) :
    Reachable (Machine.run exec w txs) := by
  obtain ⟨deployer, txs', rfl⟩ := hw
  exact ⟨deployer, txs' ++ txs, (Machine.run_append _ _ _).symm⟩

end NFTOwnerTracker
end IntBlock
