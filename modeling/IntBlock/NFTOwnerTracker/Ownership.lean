import IntBlock.NFTOwnerTracker.Effects

/-!
# Ownership, over whole runs

The consequences of a valid storage for whoever reads the contract: the three
mappings agree, tokens are conserved, and a transfer fails for the documented
reasons only.

## Main definitions

* `Storage.OwnershipIndex` — the agreement of the mappings, as a reader sees it.
* `Call.registered` — how many tokens a call registers.

## Main results

* `ownershipIndex_run` — the index is right after every run.
* `totalTokens_run` — **tokens are conserved**: the counter counts the tracked
  tokens, which stay tracked, and moves with the registrations only.
* `outcome_transferNFT` — **`transferNFT` never panics**, and why it reverts.
-/

namespace IntBlock
namespace NFTOwnerTracker

open Solidity

/-! ### The ownership index -/

/-- `tokenOwners`, `ownedTokens` and `tokenIndex` agree. -/
structure Storage.OwnershipIndex (s : Storage) : Prop where
  /-- A token is in the list of its owner, and in no other. -/
  owner_iff_mem : ∀ t a, s.tokenOwners t = a ∧ a ≠ 0 ↔ t ∈ (s.ownedTokens a).toList
  /-- The stored position is inside the owner's list. -/
  index_lt : ∀ t a, s.tokenOwners t = a → a ≠ 0 → s.tokenIndex t < (s.ownedTokens a).length
  /-- And the token stands there. -/
  get_index : ∀ t a, s.tokenOwners t = a → a ≠ 0 →
    (s.ownedTokens a).toList[(s.tokenIndex t).toNat]? = some t
  nodup : ∀ a, (s.ownedTokens a).toList.Nodup
  /-- A tracked token stands at exactly one place of one list. -/
  existsUnique_place : ∀ t, s.tokenOwners t ≠ 0 →
    ∃! p : Address × ℕ, (s.ownedTokens p.1).toList[p.2]? = some t
  ownedTokens_zero : (s.ownedTokens 0).toList = []

theorem Storage.Valid.ownershipIndex {s : Storage} (hs : s.Valid) : s.OwnershipIndex where
  owner_iff_mem t a := (hs.mem_ownedTokens t a).symm
  index_lt t a ht ha := by
    subst ht
    rw [BitVec.lt_def, StorageArray.toNat_length]
    exact hs.index_lt ha
  get_index t a ht ha := hs.wf.getElem?_index t a (by rw [← ht] at ha ⊢; exact ownerOf?_of_ne_zero ha)
  nodup a := hs.wf.nodup a
  existsUnique_place t ht := by
    have hplace := hs.wf.getElem?_iff t
    refine ⟨(s.tokenOwners t, (s.tokenIndex t).toNat), ?_, ?_⟩
    · exact (hplace _ _).mpr ⟨ownerOf?_of_ne_zero ht, rfl⟩
    · rintro ⟨a, i⟩ hi
      obtain ⟨hholder, hindex⟩ := (hplace a i).mp hi
      rw [holder_holdings, ownerOf?_eq_some] at hholder
      rw [hholder.1, ← hindex, index_holdings]
  ownedTokens_zero := by
    rw [List.eq_nil_iff_forall_not_mem]
    intro t ht
    exact ((hs.mem_ownedTokens t 0).mp ht).2 rfl

/-- **The ownership index is right after every run of calls**, by whatever
senders and with whatever arguments. -/
theorem ownershipIndex_run (deployer : Address) (txs : List Tx) :
    (Machine.run exec (deploy deployer) txs).storage.OwnershipIndex :=
  (valid_run (.deploy deployer) txs).ownershipIndex

/-! ### Conservation -/

/-- How many tokens a call registers when it succeeds. -/
def Call.registered : Call → ℕ
  | .registerNFT _ _ => 1
  | .registerBatchNFTs ts _ => ts.length
  | .transferNFT _ _ => 0
  | .changeAdmin _ => 0

/-- Whether an event is a registration. -/
def Event.isRegistered : Event → Bool
  | .nftRegistered _ _ => true
  | .nftTransferred _ _ _ => false
  | .adminChanged _ _ => false

theorem Call.countP_events (s : Storage) (c : Call) :
    (c.events s).countP Event.isRegistered = c.registered := by
  cases c with
  | changeAdmin a => rfl
  | registerNFT t o => rfl
  | registerBatchNFTs ts o =>
    simp only [Call.events, Call.registered, List.countP_map]
    exact List.countP_eq_length.mpr fun _ _ => rfl
  | transferNFT t q => rfl

/-- An elementary update tracks every token that was tracked. -/
theorem Storage.Enabled.tracked_subset {s : Storage} {e : Event} (he : s.Enabled e) :
    s.tracked ⊆ (s.apply e).tracked := by
  intro t ht
  rw [Storage.mem_tracked] at ht ⊢
  cases e with
  | adminChanged p a => exact ht
  | nftRegistered u o =>
    rw [Storage.apply, Storage.tokenOwners_register, Function.update_apply]
    split
    · exact he.2.1
    · exact ht
  | nftTransferred u p q =>
    rw [Storage.apply, Storage.tokenOwners_transfer, Function.update_apply]
    split
    · exact he.2.2.1
    · exact ht

theorem Emits.tracked_subset {s s' : Storage} {es : List Event} (h : Emits s es s') :
    s.tracked ⊆ s'.tracked :=
  h.induct (P := fun s' => s.tracked ⊆ s'.tracked) (fun _ _ hs he => hs.trans he.tracked_subset)
    (Finset.Subset.refl _)

/-- The counter moves by the registrations among the events. -/
theorem Emits.totalTokens {s s' : Storage} {es : List Event} (h : Emits s es s') :
    s'.totalTokens.toNat = s.totalTokens.toNat + es.countP Event.isRegistered := by
  induction h with
  | nil s => rfl
  | @cons s s' e es he hes ih =>
    rw [ih, List.countP_cons]
    cases e with
    | nftRegistered t o =>
      have hadd : (s.apply (.nftRegistered t o)).totalTokens.toNat = s.totalTokens.toNat + 1 :=
        BitVec.toNat_add_of_lt he.2.2
      simp only [hadd, Event.isRegistered, if_true]
      omega
    | nftTransferred t p q => rfl
    | adminChanged p a => rfl

/-- A tracked token stays tracked for the rest of every run. -/
theorem tracked_subset_run {w : World} (hw : w.storage.Valid) (txs : List Tx) :
    w.storage.tracked ⊆ (Machine.run exec w txs).storage.tracked := by
  have hstep : ∀ (w₁ : World) (tx : Tx) (w₂ : World),
      (w₁.storage.Valid ∧ w.storage.tracked ⊆ w₁.storage.tracked) → exec w₁ tx = .ok w₂ →
        w₂.storage.Valid ∧ w.storage.tracked ⊆ w₂.storage.tracked := by
    rintro w₁ tx w₂ ⟨hvalid, hsub⟩ h
    exact ⟨valid_of_exec hvalid h, hsub.trans (exec_ok hvalid h).2.1.tracked_subset⟩
  exact (Machine.run_invariant hstep ⟨hw, Finset.Subset.refl _⟩ txs).2

/-- **Conservation of tokens**: after every run `totalTokens` is the number of
tracked tokens and the sum of the lengths of all lists, no tracked token is ever
lost, and a successful call moves the counter by what it newly tracks. -/
theorem totalTokens_run (deployer : Address) (txs : List Tx) :
    let w := Machine.run exec (deploy deployer) txs
    w.storage.totalTokens.toNat = (Finset.univ.filter fun t => w.storage.tokenOwners t ≠ 0).card ∧
    w.storage.totalTokens.toNat = ∑ a : Address, (w.storage.ownedTokens a).length.toNat ∧
    (∀ t txs', w.storage.tokenOwners t ≠ 0 →
      (Machine.run exec w txs').storage.tokenOwners t ≠ 0) ∧
    (∀ tx w', exec w tx = .ok w' →
      w'.storage.totalTokens.toNat = w.storage.totalTokens.toNat + tx.call.registered ∧
      (w'.storage.tracked \ w.storage.tracked).card = tx.call.registered) := by
  intro w
  have hw : w.storage.Valid := valid_run (.deploy deployer) txs
  refine ⟨hw.totalTokens_eq, ?_, ?_, ?_⟩
  · rw [← hw.sum_length]
    exact Finset.sum_congr rfl fun a _ => (StorageArray.toNat_length _).symm
  · intro t txs' ht
    rw [← Storage.mem_tracked] at ht ⊢
    exact tracked_subset_run hw txs' ht
  · intro tx w' h
    obtain ⟨-, hemits, -⟩ := exec_ok hw h
    have htotal := hemits.totalTokens
    rw [Call.countP_events] at htotal
    refine ⟨htotal, ?_⟩
    rw [Finset.card_sdiff_of_subset hemits.tracked_subset, ← hw.totalTokens_eq,
      ← (hemits.valid hw).totalTokens_eq]
    omega

/-! ### Transfers -/

/-- **`transferNFT` never panics and reverts exactly when documented**, in every
reachable state.  The lookups it makes for a tracked token are in bounds, so
that no later state makes a tracked token untransferable. -/
theorem outcome_transferNFT {w : World} (hw : Reachable w) (sender : Address) (tokenId : Uint256)
    (newOwner : Address) :
    Machine.outcome exec w ⟨sender, .transferNFT tokenId newOwner⟩ =
      (if sender ≠ w.storage.admin then some (.custom .unauthorized)
      else if newOwner = 0 then some (.custom .invalidAddress)
      else if w.storage.tokenOwners tokenId = 0 then some (.custom .tokenNotFound)
      else if w.storage.tokenOwners tokenId = newOwner then some (.custom .sameOwner)
      else none) ∧
    (w.storage.tokenOwners tokenId ≠ 0 →
      (w.storage.ownedTokens (w.storage.tokenOwners tokenId)).toList ≠ [] ∧
      1 ≤ (w.storage.ownedTokens (w.storage.tokenOwners tokenId)).length ∧
      w.storage.tokenIndex tokenId <
        (w.storage.ownedTokens (w.storage.tokenOwners tokenId)).length ∧
      ∀ txs q, let w' := Machine.run exec w txs
        q ≠ 0 → q ≠ w'.storage.tokenOwners tokenId →
          Machine.outcome exec w' ⟨w'.storage.admin, .transferNFT tokenId q⟩ = none) := by
  have houtcome : ∀ {w : World} (_ : w.storage.Valid) (sender newOwner : Address),
      Machine.outcome exec w ⟨sender, .transferNFT tokenId newOwner⟩ =
        (if sender ≠ w.storage.admin then some (.custom .unauthorized)
        else if newOwner = 0 then some (.custom .invalidAddress)
        else if w.storage.tokenOwners tokenId = 0 then some (.custom .tokenNotFound)
        else if w.storage.tokenOwners tokenId = newOwner then some (.custom .sameOwner)
        else none) := by
    intro w hw sender newOwner
    simp only [Machine.outcome, exec, transferNFT_eq hw]
    split_ifs <;> rfl
  refine ⟨houtcome hw.valid sender newOwner, fun ht => ?_⟩
  have hindex := hw.valid.index_lt ht
  have hpos : 0 < (w.storage.ownedTokens (w.storage.tokenOwners tokenId)).toList.length := by omega
  refine ⟨List.ne_nil_of_length_pos hpos, ?_, ?_, ?_⟩
  · rw [BitVec.le_def, StorageArray.toNat_length]
    exact hpos
  · rw [BitVec.lt_def, StorageArray.toNat_length]
    exact hindex
  · intro txs q w' hq hne
    have ht' : w'.storage.tokenOwners tokenId ≠ 0 := by
      rw [← Storage.mem_tracked] at ht ⊢
      exact tracked_subset_run hw.valid txs ht
    rw [houtcome (hw.run txs).valid, if_neg (not_not.mpr rfl), if_neg hq, if_neg ht',
      if_neg (Ne.symm hne)]

/-- A token registered and moved away can be moved on. -/
theorem outcome_transferNFT_third :
    Machine.outcome exec
      (Machine.run exec (deploy 1) [⟨1, .registerNFT 7 2⟩, ⟨1, .transferNFT 7 3⟩])
      ⟨1, .transferNFT 7 2⟩ = none :=
  (outcome_transferNFT ⟨1, [⟨1, .registerNFT 7 2⟩, ⟨1, .transferNFT 7 3⟩], rfl⟩ 1 7 2).1.trans
    (by decide)

end NFTOwnerTracker
end IntBlock
