import IntBlock.NFTOwnerTracker.Effects

/-!
# Calls about different tokens commute

Transferring one token moves another in the list and rewrites its position, so
calls about different tokens share storage.  Nothing of that reaches an owner or
an outcome: each token's owner is a machine of its own, run by the calls about
that token, as long as the counter cannot overflow.

## Main definitions

* `TokenCall`, `execBy` — calls of `registerNFT` and `transferNFT` by the admin.
* `TokenCall.ownerAfter` — what such a call does to the owner of its token.

## Main results

* `execBy_cases` — the contract and the owner's machine fail and succeed together.
* `run_commute` — **calls about different tokens commute up to the order of the lists.**
-/

namespace IntBlock
namespace NFTOwnerTracker

open Solidity

/-- A call about one token. -/
inductive TokenCall
  | registerNFT (tokenId : Uint256) (owner : Address)
  | transferNFT (tokenId : Uint256) (newOwner : Address)
  deriving DecidableEq, Repr

namespace TokenCall

def tokenId : TokenCall → Uint256
  | registerNFT t _ => t
  | transferNFT t _ => t

def call : TokenCall → Call
  | registerNFT t o => .registerNFT t o
  | transferNFT t q => .transferNFT t q

/-- The owner word of the token after the call, given the one before. -/
def ownerAfter (v : Address) : TokenCall → Result Address
  | registerNFT _ o =>
      if o = 0 then .error (.custom .invalidAddress)
      else if v ≠ 0 then .error (.custom .tokenAlreadyExists)
      else .ok o
  | transferNFT _ q =>
      if q = 0 then .error (.custom .invalidAddress)
      else if v = 0 then .error (.custom .tokenNotFound)
      else if v = q then .error (.custom .sameOwner)
      else .ok q

end TokenCall

/-- A call about one token, made by `admin`. -/
def execBy (admin : Address) (w : World) (c : TokenCall) : Result World := exec w ⟨admin, c.call⟩

section Confined

variable {admin : Address} {ids : Finset Uint256}

/-- A valid world administered by `admin` in which no token but those of `ids` is tracked. -/
structure Confined (admin : Address) (ids : Finset Uint256) (w : World) : Prop where
  valid : w.storage.Valid
  admin_eq : w.storage.admin = admin
  tracked_subset : w.storage.tracked ⊆ ids

/-- A registration of a token that is still free finds room in the counter. -/
theorem Confined.totalTokens_lt {w : World} (hw : Confined admin ids w) (hids : ids ≠ Finset.univ)
    {t : Uint256} (ht : t ∈ ids) (hfree : w.storage.tokenOwners t = 0) :
    w.storage.totalTokens.toNat + 1 < 2 ^ 256 := by
  have hnot : t ∉ w.storage.tracked := by simpa using hfree
  have hlt : w.storage.tracked.card < ids.card :=
    Finset.card_lt_card ⟨hw.tracked_subset, fun hsub => hnot (hsub ht)⟩
  have hall : ids.card < Fintype.card Uint256 := by
    rw [← Finset.card_univ]
    exact Finset.card_lt_card (Finset.ssubset_univ_iff.mpr hids)
  rw [card_uint256] at hall
  rw [hw.valid.totalTokens_eq]
  omega

/-- The contract and the machine of the token's owner fail with the same error
or succeed together; then the owner is the machine's, and no other owner moves. -/
theorem execBy_cases (hids : ids ≠ Finset.univ) {w : World} (hw : Confined admin ids w)
    {c : TokenCall} (hc : c.tokenId ∈ ids) :
    (∃ e, execBy admin w c = .error e ∧ c.ownerAfter (w.storage.tokenOwners c.tokenId) = .error e) ∨
    ∃ w' v, execBy admin w c = .ok w' ∧
      c.ownerAfter (w.storage.tokenOwners c.tokenId) = .ok v ∧ w'.storage.admin = admin ∧
      w'.storage.tokenOwners = Function.update w.storage.tokenOwners c.tokenId v := by
  have hadmin := hw.admin_eq
  cases c with
  | registerNFT t o =>
    change t ∈ ids at hc
    -- the guards in the order of the source; the counter has room
    have hexec : execBy admin w (.registerNFT t o) =
        if o = 0 then .error (.custom .invalidAddress) else registerBatchBody o w t := by
      rw [execBy, TokenCall.call]
      simp only [exec]
      rw [registerNFT_eq, if_neg (not_not.mpr hadmin.symm)]
    change (∃ e, _ ∧ TokenCall.ownerAfter (w.storage.tokenOwners t) _ = _) ∨
      ∃ w' v, _ ∧ TokenCall.ownerAfter (w.storage.tokenOwners t) _ = _ ∧ _ ∧ _
    rw [hexec, registerBatchBody_eq, TokenCall.ownerAfter, TokenCall.tokenId]
    by_cases ho : o = 0
    · exact Or.inl ⟨_, if_pos ho, if_pos ho⟩
    rw [if_neg ho, if_neg ho]
    by_cases ht : w.storage.tokenOwners t = 0
    · rw [if_neg (not_not.mpr ht), if_pos (hw.totalTokens_lt hids hc ht), if_neg (not_not.mpr ht)]
      exact Or.inr ⟨_, _, rfl, rfl, hadmin, rfl⟩
    · exact Or.inl ⟨_, if_pos ht, if_pos ht⟩
  | transferNFT t q =>
    have hexec : execBy admin w (.transferNFT t q) = transferNFT admin t q w := rfl
    change (∃ e, _ ∧ TokenCall.ownerAfter (w.storage.tokenOwners t) _ = _) ∨
      ∃ w' v, _ ∧ TokenCall.ownerAfter (w.storage.tokenOwners t) _ = _ ∧ _ ∧ _
    rw [hexec, transferNFT_eq hw.valid, if_neg (not_not.mpr hadmin.symm), TokenCall.ownerAfter,
      TokenCall.tokenId]
    by_cases hq : q = 0
    · exact Or.inl ⟨_, if_pos hq, if_pos hq⟩
    rw [if_neg hq, if_neg hq]
    by_cases ht : w.storage.tokenOwners t = 0
    · exact Or.inl ⟨_, if_pos ht, if_pos ht⟩
    rw [if_neg ht, if_neg ht]
    by_cases hne : w.storage.tokenOwners t = q
    · exact Or.inl ⟨_, if_pos hne, if_pos hne⟩
    rw [if_neg hne, if_neg hne]
    exact Or.inr ⟨_, _, rfl, rfl, hadmin, rfl⟩

/-- So a call acts on the owner of its own token, and on no other. -/
theorem actsOn_owner (hids : ids ≠ Finset.univ) {w : World} (hw : Confined admin ids w)
    {c : TokenCall} (hc : c.tokenId ∈ ids) :
    Machine.ActsOn (execBy admin) TokenCall.ownerAfter TokenCall.tokenId
      (fun w => w.storage.tokenOwners) w c := by
  rcases execBy_cases hids hw hc with ⟨e, hexec, howner⟩ | ⟨w', v, hexec, howner, -, hupdate⟩
  · refine ⟨?_, ?_⟩
    · rw [Machine.outcome_of_error hexec, Machine.outcome_of_error howner]
    · rw [Machine.step_of_error hexec, Machine.step_of_error howner, Function.update_eq_self]
  · refine ⟨?_, ?_⟩
    · rw [Machine.outcome_of_ok hexec, Machine.outcome_of_ok howner]
    · rw [Machine.step_of_ok hexec, Machine.step_of_ok howner, hupdate]

theorem Confined.step (hids : ids ≠ Finset.univ) {w : World} (hw : Confined admin ids w)
    {c : TokenCall} (hc : c.tokenId ∈ ids) :
    Confined admin ids (Machine.step (execBy admin) w c) := by
  rcases execBy_cases hids hw hc with ⟨e, hexec, -⟩ | ⟨w', v, hexec, -, hadmin, hupdate⟩
  · rw [Machine.step_of_error hexec]
    exact hw
  · rw [Machine.step_of_ok hexec]
    refine ⟨valid_of_exec hw.valid hexec, hadmin, fun t ht => ?_⟩
    rw [Storage.mem_tracked, hupdate] at ht
    by_cases htc : t = c.tokenId
    · rw [htc]
      exact hc
    · rw [Function.update_of_ne htc] at ht
      exact hw.tracked_subset (Storage.mem_tracked.mpr ht)

/-- Calls about the tokens of `ids` keep a world confined to them. -/
theorem Confined.run (hids : ids ≠ Finset.univ) {w : World} (hw : Confined admin ids w)
    {cs : List TokenCall} (hcs : ∀ c ∈ cs, c.tokenId ∈ ids) :
    Confined admin ids (Machine.run (execBy admin) w cs) := by
  induction cs generalizing w with
  | nil => exact hw
  | cons c cs ih =>
    exact ih (hw.step hids (hcs c List.mem_cons_self)) fun c' hc' =>
      hcs c' (List.mem_cons_of_mem _ hc')

end Confined

theorem Confined.deploy (admin : Address) (ids : Finset Uint256) :
    Confined admin ids (deploy admin) where
  valid := .deploy admin
  admin_eq := rfl
  tracked_subset := by
    intro t ht
    simp [NFTOwnerTracker.deploy] at ht

/-- **Calls about different tokens commute up to the order of the lists.**  Two
sequences of registrations and transfers made by the admin of a fresh contract,
with the same calls in the same order about every token, and some id named by
neither: every call has the same outcome in both, the owners and the counter are
the same, and the lists of an address are permutations of each other. -/
theorem run_commute (admin : Address) {cs cs' : List TokenCall}
    (hsame : ∀ t, cs.filter (fun c => c.tokenId = t) = cs'.filter (fun c => c.tokenId = t))
    (hfree : ∃ t, ∀ c ∈ cs ++ cs', c.tokenId ≠ t) :
    let w := Machine.run (execBy admin) (deploy admin) cs
    let w' := Machine.run (execBy admin) (deploy admin) cs'
    (∀ t, (Machine.outcomes (execBy admin) (deploy admin) cs).filter (fun o => o.1.tokenId = t) =
      (Machine.outcomes (execBy admin) (deploy admin) cs').filter (fun o => o.1.tokenId = t)) ∧
    w.storage.tokenOwners = w'.storage.tokenOwners ∧
    w.storage.totalTokens = w'.storage.totalTokens ∧
    ∀ a, (w.storage.ownedTokens a).toList.Perm (w'.storage.ownedTokens a).toList := by
  intro w w'
  -- the ids named, which are not all
  let ids : Finset Uint256 := ((cs ++ cs').map TokenCall.tokenId).toFinset
  have hmem : ∀ c ∈ cs ++ cs', c.tokenId ∈ ids := fun c hc =>
    List.mem_toFinset.mpr (List.mem_map_of_mem hc)
  have hids : ids ≠ Finset.univ := by
    obtain ⟨t, ht⟩ := hfree
    intro hall
    have htids : t ∈ ids := hall ▸ Finset.mem_univ t
    obtain ⟨c, hc, hct⟩ := List.mem_map.mp (List.mem_toFinset.mp htids)
    exact ht c hc hct
  have hcs : ∀ c ∈ cs, c.tokenId ∈ ids := fun c hc => hmem c (List.mem_append_left _ hc)
  have hcs' : ∀ c ∈ cs', c.tokenId ∈ ids := fun c hc => hmem c (List.mem_append_right _ hc)
  have hstart : Confined admin ids (deploy admin) := .deploy admin ids
  have hacts : ∀ w c, Confined admin ids w → c.tokenId ∈ ids →
      Machine.ActsOn (execBy admin) TokenCall.ownerAfter TokenCall.tokenId
        (fun w => w.storage.tokenOwners) w c := fun _ _ hw hc => actsOn_owner hids hw hc
  have hstep : ∀ w c, Confined admin ids w → c.tokenId ∈ ids →
      Confined admin ids (Machine.step (execBy admin) w c) := fun _ _ hw hc => hw.step hids hc
  have howners : w.storage.tokenOwners = w'.storage.tokenOwners := by
    funext t
    have h := Machine.view_run hacts hstep hstart hcs t
    have h' := Machine.view_run hacts hstep hstart hcs' t
    exact h.trans ((congrArg _ (hsame t)).trans h'.symm)
  have hw := hstart.run hids hcs
  have hw' := hstart.run hids hcs'
  refine ⟨fun t => ?_, howners, ?_, fun a => ?_⟩
  · rw [Machine.filter_outcomes hacts hstep hstart hcs, hsame t,
      ← Machine.filter_outcomes hacts hstep hstart hcs']
  · apply BitVec.eq_of_toNat_eq
    rw [hw.valid.totalTokens_eq, hw'.valid.totalTokens_eq, Storage.tracked, Storage.tracked, howners]
  · have hnodup := hw.valid.wf.nodup a
    have hnodup' := hw'.valid.wf.nodup a
    rw [Storage.items_holdings] at hnodup hnodup'
    refine (List.perm_ext_iff_of_nodup hnodup hnodup').mpr fun t => ?_
    rw [hw.valid.mem_ownedTokens, hw'.valid.mem_ownedTokens]
    exact howners ▸ Iff.rfl

theorem run_commute_two :
    let cs := [TokenCall.registerNFT 1 5, .registerNFT 2 5, .transferNFT 1 6, .transferNFT 2 0]
    let cs' := [TokenCall.registerNFT 2 5, .transferNFT 2 0, .registerNFT 1 5, .transferNFT 1 6]
    let w := Machine.run (execBy 9) (deploy 9) cs
    let w' := Machine.run (execBy 9) (deploy 9) cs'
    ((∀ t, cs.filter (fun c => c.tokenId = t) = cs'.filter (fun c => c.tokenId = t)) ∧
      ∃ t, ∀ c ∈ cs ++ cs', c.tokenId ≠ t) ∧
    w.storage.tokenOwners = w'.storage.tokenOwners ∧
    ∀ a, (w.storage.ownedTokens a).toList.Perm (w'.storage.ownedTokens a).toList := by
  intro cs cs' w w'
  have hsame : ∀ t, cs.filter (fun c => c.tokenId = t) = cs'.filter (fun c => c.tokenId = t) := by
    intro t
    by_cases h1 : 1 = t
    · subst h1
      rfl
    by_cases h2 : 2 = t
    · subst h2
      rfl
    have hnone : ∀ c ∈ cs ++ cs', c.tokenId ≠ t := by
      simp only [cs, cs', List.cons_append, List.nil_append, List.forall_mem_cons,
        TokenCall.tokenId]
      exact ⟨h1, h2, h1, h2, h2, h2, h1, h1, fun _ h => nomatch h⟩
    rw [List.filter_eq_nil_iff.mpr, List.filter_eq_nil_iff.mpr]
    · exact fun c hc => by simpa using hnone c (List.mem_append_right _ hc)
    · exact fun c hc => by simpa using hnone c (List.mem_append_left _ hc)
  have hfree : ∃ t, ∀ c ∈ cs ++ cs', c.tokenId ≠ t := ⟨3, by decide⟩
  obtain ⟨-, howners, -, hlists⟩ := run_commute 9 hsame hfree
  exact ⟨⟨hsame, hfree⟩, howners, hlists⟩

end NFTOwnerTracker
end IntBlock
