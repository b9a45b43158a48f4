import IntBlock.NFTOwnerTracker.Ownership

/-!
# Batches

A batch is the registrations of its tokens one after another, or nothing.  Made
from the lists of a storage, for each owner in whatever order, batches rebuild
that storage in full: a contract keeps nothing its queries do not show.

## Main definitions

* `singles` — the single registrations a batch stands for.
* `restore` — the calls that rebuild a storage.

## Main results

* `registerBatchNFTs_singles` — **a batch is all or nothing of its singles.**
* `Emits.ownedTokens_registered` — what a batch does to the lists.
* `restore_exact` — **a storage rebuilt from its lists is the storage.**
-/

namespace IntBlock
namespace NFTOwnerTracker

open Solidity

/-! ### A batch and its single registrations -/

/-- The calls `registerNFT(tokenIds[0], owner), registerNFT(tokenIds[1], owner), …`. -/
def singles (sender : Address) (tokenIds : List Uint256) (owner : Address) : List Tx :=
  tokenIds.map fun tokenId => ⟨sender, .registerNFT tokenId owner⟩

@[simp] theorem singles_cons (sender : Address) (t : Uint256) (ts : List Uint256) (owner : Address) :
    singles sender (t :: ts) owner = ⟨sender, .registerNFT t owner⟩ :: singles sender ts owner := rfl

/-- A round of the loop does not touch the admin. -/
theorem admin_registerBatchBody {owner : Address} {t : Uint256} {w w' : World}
    (h : registerBatchBody owner w t = .ok w') : w'.storage.admin = w.storage.admin := by
  obtain ⟨-, -, rfl⟩ := registerBatchBody_ok h
  rfl

/-- For the admin and a proper owner, the singles run as the loop does. -/
theorem foldlM_singles {sender owner : Address} (ho : owner ≠ 0) (ts : List Uint256) {w : World}
    (hsender : sender = w.storage.admin) :
    (singles sender ts owner).foldlM exec w = ts.foldlM (registerBatchBody owner) w := by
  induction ts generalizing w with
  | nil => rfl
  | cons t ts ih =>
    have hexec : exec w ⟨sender, .registerNFT t owner⟩ = registerBatchBody owner w t := by
      simp only [exec]
      rw [registerNFT_eq, if_neg (not_not.mpr hsender), if_neg ho]
    rw [singles_cons, List.foldlM_cons, List.foldlM_cons, hexec]
    cases h : registerBatchBody owner w t with
    | error e => rfl
    | ok w' => exact ih (by rw [admin_registerBatchBody h]; exact hsender)

/-- A batch that is not empty fails and succeeds as its singles do, with the
same error and the same world. -/
theorem exec_registerBatchNFTs (sender owner : Address) {ts : List Uint256} (hts : ts ≠ [])
    (w : World) :
    exec w ⟨sender, .registerBatchNFTs ts owner⟩ = (singles sender ts owner).foldlM exec w := by
  obtain ⟨t, ts, rfl⟩ := List.exists_cons_of_ne_nil hts
  simp only [exec]
  rw [registerBatchNFTs_eq]
  by_cases hsender : sender = w.storage.admin
  · by_cases ho : owner = 0
    · -- the first single already fails on the owner
      have hfirst : exec w ⟨sender, .registerNFT t owner⟩ = .error (.custom .invalidAddress) := by
        simp only [exec]
        rw [registerNFT_eq, if_neg (not_not.mpr hsender), if_pos ho]
      rw [if_neg (not_not.mpr hsender), if_pos ho, singles_cons, List.foldlM_cons, hfirst]
      rfl
    · rw [if_neg (not_not.mpr hsender), if_neg ho, foldlM_singles ho _ hsender]
  · have hfirst : exec w ⟨sender, .registerNFT t owner⟩ = .error (.custom .unauthorized) := by
      simp only [exec]
      rw [registerNFT_eq, if_pos hsender]
    rw [if_pos hsender, singles_cons, List.foldlM_cons, hfirst]
    rfl

/-- Barring overflow the loop runs through exactly when the ids are fresh and distinct. -/
theorem exists_foldlM_registerBatchBody {owner : Address} (ho : owner ≠ 0) (ts : List Uint256)
    {w : World} (htotal : w.storage.totalTokens.toNat + ts.length < 2 ^ 256) :
    (∃ w', ts.foldlM (registerBatchBody owner) w = .ok w') ↔
      ts.Nodup ∧ ∀ t ∈ ts, w.storage.tokenOwners t = 0 := by
  induction ts generalizing w with
  | nil => exact ⟨fun _ => ⟨List.nodup_nil, by simp⟩, fun _ => ⟨w, rfl⟩⟩
  | cons t ts ih =>
    rw [List.length_cons] at htotal
    rw [List.foldlM_cons, registerBatchBody_eq]
    by_cases ht : w.storage.tokenOwners t = 0
    · rw [if_neg (not_not.mpr ht), if_pos (by omega), ok_bind, ih]
      · simp only [Storage.tokenOwners_register, List.nodup_cons, List.mem_cons, forall_eq_or_imp]
        constructor
        · rintro ⟨hnodup, hfresh⟩
          -- a repeated token would have an owner by then
          have hnot : t ∉ ts := fun hmem => ho (by simpa using hfresh t hmem)
          refine ⟨⟨hnot, hnodup⟩, ht, fun u hu => ?_⟩
          have hut : u ≠ t := fun hut => hnot (hut ▸ hu)
          simpa [Function.update_of_ne hut] using hfresh u hu
        · rintro ⟨⟨hnot, hnodup⟩, -, hfresh⟩
          refine ⟨hnodup, fun u hu => ?_⟩
          have hut : u ≠ t := fun hut => hnot (hut ▸ hu)
          rw [Function.update_of_ne hut]
          exact hfresh u hu
      · show (w.storage.totalTokens + 1).toNat + ts.length < 2 ^ 256
        have hone : w.storage.totalTokens.toNat + (1 : Uint256).toNat < 2 ^ 256 := by
          change w.storage.totalTokens.toNat + 1 < 2 ^ 256
          omega
        rw [BitVec.toNat_add_of_lt hone]
        change w.storage.totalTokens.toNat + 1 + ts.length < 2 ^ 256
        omega
    · rw [if_pos ht, error_bind]
      constructor
      · rintro ⟨w', h⟩
        cases h
      · rintro ⟨-, hfresh⟩
        exact absurd (hfresh t List.mem_cons_self) ht

/-- Barring overflow, when a batch that is not empty succeeds. -/
theorem exists_exec_registerBatchNFTs (sender owner : Address) {ts : List Uint256} (w : World)
    (htotal : w.storage.totalTokens.toNat + ts.length < 2 ^ 256) :
    (∃ w', exec w ⟨sender, .registerBatchNFTs ts owner⟩ = .ok w') ↔
      sender = w.storage.admin ∧ owner ≠ 0 ∧ ts.Nodup ∧
        ∀ t ∈ ts, w.storage.tokenOwners t = 0 := by
  simp only [exec]
  rw [registerBatchNFTs_eq]
  by_cases hsender : sender = w.storage.admin
  · by_cases ho : owner = 0
    · rw [if_neg (not_not.mpr hsender), if_pos ho]
      constructor
      · rintro ⟨w', h⟩
        cases h
      · exact fun h => absurd ho h.2.1
    · rw [if_neg (not_not.mpr hsender), if_neg ho, exists_foldlM_registerBatchBody ho ts htotal]
      exact ⟨fun h => ⟨hsender, ho, h⟩, fun h => h.2.2⟩
  · rw [if_pos hsender]
    constructor
    · rintro ⟨w', h⟩
      cases h
    · exact fun h => absurd h.1 hsender

/-- **A batch is the all-or-nothing composition of its single registrations**:
it succeeds exactly when they all do, and then with their storage and their
events; otherwise it fails with the error of the first that fails and changes
nothing.  Barring overflow it succeeds exactly for the admin, a proper owner,
and distinct ids none of which is tracked. -/
theorem registerBatchNFTs_singles (w : World) (sender owner : Address) {tokenIds : List Uint256}
    (hids : tokenIds ≠ []) :
    let batch : Tx := ⟨sender, .registerBatchNFTs tokenIds owner⟩
    let outcomes := Machine.outcomes exec w (singles sender tokenIds owner)
    (Machine.outcome exec w batch = none ↔ ∀ o ∈ outcomes, o.2 = none) ∧
    (Machine.outcome exec w batch = none →
      Machine.step exec w batch = Machine.run exec w (singles sender tokenIds owner)) ∧
    (Machine.outcome exec w batch = outcomes.findSome? Prod.snd) ∧
    (Machine.outcome exec w batch ≠ none → Machine.step exec w batch = w) ∧
    (w.storage.totalTokens.toNat + tokenIds.length < 2 ^ 256 →
      (Machine.outcome exec w batch = none ↔
        sender = w.storage.admin ∧ owner ≠ 0 ∧ tokenIds.Nodup ∧
          ∀ t ∈ tokenIds, w.storage.tokenOwners t = 0)) := by
  intro batch outcomes
  -- the batch ends with the first error of the singles, or with none
  have hbatch : exec w batch = _ :=
    (exec_registerBatchNFTs sender owner hids w).trans (Machine.foldlM_eq w _)
  have hnone : Machine.outcome exec w batch = none ↔ ∃ w', exec w batch = .ok w' := by
    cases h : exec w batch with
    | error e => simp [Machine.outcome_of_error h]
    | ok w' => simp [Machine.outcome_of_ok h]
  cases hfirst : outcomes.findSome? Prod.snd with
  | none =>
    rw [hfirst] at hbatch
    have hall := List.findSome?_eq_none_iff.mp hfirst
    have houtcome := Machine.outcome_of_ok hbatch
    refine ⟨⟨fun _ => hall, fun _ => houtcome⟩, fun _ => Machine.step_of_ok hbatch, houtcome,
      fun h => absurd houtcome h, fun htotal => ?_⟩
    rw [hnone, exists_exec_registerBatchNFTs sender owner w htotal]
  | some e =>
    rw [hfirst] at hbatch
    have houtcome := Machine.outcome_of_error hbatch
    have hne : Machine.outcome exec w batch ≠ none := by
      rw [houtcome]
      exact Option.some_ne_none e
    refine ⟨⟨fun h => absurd h hne, fun hall => ?_⟩, fun h => absurd h hne, houtcome,
      fun _ => Machine.step_of_error hbatch, fun htotal => ?_⟩
    · rw [List.findSome?_eq_none_iff.mpr hall] at hfirst
      cases hfirst
    · rw [hnone, exists_exec_registerBatchNFTs sender owner w htotal]

/-- A batch with a repeat fails as its third single does. -/
theorem registerBatchNFTs_singles_repeat :
    Machine.outcome exec (deploy 1) ⟨1, .registerBatchNFTs [7, 8, 7] 2⟩ =
      some (.custom .tokenAlreadyExists) :=
  (registerBatchNFTs_singles (deploy 1) 1 2
    (show ([7, 8, 7] : List Uint256) ≠ [] by decide)).2.2.1.trans (by decide)

/-! ### Rebuilding a storage -/

/-- What registering tokens for one owner does to the lists. -/
theorem Emits.ownedTokens_registered {o : Address} (ts : List Uint256) {s s' : Storage}
    (hs : s.Valid) (h : Emits s (ts.map fun t => .nftRegistered t o) s') :
    s'.admin = s.admin ∧ (s'.ownedTokens o).toList = (s.ownedTokens o).toList ++ ts ∧
      ∀ a, a ≠ o → s'.ownedTokens a = s.ownedTokens a := by
  induction ts generalizing s with
  | nil =>
    cases h
    exact ⟨rfl, by simp, fun _ _ => rfl⟩
  | cons t ts ih =>
    cases h with
    | cons he hes =>
      obtain ⟨hadmin, hown, hother⟩ := ih (hs.apply he) hes
      have hitems := congrFun (congrArg Holdings.items
        (hs.holdings_register (t := t) he.2.1 he.2.2)) o
      rw [Storage.items_holdings, Holdings.items_attach, Function.update_self] at hitems
      refine ⟨hadmin, ?_, fun a ha => ?_⟩
      · rw [hown]
        show ((s.register t o).ownedTokens o).toList ++ ts = _
        rw [hitems, List.append_assoc]
        rfl
      · rw [hother a ha]
        exact Function.update_of_ne ha _ _

/-- The calls that rebuild the lists of `s` on a fresh contract, in the order
`owners`, and then hand the contract over to the admin of `s`. -/
def restore (sender : Address) (s : Storage) (owners : List Address) : List Tx :=
  (owners.map fun a => ⟨sender, .registerBatchNFTs (getOwnedTokens a s) a⟩) ++
    [⟨sender, .changeAdmin s.admin⟩]

/-- One batch of the rebuilding: on a storage whose lists are lists of `s` or
still empty, the batch of an owner not yet served succeeds. -/
theorem exec_restore_batch {s : Storage} (hs : s.Valid) {w : World} (hw : w.storage.Valid)
    (hlists : ∀ b, (w.storage.ownedTokens b).toList = [] ∨
      w.storage.ownedTokens b = s.ownedTokens b)
    {a : Address} (ha : getOwnedTokens a s ≠ []) (hempty : (w.storage.ownedTokens a).toList = []) :
    ∃ w', exec w ⟨w.storage.admin, .registerBatchNFTs (getOwnedTokens a s) a⟩ = .ok w' := by
  have hmem := hs.mem_ownedTokens
  -- a list of `s` that is not empty has an owner
  have hzero : a ≠ 0 := by
    obtain ⟨t, ht⟩ := List.exists_mem_of_ne_nil _ ha
    exact ((hmem t a).mp ht).2
  have hfresh : ∀ t ∈ getOwnedTokens a s, w.storage.tokenOwners t = 0 := by
    intro t ht
    by_contra hb
    have htb := (hw.mem_ownedTokens t _).mpr ⟨rfl, hb⟩
    rcases hlists (w.storage.tokenOwners t) with hnil | hsame
    · rw [hnil] at htb
      cases htb
    · have htb' := htb
      rw [hsame, hmem] at htb'
      have hab : a = w.storage.tokenOwners t := ((hmem t a).mp ht).1.symm.trans htb'.1
      rw [← hab, hempty] at htb
      cases htb
  -- the lists of `s` fit in the counter, and these are fewer
  have htotal : w.storage.totalTokens.toNat + (getOwnedTokens a s).length < 2 ^ 256 := by
    have hle : w.storage.totalTokens.toNat + (getOwnedTokens a s).length ≤
        s.totalTokens.toNat := by
      rw [← hw.sum_length, ← hs.sum_length]
      calc ∑ b, (w.storage.ownedTokens b).toList.length + (getOwnedTokens a s).length
          = ∑ b, ((w.storage.ownedTokens b).toList.length +
              if b = a then (getOwnedTokens a s).length else 0) := by
            rw [Finset.sum_add_distrib, Finset.sum_ite_eq' Finset.univ a,
              if_pos (Finset.mem_univ a)]
        _ ≤ ∑ b, (s.ownedTokens b).toList.length := by
            refine Finset.sum_le_sum fun b _ => ?_
            by_cases hb : b = a
            · subst hb
              rw [if_pos rfl, hempty]
              simp [getOwnedTokens]
            · rw [if_neg hb]
              rcases hlists b with hnil | hsame
              · simp [hnil]
              · simp [hsame]
    have hlt := s.totalTokens.isLt
    omega
  exact (exists_exec_registerBatchNFTs _ a w htotal).mpr ⟨rfl, hzero, hs.wf.nodup a, hfresh⟩

/-- The batches of the rebuilding all succeed and fill the lists of the owners. -/
theorem foldlM_restore_batches {s : Storage} (hs : s.Valid) (sender : Address)
    (owners : List Address) {w : World} (hw : w.storage.Valid) (hsender : w.storage.admin = sender)
    (hlists : ∀ b, (w.storage.ownedTokens b).toList = [] ∨
      w.storage.ownedTokens b = s.ownedTokens b)
    (hempty : ∀ a ∈ owners, (w.storage.ownedTokens a).toList = [])
    (hnodup : owners.Nodup) (howners : ∀ a ∈ owners, getOwnedTokens a s ≠ []) :
    ∃ w', (owners.map fun a => (⟨sender, .registerBatchNFTs (getOwnedTokens a s) a⟩ : Tx)).foldlM
        exec w = .ok w' ∧ w'.storage.Valid ∧ w'.storage.admin = sender ∧
      ∀ b, w'.storage.ownedTokens b =
        if b ∈ owners then s.ownedTokens b else w.storage.ownedTokens b := by
  induction owners generalizing w with
  | nil => exact ⟨w, rfl, hw, hsender, fun b => by simp⟩
  | cons a owners ih =>
    rw [List.nodup_cons] at hnodup
    have hempty_a := hempty a List.mem_cons_self
    obtain ⟨w₁, h₁⟩ := exec_restore_batch hs hw hlists (howners a List.mem_cons_self) hempty_a
    obtain ⟨-, hemits, -⟩ := exec_ok hw h₁
    obtain ⟨hadmin, hown, hother⟩ := hemits.ownedTokens_registered _ hw
    -- the list of `a` is restored, and the other lists are untouched
    have hsame : w₁.storage.ownedTokens a = s.ownedTokens a := by
      apply StorageArray.ext
      rw [hown, hempty_a]
      rfl
    obtain ⟨w', h', hw', hadmin', hb⟩ := ih (hemits.valid hw) (hadmin.trans hsender)
      (fun b => by
        by_cases hba : b = a
        · exact Or.inr (hba ▸ hsame)
        · rw [hother b hba]
          exact hlists b)
      (fun b hb => by
        have hba : b ≠ a := fun hba => hnodup.1 (hba ▸ hb)
        rw [hother b hba]
        exact hempty b (List.mem_cons_of_mem _ hb))
      hnodup.2 (fun b hb => howners b (List.mem_cons_of_mem _ hb))
    refine ⟨w', ?_, hw', hadmin', fun b => ?_⟩
    · rw [List.map_cons, List.foldlM_cons, ← hsender, h₁, ok_bind, hsender]
      exact h'
    · rw [hb]
      by_cases hba : b = a
      · subst hba
        rw [if_neg hnodup.1, if_pos List.mem_cons_self, hsame]
      · rw [hother b hba]
        simp [hba]

/-- **Snapshot and restore is exact**: the lists of a reachable storage, read
off in any order of the owners and registered batch by batch on a fresh
contract, give the same storage in every field, positions included.  So two
reachable storages with one admin and the same lists are the same. -/
theorem restore_exact {deployer : Address} (hdeployer : deployer ≠ 0) (txs : List Tx)
    {owners : List Address} (hnodup : owners.Nodup)
    (howners : ∀ a, a ∈ owners ↔
      getOwnedTokens a (Machine.run exec (deploy deployer) txs).storage ≠ [])
    (sender : Address) :
    let w := Machine.run exec (deploy deployer) txs
    (∀ o ∈ Machine.outcomes exec (deploy sender) (restore sender w.storage owners), o.2 = none) ∧
    (Machine.run exec (deploy sender) (restore sender w.storage owners)).storage = w.storage ∧
    ∀ w', Reachable w' → w'.storage.admin = w.storage.admin →
      (∀ a, getOwnedTokens a w'.storage = getOwnedTokens a w.storage) → w'.storage = w.storage := by
  intro w
  have hw : w.storage.Valid := valid_run (.deploy deployer) txs
  have hadmin : w.storage.admin ≠ 0 := admin_ne_zero_run hdeployer txs
  obtain ⟨w₁, h₁, hw₁, hsender₁, hlists₁⟩ := foldlM_restore_batches hw sender owners
    (Storage.Valid.deploy sender) rfl (fun b => Or.inl rfl) (fun a _ => rfl) hnodup
    (fun a ha => (howners a).mp ha)
  -- the hand-over ends the run
  have hlast : exec w₁ ⟨sender, .changeAdmin w.storage.admin⟩ =
      .ok ⟨{ w₁.storage with admin := w.storage.admin },
        w₁.log ++ [.adminChanged w₁.storage.admin w.storage.admin]⟩ := by
    simp only [exec]
    rw [changeAdmin_eq, if_neg (not_not.mpr hsender₁.symm), if_neg hadmin]
  have hall : (restore sender w.storage owners).foldlM exec (deploy sender) =
      .ok ⟨{ w₁.storage with admin := w.storage.admin },
        w₁.log ++ [.adminChanged w₁.storage.admin w.storage.admin]⟩ := by
    rw [restore, List.foldlM_append, h₁, ok_bind, List.foldlM_cons, hlast]
    rfl
  obtain ⟨hrun, houtcomes⟩ := Machine.run_of_foldlM hall
  refine ⟨houtcomes, ?_, fun w' hw' hadmin' hlists' => ?_⟩
  · rw [hrun]
    refine (hw₁.withAdmin w.storage.admin).ext hw rfl (funext fun b => ?_)
    show w₁.storage.ownedTokens b = w.storage.ownedTokens b
    rw [hlists₁]
    split
    · rfl
    · next hb =>
      rw [howners, not_not] at hb
      exact StorageArray.ext hb.symm
  · exact hw'.valid.ext hw hadmin' (funext fun a => StorageArray.ext (hlists' a))

/-- Two owners, restored in the opposite order by another deployer. -/
theorem restore_exact_two :
    let w := Machine.run exec (deploy 1) [⟨1, .registerBatchNFTs [7, 8] 2⟩, ⟨1, .transferNFT 7 3⟩]
    (Machine.run exec (deploy 5) (restore 5 w.storage [3, 2])).storage = w.storage := by
  intro w
  have hlists : ∀ a, getOwnedTokens a w.storage =
      if a = 2 then [8] else if a = 3 then [7] else [] := by
    -- the five writes to `ownedTokens`, in order
    obtain ⟨x₁, x₂, x₃, x₄, x₅, h, h₄, h₅⟩ : ∃ x₁ x₂ x₃ x₄ x₅ : StorageArray Uint256,
        w.storage.ownedTokens = Function.update (Function.update (Function.update (Function.update
          (Function.update (fun _ => .empty) 2 x₁) 2 x₂) 2 x₃) 2 x₄) 3 x₅ ∧
        x₄.toList = [8] ∧ x₅.toList = [7] := ⟨_, _, _, _, _, rfl, rfl, rfl⟩
    intro a
    rw [getOwnedTokens, h]
    by_cases h2 : a = 2
    · subst h2
      exact h₄
    · by_cases h3 : a = 3
      · subst h3
        exact h₅
      · simp only [Function.update_apply, h2, h3, if_false]
        rfl
  have howners : ∀ a, a ∈ [3, 2] ↔ getOwnedTokens a w.storage ≠ [] := by
    intro a
    rw [hlists]
    by_cases h2 : a = 2
    · subst h2
      decide
    · by_cases h3 : a = 3
      · subst h3
        decide
      · simp only [List.mem_cons, List.not_mem_nil, h2, h3, if_false, or_self, ne_eq, not_true]
  exact (restore_exact (show (1 : Address) ≠ 0 by decide) _ (by decide) howners 5).2.1

end NFTOwnerTracker
end IntBlock
