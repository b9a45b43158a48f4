import IntBlock.NFTOwnerTracker.Effects

/-!
# Transfers

A transfer takes the token out of one list and puts it at the end of another, so
a second transfer of the same token finds it where taking it out undoes the
first.  A chain of transfers is therefore its last one.

## Main definitions

* `hops t hs` — transfers of `t`, each with its sender and new owner.

## Main results

* `transferNFT_effect` — **the exact effect and frame of a transfer.**
* `holdings_of_hops` — the index after a chain of transfers.
* `transferNFT_chain` — **a chain of transfers of one token collapses.**
-/

namespace IntBlock
namespace NFTOwnerTracker

open Solidity

/-- What a successful transfer has done. -/
theorem transferNFT_ok {w w' : World} (hw : w.storage.Valid) {sender q : Address} {t : Uint256}
    (h : exec w ⟨sender, .transferNFT t q⟩ = .ok w') :
    w.storage.tokenOwners t ≠ 0 ∧ q ≠ 0 ∧ w.storage.tokenOwners t ≠ q ∧
      w'.storage = w.storage.transfer t q := by
  obtain ⟨-, hemits, -⟩ := exec_ok hw h
  obtain ⟨⟨-, ht, hq, hne⟩, hstorage⟩ := hemits.of_single
  exact ⟨ht, hq, hne, hstorage⟩

/-- **The exact effect and frame of a transfer.**  The list of the previous owner
has lost its last slot and has its last token at the place of `t`; the new
owner's list has `t` at its end; the two positions are right, and nothing else
has changed. -/
theorem transferNFT_effect {w w' : World} (hw : Reachable w) {sender q : Address} {t : Uint256}
    (h : exec w ⟨sender, .transferNFT t q⟩ = .ok w') :
    let s := w.storage
    let s' := w'.storage
    let p := s.tokenOwners t
    let L := (s.ownedTokens p).toList
    let n := L.length
    let i := L.idxOf t
    let M := (s.ownedTokens q).toList
    L[i]? = some t ∧
    (s'.ownedTokens p).toList.length = n - 1 ∧
    (∀ j, j < n - 1 → (s'.ownedTokens p).toList[j]? = if j = i then L[n - 1]? else L[j]?) ∧
    (s'.ownedTokens q).toList = M ++ [t] ∧
    s'.tokenOwners t = q ∧
    (s'.tokenIndex t).toNat = M.length ∧
    (i < n - 1 → ∀ x, L[n - 1]? = some x → (s'.tokenIndex x).toNat = i) ∧
    (∀ a, a ≠ p → a ≠ q → s'.ownedTokens a = s.ownedTokens a) ∧
    (∀ u, u ≠ t → s'.tokenOwners u = s.tokenOwners u) ∧
    (∀ u, u ≠ t → L[n - 1]? ≠ some u → s'.tokenIndex u = s.tokenIndex u) ∧
    s'.totalTokens = s.totalTokens ∧ s'.admin = s.admin := by
  intro s s' p L n i M
  have hs : s.Valid := hw.valid
  obtain ⟨ht, hq, hpq, hs'⟩ := transferNFT_ok hs h
  obtain ⟨x, hx⟩ := hs.exists_getLast? ht
  have hlast : L[n - 1]? = some x := by rw [← List.getLast?_eq_getElem?]; exact hx
  have hi : i = (s.tokenIndex t).toNat := hs.idxOf_eq ht
  have hspec : s' = s.transferOver x t q := hs'.trans (Storage.transfer_of_getLast? q hx)
  -- what the removal leaves of the two lists
  have hremoved : (s.removed t p).toList = L.swapRemove i := by
    rw [hi, Storage.removed, Function.update_self]
    rfl
  have hremovedq : s.removed t q = s.ownedTokens q := Function.update_of_ne (Ne.symm hpq) _ _
  have hlists : s'.ownedTokens = Function.update (s.removed t) q ((s.removed t q).push t) := by
    rw [hspec]; rfl
  have hindex : s'.tokenIndex = Function.update
      (Function.update s.tokenIndex x (s.tokenIndex t)) t (s.removed t q).length := by
    rw [hspec]; rfl
  have hfrom : (s'.ownedTokens p).toList = L.swapRemove i := by
    rw [hlists, Function.update_of_ne hpq, hremoved]
  refine ⟨?_, ?_, ?_, ?_, ?_, ?_, ?_, ?_, ?_, ?_, ?_, ?_⟩
  · rw [hi]
    exact hs.wf.getElem?_index t p (ownerOf?_of_ne_zero ht)
  · rw [hfrom, List.length_swapRemove]
  · intro j hj
    rw [hfrom, List.getElem?_swapRemove, if_pos hj]
  · rw [hlists, Function.update_self, StorageArray.toList_push (hs.length_removed_lt ht q),
      hremovedq]
  · rw [hspec]
    exact Function.update_self _ _ _
  · rw [hindex, Function.update_self, StorageArray.toNat_length, hremovedq]
  · intro hlt y hy
    obtain rfl : x = y := Option.some.inj (hlast.symm.trans hy)
    -- the last token is another one, since `t` stands before it
    have hxt : x ≠ t := by
      rintro rfl
      have hfirst := (hs.wf.getElem?_iff x p (n - 1)).mp hlast
      have : (s.tokenIndex x).toNat = n - 1 := hfirst.2
      omega
    rw [hindex, Function.update_of_ne hxt, Function.update_self, hi]
  · intro a hap haq
    rw [hlists, Function.update_of_ne haq]
    exact Function.update_of_ne hap _ _
  · intro u hut
    rw [hspec]
    exact Function.update_of_ne hut _ _
  · intro u hut hu
    have hux : u ≠ x := fun hux => hu (hux ▸ hlast)
    rw [hindex, Function.update_of_ne hut, Function.update_of_ne hux]
  · rw [hspec]; rfl
  · rw [hspec]; rfl

/-- The first of three tokens goes to the holder of another: the third takes its place. -/
theorem transferNFT_effect_first :
    let w := Machine.run exec (deploy 1)
      [⟨1, .registerBatchNFTs [7, 8, 9] 2⟩, ⟨1, .registerNFT 5 3⟩]
    ∃ w', exec w ⟨1, .transferNFT 7 3⟩ = .ok w' ∧
      (w'.storage.ownedTokens 3).toList = [5, 7] ∧ (w'.storage.tokenIndex 9).toNat = 0 := by
  intro w
  have hw : Reachable w :=
    ⟨1, [⟨1, .registerBatchNFTs [7, 8, 9] 2⟩, ⟨1, .registerNFT 5 3⟩], rfl⟩
  obtain ⟨w', hrun⟩ : ∃ w', exec w ⟨1, .transferNFT 7 3⟩ = .ok w' :=
    Machine.exists_of_outcome (by decide)
  obtain ⟨-, -, -, hto, -, -, hmoved, -⟩ := transferNFT_effect hw hrun
  exact ⟨w', hrun, hto, hmoved (by decide) 9 rfl⟩

/-! ### Chains -/

/-- Transfers of `t` one after another, each given by its sender and new owner. -/
def hops (t : Uint256) (hs : List (Address × Address)) : List Tx :=
  hs.map fun h => ⟨h.1, .transferNFT t h.2⟩

@[simp] theorem hops_cons (t : Uint256) (h : Address × Address) (hs : List (Address × Address)) :
    hops t (h :: hs) = ⟨h.1, .transferNFT t h.2⟩ :: hops t hs := rfl

/-- A chain of transfers leaves the admin and the counter, and the index as the
last transfer alone would have. -/
theorem holdings_of_hops {t : Uint256} : ∀ (hs : List (Address × Address)) {w w' : World},
    w.storage.Valid → (hops t hs).foldlM exec w = .ok w' → ∀ last, hs.getLast? = some last →
      w.storage.tokenOwners t ≠ 0 ∧ last.2 ≠ 0 ∧
      w'.storage.admin = w.storage.admin ∧ w'.storage.totalTokens = w.storage.totalTokens ∧
      w'.storage.holdings = (w.storage.holdings.detach t).attach t last.2 := by
  intro hs
  induction hs with
  | nil => intro w w' _ _ last hlast; cases hlast
  | cons h hs ih =>
    intro w w' hw hrun last hlast
    rw [hops_cons, List.foldlM_cons] at hrun
    cases hfirst : exec w ⟨h.1, .transferNFT t h.2⟩ with
    | error e => rw [hfirst] at hrun; cases hrun
    | ok w₁ =>
      rw [hfirst, ok_bind] at hrun
      obtain ⟨ht, hq, -, hw₁⟩ := transferNFT_ok hw hfirst
      have hholdings := hw.holdings_transfer ht hq
      cases hs with
      | nil =>
        -- one transfer
        cases hrun
        cases hlast
        refine ⟨ht, hq, ?_, ?_, ?_⟩
        · rw [hw₁]; rfl
        · rw [hw₁]; rfl
        · rw [hw₁]; exact hholdings
      | cons h' hs =>
        rw [List.getLast?_cons_cons] at hlast
        obtain ⟨-, hlast0, hadmin, htotal, hindex⟩ :=
          ih (valid_of_exec hw hfirst) hrun last hlast
        refine ⟨ht, hlast0, ?_, ?_, ?_⟩
        · rw [hadmin, hw₁]; rfl
        · rw [htotal, hw₁]; rfl
        · rw [hindex, hw₁, hholdings, hw.wf.attach_detach_attach]

/-- The storage after a token was taken out of its owner's list and put back at the end. -/
theorem storage_of_return {s s' : Storage} (hs : s.Valid) {t : Uint256} (ht : s.tokenOwners t ≠ 0)
    (hholdings : s'.holdings = (s.holdings.detach t).attach t (s.tokenOwners t)) :
    ∃ i x, (s.ownedTokens (s.tokenOwners t)).toList[i]? = some t ∧
      (s.ownedTokens (s.tokenOwners t)).toList.getLast? = some x ∧
      s'.tokenOwners = s.tokenOwners ∧
      (s'.ownedTokens (s.tokenOwners t)).toList =
        ((s.ownedTokens (s.tokenOwners t)).toList.set i x).dropLast ++ [t] ∧
      (∀ c, c ≠ s.tokenOwners t → s'.ownedTokens c = s.ownedTokens c) ∧
      s'.tokenIndex = Function.update
        (Function.update s.tokenIndex x (BitVec.ofNat 256 i)) t
        (BitVec.ofNat 256 ((s.ownedTokens (s.tokenOwners t)).toList.length - 1)) := by
  obtain ⟨x, hx⟩ := hs.exists_getLast? ht
  have hholder : s.holdings.holder t = some (s.tokenOwners t) := ownerOf?_of_ne_zero ht
  have hposition := hs.wf.getElem?_index t _ hholder
  -- taken out and put back: the last token takes its place, and it the end
  rw [Holdings.detach_of_getLast? hholder hx] at hholdings
  refine ⟨(s.tokenIndex t).toNat, x, hposition, hx, ?_, ?_, fun c hc => ?_, ?_⟩
  · funext u
    have h := congrFun (congrArg Holdings.holder hholdings) u
    simp only [Holdings.holder_attach, Function.update_apply, Storage.holder_holdings] at h
    by_cases hut : u = t
    · subst hut
      rw [if_pos rfl, ownerOf?_eq_some] at h
      exact h.1
    · rw [if_neg hut, if_neg hut] at h
      exact ownerOf?_injective h
  · have h := congrFun (congrArg Holdings.items hholdings) (s.tokenOwners t)
    simp only [Holdings.items_attach, Function.update_self, Storage.items_holdings,
      Storage.index_holdings] at h
    rw [h, List.swapRemove_of_getLast? hx]
  · have h := congrFun (congrArg Holdings.items hholdings) c
    simp only [Holdings.items_attach, Function.update_of_ne hc, Storage.items_holdings] at h
    exact StorageArray.ext h
  · funext u
    have h := congrFun (congrArg Holdings.index hholdings) u
    simp only [Holdings.index_attach, Function.update_self, Storage.items_holdings,
      Storage.index_holdings, List.length_swapRemove] at h
    have hlt := (s.ownedTokens (s.tokenOwners t)).length_lt
    apply BitVec.eq_of_toNat_eq
    rw [h]
    simp only [Function.update_apply]
    split
    · rw [BitVec.toNat_ofNat, Nat.mod_eq_of_lt (by omega)]
    · split
      · rw [BitVec.toNat_ofNat, Nat.mod_eq_of_lt (s.tokenIndex t).isLt]
      · rfl

/-- **A chain of transfers of one token collapses.**  If it ends at another
owner than it began at, the storage is that after the one transfer to the last
owner.  If it ends where it began, it is as before but for the list of that
owner, in which the last token has taken the place of `t`, and `t` stands at
the end, and for the positions of the two. -/
theorem transferNFT_chain {w : World} (hw : Reachable w) {t : Uint256}
    {hs : List (Address × Address)} {last : Address × Address} (hlast : hs.getLast? = some last)
    {w' : World} (hrun : (hops t hs).foldlM exec w = .ok w') :
    let a := w.storage.tokenOwners t
    let L := (w.storage.ownedTokens a).toList
    (last.2 ≠ a → ∃ w'', exec w ⟨w.storage.admin, .transferNFT t last.2⟩ = .ok w'' ∧
      w'.storage = w''.storage) ∧
    (last.2 = a → ∃ i x, L[i]? = some t ∧ L.getLast? = some x ∧
      w'.storage.admin = w.storage.admin ∧ w'.storage.totalTokens = w.storage.totalTokens ∧
      w'.storage.tokenOwners = w.storage.tokenOwners ∧
      (w'.storage.ownedTokens a).toList = (L.set i x).dropLast ++ [t] ∧
      (∀ c, c ≠ a → w'.storage.ownedTokens c = w.storage.ownedTokens c) ∧
      w'.storage.tokenIndex = Function.update
        (Function.update w.storage.tokenIndex x (BitVec.ofNat 256 i)) t
        (BitVec.ofNat 256 (L.length - 1))) := by
  intro a L
  obtain ⟨ht, hq, hadmin, htotal, hholdings⟩ := holdings_of_hops hs hw.valid hrun last hlast
  constructor
  · intro hne
    refine ⟨⟨w.storage.transfer t last.2, w.log ++ [.nftTransferred t a last.2]⟩, ?_, ?_⟩
    · simp only [exec]
      rw [transferNFT_eq hw.valid, if_neg (not_not.mpr rfl), if_neg hq, if_neg ht,
        if_neg (Ne.symm hne)]
    · exact Storage.ext_holdings hadmin (hholdings.trans (hw.valid.holdings_transfer ht hq).symm)
        htotal
  · intro heq
    rw [heq] at hholdings
    obtain ⟨i, x, hi, hx, howners, hlist, hother, hindex⟩ :=
      storage_of_return hw.valid ht hholdings
    exact ⟨i, x, hi, hx, hadmin, htotal, howners, hlist, hother, hindex⟩

/-- Away and back: the first of three tokens ends up last. -/
theorem transferNFT_chain_return :
    let w := Machine.run exec (deploy 1) [⟨1, .registerBatchNFTs [7, 8, 9] 2⟩]
    ∃ w', (hops 7 [(1, 3), (1, 4), (1, 2)]).foldlM exec w = .ok w' ∧
      (w'.storage.ownedTokens 2).toList = [9, 8, 7] := by
  intro w
  have hw : Reachable w := ⟨1, [⟨1, .registerBatchNFTs [7, 8, 9] 2⟩], rfl⟩
  obtain ⟨w', hrun⟩ : ∃ w', (hops 7 [(1, 3), (1, 4), (1, 2)]).foldlM exec w = .ok w' := by
    have hnone : (Machine.outcomes exec w (hops 7 [(1, 3), (1, 4), (1, 2)])).findSome? Prod.snd =
        none := by decide
    exact ⟨_, (Machine.foldlM_eq w _).trans (by rw [hnone])⟩
  obtain ⟨i, x, hi, hx, -, -, -, hlist, -, -⟩ :=
    (transferNFT_chain hw (show [(1, 3), (1, 4), (1, 2)].getLast? = some (1, 2) from rfl) hrun).2 rfl
  -- token 7 stands first and token 9 last
  have hL : (w.storage.ownedTokens (w.storage.tokenOwners 7)).toList = [7, 8, 9] := rfl
  rw [hL] at hi hx hlist
  obtain rfl : 9 = x := Option.some.inj hx
  have hi0 : i = 0 := by
    match i, hi with
    | 0, _ => rfl
    | 1, hi => exact absurd hi (by decide)
    | 2, hi => exact absurd hi (by decide)
  subst hi0
  exact ⟨w', hrun, hlist⟩

end NFTOwnerTracker
end IntBlock
