import IntBlock.NFTOwnerTracker.Batch
import IntBlock.NFTOwnerTracker.Transfer

/-!
# No counter wraps

`push` increments a length without a check, before `totalTokens++` is checked.
The counter is the sum of the lengths and the number of tracked ids at once, so
it bounds every length, and it overflows only where every other id of the
`2 ^ 256` is tracked already.

## Main definitions

* `Call.pushes w` — the arrays a call made in `w` pushes onto.
* `PushChain` — the arrays are those of one list, which grows by a token at a time.

## Main results

* `Call.pushes_chain`, `length_le_of_exec` — those are the pushes of the call, and all of them.
* `Call.pushes_room` — a successful call pushes onto arrays with room only.
* `Storage.Valid.totalTokens_lt_iff` — when the counter can be incremented.
* `counters_never_wrap` — **no counter wraps**, and when `registerNFT` overflows.
* `exists_reachable_full` — the overflow is not out of reach.
-/

namespace IntBlock
namespace NFTOwnerTracker

open Solidity

/-! ### Pushes -/

/-- The arrays the loop of `registerBatchNFTs` pushes onto, as far as it gets. -/
def batchPushes (owner : Address) : World → List Uint256 → List (StorageArray Uint256)
  | _, [] => []
  | w, tokenId :: tokenIds =>
      w.storage.ownedTokens owner ::
        match registerBatchBody owner w tokenId with
        | .ok w' => batchPushes owner w' tokenIds
        | .error _ => []

/-- The list of the new owner as `transferNFT` finds it at its `push`, after the
removal from the list of the current owner. -/
def transferPush (tokenId : Uint256) (newOwner : Address) (w : World) :
    Result (StorageArray Uint256) := do
  let mut s := w.storage
  let currentOwner := s.tokenOwners tokenId
  let index := s.tokenIndex tokenId
  let last ← checkedSub (s.ownedTokens currentOwner).length 1
  let lastToken ← (s.ownedTokens currentOwner).get last
  let overwritten ← (s.ownedTokens currentOwner).set index lastToken
  s := { s with ownedTokens := Function.update s.ownedTokens currentOwner overwritten }
  let popped ← (s.ownedTokens currentOwner).pop
  s := { s with ownedTokens := Function.update s.ownedTokens currentOwner popped }
  return s.ownedTokens newOwner

/-- The arrays a call made in `w` pushes onto, each as it is just before. -/
def Call.pushes (w : World) : Call → List (StorageArray Uint256)
  | .changeAdmin _ => []
  | .registerNFT _ owner => [w.storage.ownedTokens owner]
  | .registerBatchNFTs tokenIds owner => batchPushes owner w tokenIds
  | .transferNFT tokenId newOwner =>
      match transferPush tokenId newOwner w with
      | .ok xs => [xs]
      | .error _ => []

/-- The tokens a call pushes, in their order. -/
def Call.pushed : Call → List Uint256
  | .changeAdmin _ => []
  | .registerNFT tokenId _ => [tokenId]
  | .registerBatchNFTs tokenIds _ => tokenIds
  | .transferNFT tokenId _ => [tokenId]

/-- The owner whose list they are pushed onto. -/
def Call.receiver : Call → Option Address
  | .changeAdmin _ => none
  | .registerNFT _ owner => some owner
  | .registerBatchNFTs _ owner => some owner
  | .transferNFT _ newOwner => some newOwner

/-- Each array is the one before it with its token pushed, and `ys` is what the last push
leaves. -/
def PushChain : List (StorageArray Uint256) → List Uint256 → StorageArray Uint256 → Prop
  | [], [], _ => True
  | xs :: arrays, t :: ts, ys => xs.push t = arrays.headD ys ∧ PushChain arrays ts ys
  | _, _, _ => False

/-- A round of the batch loop, and so a registration, pushes the token onto the
list of its owner as it finds it. -/
theorem ownedTokens_of_registerBatchBody {owner : Address} {w w' : World} {tokenId : Uint256}
    (h : registerBatchBody owner w tokenId = .ok w') :
    w'.storage.ownedTokens owner = (w.storage.ownedTokens owner).push tokenId := by
  obtain ⟨-, -, rfl⟩ := registerBatchBody_ok h
  exact Function.update_self _ _ _

/-- A transfer of a tracked token gets to its push. -/
theorem transferPush_eq {w : World} (hw : w.storage.Valid) {t : Uint256}
    (ht : w.storage.tokenOwners t ≠ 0) (q : Address) :
    transferPush t q w = .ok (w.storage.removed t q) := by
  obtain ⟨x, hx⟩ := hw.exists_getLast? ht
  unfold transferPush
  simp only
  rw [StorageArray.checkedSub_length (hw.ownedTokens_ne_nil ht), ok_bind,
    StorageArray.get_last hx, ok_bind, StorageArray.set_of_lt x (hw.index_lt ht), ok_bind]
  simp only [Function.update_self, StorageArray.pop_mk_set hx, Function.update_idem]
  rfl

/-- The push of a transfer is the last thing that happens to the lists. -/
theorem ownedTokens_of_transferNFT {w w' : World} (hw : w.storage.Valid) {sender q : Address}
    {t : Uint256} (h : exec w ⟨sender, .transferNFT t q⟩ = .ok w') :
    ∃ xs, transferPush t q w = .ok xs ∧ w'.storage.ownedTokens q = xs.push t := by
  obtain ⟨ht, -, -, hw'⟩ := transferNFT_ok hw h
  refine ⟨_, transferPush_eq hw ht q, ?_⟩
  rw [hw']
  exact Function.update_self _ _ _

/-- The loop of a batch that runs through pushes onto one array after another. -/
theorem batchPushes_chain {owner : Address} {ts : List Uint256} {w w' : World}
    (h : ts.foldlM (registerBatchBody owner) w = .ok w') :
    PushChain (batchPushes owner w ts) ts (w'.storage.ownedTokens owner) := by
  induction ts generalizing w with
  | nil => trivial
  | cons t ts ih =>
    rw [List.foldlM_cons] at h
    rw [batchPushes]
    cases hbody : registerBatchBody owner w t with
    | error e =>
      rw [hbody] at h
      cases h
    | ok w₁ =>
      rw [hbody] at h
      refine ⟨?_, ih h⟩
      rw [← ownedTokens_of_registerBatchBody hbody]
      cases ts with
      | nil =>
        cases h
        rfl
      | cons t' ts => rfl

/-- **The pushes of a call that succeeds** are those onto the list of its receiver. -/
theorem Call.pushes_chain {w w' : World} (hw : w.storage.Valid) {tx : Tx}
    (h : exec w tx = .ok w') {a : Address} (ha : tx.call.receiver = some a) :
    PushChain (tx.call.pushes w) tx.call.pushed (w'.storage.ownedTokens a) := by
  obtain ⟨sender, call⟩ := tx
  cases call with
  | changeAdmin admin => cases ha
  | registerNFT t o =>
    cases ha
    simp only [exec, registerNFT_eq] at h
    obtain ⟨-, h⟩ := guard_eq_ok.mp h
    obtain ⟨-, h⟩ := guard_eq_ok.mp h
    exact ⟨(ownedTokens_of_registerBatchBody h).symm, trivial⟩
  | registerBatchNFTs ts o =>
    cases ha
    simp only [exec, registerBatchNFTs_eq] at h
    obtain ⟨-, h⟩ := guard_eq_ok.mp h
    obtain ⟨-, h⟩ := guard_eq_ok.mp h
    exact batchPushes_chain h
  | transferNFT t q =>
    cases ha
    obtain ⟨xs, hxs, hpush⟩ := ownedTokens_of_transferNFT hw h
    simp only [Call.pushes, hxs]
    exact ⟨hpush.symm, trivial⟩

/-- **No other list grows.** -/
theorem length_le_of_exec {w w' : World} (hw : w.storage.Valid) {tx : Tx}
    (h : exec w tx = .ok w') {a : Address} (ha : tx.call.receiver ≠ some a) :
    (w'.storage.ownedTokens a).toList.length ≤ (w.storage.ownedTokens a).toList.length := by
  obtain ⟨sender, call⟩ := tx
  obtain ⟨-, hemits, -⟩ := exec_ok hw h
  cases call with
  | changeAdmin admin =>
    obtain ⟨-, hstorage⟩ := hemits.of_single
    rw [hstorage]
    rfl
  | registerNFT t o =>
    obtain ⟨-, -, hother⟩ := Emits.ownedTokens_registered [t] hw hemits
    rw [hother a fun hao => ha (congrArg some hao.symm)]
  | registerBatchNFTs ts o =>
    obtain ⟨-, -, hother⟩ := Emits.ownedTokens_registered ts hw hemits
    rw [hother a fun hao => ha (congrArg some hao.symm)]
  | transferNFT t q =>
    obtain ⟨-, hstorage⟩ := hemits.of_single
    rw [hstorage]
    change (Function.update (w.storage.removed t) q _ a).toList.length ≤ _
    rw [Function.update_of_ne fun haq => ha (congrArg some haq.symm), Storage.removed]
    by_cases howner : a = w.storage.tokenOwners t
    · subst howner
      rw [Function.update_self, StorageArray.toList_swapRemove, List.length_swapRemove]
      exact Nat.sub_le _ _
    · rw [Function.update_of_ne howner]

/-- The loop of a batch that runs through pushes onto arrays with room. -/
theorem batchPushes_room {owner : Address} (ho : owner ≠ 0) {ts : List Uint256} {w w' : World}
    (hw : w.storage.Valid) (h : ts.foldlM (registerBatchBody owner) w = .ok w') :
    ∀ xs ∈ batchPushes owner w ts, xs.toList.length + 1 < 2 ^ 256 := by
  induction ts generalizing w with
  | nil =>
    intro xs hxs
    cases hxs
  | cons t ts ih =>
    intro xs hxs
    rw [List.foldlM_cons] at h
    rw [batchPushes] at hxs
    cases hbody : registerBatchBody owner w t with
    | error e =>
      rw [hbody] at h
      cases h
    | ok w₁ =>
      rw [hbody] at h hxs
      obtain ⟨ht, htotal, rfl⟩ := registerBatchBody_ok hbody
      rcases List.mem_cons.mp hxs with rfl | hmem
      · have hlen := hw.length_le owner
        omega
      · exact ih (hw.register ht ho htotal) h xs hmem

/-- **A successful call pushes onto arrays with room only.** -/
theorem Call.pushes_room {w w' : World} (hw : w.storage.Valid) {tx : Tx}
    (h : exec w tx = .ok w') : ∀ xs ∈ tx.call.pushes w, xs.toList.length + 1 < 2 ^ 256 := by
  obtain ⟨sender, call⟩ := tx
  intro xs hxs
  cases call with
  | changeAdmin a => cases hxs
  | registerNFT t o =>
    obtain ⟨-, hemits, -⟩ := exec_ok hw h
    obtain ⟨⟨-, -, htotal⟩, -⟩ := hemits.of_single
    obtain rfl : xs = w.storage.ownedTokens o := List.mem_singleton.mp hxs
    have hlen := hw.length_le o
    omega
  | registerBatchNFTs ts o =>
    simp only [exec, registerBatchNFTs_eq] at h
    obtain ⟨-, h⟩ := guard_eq_ok.mp h
    obtain ⟨ho, h⟩ := guard_eq_ok.mp h
    exact batchPushes_room ho hw h xs hxs
  | transferNFT t q =>
    obtain ⟨ht, -, -, -⟩ := transferNFT_ok hw h
    simp only [Call.pushes, transferPush_eq hw ht] at hxs
    obtain rfl : xs = w.storage.removed t q := List.mem_singleton.mp hxs
    exact hw.length_removed_lt ht q

/-! ### The counter -/

/-- As long as another id is untracked, a registration finds room in the counter. -/
theorem Storage.Valid.totalTokens_lt_iff {s : Storage} (hs : s.Valid) {t : Uint256}
    (ht : s.tokenOwners t = 0) :
    s.totalTokens.toNat + 1 < 2 ^ 256 ↔ ∃ u, u ≠ t ∧ s.tokenOwners u = 0 := by
  have hcard : (Finset.univ.erase t).card = 2 ^ 256 - 1 := by
    rw [Finset.card_erase_of_mem (Finset.mem_univ t), Finset.card_univ, card_uint256]
  have hsub : s.tracked ⊆ Finset.univ.erase t := by
    intro u hu
    refine Finset.mem_erase.mpr ⟨?_, Finset.mem_univ u⟩
    rintro rfl
    exact Storage.mem_tracked.mp hu ht
  rw [hs.totalTokens_eq]
  constructor
  · intro hlt
    by_contra hall
    push Not at hall
    -- all but `t` are tracked
    have heq : s.tracked = Finset.univ.erase t := by
      refine Finset.Subset.antisymm hsub fun u hu => ?_
      exact Storage.mem_tracked.mpr (hall u (Finset.mem_erase.mp hu).1)
    rw [heq, hcard] at hlt
    omega
  · rintro ⟨u, hut, hu⟩
    have hssub : s.tracked ⊂ Finset.univ.erase t := by
      refine Finset.ssubset_iff_subset_ne.mpr ⟨hsub, fun heq => ?_⟩
      have hmem : u ∈ s.tracked := heq ▸ Finset.mem_erase.mpr ⟨hut, Finset.mem_univ u⟩
      exact Storage.mem_tracked.mp hmem hu
    have hlt := Finset.card_lt_card hssub
    omega

/-- The outcomes of a registration, in the order of its checks. -/
theorem outcome_registerNFT (w : World) (sender : Address) (t : Uint256) (o : Address) :
    Machine.outcome exec w ⟨sender, .registerNFT t o⟩ =
      if sender ≠ w.storage.admin then some (.custom .unauthorized)
      else if o = 0 then some (.custom .invalidAddress)
      else if w.storage.tokenOwners t ≠ 0 then some (.custom .tokenAlreadyExists)
      else if w.storage.totalTokens.toNat + 1 < 2 ^ 256 then none
      else some (.panic .arithmetic) := by
  simp only [Machine.outcome, exec, registerNFT_eq, registerBatchBody_eq]
  split_ifs <;> rfl

/-- **No counter wraps.**  The increment of a length by `push` never does in a
call that succeeds: its pushes are those of `Call.pushes` onto the list of its
receiver, and no other list grows.  `totalTokens++` overflows, and makes `registerNFT` revert,
exactly for the admin registering, for a proper owner, the only id still
untracked; every other such registration of an untracked id succeeds. -/
theorem counters_never_wrap {w : World} (hw : Reachable w) :
    (∀ tx w', exec w tx = .ok w' →
      (∀ a, tx.call.receiver = some a →
        PushChain (tx.call.pushes w) tx.call.pushed (w'.storage.ownedTokens a)) ∧
      (∀ a, tx.call.receiver ≠ some a →
        (w'.storage.ownedTokens a).toList.length ≤ (w.storage.ownedTokens a).toList.length) ∧
      ∀ xs ∈ tx.call.pushes w, xs.toList.length + 1 < 2 ^ 256) ∧
    (∀ sender t o,
      Machine.outcome exec w ⟨sender, .registerNFT t o⟩ = some (.panic .arithmetic) ↔
        sender = w.storage.admin ∧ o ≠ 0 ∧ w.storage.tokenOwners t = 0 ∧
          ∀ u, u ≠ t → w.storage.tokenOwners u ≠ 0) ∧
    (∀ sender t o, sender = w.storage.admin → o ≠ 0 → w.storage.tokenOwners t = 0 →
      ¬(∀ u, u ≠ t → w.storage.tokenOwners u ≠ 0) →
        Machine.outcome exec w ⟨sender, .registerNFT t o⟩ = none) := by
  refine ⟨fun tx w' h => ⟨fun a ha => Call.pushes_chain hw.valid h ha,
    fun a ha => length_le_of_exec hw.valid h ha, Call.pushes_room hw.valid h⟩,
    fun sender t o => ?_, ?_⟩
  · rw [outcome_registerNFT]
    by_cases hsender : sender = w.storage.admin
    swap
    · rw [if_pos hsender]
      exact iff_of_false (fun h => nomatch h) fun h => hsender h.1
    by_cases ho : o = 0
    · rw [if_neg (not_not.mpr hsender), if_pos ho]
      exact iff_of_false (fun h => nomatch h) fun h => h.2.1 ho
    by_cases ht : w.storage.tokenOwners t = 0
    swap
    · rw [if_neg (not_not.mpr hsender), if_neg ho, if_pos ht]
      exact iff_of_false (fun h => nomatch h) fun h => ht h.2.2.1
    rw [if_neg (not_not.mpr hsender), if_neg ho, if_neg (not_not.mpr ht)]
    have hroom := hw.valid.totalTokens_lt_iff ht
    -- there is room for one more if another token is without an owner
    by_cases hlt : w.storage.totalTokens.toNat + 1 < 2 ^ 256
    · obtain ⟨u, hut, hu⟩ := hroom.mp hlt
      rw [if_pos hlt]
      exact iff_of_false (fun h => nomatch h) fun h => h.2.2.2 u hut hu
    · rw [if_neg hlt]
      refine iff_of_true rfl ⟨hsender, ho, ht, fun u hut hu => ?_⟩
      exact hlt (hroom.mpr ⟨u, hut, hu⟩)
  · intro sender t o hsender ho ht hother
    push Not at hother
    have hlt := (hw.valid.totalTokens_lt_iff ht).mpr hother
    rw [outcome_registerNFT, if_neg (not_not.mpr hsender), if_neg ho, if_neg (not_not.mpr ht),
      if_pos hlt]

/-- A second batch of two tokens, and a registration of a fifth. -/
theorem counters_never_wrap_batch :
    let w := Machine.run exec (deploy 1) [⟨1, .registerBatchNFTs [7, 8] 2⟩]
    let call := Call.registerBatchNFTs [9, 10] 2
    (∃ w', exec w ⟨1, call⟩ = .ok w' ∧
      PushChain (call.pushes w) [9, 10] (w'.storage.ownedTokens 2)) ∧
    (call.pushes w).map StorageArray.toList = [[7, 8], [7, 8, 9]] ∧
    Machine.outcome exec w ⟨1, .registerNFT 11 2⟩ = none := by
  intro w call
  have hw : Reachable w := ⟨1, _, rfl⟩
  obtain ⟨hpushes, -, hroom⟩ := counters_never_wrap hw
  refine ⟨?_, by decide, ?_⟩
  · have hok : ∃ w', exec w ⟨1, call⟩ = .ok w' := ⟨_, rfl⟩
    obtain ⟨w', hw'⟩ := hok
    exact ⟨w', hw', (hpushes _ w' hw').1 2 rfl⟩
  · exact hroom 1 11 2 rfl (by decide) (by decide) fun h => absurd (h 12 (by decide)) (by decide)

/-- The overflow is not out of reach: every id but one can be registered. -/
theorem exists_reachable_full (deployer : Address) (t : Uint256) :
    ∃ w, Reachable w ∧ w.storage.admin = deployer ∧ w.storage.tokenOwners t = 0 ∧
      ∀ u, u ≠ t → w.storage.tokenOwners u ≠ 0 := by
  -- all tokens but `t` go to one owner, in one call
  let ts := (Finset.univ.erase t).toList
  have hlength : ts.length = 2 ^ 256 - 1 := by
    rw [Finset.length_toList, Finset.card_erase_of_mem (Finset.mem_univ t), Finset.card_univ,
      card_uint256]
  have htotal : (deploy deployer).storage.totalTokens.toNat + ts.length < 2 ^ 256 := by
    rw [hlength]
    change 0 + (2 ^ 256 - 1) < 2 ^ 256
    omega
  obtain ⟨w, hw⟩ := (exists_exec_registerBatchNFTs deployer 1 (deploy deployer) htotal).mpr
    ⟨rfl, by decide, Finset.nodup_toList _, fun _ _ => rfl⟩
  have hvalid := valid_of_exec (.deploy deployer) hw
  obtain ⟨-, hemits, -⟩ := exec_ok (.deploy deployer) hw
  obtain ⟨hadmin, hlist, hother⟩ := hemits.ownedTokens_registered ts (.deploy deployer)
  have hmem : ∀ u, u ∈ (w.storage.ownedTokens 1).toList ↔ u ≠ t := by
    intro u
    rw [hlist]
    simp [ts, deploy, StorageArray.empty]
  refine ⟨w, ⟨deployer, [⟨deployer, .registerBatchNFTs ts 1⟩], ?_⟩, hadmin, ?_, fun u hu => ?_⟩
  · rw [Machine.run_cons, Machine.run_nil, Machine.step_of_ok hw]
  · by_contra ht
    have hown := (hvalid.mem_ownedTokens t (w.storage.tokenOwners t)).mpr ⟨rfl, ht⟩
    by_cases hone : w.storage.tokenOwners t = 1
    · rw [hone] at hown
      exact (hmem t).mp hown rfl
    · rw [hother _ hone] at hown
      cases hown
  · obtain ⟨howner, -⟩ := (hvalid.mem_ownedTokens u 1).mp ((hmem u).mpr hu)
    rw [howner]
    decide

end NFTOwnerTracker
end IntBlock
