import IntBlock.NFTOwnerTracker.Transfer
import IntBlock.Lib.Schedule

/-!
# Enumerating a list while it changes

A reader asks for the number of tokens of an address and then for each of them
by index, the last first, while others call the contract.  Taking a token out
of a list moves the last one to an earlier place, and only there: a token that
stays in the list never gets behind a reader who comes from the end.

## Main definitions

* `Reader`, `Action`, `readerStep a` — the reader of the list of `a`, and what may
  happen next: its next read, or anybody's call.
* `Event.moves t` — the event is a transfer of `t`.

## Main results

* `Emits.index_le` — a token that is not transferred keeps its owner and never
  gets a larger index.
* `enumeration_complete` — **backward enumeration misses nothing.**
-/

namespace IntBlock
namespace NFTOwnerTracker

open Solidity

/-! ### Where a token can get to -/

/-- Whether an event is a transfer of `t`. -/
def Event.moves (t : Uint256) : Event → Bool
  | .nftRegistered _ _ => false
  | .nftTransferred u _ _ => u = t
  | .adminChanged _ _ => false

/-- An update that does not transfer `t` leaves it with its owner, at its index
or at a smaller one. -/
theorem Storage.Enabled.index_le {s : Storage} (hs : s.Valid) {e : Event} (he : s.Enabled e)
    {t : Uint256} (ht : s.tokenOwners t ≠ 0) (hmoves : e.moves t = false) :
    (s.apply e).tokenOwners t = s.tokenOwners t ∧
      ((s.apply e).tokenIndex t).toNat ≤ (s.tokenIndex t).toNat := by
  cases e with
  | adminChanged p a => exact ⟨rfl, le_refl _⟩
  | nftRegistered u o =>
    have htu : t ≠ u := by
      rintro rfl
      exact ht he.1
    have hindex : (s.apply (.nftRegistered u o)).tokenIndex t = s.tokenIndex t :=
      Function.update_of_ne htu _ _
    exact ⟨Function.update_of_ne htu _ _, by rw [hindex]⟩
  | nftTransferred u p q =>
    have htu : t ≠ u := by
      rintro rfl
      simp [Event.moves] at hmoves
    obtain ⟨hp, hp0, hq, hpq⟩ := he
    have hu : s.tokenOwners u ≠ 0 := hp ▸ hp0
    obtain ⟨x, hx⟩ := hs.exists_getLast? hu
    have hindex : (s.apply (.nftTransferred u p q)).tokenIndex t =
        Function.update s.tokenIndex x (s.tokenIndex u) t := by
      rw [Storage.apply, Storage.transfer_of_getLast? q hx]
      exact Function.update_of_ne htu _ _
    refine ⟨Function.update_of_ne htu _ _, ?_⟩
    rw [hindex]
    by_cases htx : t = x
    · -- the last token of the list takes the place of `u`, which is not behind it
      subst htx
      rw [List.getLast?_eq_getElem?] at hx
      have hlast := ((hs.wf.getElem?_iff t _ _).mp hx).2
      have hlt := hs.index_lt hu
      rw [Storage.index_holdings] at hlast
      rw [Function.update_self]
      omega
    · rw [Function.update_of_ne htx]

/-- **A token that is not transferred** keeps its owner and never gets a larger index. -/
theorem Emits.index_le {s s' : Storage} {es : List Event} (h : Emits s es s') (hs : s.Valid)
    {t : Uint256} (ht : s.tokenOwners t ≠ 0) (hmoves : ∀ e ∈ es, e.moves t = false) :
    s'.tokenOwners t = s.tokenOwners t ∧ (s'.tokenIndex t).toNat ≤ (s.tokenIndex t).toNat := by
  induction h with
  | nil s => exact ⟨rfl, le_refl _⟩
  | @cons s s' e es he hes ih =>
    obtain ⟨howner, hindex⟩ := he.index_le hs ht (hmoves e List.mem_cons_self)
    have ht' : (s.apply e).tokenOwners t ≠ 0 := by
      rw [howner]
      exact ht
    obtain ⟨howner', hindex'⟩ := ih (hs.apply he) ht' fun e' he' =>
      hmoves e' (List.mem_cons_of_mem _ he')
    exact ⟨howner'.trans howner, hindex'.trans hindex⟩

/-- A token transferred by a successful call has another owner afterwards. -/
theorem tokenOwners_ne_of_moves {w w' : World} (hw : w.storage.Valid) {tx : Tx}
    (h : exec w tx = .ok w') {t : Uint256} {e : Event} (he : e ∈ tx.call.events w.storage)
    (hmoves : e.moves t = true) : w'.storage.tokenOwners t ≠ w.storage.tokenOwners t := by
  obtain ⟨sender, call⟩ := tx
  cases call with
  | changeAdmin a =>
    obtain rfl := List.mem_singleton.mp he
    cases hmoves
  | registerNFT u o =>
    obtain rfl := List.mem_singleton.mp he
    cases hmoves
  | registerBatchNFTs ts o =>
    obtain ⟨u, -, rfl⟩ := List.mem_map.mp he
    cases hmoves
  | transferNFT u q =>
    obtain rfl := List.mem_singleton.mp he
    obtain rfl : u = t := by simpa [Event.moves] using hmoves
    obtain ⟨-, -, hne, hw'⟩ := transferNFT_ok hw h
    rw [hw', Storage.tokenOwners_transfer, Function.update_self]
    exact Ne.symm hne

/-- Whatever is called, a token that is with its owner before and after has not
moved towards the end of the list. -/
theorem index_le_step {w : World} (hw : w.storage.Valid) (tx : Tx) {t : Uint256}
    (ht : w.storage.tokenOwners t ≠ 0)
    (hkept : (Machine.step exec w tx).storage.tokenOwners t = w.storage.tokenOwners t) :
    ((Machine.step exec w tx).storage.tokenIndex t).toNat ≤ (w.storage.tokenIndex t).toNat := by
  cases h : exec w tx with
  | error e => rw [Machine.step_of_error h]
  | ok w' =>
    rw [Machine.step_of_ok h] at hkept ⊢
    obtain ⟨-, hemits, -⟩ := exec_ok hw h
    refine (hemits.index_le hw ht fun e he => ?_).2
    by_contra hmoves
    exact tokenOwners_ne_of_moves hw h he (by simpa using hmoves) hkept

/-! ### The reader -/

/-- The contract, and a reader of a list: the number of indices it has still to
read, and what its reads returned so far. -/
structure Reader where
  world : World
  next : ℕ
  seen : List (Result Uint256)

/-- What happens next. -/
inductive Action
  | call (tx : Tx)
  | read
  deriving DecidableEq, Repr

/-- One call by anybody, or the read of the next smaller index.  A read that
reverts is a read: the reader goes on. -/
def readerStep (a : Address) (r : Reader) : Action → Option Reader
  | .call tx => some { r with world := Machine.step exec r.world tx }
  | .read =>
      match r.next with
      | 0 => none
      | i + 1 => some
          { r with
            next := i
            seen := r.seen ++ [getOwnedTokenAt a (BitVec.ofNat 256 i) r.world.storage] }

/-- The reader has taken the count and read nothing yet. -/
def countTaken (a : Address) (w : World) : Reader where
  world := w
  next := (getOwnedTokenCount a w.storage).toNat
  seen := []

/-- The token is where the reader has not come to yet, unless it was returned. -/
def Ahead (t : Uint256) (r : Reader) : Prop :=
  .ok t ∈ r.seen ∨ (r.world.storage.tokenIndex t).toNat < r.next

/-- A call leaves a token ahead of the reader if the token stays with its owner. -/
theorem Ahead.call {a : Address} {r r' : Reader} {tx : Tx} {t : Uint256}
    (hr : r.world.storage.Valid) (h : readerStep a r (.call tx) = some r') (hahead : Ahead t r)
    (howned : 0 < r.next → t ∈ getOwnedTokens a r.world.storage)
    (howned' : 0 < r'.next → t ∈ getOwnedTokens a r'.world.storage) : Ahead t r' := by
  obtain rfl := Option.some.inj h
  rcases hahead with hseen | hlt
  · exact Or.inl hseen
  · right
    have hpos : 0 < r.next := by omega
    have hr' := valid_step hr tx
    obtain ⟨howner, ha⟩ := (hr.mem_ownedTokens t a).mp (howned hpos)
    obtain ⟨howner', -⟩ := (hr'.mem_ownedTokens t a).mp (howned' hpos)
    have hle := index_le_step hr tx (by rw [howner]; exact ha) (howner'.trans howner.symm)
    exact lt_of_le_of_lt hle hlt

/-- A read returns the token that stands at its index. -/
theorem Ahead.read {a : Address} {r r' : Reader} {t : Uint256} (hr : r.world.storage.Valid)
    (hnext : r.next < 2 ^ 256) (h : readerStep a r .read = some r') (hahead : Ahead t r)
    (howned : 0 < r.next → t ∈ getOwnedTokens a r.world.storage) : Ahead t r' := by
  obtain ⟨w, next, seen⟩ := r
  cases next with
  | zero => cases h
  | succ i =>
    obtain rfl := Option.some.inj h
    rcases hahead with hseen | hlt
    · exact Or.inl (List.mem_append_left _ hseen)
    · change (w.storage.tokenIndex t).toNat < i + 1 at hlt
      change i + 1 < 2 ^ 256 at hnext
      by_cases hi : (w.storage.tokenIndex t).toNat = i
      · -- this is the read that returns it
        left
        have hholder := (hr.wf.mem_items t a).mp (howned (Nat.succ_pos i))
        have hplace := hr.wf.getElem?_index t a hholder
        rw [Storage.items_holdings, Storage.index_holdings, hi] at hplace
        have hget : getOwnedTokenAt a (BitVec.ofNat 256 i) w.storage = .ok t := by
          apply StorageArray.get_of_getElem?
          rw [BitVec.toNat_ofNat, Nat.mod_eq_of_lt (by omega)]
          exact hplace
        rw [← hget]
        exact List.mem_append_right _ (List.mem_singleton_self _)
      · right
        change (w.storage.tokenIndex t).toNat < i
        omega

/-- **Backward enumeration misses nothing.**  Whatever is called by whomever
between the reads, a token that is in the list when the count is taken and in
every state up to the last read is returned by one of the reads. -/
theorem enumeration_complete {w : World} (hw : Reachable w) (a : Address) {as : List Action}
    {r : Reader} (hrun : Schedule.run (readerStep a) (countTaken a w) as = some r)
    (hend : r.next = 0) {t : Uint256} (hcount : t ∈ getOwnedTokens a w.storage)
    (howned : ∀ pre r', pre <+: as → Schedule.run (readerStep a) (countTaken a w) pre = some r' →
      0 < r'.next → t ∈ getOwnedTokens a r'.world.storage) :
    .ok t ∈ r.seen := by
  have hinv : r.world.storage.Valid ∧ r.next < 2 ^ 256 ∧ (as <+: as → Ahead t r) := by
    refine Schedule.history_invariant
      (P := fun pre r => r.world.storage.Valid ∧ r.next < 2 ^ 256 ∧ (pre <+: as → Ahead t r))
      ⟨hw.valid, (getOwnedTokenCount a w.storage).isLt, fun _ => Or.inr ?_⟩ ?_ hrun
    · -- at the count every index of the list is ahead
      obtain ⟨howner, ha⟩ := (hw.valid.mem_ownedTokens t a).mp hcount
      subst howner
      change (w.storage.tokenIndex t).toNat < (StorageArray.length _).toNat
      rw [StorageArray.toNat_length]
      exact hw.valid.index_lt ha
    · rintro pre s act s' ⟨hvalid, hnext, hahead⟩ hs' hpre
      have hbefore : pre ++ [act] <+: as → pre <+: as := (List.prefix_append pre [act]).trans
      cases act with
      | call tx =>
        have hvalid' : s'.world.storage.Valid := by
          obtain rfl := Option.some.inj hs'
          exact valid_step hvalid tx
        have hnext' : s'.next < 2 ^ 256 := by
          obtain rfl := Option.some.inj hs'
          exact hnext
        refine ⟨hvalid', hnext', fun hle => ?_⟩
        exact (hahead (hbefore hle)).call hvalid hs' (howned pre s (hbefore hle) hpre)
          (howned _ s' hle (Schedule.run_concat_eq_some.mpr ⟨s, hpre, hs'⟩))
      | read =>
        have hstep : s'.world = s.world ∧ s'.next ≤ s.next := by
          obtain ⟨w', next, seen⟩ := s
          cases next with
          | zero => cases hs'
          | succ i =>
            obtain rfl := Option.some.inj hs'
            exact ⟨rfl, Nat.le_succ i⟩
        refine ⟨hstep.1 ▸ hvalid, lt_of_le_of_lt hstep.2 hnext, fun hle => ?_⟩
        exact (hahead (hbefore hle)).read hvalid hnext hs'
          (howned pre s (hbefore hle) hpre)
  rcases hinv.2.2 (List.prefix_refl as) with hseen | hlt
  · exact hseen
  · omega

/-- The last of three tokens moves to the front before anything was read: the
first read reverts, and the last one returns it. -/
theorem enumeration_complete_moved :
    let w := Machine.run exec (deploy 1) [⟨1, .registerBatchNFTs [7, 8, 9] 2⟩]
    let as : List Action := [.call ⟨1, .transferNFT 7 3⟩, .read, .read, .read]
    ∃ r, Schedule.run (readerStep 2) (countTaken 2 w) as = some r ∧
      r.seen.head? = some (.error (.panic .outOfBounds)) ∧ .ok 9 ∈ r.seen := by
  intro w as
  have hw : Reachable w := ⟨1, [⟨1, .registerBatchNFTs [7, 8, 9] 2⟩], rfl⟩
  obtain ⟨r, hrun⟩ : ∃ r, Schedule.run (readerStep 2) (countTaken 2 w) as = some r :=
    Option.isSome_iff_exists.mp (by decide)
  have hseen : (Schedule.run (readerStep 2) (countTaken 2 w) as).map Reader.seen =
      some [.error (.panic .outOfBounds), .ok 8, .ok 9] := by decide
  have hnext : (Schedule.run (readerStep 2) (countTaken 2 w) as).map Reader.next = some 0 := by
    decide
  rw [hrun] at hseen hnext
  -- the token is with its owner after every prefix
  have howned : as.inits.all fun pre =>
      (Schedule.run (readerStep 2) (countTaken 2 w) pre).all fun r' =>
        decide (9 ∈ getOwnedTokens 2 r'.world.storage) := by decide
  refine ⟨r, hrun, ?_, ?_⟩
  · rw [Option.some.inj hseen]
    rfl
  · refine enumeration_complete hw 2 hrun (Option.some.inj hnext) (by decide) ?_
    intro pre r' hpre hpre' _
    have h := List.all_eq_true.mp howned pre ((List.mem_inits pre as).mpr hpre)
    rw [hpre'] at h
    exact of_decide_eq_true h

end NFTOwnerTracker
end IntBlock
