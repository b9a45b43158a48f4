import IntBlock.NFTOwnerTracker.Contract
import IntBlock.Lib.Holdings

/-!
# The ownership index of the storage

`tokenOwners`, `ownedTokens` and `tokenIndex` are one `Holdings` in three
mappings: an owner of zero stands for no owner, positions are words.  The two
updates the contract makes to them, appending a token to a list and moving one
from list to list, are the operations of `Holdings`.

## Main definitions

* `Storage.holdings` — the index as a `Holdings`.
* `Storage.register`, `Storage.transfer` — the storage after a registration and
  after a transfer.
* `Storage.Valid` — the maps agree, and `totalTokens` counts the tracked tokens.

## Main results

* `Storage.Valid.holdings_register`, `Storage.Valid.holdings_transfer` — the
  updates are `Holdings.attach`, and `Holdings.detach` followed by it.
* `Storage.Valid.register`, `Storage.Valid.transfer` — both keep the storage valid.
* `Storage.ext_holdings`, `Storage.Valid.ext` — the index, and then the lists
  alone, determine the storage up to `admin` and `totalTokens`.
-/

namespace IntBlock
namespace NFTOwnerTracker

open Solidity

/-! ### The index as holdings -/

/-- An owner word read as an owner: zero is nobody. -/
def ownerOf? (a : Address) : Option Address := if a = 0 then none else some a

@[simp] theorem ownerOf?_eq_none {a : Address} : ownerOf? a = none ↔ a = 0 := by
  unfold ownerOf?
  split <;> simp_all

@[simp] theorem ownerOf?_eq_some {a b : Address} : ownerOf? a = some b ↔ a = b ∧ b ≠ 0 := by
  unfold ownerOf?
  split
  · next h => subst h; simpa using fun h : 0 = b => h.symm
  · next h =>
    rw [Option.some.injEq]
    constructor
    · rintro rfl; exact ⟨rfl, h⟩
    · exact fun hb => hb.1

@[simp] theorem isSome_ownerOf? {a : Address} : (ownerOf? a).isSome ↔ a ≠ 0 := by
  rw [← Option.ne_none_iff_isSome, ne_eq, ownerOf?_eq_none]

theorem ownerOf?_of_ne_zero {a : Address} (h : a ≠ 0) : ownerOf? a = some a := if_neg h

theorem ownerOf?_injective : Function.Injective ownerOf? := by
  intro a b h
  by_cases hb : b = 0
  · subst hb
    exact ownerOf?_eq_none.mp (h.trans (ownerOf?_eq_none.mpr rfl))
  · exact (ownerOf?_eq_some.mp (h.trans (ownerOf?_of_ne_zero hb))).1

namespace Storage

/-- The three mappings as `Holdings`. -/
def holdings (s : Storage) : Holdings Address Uint256 where
  holder t := ownerOf? (s.tokenOwners t)
  items a := (s.ownedTokens a).toList
  index t := (s.tokenIndex t).toNat

@[simp] theorem holder_holdings (s : Storage) (t : Uint256) :
    s.holdings.holder t = ownerOf? (s.tokenOwners t) := rfl

@[simp] theorem items_holdings (s : Storage) (a : Address) :
    s.holdings.items a = (s.ownedTokens a).toList := rfl

@[simp] theorem index_holdings (s : Storage) (t : Uint256) :
    s.holdings.index t = (s.tokenIndex t).toNat := rfl

/-- Nothing else is kept: the index, the admin and the counter are the storage. -/
theorem ext_holdings {s s' : Storage} (hadmin : s.admin = s'.admin)
    (hholdings : s.holdings = s'.holdings) (htotal : s.totalTokens = s'.totalTokens) : s = s' := by
  have howner : ∀ t, s.tokenOwners t = s'.tokenOwners t := fun t =>
    ownerOf?_injective (congrFun (congrArg Holdings.holder hholdings) t)
  have hlist : ∀ a, s.ownedTokens a = s'.ownedTokens a := fun a =>
    StorageArray.ext (congrFun (congrArg Holdings.items hholdings) a)
  have hindex : ∀ t, s.tokenIndex t = s'.tokenIndex t := fun t =>
    BitVec.eq_of_toNat_eq (congrFun (congrArg Holdings.index hholdings) t)
  exact Storage.ext hadmin (funext howner) (funext hlist) (funext hindex) htotal

/-! ### The two updates -/

/-- The storage after `t` was registered for `o`. -/
def register (s : Storage) (t : Uint256) (o : Address) : Storage :=
  { s with
    tokenOwners := Function.update s.tokenOwners t o
    tokenIndex := Function.update s.tokenIndex t (s.ownedTokens o).length
    ownedTokens := Function.update s.ownedTokens o ((s.ownedTokens o).push t)
    totalTokens := s.totalTokens + 1 }

/-- The lists after `t` was taken from that of its owner. -/
def removed (s : Storage) (t : Uint256) : Address → StorageArray Uint256 :=
  Function.update s.ownedTokens (s.tokenOwners t)
    ((s.ownedTokens (s.tokenOwners t)).swapRemove (s.tokenIndex t))

/-- The storage after `t` was moved to the list of `q`; `x` is the last token of
the list it was in. -/
def transferOver (s : Storage) (x t : Uint256) (q : Address) : Storage :=
  { s with
    tokenOwners := Function.update s.tokenOwners t q
    tokenIndex := Function.update (Function.update s.tokenIndex x (s.tokenIndex t)) t
      (s.removed t q).length
    ownedTokens := Function.update (s.removed t) q ((s.removed t q).push t) }

/-- The storage after `t` was transferred to `q`. -/
def transfer (s : Storage) (t : Uint256) (q : Address) : Storage :=
  s.transferOver ((s.ownedTokens (s.tokenOwners t)).toList.getLastD 0) t q

/-- The last token written out. -/
theorem transfer_of_getLast? {s : Storage} {t x : Uint256} (q : Address)
    (hx : (s.ownedTokens (s.tokenOwners t)).toList.getLast? = some x) :
    s.transfer t q = s.transferOver x t q := by
  rw [transfer, List.getLastD_eq_getLast?, hx, Option.getD_some]

@[simp] theorem tokenOwners_register (s : Storage) (t : Uint256) (o : Address) :
    (s.register t o).tokenOwners = Function.update s.tokenOwners t o := rfl

@[simp] theorem totalTokens_register (s : Storage) (t : Uint256) (o : Address) :
    (s.register t o).totalTokens = s.totalTokens + 1 := rfl

@[simp] theorem tokenOwners_transfer (s : Storage) (t : Uint256) (q : Address) :
    (s.transfer t q).tokenOwners = Function.update s.tokenOwners t q := rfl

@[simp] theorem totalTokens_transfer (s : Storage) (t : Uint256) (q : Address) :
    (s.transfer t q).totalTokens = s.totalTokens := rfl

/-! ### Valid storages -/

/-- The tracked tokens. -/
def tracked (s : Storage) : Finset Uint256 := Finset.univ.filter fun t => s.tokenOwners t ≠ 0

@[simp] theorem mem_tracked {s : Storage} {t : Uint256} : t ∈ s.tracked ↔ s.tokenOwners t ≠ 0 := by
  simp [tracked]

@[simp] theorem held_holdings (s : Storage) : s.holdings.held = s.tracked := by
  ext t
  rw [Holdings.mem_held, mem_tracked, holder_holdings, isSome_ownerOf?]

/-- The three mappings agree, and `totalTokens` is the number of tracked tokens. -/
structure Valid (s : Storage) : Prop where
  wf : s.holdings.WF
  totalTokens_eq : s.totalTokens.toNat = s.tracked.card

section Valid

variable {s s' : Storage} (hs : s.Valid)
include hs

/-- No list is longer than the counter. -/
theorem Valid.length_le (a : Address) : (s.ownedTokens a).toList.length ≤ s.totalTokens.toNat := by
  rw [hs.totalTokens_eq, ← held_holdings]
  exact hs.wf.length_le a

/-- The counter is the sum of the lengths of the lists. -/
theorem Valid.sum_length : ∑ a, (s.ownedTokens a).toList.length = s.totalTokens.toNat := by
  rw [hs.totalTokens_eq, ← held_holdings]
  exact hs.wf.sum_length

theorem Valid.mem_ownedTokens (t : Uint256) (a : Address) :
    t ∈ (s.ownedTokens a).toList ↔ s.tokenOwners t = a ∧ a ≠ 0 := by
  rw [← ownerOf?_eq_some]
  exact hs.wf.mem_items t a

/-- **The lists determine the rest**, `admin` apart. -/
theorem Valid.ext (hs' : s'.Valid) (hadmin : s.admin = s'.admin)
    (hlists : s.ownedTokens = s'.ownedTokens) : s = s' := by
  have hholdings : s.holdings = s'.holdings := by
    apply hs.wf.ext hs'.wf
    funext a
    rw [items_holdings, items_holdings, hlists]
  refine ext_holdings hadmin hholdings (BitVec.eq_of_toNat_eq ?_)
  rw [hs.totalTokens_eq, hs'.totalTokens_eq, ← held_holdings, ← held_holdings, hholdings]

/-- Registering is giving the token to its owner. -/
theorem Valid.holdings_register {t : Uint256} {o : Address} (ho : o ≠ 0)
    (htotal : s.totalTokens.toNat + 1 < 2 ^ 256) :
    (s.register t o).holdings = s.holdings.attach t o := by
  have hlen := hs.length_le o
  apply Holdings.ext
  · funext u
    rw [Holdings.holder_attach, holder_holdings, tokenOwners_register, Function.update_apply,
      Function.update_apply]
    split
    · exact ownerOf?_of_ne_zero ho
    · rfl
  · funext a
    rw [Holdings.items_attach, Function.update_apply]
    change (Function.update s.ownedTokens o _ a).toList = _
    rw [Function.update_apply]
    split
    · exact StorageArray.toList_push (by omega)
    · rfl
  · funext u
    rw [Holdings.index_attach, Function.update_apply]
    change (Function.update s.tokenIndex t _ u).toNat = _
    rw [Function.update_apply]
    split
    · exact StorageArray.toNat_length _
    · rfl

theorem Valid.register {t : Uint256} {o : Address} (ht : s.tokenOwners t = 0) (ho : o ≠ 0)
    (htotal : s.totalTokens.toNat + 1 < 2 ^ 256) : (s.register t o).Valid := by
  have hholdings := hs.holdings_register (t := t) ho htotal
  refine ⟨?_, ?_⟩
  · rw [hholdings]
    exact hs.wf.attach (by rw [holder_holdings, ownerOf?_eq_none]; exact ht) o
  · rw [← held_holdings, hholdings, Holdings.held_attach, held_holdings,
      Finset.card_insert_of_notMem (by simpa using ht), ← hs.totalTokens_eq, totalTokens_register,
      BitVec.toNat_add_of_lt (by simpa using htotal)]
    rfl

/-- The list a tracked token stands in, and its last entry. -/
theorem Valid.exists_getLast? {t : Uint256} (ht : s.tokenOwners t ≠ 0) :
    ∃ x, (s.ownedTokens (s.tokenOwners t)).toList.getLast? = some x := by
  obtain ⟨x, hx, -⟩ := hs.wf.exists_getLast? (t := t) (ownerOf?_of_ne_zero ht)
  exact ⟨x, hx⟩

theorem Valid.ownedTokens_ne_nil {t : Uint256} (ht : s.tokenOwners t ≠ 0) :
    (s.ownedTokens (s.tokenOwners t)).toList ≠ [] :=
  List.ne_nil_of_mem ((hs.mem_ownedTokens t _).mpr ⟨rfl, ht⟩)

theorem Valid.index_lt {t : Uint256} (ht : s.tokenOwners t ≠ 0) :
    (s.tokenIndex t).toNat < (s.ownedTokens (s.tokenOwners t)).toList.length :=
  hs.wf.index_lt (t := t) (ownerOf?_of_ne_zero ht)

/-- The stored position is where a search finds the token. -/
theorem Valid.idxOf_eq {t : Uint256} (ht : s.tokenOwners t ≠ 0) :
    (s.ownedTokens (s.tokenOwners t)).toList.idxOf t = (s.tokenIndex t).toNat :=
  hs.wf.idxOf_eq (t := t) (ownerOf?_of_ne_zero ht)

/-- `removed` is what taking the token from its owner leaves. -/
theorem Valid.items_detach {t : Uint256} (ht : s.tokenOwners t ≠ 0) :
    (s.holdings.detach t).items = fun a => (s.removed t a).toList := by
  obtain ⟨x, hx⟩ := hs.exists_getLast? ht
  rw [Holdings.detach_of_getLast? (h := s.holdings) (ownerOf?_of_ne_zero ht) hx]
  funext a
  simp only [removed, Function.update_apply]
  split
  · rfl
  · rfl

/-- After a token was taken from its owner, every list has room for one more. -/
theorem Valid.length_removed_lt {t : Uint256} (ht : s.tokenOwners t ≠ 0) (q : Address) :
    (s.removed t q).toList.length + 1 < 2 ^ 256 := by
  have hle : ((s.holdings.detach t).items q).length ≤ _ := (hs.wf.detach t).length_le q
  rw [congrFun (hs.items_detach ht) q, hs.wf.held_detach, held_holdings,
    Finset.card_erase_of_mem (mem_tracked.mpr ht), ← hs.totalTokens_eq] at hle
  have hlt := s.totalTokens.isLt
  have hpos : 0 < s.tracked.card := Finset.card_pos.mpr ⟨t, mem_tracked.mpr ht⟩
  rw [← hs.totalTokens_eq] at hpos
  omega

/-- Transferring is taking the token from its owner and giving it to the new one. -/
theorem Valid.holdings_transfer {t : Uint256} {q : Address} (ht : s.tokenOwners t ≠ 0)
    (hq : q ≠ 0) : (s.transfer t q).holdings = (s.holdings.detach t).attach t q := by
  obtain ⟨x, hx⟩ := hs.exists_getLast? ht
  have hdetach := Holdings.detach_of_getLast? (h := s.holdings) (ownerOf?_of_ne_zero ht) hx
  have hlists := hs.items_detach ht
  rw [transfer_of_getLast? q hx]
  apply Holdings.ext
  · funext u
    rw [Holdings.holder_attach, hdetach, holder_holdings]
    change ownerOf? (Function.update s.tokenOwners t q u) = _
    simp only [Function.update_apply]
    split
    · exact ownerOf?_of_ne_zero hq
    · rfl
  · funext a
    rw [Holdings.items_attach, hlists]
    change (Function.update (s.removed t) q _ a).toList = _
    simp only [Function.update_apply]
    split
    · exact StorageArray.toList_push (hs.length_removed_lt ht q)
    · rfl
  · funext u
    rw [Holdings.index_attach, hlists, hdetach]
    change (Function.update (Function.update s.tokenIndex x _) t _ u).toNat = _
    simp only [Function.update_apply]
    split
    · exact StorageArray.toNat_length _
    · split
      · rfl
      · rfl

theorem Valid.transfer {t : Uint256} {q : Address} (ht : s.tokenOwners t ≠ 0) (hq : q ≠ 0) :
    (s.transfer t q).Valid := by
  have hholdings := hs.holdings_transfer ht hq
  refine ⟨?_, ?_⟩
  · rw [hholdings]
    exact (hs.wf.detach t).attach (hs.wf.holder_detach t) q
  · rw [← held_holdings, hholdings, Holdings.held_attach, hs.wf.held_detach, held_holdings,
      Finset.insert_erase (mem_tracked.mpr ht), totalTokens_transfer, hs.totalTokens_eq]

end Valid

/-- The storage of a contract just deployed. -/
theorem Valid.deploy (deployer : Address) : (deploy deployer).storage.Valid where
  wf := by
    have hempty : (NFTOwnerTracker.deploy deployer).storage.holdings = Holdings.empty := by
      apply Holdings.ext
      · funext t
        exact ownerOf?_eq_none.mpr rfl
      · rfl
      · rfl
    rw [hempty]
    exact Holdings.WF.empty
  totalTokens_eq := by
    have hnone : (NFTOwnerTracker.deploy deployer).storage.tracked = ∅ := by
      ext t
      simp [NFTOwnerTracker.deploy]
    rw [hnone]
    rfl

/-- The admin is no part of the index. -/
theorem Valid.withAdmin {s : Storage} (hs : s.Valid) (a : Address) :
    ({ s with admin := a } : Storage).Valid := ⟨hs.wf, hs.totalTokens_eq⟩

end Storage

end NFTOwnerTracker
end IntBlock
