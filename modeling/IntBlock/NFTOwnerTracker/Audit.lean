import IntBlock.NFTOwnerTracker.Ownership

/-!
# The log as an audit trail

The abstract registry is an admin and an owner for each token, and knows of the
contract its events only.  Replaying the log over it, with every event checked
for being legal, reproduces the storage: the contract refines the registry.

## Main definitions

* `Registry`, `Registry.replay` — the abstract model, and the checked replay.
* `Storage.registry` — what a storage is at that level.
* `history t log`, `Passes t` — the events about one token, and a chain of
  transfers of it without a gap.

## Main results

* `Emits.replay` — each update of the storage is a legal event of the registry.
* `Registry.history_of_none`, `Registry.history_of_some` — what a legal log says
  of one token.
* `replay_log` — **the log is a complete audit trail.**
-/

namespace IntBlock
namespace NFTOwnerTracker

open Solidity

/-! ### The abstract registry -/

/-- Who administers, and who owns what. -/
@[ext] structure Registry where
  admin : Address
  owner : Uint256 → Option Address

namespace Registry

/-- Nothing registered yet. -/
def initial (deployer : Address) : Registry := ⟨deployer, fun _ => none⟩

/-- The registry after an event, `none` if the event is illegal. -/
def replayEvent (r : Registry) : Event → Option Registry
  | .nftRegistered t o =>
      if r.owner t = none ∧ o ≠ 0 then some { r with owner := Function.update r.owner t (some o) }
      else none
  | .nftTransferred t p n =>
      if r.owner t = some p ∧ n ≠ 0 ∧ n ≠ p then
        some { r with owner := Function.update r.owner t (some n) }
      else none
  | .adminChanged p n => if r.admin = p ∧ n ≠ 0 then some { r with admin := n } else none

/-- The registry after a log, `none` if some event of it is illegal. -/
def replay (r : Registry) (log : List Event) : Option Registry := log.foldlM replayEvent r

theorem replay_cons (r : Registry) (e : Event) (log : List Event) :
    r.replay (e :: log) = (r.replayEvent e).bind fun r' => r'.replay log := rfl

theorem replay_append (r : Registry) (log log' : List Event) :
    r.replay (log ++ log') = (r.replay log).bind fun r' => r'.replay log' := List.foldlM_append

end Registry

/-- A storage as a registry: the positions and the order of the lists forgotten. -/
def Storage.registry (s : Storage) : Registry := ⟨s.admin, fun t => ownerOf? (s.tokenOwners t)⟩

/-- Every update the contract makes is a legal event of the registry. -/
theorem Storage.Enabled.replayEvent {s : Storage} {e : Event} (he : s.Enabled e) :
    s.registry.replayEvent e = some (s.apply e).registry := by
  have hupdate : ∀ (t : Uint256) (o : Address), o ≠ 0 →
      Function.update (fun t => ownerOf? (s.tokenOwners t)) t (some o) =
        fun u => ownerOf? (Function.update s.tokenOwners t o u) := by
    intro t o ho
    ext1 u
    rw [Function.update_apply, Function.update_apply]
    split
    · exact (ownerOf?_of_ne_zero ho).symm
    · rfl
  cases e with
  | nftRegistered t o =>
    obtain ⟨ht, ho, -⟩ := he
    have hlegal : s.registry.owner t = none ∧ o ≠ 0 := ⟨ownerOf?_eq_none.mpr ht, ho⟩
    rw [Registry.replayEvent, if_pos hlegal]
    exact congrArg some (Registry.ext rfl (hupdate t o ho))
  | nftTransferred t p q =>
    obtain ⟨ht, hp, hq, hne⟩ := he
    have hlegal : s.registry.owner t = some p ∧ q ≠ 0 ∧ q ≠ p :=
      ⟨ownerOf?_eq_some.mpr ⟨ht, hp⟩, hq, Ne.symm hne⟩
    rw [Registry.replayEvent, if_pos hlegal]
    exact congrArg some (Registry.ext rfl (hupdate t q hq))
  | adminChanged p a =>
    have hlegal : s.registry.admin = p ∧ a ≠ 0 := he
    rw [Registry.replayEvent, if_pos hlegal]
    rfl

theorem Emits.replay {s s' : Storage} {es : List Event} (h : Emits s es s') :
    s.registry.replay es = some s'.registry := by
  induction h with
  | nil s => rfl
  | cons he hes ih => rw [Registry.replay_cons, he.replayEvent, Option.bind_some, ih]

/-! ### The history of one token -/

/-- The token an event is about. -/
def Event.tokenId? : Event → Option Uint256
  | .nftRegistered t _ => some t
  | .nftTransferred t _ _ => some t
  | .adminChanged _ _ => none

/-- The events of a log about one token. -/
def history (t : Uint256) (log : List Event) : List Event :=
  log.filter fun e => e.tokenId? = some t

theorem history_cons (t : Uint256) (e : Event) (log : List Event) :
    history t (e :: log) = if e.tokenId? = some t then e :: history t log else history t log := by
  rw [history, List.filter_cons]
  simp only [decide_eq_true_eq]
  rfl

/-- Transfers of `t` that hand it on without a gap, from the first owner to the last. -/
inductive Passes (t : Uint256) : Address → List Event → Address → Prop
  | nil (o : Address) : Passes t o [] o
  | cons {o n last : Address} {es : List Event} (h : Passes t n es last) :
      Passes t o (.nftTransferred t o n :: es) last

namespace Registry

/-- An event about another token, or about none, leaves the owner of `t`. -/
theorem owner_of_replayEvent {r r' : Registry} {e : Event} (h : r.replayEvent e = some r')
    {t : Uint256} (he : e.tokenId? ≠ some t) : r'.owner t = r.owner t := by
  cases e with
  | nftRegistered u o =>
    have hut : t ≠ u := fun hut => he (by rw [hut]; rfl)
    rw [replayEvent] at h
    obtain ⟨-, h⟩ := Option.ite_none_right_eq_some.mp h
    cases h
    exact Function.update_of_ne hut _ _
  | nftTransferred u p n =>
    have hut : t ≠ u := fun hut => he (by rw [hut]; rfl)
    rw [replayEvent] at h
    obtain ⟨-, h⟩ := Option.ite_none_right_eq_some.mp h
    cases h
    exact Function.update_of_ne hut _ _
  | adminChanged p n =>
    rw [replayEvent] at h
    obtain ⟨-, h⟩ := Option.ite_none_right_eq_some.mp h
    cases h
    rfl

/-- The events about an owned token hand it on without a gap. -/
theorem history_of_some {t : Uint256} : ∀ (log : List Event) (r r' : Registry) (o : Address),
    r.replay log = some r' → r.owner t = some o →
      ∃ last, r'.owner t = some last ∧ Passes t o (history t log) last := by
  intro log
  induction log with
  | nil =>
    intro r r' o h ho
    cases h
    exact ⟨o, ho, .nil o⟩
  | cons e log ih =>
    intro r r' o h ho
    rw [replay_cons, Option.bind_eq_some_iff] at h
    obtain ⟨r₁, he, hlog⟩ := h
    rw [history_cons]
    by_cases ht : e.tokenId? = some t
    · rw [if_pos ht]
      cases e with
      | nftRegistered u o' =>
        -- illegal: the token is owned
        cases ht
        rw [replayEvent, if_neg (by rw [ho]; simp)] at he
        cases he
      | nftTransferred u p n =>
        cases ht
        rw [replayEvent] at he
        obtain ⟨hlegal, he⟩ := Option.ite_none_right_eq_some.mp he
        cases he
        obtain rfl : o = p := Option.some.inj (ho.symm.trans hlegal.1)
        obtain ⟨last, hlast, hpass⟩ := ih _ r' n hlog (Function.update_self _ _ _)
        exact ⟨last, hlast, .cons hpass⟩
      | adminChanged p n => cases ht
    · rw [if_neg ht]
      exact ih r₁ r' o hlog (by rw [owner_of_replayEvent he ht]; exact ho)

/-- A token without an owner has no history, or one that begins with its
registration and hands it on without a gap. -/
theorem history_of_none {t : Uint256} : ∀ (log : List Event) (r r' : Registry),
    r.replay log = some r' → r.owner t = none →
      (r'.owner t = none ∧ history t log = []) ∨
      ∃ o es last, history t log = .nftRegistered t o :: es ∧ r'.owner t = some last ∧
        Passes t o es last := by
  intro log
  induction log with
  | nil =>
    intro r r' h ho
    cases h
    exact Or.inl ⟨ho, rfl⟩
  | cons e log ih =>
    intro r r' h ho
    rw [replay_cons, Option.bind_eq_some_iff] at h
    obtain ⟨r₁, he, hlog⟩ := h
    rw [history_cons]
    by_cases ht : e.tokenId? = some t
    · rw [if_pos ht]
      cases e with
      | nftRegistered u o =>
        cases ht
        rw [replayEvent] at he
        obtain ⟨-, he⟩ := Option.ite_none_right_eq_some.mp he
        cases he
        obtain ⟨last, hlast, hpass⟩ :=
          history_of_some log _ r' o hlog (Function.update_self _ _ _)
        exact Or.inr ⟨o, _, last, rfl, hlast, hpass⟩
      | nftTransferred u p n =>
        -- illegal: the token has no owner
        cases ht
        rw [replayEvent, if_neg (by rw [ho]; simp)] at he
        cases he
      | adminChanged p n => cases ht
    · rw [if_neg ht]
      exact ih r₁ r' hlog (by rw [owner_of_replayEvent he ht]; exact ho)

end Registry

/-! ### The audit trail -/

/-- The log of a run replays to the storage, and counts the registrations. -/
theorem replay_run (deployer : Address) (txs : List Tx) :
    (Registry.initial deployer).replay (Machine.run exec (deploy deployer) txs).log =
        some (Machine.run exec (deploy deployer) txs).storage.registry ∧
      (Machine.run exec (deploy deployer) txs).storage.totalTokens.toNat =
        (Machine.run exec (deploy deployer) txs).log.countP Event.isRegistered := by
  have hstep : ∀ (w : World) (tx : Tx) (w' : World),
      (w.storage.Valid ∧ (Registry.initial deployer).replay w.log = some w.storage.registry ∧
        w.storage.totalTokens.toNat = w.log.countP Event.isRegistered) → exec w tx = .ok w' →
      w'.storage.Valid ∧ (Registry.initial deployer).replay w'.log = some w'.storage.registry ∧
        w'.storage.totalTokens.toNat = w'.log.countP Event.isRegistered := by
    rintro w tx w' ⟨hvalid, hreplay, htotal⟩ h
    obtain ⟨-, hemits, hlog⟩ := exec_ok hvalid h
    refine ⟨hemits.valid hvalid, ?_, ?_⟩
    · rw [hlog, Registry.replay_append, hreplay, Option.bind_some, hemits.replay]
    · rw [hlog, List.countP_append, hemits.totalTokens, htotal]
  have hdeploy : (deploy deployer).storage.registry = Registry.initial deployer := by
    refine Registry.ext rfl ?_
    ext1 t
    exact ownerOf?_eq_none.mpr rfl
  refine (Machine.run_invariant hstep ⟨.deploy deployer, ?_, rfl⟩ txs).2
  rw [hdeploy]
  rfl

/-- **The event log is a complete audit trail**: replayed from the deployer and
no tokens it meets no illegal event and ends in the contract's admin and owners;
it counts the tokens, lists those of every address, and tells the history of
each token from its one registration to its present owner. -/
theorem replay_log (deployer : Address) (txs : List Tx) :
    let w := Machine.run exec (deploy deployer) txs
    ∃ r, (Registry.initial deployer).replay w.log = some r ∧
      (r.admin = w.storage.admin ∧ ∀ t, r.owner t = ownerOf? (w.storage.tokenOwners t)) ∧
      w.storage.totalTokens.toNat = w.log.countP Event.isRegistered ∧
      (∀ a, (w.storage.ownedTokens a).toList.Nodup ∧
        ∀ t, t ∈ (w.storage.ownedTokens a).toList ↔ r.owner t = some a) ∧
      (∀ t, (w.storage.tokenOwners t = 0 ∧ history t w.log = []) ∨
        ∃ o es, history t w.log = .nftRegistered t o :: es ∧
          Passes t o es (w.storage.tokenOwners t)) := by
  intro w
  have hvalid : w.storage.Valid := valid_run (.deploy deployer) txs
  obtain ⟨hreplay, htotal⟩ := replay_run deployer txs
  refine ⟨w.storage.registry, hreplay, ⟨rfl, fun t => rfl⟩, htotal, fun a => ?_, fun t => ?_⟩
  · exact ⟨hvalid.wf.nodup a, fun t => hvalid.wf.mem_items t a⟩
  · rcases Registry.history_of_none w.log _ _ hreplay rfl with
      ⟨ht, hnil⟩ | ⟨o, es, last, hes, hlast, hpass⟩
    · exact Or.inl ⟨ownerOf?_eq_none.mp ht, hnil⟩
    · obtain ⟨rfl, -⟩ := ownerOf?_eq_some.mp hlast
      exact Or.inr ⟨o, es, hes, hpass⟩

/-- A hand-over and a transfer, read back from the log. -/
example :
    ((Registry.initial 1).replay [.nftRegistered 7 2, .adminChanged 1 5, .nftTransferred 7 2 3]).map
      (fun r => (r.admin, r.owner 7)) = some (5, some 3) := by
  decide

end NFTOwnerTracker
end IntBlock
