import IntBlock.Lib.SwapRemove

/-!
# Items held by holders, each with its position

Every item has at most one holder; every holder has the list of its items; every
item knows its position in the list it stands in.  The three are redundant, and
`Holdings.WF` says that they agree.  An item is put at the end of a list and
taken out by `List.swapRemove`, which moves one other item.

## Main definitions

* `Holdings` — the three maps.
* `Holdings.WF` — their agreement.
* `Holdings.attach`, `Holdings.detach` — giving an item to a holder, and taking
  it from the one that has it.

## Main results

* `Holdings.WF.attach`, `Holdings.WF.detach` — the agreement is kept.
* `Holdings.WF.detach_attach` — taking back what was just given undoes it, order
  and positions included.
* `Holdings.WF.ext` — the lists determine the other two maps.
* `Holdings.WF.sum_length` — the lengths of the lists add up to the number of
  items held.
-/

namespace IntBlock

/-- Who holds an item, the items of a holder, and the position of an item. -/
@[ext] structure Holdings (ω τ : Type*) where
  holder : τ → Option ω
  items : ω → List τ
  index : τ → ℕ

namespace Holdings

variable {ω τ : Type*}

/-- The three maps agree; an item nobody holds has position zero. -/
structure WF (h : Holdings ω τ) : Prop where
  mem_items : ∀ t a, t ∈ h.items a ↔ h.holder t = some a
  nodup : ∀ a, (h.items a).Nodup
  getElem?_index : ∀ t a, h.holder t = some a → (h.items a)[h.index t]? = some t
  index_of_none : ∀ t, h.holder t = none → h.index t = 0

/-- Nobody holds anything. -/
def empty : Holdings ω τ := ⟨fun _ => none, fun _ => [], fun _ => 0⟩

theorem WF.empty : (empty : Holdings ω τ).WF where
  mem_items := by simp [Holdings.empty]
  nodup := by simp [Holdings.empty]
  getElem?_index := by simp [Holdings.empty]
  index_of_none := by simp [Holdings.empty]

section Wellformed

variable {h h' : Holdings ω τ} (wf : h.WF)
include wf

theorem WF.index_lt {t : τ} {a : ω} (ht : h.holder t = some a) : h.index t < (h.items a).length :=
  (List.getElem?_eq_some_iff.mp (wf.getElem?_index t a ht)).1

/-- An item stands at its position, and only there. -/
theorem WF.getElem?_iff (t : τ) (a : ω) (i : ℕ) :
    (h.items a)[i]? = some t ↔ h.holder t = some a ∧ h.index t = i := by
  constructor
  · intro hi
    have ht : h.holder t = some a := (wf.mem_items t a).mp (List.mem_of_getElem? hi)
    refine ⟨ht, ?_⟩
    exact (List.getElem?_inj (wf.index_lt ht) (wf.nodup a)).mp
      ((wf.getElem?_index t a ht).trans hi.symm)
  · rintro ⟨ht, rfl⟩
    exact wf.getElem?_index t a ht

/-- So a search finds it there. -/
theorem WF.idxOf_eq [DecidableEq τ] {t : τ} {a : ω} (ht : h.holder t = some a) :
    (h.items a).idxOf t = h.index t := by
  have hfound : (h.items a)[(h.items a).idxOf t]? = some t :=
    List.getElem?_idxOf ((wf.mem_items t a).mpr ht)
  exact ((wf.getElem?_iff t a _).mp hfound).2.symm

/-- The list of a holder with at least one item has a last entry, which it holds. -/
theorem WF.exists_getLast? {t : τ} {a : ω} (ht : h.holder t = some a) :
    ∃ x, (h.items a).getLast? = some x ∧ h.holder x = some a := by
  cases hx : (h.items a).getLast? with
  | none =>
    have hmem := (wf.mem_items t a).mpr ht
    rw [List.getLast?_eq_none_iff] at hx
    rw [hx] at hmem
    cases hmem
  | some x => exact ⟨x, rfl, (wf.mem_items x a).mp (List.mem_of_getLast? hx)⟩

/-- **The lists determine everything.** -/
theorem WF.ext (wf' : h'.WF) (hitems : h.items = h'.items) : h = h' := by
  have hholder : h.holder = h'.holder := by
    funext t
    apply Option.ext
    intro a
    rw [← wf.mem_items, hitems, wf'.mem_items]
  refine Holdings.ext hholder hitems (funext fun t => ?_)
  cases ht : h.holder t with
  | none => rw [wf.index_of_none t ht, wf'.index_of_none t (hholder ▸ ht)]
  | some a =>
    have hi := (wf.getElem?_iff t a (h.index t)).mpr ⟨ht, rfl⟩
    rw [hitems, wf'.getElem?_iff] at hi
    exact hi.2.symm

/-- Where an item stands after another one was taken from the same list: the
last one at the position of the one taken, the others where they were. -/
theorem WF.getElem?_swapRemove [DecidableEq τ] {t u x : τ} {a : ω} (ht : h.holder t = some a)
    (hx : (h.items a).getLast? = some x) (hu : h.holder u = some a) (hut : u ≠ t) :
    ((h.items a).swapRemove (h.index t))[if u = x then h.index t else h.index u]? = some u := by
  have hlast := hx
  rw [List.getLast?_eq_getElem?] at hlast
  have hxi := (wf.getElem?_iff x a _).mp hlast
  have hti := wf.index_lt ht
  have hui := wf.index_lt hu
  have hne : h.index u ≠ h.index t := by
    intro heq
    have h1 := wf.getElem?_index u a hu
    rw [heq, wf.getElem?_index t a ht] at h1
    exact hut (Option.some.inj h1).symm
  rw [List.getElem?_swapRemove]
  by_cases hux : u = x
  · subst hux
    rw [if_pos rfl, if_pos (by omega), if_pos rfl]
    exact hlast
  · have hlt : h.index u ≠ (h.items a).length - 1 := by
      intro heq
      rw [← heq, wf.getElem?_index u a hu] at hlast
      exact hux (Option.some.inj hlast)
    rw [if_neg hux, if_pos (by omega), if_neg hne]
    exact wf.getElem?_index u a hu

end Wellformed

/-! ### Counting -/

section Count

variable [Fintype τ]

/-- The items somebody holds. -/
def held (h : Holdings ω τ) : Finset τ := Finset.univ.filter fun t => (h.holder t).isSome

@[simp] theorem mem_held {h : Holdings ω τ} {t : τ} : t ∈ h.held ↔ (h.holder t).isSome := by
  simp [held]

/-- The lengths of the lists add up to the number of items held. -/
theorem WF.sum_length [Fintype ω] [DecidableEq τ] {h : Holdings ω τ} (wf : h.WF) :
    ∑ a, (h.items a).length = h.held.card := by
  have hheld : h.held = Finset.univ.biUnion fun a => (h.items a).toFinset := by
    ext t
    simp [wf.mem_items, Option.isSome_iff_exists]
  rw [hheld, Finset.card_biUnion]
  · exact Finset.sum_congr rfl fun a _ => (List.toFinset_card_of_nodup (wf.nodup a)).symm
  · intro a _ b _ hab
    rw [Function.onFun, Finset.disjoint_left]
    intro t ha hb
    rw [List.mem_toFinset, wf.mem_items] at ha hb
    exact hab (Option.some.inj (ha.symm.trans hb))

theorem WF.length_le [Fintype ω] [DecidableEq τ] {h : Holdings ω τ} (wf : h.WF) (a : ω) :
    (h.items a).length ≤ h.held.card := by
  rw [← wf.sum_length]
  exact Finset.single_le_sum (f := fun a => (h.items a).length) (fun _ _ => Nat.zero_le _)
    (Finset.mem_univ a)

end Count

/-! ### Giving and taking -/

section Moves

variable [DecidableEq ω] [DecidableEq τ]

/-- `t` is given to `a`, at the end of its list. -/
def attach (h : Holdings ω τ) (t : τ) (a : ω) : Holdings ω τ where
  holder := Function.update h.holder t (some a)
  items := Function.update h.items a (h.items a ++ [t])
  index := Function.update h.index t (h.items a).length

@[simp] theorem holder_attach (h : Holdings ω τ) (t : τ) (a : ω) :
    (h.attach t a).holder = Function.update h.holder t (some a) := rfl

@[simp] theorem items_attach (h : Holdings ω τ) (t : τ) (a : ω) :
    (h.attach t a).items = Function.update h.items a (h.items a ++ [t]) := rfl

@[simp] theorem index_attach (h : Holdings ω τ) (t : τ) (a : ω) :
    (h.attach t a).index = Function.update h.index t (h.items a).length := rfl

/-- `t` is taken from its holder; the last item of the list takes its position. -/
def detach (h : Holdings ω τ) (t : τ) : Holdings ω τ :=
  match h.holder t with
  | none => h
  | some a =>
      match (h.items a).getLast? with
      | none => h
      | some x =>
          { holder := Function.update h.holder t none
            items := Function.update h.items a ((h.items a).swapRemove (h.index t))
            index := Function.update (Function.update h.index x (h.index t)) t 0 }

theorem detach_of_getLast? {h : Holdings ω τ} {t x : τ} {a : ω} (ht : h.holder t = some a)
    (hx : (h.items a).getLast? = some x) :
    h.detach t =
      { holder := Function.update h.holder t none
        items := Function.update h.items a ((h.items a).swapRemove (h.index t))
        index := Function.update (Function.update h.index x (h.index t)) t 0 } := by
  rw [detach, ht]
  simp only [hx]

variable {h : Holdings ω τ}

theorem WF.attach (wf : h.WF) {t : τ} (ht : h.holder t = none) (a : ω) : (h.attach t a).WF := by
  -- the item was in no list
  have hnot : ∀ b, t ∉ h.items b := fun b hb => by
    rw [wf.mem_items, ht] at hb
    cases hb
  refine ⟨fun u b => ?_, fun b => ?_, fun u b hu => ?_, fun u hu => ?_⟩
  · show u ∈ Function.update h.items a _ b ↔ Function.update h.holder t _ u = some b
    by_cases hut : u = t
    · subst hut
      by_cases hb : b = a
      · subst hb; simp
      · simp [hb, hnot b, Ne.symm hb]
    · by_cases hb : b = a
      · subst hb; simp [hut, wf.mem_items]
      · simp [hb, hut, wf.mem_items]
  · show (Function.update h.items a _ b).Nodup
    by_cases hb : b = a
    · subst hb
      rw [Function.update_self]
      exact (List.perm_append_singleton t (h.items b)).nodup_iff.mpr
        (List.nodup_cons.mpr ⟨hnot b, wf.nodup b⟩)
    · rw [Function.update_of_ne hb]
      exact wf.nodup b
  · show (Function.update h.items a _ b)[Function.update h.index t _ u]? = some u
    change Function.update h.holder t (some a) u = some b at hu
    by_cases hut : u = t
    · subst hut
      rw [Function.update_self, Option.some.injEq] at hu
      subst hu
      simp
    · rw [Function.update_of_ne hut] at hu
      rw [Function.update_of_ne hut]
      by_cases hb : b = a
      · subst hb
        rw [Function.update_self, List.getElem?_append_left (wf.index_lt hu)]
        exact wf.getElem?_index u b hu
      · rw [Function.update_of_ne hb]
        exact wf.getElem?_index u b hu
  · change Function.update h.holder t (some a) u = none at hu
    show Function.update h.index t _ u = 0
    by_cases hut : u = t
    · subst hut; simp at hu
    · rw [Function.update_of_ne hut] at hu ⊢
      exact wf.index_of_none u hu

theorem WF.detach (wf : h.WF) (t : τ) : (h.detach t).WF := by
  cases ht : h.holder t with
  | none => rw [Holdings.detach, ht]; exact wf
  | some a =>
    obtain ⟨x, hx, hxa⟩ := wf.exists_getLast? ht
    have hti := wf.getElem?_index t a ht
    rw [detach_of_getLast? ht hx]
    refine ⟨fun u b => ?_, fun b => ?_, fun u b hu => ?_, fun u hu => ?_⟩
    · by_cases hb : b = a
      · subst hb
        simp only [Function.update_self]
        rw [List.mem_swapRemove (wf.nodup b) hti, wf.mem_items]
        by_cases hut : u = t
        · subst hut; simp
        · simp [hut]
      · simp only [Function.update_of_ne hb]
        rw [wf.mem_items]
        by_cases hut : u = t
        · subst hut; simp [ht, Ne.symm hb]
        · simp [hut]
    · by_cases hb : b = a
      · subst hb
        simp only [Function.update_self]
        exact (wf.nodup b).swapRemove hti
      · simp only [Function.update_of_ne hb]
        exact wf.nodup b
    · by_cases hut : u = t
      · subst hut; simp at hu
      simp only [Function.update_of_ne hut] at hu ⊢
      by_cases hb : b = a
      · subst hb
        rw [Function.update_self, Function.update_apply h.index]
        exact wf.getElem?_swapRemove ht hx hu hut
      · -- another list: untouched, and the moved item is not in it
        have hux : u ≠ x := fun hux => hb (Option.some.inj (hu.symm.trans (hux ▸ hxa)))
        rw [Function.update_of_ne hux, Function.update_of_ne hb]
        exact wf.getElem?_index u b hu
    · by_cases hut : u = t
      · subst hut; simp
      simp only [Function.update_of_ne hut] at hu ⊢
      have hux : u ≠ x := fun hux => by rw [hux, hxa] at hu; cases hu
      rw [Function.update_of_ne hux]
      exact wf.index_of_none u hu

/-- **Taking back what was just given undoes it**, order and positions included. -/
theorem WF.detach_attach (wf : h.WF) {t : τ} (ht : h.holder t = none) (a : ω) :
    (h.attach t a).detach t = h := by
  have hholder : (h.attach t a).holder t = some a := by simp
  have hlast : ((h.attach t a).items a).getLast? = some t := by simp
  rw [detach_of_getLast? hholder hlast]
  have hidx := wf.index_of_none t ht
  apply Holdings.ext
  · simp [← ht]
  · simp
  · simp [← hidx]

/-- After an item was taken, nobody holds it. -/
theorem WF.holder_detach (wf : h.WF) (t : τ) : (h.detach t).holder t = none := by
  cases ht : h.holder t with
  | none => rw [Holdings.detach, ht]; exact ht
  | some a =>
    obtain ⟨x, hx, -⟩ := wf.exists_getLast? ht
    rw [detach_of_getLast? ht hx]
    simp

@[simp] theorem held_attach [Fintype τ] (h : Holdings ω τ) (t : τ) (a : ω) :
    (h.attach t a).held = insert t h.held := by
  ext u
  by_cases hut : u = t
  · subst hut; simp
  · simp [hut]

theorem WF.held_detach [Fintype τ] (wf : h.WF) (t : τ) : (h.detach t).held = h.held.erase t := by
  ext u
  rw [Finset.mem_erase, mem_held, mem_held]
  cases ht : h.holder t with
  | none =>
    rw [Holdings.detach, ht]
    by_cases hut : u = t
    · subst hut; simp [ht]
    · simp [hut]
  | some a =>
    obtain ⟨x, hx, -⟩ := wf.exists_getLast? ht
    rw [detach_of_getLast? ht hx]
    by_cases hut : u = t
    · subst hut; simp
    · simp [hut]

/-- Handing an item on at once is giving it to the last receiver. -/
theorem WF.attach_detach_attach (wf : h.WF) (t : τ) (a b : ω) :
    (((h.detach t).attach t a).detach t).attach t b = (h.detach t).attach t b := by
  rw [(wf.detach t).detach_attach (wf.holder_detach t)]

end Moves

end Holdings
end IntBlock
