import Mathlib

/-!
# Removing an entry of a list by overwriting it with the last one

The removal that keeps an array dense in constant time: the last entry is
written over the one to be removed, and the last slot is dropped.

## Main definitions

* `List.swapRemove l i` — `l` with its entry at `i` overwritten by the last one
  and the last slot dropped.

## Main results

* `List.cons_swapRemove_perm` — the entries left are the others, each as often.
* `List.getElem?_swapRemove` — where each of them stands.
* `List.swapRemove_append_singleton` — removing what was just appended undoes it.
-/

namespace List

variable {α : Type*}

/-- `l` with its entry at `i` overwritten by the last one and the last slot
dropped. -/
def swapRemove (l : List α) (i : ℕ) : List α :=
  match l.getLast? with
  | some x => (l.set i x).dropLast
  | none => []

theorem swapRemove_of_getLast? {l : List α} {x : α} (h : l.getLast? = some x) (i : ℕ) :
    l.swapRemove i = (l.set i x).dropLast := by
  rw [swapRemove, h]

@[simp] theorem length_swapRemove (l : List α) (i : ℕ) :
    (l.swapRemove i).length = l.length - 1 := by
  unfold swapRemove
  cases h : l.getLast? with
  | none => rw [getLast?_eq_none_iff] at h; simp [h]
  | some x => simp

/-- The entry in front of the last one that was removed, at its new place. -/
theorem getElem?_swapRemove (l : List α) (i j : ℕ) :
    (l.swapRemove i)[j]? =
      if j < l.length - 1 then if j = i then l[l.length - 1]? else l[j]? else none := by
  unfold swapRemove
  cases h : l.getLast? with
  | none => rw [getLast?_eq_none_iff] at h; simp [h]
  | some x =>
    rw [getLast?_eq_getElem?] at h
    rw [getElem?_dropLast, length_set, getElem?_set, h]
    split
    · next hj =>
      by_cases hi : i = j
      · subst hi
        rw [if_pos rfl, if_pos (by omega), if_pos rfl]
      · rw [if_neg hi, if_neg (Ne.symm hi)]
    · rfl

/-- Appending an entry and removing it again gives the list back. -/
@[simp] theorem swapRemove_append_singleton (l : List α) (x : α) :
    (l ++ [x]).swapRemove l.length = l := by
  rw [swapRemove_of_getLast? getLast?_concat]
  simp

/-- The removed entry and the entries left are the entries there were. -/
theorem cons_swapRemove_perm {l : List α} {i : ℕ} {x : α} (h : l[i]? = some x) :
    (x :: l.swapRemove i).Perm l := by
  obtain ⟨hi, rfl⟩ := getElem?_eq_some_iff.mp h
  rcases eq_nil_or_concat l with rfl | ⟨l, y, rfl⟩
  · simp at hi
  · simp only [concat_eq_append] at hi ⊢
    rw [swapRemove_of_getLast? getLast?_concat]
    rcases Nat.lt_or_ge i l.length with hlt | hge
    · -- a hole inside: `y` moves into it
      have hset : ((l ++ [y]).set i y).dropLast = l.set i y := by
        rw [set_append_left _ _ hlt, dropLast_concat]
      rw [hset, getElem_append_left hlt]
      calc l[i] :: l.set i y
          _ ~ l[i] :: y :: l.eraseIdx i := (set_perm_cons_eraseIdx hlt y).cons _
          _ ~ y :: l[i] :: l.eraseIdx i := Perm.swap _ _ _
          _ ~ y :: l := (getElem_cons_eraseIdx_perm hlt).cons _
          _ ~ l ++ [y] := (perm_append_singleton y l).symm
    · -- the last entry itself goes
      obtain rfl : i = l.length := by simp at hi; omega
      simpa using (perm_append_singleton y l).symm

theorem mem_swapRemove {l : List α} (hl : l.Nodup) {i : ℕ} {x : α} (h : l[i]? = some x) (y : α) :
    y ∈ l.swapRemove i ↔ y ∈ l ∧ y ≠ x := by
  have hp := cons_swapRemove_perm h
  have hnd := (hp.nodup_iff.mpr hl)
  rw [nodup_cons] at hnd
  rw [← hp.mem_iff, mem_cons]
  constructor
  · intro hy
    exact ⟨Or.inr hy, fun hyx => hnd.1 (hyx ▸ hy)⟩
  · rintro ⟨rfl | hy, hne⟩
    · exact absurd rfl hne
    · exact hy

theorem Nodup.swapRemove {l : List α} (hl : l.Nodup) {i : ℕ} {x : α} (h : l[i]? = some x) :
    (l.swapRemove i).Nodup :=
  ((cons_swapRemove_perm h).nodup_iff.mpr hl).of_cons

end List
