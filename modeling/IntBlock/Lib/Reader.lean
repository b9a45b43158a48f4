import Mathlib

/-!
# Readers of a stream

A reader is called with the input that has arrived.  It uses it up and waits for more, or
it finds an item and leaves the rest, or it fails.  Everything here is over arbitrary
types of states, input, items and errors.

## Main definitions

* `Read` — what one call comes to.
* `Streaming read P` — in the states satisfying `P`, an item is decided by its own input:
  it is all one whether the input comes in one piece or in two.
* `Reads read s bs is r` — called again and again on `bs`, the reader finds the items `is`
  and ends in the state or the error `r`.
* `ReadsChunks` — the same for an input in pieces.

## Main results

* `Streaming.exists_reads`, `Reads.unique` — a reader ends, in one way.
* `Streaming.reads_append`, `Streaming.reads_append_error` — the items of an input that
  goes on.
* `Streaming.readsChunks_iff` — **the pieces do not matter.**
-/

namespace IntBlock
namespace Reader

variable {σ β ι ε : Type}

/-- What a call of a reader comes to. -/
inductive Read (σ β ι ε : Type)
  /-- The input is used up. -/
  | more (s : σ)
  /-- An item, with the state after it and the input that is left. -/
  | item (i : ι) (s : σ) (rest : List β)
  | fail (e : ε)

section Defs

variable (read : σ → List β → Read σ β ι ε)

/-- What a call comes to when its input goes on. -/
def feed : Read σ β ι ε → List β → Read σ β ι ε
  | .more s, bs => read s bs
  | .item i s rest, bs => .item i s (rest ++ bs)
  | .fail e, _ => .fail e

/-- In the states satisfying `P`, the reader uses up what it can, and it does not matter
where its input has been cut. -/
structure Streaming (P : σ → Prop) : Prop where
  nil : ∀ {s}, P s → read s [] = .more s
  append : ∀ {s}, P s → ∀ a b, read s (a ++ b) = feed read (read s a) b
  more : ∀ {s a s'}, P s → read s a = .more s' → P s'
  item : ∀ {s a i s' rest}, P s → read s a = .item i s' rest → P s' ∧ rest.length < a.length

/-- Called on an input until it is used up, the reader finds the items `is`. -/
inductive Reads : σ → List β → List ι → Except ε σ → Prop
  | more {s bs s'} : read s bs = .more s' → Reads s bs [] (.ok s')
  | fail {s bs e} : read s bs = .fail e → Reads s bs [] (.error e)
  | item {s bs i s' rest is r} : read s bs = .item i s' rest → Reads s' rest is r →
      Reads s bs (i :: is) r

/-- The same for pieces that arrive one after another. -/
inductive ReadsChunks : σ → List (List β) → List ι → Except ε σ → Prop
  | nil {s} : ReadsChunks s [] [] (.ok s)
  | cons {s a s' chunks is is' r} : Reads read s a is (.ok s') → ReadsChunks s' chunks is' r →
      ReadsChunks s (a :: chunks) (is ++ is') r
  | error {s a chunks is e} : Reads read s a is (.error e) → ReadsChunks s (a :: chunks) is (.error e)

end Defs

variable {read : σ → List β → Read σ β ι ε} {P : σ → Prop}

/-- A reader ends in one way. -/
theorem Reads.unique {s : σ} {bs : List β} {is is' : List ι} {r r' : Except ε σ}
    (h : Reads read s bs is r) (h' : Reads read s bs is' r') : is = is' ∧ r = r' := by
  induction h generalizing is' r' with
  | more hread =>
    cases h' with
    | more hread' =>
      cases hread.symm.trans hread'
      exact ⟨rfl, rfl⟩
    | fail hread' => cases hread.symm.trans hread'
    | item hread' _ => cases hread.symm.trans hread'
  | fail hread =>
    cases h' with
    | more hread' => cases hread.symm.trans hread'
    | fail hread' =>
      cases hread.symm.trans hread'
      exact ⟨rfl, rfl⟩
    | item hread' _ => cases hread.symm.trans hread'
  | item hread _ ih =>
    cases h' with
    | more hread' => cases hread.symm.trans hread'
    | fail hread' => cases hread.symm.trans hread'
    | item hread' hreads' =>
      cases hread.symm.trans hread'
      obtain ⟨rfl, rfl⟩ := ih hreads'
      exact ⟨rfl, rfl⟩

namespace Streaming

variable (h : Streaming read P)

include h

theorem reads_nil {s : σ} (hs : P s) : Reads read s [] [] (.ok s) := .more (h.nil hs)

/-- **A reader ends.** -/
theorem exists_reads {s : σ} (hs : P s) (bs : List β) : ∃ is r, Reads read s bs is r := by
  induction hn : bs.length using Nat.strong_induction_on generalizing s bs with
  | _ n ih =>
    cases hread : read s bs with
    | more s' => exact ⟨_, _, .more hread⟩
    | fail e => exact ⟨_, _, .fail hread⟩
    | item i s' rest =>
      obtain ⟨hs', hlt⟩ := h.item hs hread
      obtain ⟨is, r, hreads⟩ := ih rest.length (hn ▸ hlt) hs' rest rfl
      exact ⟨_, _, .item hread hreads⟩

theorem state_of_reads {s s' : σ} {bs : List β} {is : List ι} (hs : P s)
    (hreads : Reads read s bs is (.ok s')) : P s' := by
  generalize hr : (.ok s' : Except ε σ) = r at hreads
  induction hreads with
  | more hread =>
    obtain rfl := Except.ok.inj hr
    exact h.more hs hread
  | fail => cases hr
  | item hread _ ih => exact ih (h.item hs hread).1 hr

/-- The first call on an input that goes on behind what is used up. -/
theorem reads_of_more {s s' : σ} {a b : List β} {is : List ι} {r : Except ε σ} (hs : P s)
    (hread : read s a = .more s') (hreads : Reads read s' b is r) : Reads read s (a ++ b) is r := by
  have happend : read s (a ++ b) = read s' b := by rw [h.append hs, hread, feed]
  cases hreads with
  | more hb => exact .more (happend.trans hb)
  | fail hb => exact .fail (happend.trans hb)
  | item hb hrest => exact .item (happend.trans hb) hrest

/-- **An input that goes on**: first the items of the one, then those of the other. -/
theorem reads_append {s s' : σ} {a b : List β} {is is' : List ι} {r : Except ε σ} (hs : P s)
    (ha : Reads read s a is (.ok s')) (hb : Reads read s' b is' r) :
    Reads read s (a ++ b) (is ++ is') r := by
  generalize hr : (.ok s' : Except ε σ) = r' at ha
  induction ha with
  | more hread =>
    obtain rfl := Except.ok.inj hr
    exact h.reads_of_more hs hread hb
  | fail => cases hr
  | item hread _ ih =>
    refine .item ?_ (ih (h.item hs hread).1 hr)
    rw [h.append hs, hread, feed]

/-- **What comes behind an error is not read.** -/
theorem reads_append_error {s : σ} {a : List β} {is : List ι} {e : ε} (hs : P s)
    (ha : Reads read s a is (.error e)) (b : List β) :
    Reads read s (a ++ b) is (.error e) := by
  generalize hr : (.error e : Except ε σ) = r' at ha
  induction ha with
  | more => cases hr
  | fail hread =>
    obtain rfl := Except.error.inj hr
    refine .fail ?_
    rw [h.append hs, hread, feed]
  | item hread _ ih =>
    refine .item ?_ (ih (h.item hs hread).1 hr)
    rw [h.append hs, hread, feed]

/-- **The pieces do not matter**: the items are those of the whole. -/
theorem readsChunks_iff {s : σ} (hs : P s) {chunks : List (List β)} {is : List ι}
    {r : Except ε σ} : ReadsChunks read s chunks is r ↔ Reads read s chunks.flatten is r := by
  constructor
  · intro hchunks
    induction hchunks with
    | nil => exact h.reads_nil hs
    | cons ha _ ih => exact h.reads_append hs ha (ih (h.state_of_reads hs ha))
    | error ha => exact h.reads_append_error hs ha _
  · intro hreads
    -- what the pieces come to, and the whole comes to the same
    have hchunks : ∀ (chunks : List (List β)) (s : σ), P s →
        ∃ is r, ReadsChunks read s chunks is r ∧ Reads read s chunks.flatten is r := by
      intro chunks
      induction chunks with
      | nil => exact fun s hs => ⟨_, _, .nil, h.reads_nil hs⟩
      | cons a chunks ih =>
        intro s hs
        obtain ⟨is, r, ha⟩ := h.exists_reads hs a
        cases r with
        | error e => exact ⟨_, _, .error ha, h.reads_append_error hs ha _⟩
        | ok s' =>
          obtain ⟨is', r', hrest, hflat⟩ := ih s' (h.state_of_reads hs ha)
          exact ⟨_, _, .cons ha hrest, h.reads_append hs ha hflat⟩
    obtain ⟨is', r', hchunks', hflat⟩ := hchunks chunks s hs
    obtain ⟨rfl, rfl⟩ := hreads.unique hflat
    exact hchunks'

end Streaming

end Reader
end IntBlock
