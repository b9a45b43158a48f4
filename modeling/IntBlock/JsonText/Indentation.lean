import IntBlock.JsonText.Layout

/-!
# Wide indentations

The serializer doubles its indentation string where a line needs more blanks, but only
once, so a step of more than 512 beyond what there is finds it too short.  The null byte
behind the string may be read, one blank beyond it may not.

## Main definitions

* `parts` — the elements or members of a value.
* `ReachesLines` — one with lines of its own is reached.
* `Full` — the indentation string and its null byte are just enough for a line.

## Main results

* `serialize_of_short` — a value with lines is undefined where the string is too short.
* `dump_of_wide`, `dump_of_full` — `dump` beyond 1025, and at 1025.
* `dump_undefined_iff` — **when `dump` is undefined.**
-/

namespace IntBlock
namespace JsonText

open Cpp

/-- The elements of an array, or the members of an object with their keys. -/
def parts : Json → List (List Str × Json)
  | .array elements => elements.map fun v => ([], v)
  | .object members => members.map fun m => ([m.1], m.2)
  | _ => []

/-- A part with something to indent is reached: no string before it is thrown for. -/
def ReachesLines (f : Format) : List (List Str × Json) → Prop
  | [] => False
  | (keys, v) :: ps =>
      (∀ s ∈ keys, dumpEscaped f s = .ok (rawOf f s)) ∧
        (hasLines v = true ∨
          (∀ s ∈ v.strings, dumpEscaped f s = .ok (rawOf f s)) ∧ ReachesLines f ps)

theorem ok_ne_undefined {α : Type} (a : α) : (.ok a : Exec α) ≠ .error .undefined := by
  intro h
  cases h

section Lines

variable {f : Format} {indent : ℕ} {o o' : Serializer} {v : Json} {text : Str}

/-! ### Too short -/

/-- Twice the indentation string and the null byte are not enough for the first line. -/
theorem serialize_of_short (hpretty : f.prettyPrint = true)
    (hshort : 2 * o.indentString.length + 1 < newIndent f indent) (hv : hasLines v = true) :
    serialize f indent v o = .error .undefined := by
  have hline : ∀ opening, ((o.write opening).growIndent (newIndent f indent)).writeIndent
      (newIndent f indent) = .error .undefined := by
    intro opening
    have hlength : (o.write opening).indentString.length = o.indentString.length := rfl
    -- the string is doubled once, and is still too short
    unfold Serializer.growIndent
    rw [if_pos (by omega)]
    refine if_neg ?_
    dsimp only
    rw [List.length_append, List.length_replicate]
    omega
  cases v with
  | array elements =>
    cases elements with
    | nil => cases hv
    | cons v vs =>
      rw [serialize, if_pos hpretty]
      dsimp only
      rw [serializeElements, if_pos hpretty, hline]
      rfl
  | object members =>
    cases members with
    | nil => cases hv
    | cons m ms =>
      rw [serialize, if_pos hpretty]
      dsimp only
      rw [serializeMembers, if_pos hpretty, hline]
      rfl
  | null | boolean b | integer n | unsigned n | float text | string s => cases hv

/-! ### What leaves the indentation string alone -/

theorem indentString_of_writeEscaped {s : Str} (h : o.writeEscaped f s = .ok o') :
    o'.indentString = o.indentString := by
  unfold Serializer.writeEscaped at h
  cases hs : dumpEscaped f s with
  | error e =>
    rw [hs] at h
    cases h
  | ok raw =>
    rw [hs] at h
    cases h
    rfl

theorem indentString_of_writeInteger {signed : Bool} {x : BitVec 64}
    (h : o.writeInteger signed x = .ok o') : o'.indentString = o.indentString := by
  unfold Serializer.writeInteger at h
  cases hx : dumpInteger signed x o.numberBuffer with
  | error e =>
    rw [hx] at h
    cases h
  | ok written =>
    rw [hx] at h
    cases h
    rfl

/-- A value with nothing to indent does not touch it. -/
theorem indentString_of_serialize (hv : hasLines v = false)
    (h : serialize f indent v o = .ok o') : o'.indentString = o.indentString := by
  cases v with
  | null | boolean b | float text =>
    cases h
    rfl
  | integer n => exact indentString_of_writeInteger h
  | unsigned n => exact indentString_of_writeInteger h
  | string s =>
    rw [serialize] at h
    cases hs : (o.write ['"']).writeEscaped f s with
    | error e =>
      rw [hs] at h
      cases h
    | ok o₁ =>
      rw [hs] at h
      cases h
      have hkept := indentString_of_writeEscaped hs
      exact hkept
  | array elements =>
    cases elements with
    | nil =>
      cases h
      rfl
    | cons v vs => cases hv
  | object members =>
    cases members with
    | nil =>
      cases h
      rfl
    | cons m ms => cases hv

/-! ### Just enough for one line -/

/-- A line takes the whole indentation string and its null byte, and a further step more
than twice as much. -/
structure Full (f : Format) (indent : ℕ) (o : Serializer) : Prop extends Buffers f o where
  indent_eq : indent = o.indentString.length + 1
  short : 2 * o.indentString.length + 1 < newIndent f indent

theorem Full.wrote (h : Full f indent o) (h' : Buffers f o')
    (hkept : o'.indentString = o.indentString) : Full f indent o' where
  toBuffers := h'
  indent_eq := by rw [hkept, h.indent_eq]
  short := by
    rw [hkept]
    exact h.short

theorem Full.write (h : Full f indent o) (text : Str) : Full f indent (o.write text) :=
  h.wrote (h.toBuffers.write text).toBuffers rfl

theorem Full.writeIndent (h : Full f indent o) :
    ∃ o', o.writeIndent indent = .ok o' ∧ Full f indent o' :=
  ⟨_, if_pos h.indent_eq.le, h.write _⟩

/-- A string is written and the rest follows, or it is thrown for. -/
theorem Full.writeEscaped_bind_iff (h : Full f indent o) {s : Str} (hs : Bytes s)
    {g : Serializer → Exec Serializer} {P : Prop}
    (hg : ∀ o', Full f indent o' → (g o' = .error .undefined ↔ P)) :
    (o.writeEscaped f s >>= g) = .error .undefined ↔ dumpEscaped f s = .ok (rawOf f s) ∧ P := by
  rcases h.toBuffers.writeEscaped s with ⟨o', hok, hwrote, hdumped⟩ | ⟨s', hs', e, he, herr⟩
  · have hfull := h.wrote hwrote.toBuffers (indentString_of_writeEscaped hok)
    rw [hok, bind_ok, hg o' hfull]
    exact (and_iff_right (hdumped s (List.mem_singleton_self s))).symm
  · rw [List.mem_singleton.mp hs'] at he
    rw [herr, bind_error, he]
    constructor
    · intro hundef
      cases hundef
      exact absurd he (dumpEscaped_ne_undefined f hs)
    · rintro ⟨hok, -⟩
      cases hok

/-- A value with lines is undefined; one without is written or thrown for. -/
theorem Full.serialize_bind_iff (h : Full f indent o) (hpretty : f.prettyPrint = true)
    (hbytes : ∀ s ∈ v.strings, Bytes s) {g : Serializer → Exec Serializer} {P : Prop}
    (hg : ∀ o', Full f indent o' → (g o' = .error .undefined ↔ P)) :
    (serialize f indent v o >>= g) = .error .undefined ↔
      hasLines v = true ∨ (∀ s ∈ v.strings, dumpEscaped f s = .ok (rawOf f s)) ∧ P := by
  by_cases hv : hasLines v = true
  · -- its first line is one step further in
    rw [serialize_of_short hpretty h.short hv]
    exact iff_of_true rfl (Or.inl hv)
  · -- the indentation string is left as it is, for what follows
    rw [or_iff_right hv]
    have hnone : hasLines v = false := Bool.eq_false_iff.mpr hv
    rcases serialize_of_not_hasLines hnone indent h.toBuffers with
      ⟨o', hok, hwrote, hdumped⟩ | ⟨s, hs, e, he, herr⟩
    · have hfull := h.wrote hwrote.toBuffers (indentString_of_serialize hnone hok)
      rw [hok, bind_ok, hg o' hfull]
      exact (and_iff_right hdumped).symm
    · rw [herr, bind_error]
      constructor
      · intro hundef
        cases hundef
        exact absurd he (dumpEscaped_ne_undefined f (hbytes s hs))
      · rintro ⟨hdumped, -⟩
        rw [hdumped s hs] at he
        cases he

theorem Full.serializeElements_iff (hpretty : f.prettyPrint = true) {vs : List Json}
    (hbytes : ∀ s ∈ Json.elementStrings vs, Bytes s) (h : Full f indent o) :
    serializeElements f indent vs o = .error .undefined ↔
      ReachesLines f (vs.map fun v => ([], v)) := by
  induction vs generalizing o with
  | nil => exact iff_of_false (ok_ne_undefined o) id
  | cons v vs ih =>
    obtain ⟨hv, hvs⟩ := List.forall_mem_append.mp hbytes
    obtain ⟨o₁, hok, h₁⟩ := h.writeIndent
    rw [serializeElements, if_pos hpretty, hok, bind_ok, List.map_cons, ReachesLines,
      and_iff_right (List.forall_mem_nil _)]
    refine h₁.serialize_bind_iff hpretty hv fun o₂ h₂ => ?_
    cases vs with
    | nil => exact iff_of_false (ok_ne_undefined o₂) id
    | cons w ws => exact ih hvs (h₂.write _)

theorem Full.serializeMembers_iff (hpretty : f.prettyPrint = true) {ms : List (Str × Json)}
    (hbytes : ∀ s ∈ Json.memberStrings ms, Bytes s) (h : Full f indent o) :
    serializeMembers f indent ms o = .error .undefined ↔
      ReachesLines f (ms.map fun m => ([m.1], m.2)) := by
  induction ms generalizing o with
  | nil => exact iff_of_false (ok_ne_undefined o) id
  | cons m ms ih =>
    obtain ⟨key, v⟩ := m
    obtain ⟨hkey, hrest⟩ := List.forall_mem_cons.mp hbytes
    obtain ⟨hv, hms⟩ := List.forall_mem_append.mp hrest
    obtain ⟨o₁, hok, h₁⟩ := h.writeIndent
    rw [serializeMembers, if_pos hpretty, hok, bind_ok, List.map_cons, ReachesLines,
      List.forall_mem_singleton]
    refine (h₁.write ['"']).writeEscaped_bind_iff hkey fun o₂ h₂ => ?_
    refine (h₂.write _).serialize_bind_iff hpretty hv fun o₃ h₃ => ?_
    cases ms with
    | nil => exact iff_of_false (ok_ne_undefined o₃) id
    | cons w ws => exact ih hms (h₃.write _)

end Lines

/-! ### `dump` -/

section Dump

variable {v : Json} {indent : ℤ} (indentChar : Char) (ensureAscii : Bool)
  (errorHandler : ErrorHandler)

theorem newIndent_zero (hint : indent < 2 ^ 31) :
    newIndent (dumpFormat indent indentChar ensureAscii errorHandler) 0 = indent.toNat := by
  unfold newIndent dumpFormat
  dsimp only
  rw [Nat.zero_add, Nat.mod_eq_of_lt (by omega)]

/-- Up to 1024, and without lines, the buffers are long enough. -/
theorem dump_ne_undefined (hbytes : ∀ s ∈ v.strings, Bytes s)
    (h : indent ≤ 1024 ∨ hasLines v = false) :
    dump v indent indentChar ensureAscii errorHandler ≠ .error .undefined := by
  intro hundef
  rcases dump_cases h indentChar ensureAscii errorHandler with ⟨hok, -⟩ | ⟨s, hs, e, he, herr⟩
  · rw [hok] at hundef
    cases hundef
  · rw [herr] at hundef
    cases hundef
    exact dumpEscaped_ne_undefined _ (hbytes s hs) he

/-- Beyond 1025, nothing with lines can be written. -/
theorem dump_of_wide (hv : hasLines v = true) (hindent : 1025 < indent)
    (hint : indent < 2 ^ 31) :
    dump v indent indentChar ensureAscii errorHandler = .error .undefined := by
  have hpretty : (dumpFormat indent indentChar ensureAscii errorHandler).prettyPrint = true :=
    decide_eq_true (by omega)
  have hlength : (newSerializer indentChar).indentString.length = 512 := List.length_replicate
  unfold dump
  rw [serialize_of_short hpretty ?_ hv]
  · rfl
  · rw [newIndent_zero indentChar ensureAscii errorHandler hint, hlength]
    omega

/-- The doubled indentation string at 1025. -/
theorem full_newSerializer (opening : Str) :
    Full (dumpFormat 1025 indentChar ensureAscii errorHandler) 1025
      (((newSerializer indentChar).write opening).growIndent 1025) := by
  have hlength : ((newSerializer indentChar).write opening).indentString.length = 512 :=
    List.length_replicate
  have hnew : newIndent (dumpFormat 1025 indentChar ensureAscii errorHandler) 1025 = 2050 := rfl
  unfold Serializer.growIndent
  rw [if_pos (by omega), hlength]
  refine ⟨⟨List.length_replicate, 512, rfl⟩, ?_, ?_⟩
  · dsimp only
    rw [List.length_append, List.length_replicate, hlength]
  · dsimp only
    rw [List.length_append, List.length_replicate, hlength, hnew]
    decide

/-- What follows the lines is defined. -/
theorem close_undefined_iff (r : Exec Serializer) (closing : Str) :
    (do let o ← (do let o ← r
                    let o' ← (o.write ['\n']).writeIndent 0
                    pure (o'.write closing))
        pure o.out : Exec Str) = .error .undefined ↔ r = .error .undefined := by
  cases r with
  | error e =>
    constructor
    · intro h
      cases h
      rfl
    · intro h
      cases h
      rfl
  | ok o => exact iff_of_false (ok_ne_undefined _) (ok_ne_undefined o)

/-- At 1025 the lines of the value itself can be written, and none within them. -/
theorem dump_of_full (hbytes : ∀ s ∈ v.strings, Bytes s) :
    dump v 1025 indentChar ensureAscii errorHandler = .error .undefined ↔
      ReachesLines (dumpFormat 1025 indentChar ensureAscii errorHandler) (parts v) := by
  have hpretty : (dumpFormat 1025 indentChar ensureAscii errorHandler).prettyPrint = true := rfl
  have hnew : newIndent (dumpFormat 1025 indentChar ensureAscii errorHandler) 0 = 1025 := rfl
  -- without lines of its own there is nothing to indent
  have hdefined : hasLines v = false →
      dump v 1025 indentChar ensureAscii errorHandler ≠ .error .undefined :=
    fun hv => dump_ne_undefined indentChar ensureAscii errorHandler hbytes (Or.inr hv)
  cases v with
  | array elements =>
    cases elements with
    | nil => exact iff_of_false (hdefined rfl) id
    | cons v vs =>
      unfold dump
      rw [serialize, if_pos hpretty, hnew]
      dsimp only
      rw [close_undefined_iff]
      exact Full.serializeElements_iff hpretty hbytes
        (full_newSerializer indentChar ensureAscii errorHandler ['[', '\n'])
  | object members =>
    cases members with
    | nil => exact iff_of_false (hdefined rfl) id
    | cons m ms =>
      unfold dump
      rw [serialize, if_pos hpretty, hnew]
      dsimp only
      rw [close_undefined_iff]
      exact Full.serializeMembers_iff hpretty hbytes
        (full_newSerializer indentChar ensureAscii errorHandler ['\x7b', '\n'])
  | null | boolean b | integer n | unsigned n | float text | string s =>
    exact iff_of_false (hdefined rfl) id

/-- **`dump` is undefined for indentations beyond 1025 of a value with lines, and at 1025
where a value with lines is reached within it, and nowhere else**: it reads past the null
byte of a string it has doubled once. -/
theorem dump_undefined_iff (hbytes : ∀ s ∈ v.strings, Bytes s) (hint : indent < 2 ^ 31) :
    dump v indent indentChar ensureAscii errorHandler = .error .undefined ↔
      (1025 < indent ∧ hasLines v = true) ∨
      (indent = 1025 ∧
        ReachesLines (dumpFormat indent indentChar ensureAscii errorHandler) (parts v)) := by
  by_cases hfull : indent = 1025
  · subst hfull
    rw [dump_of_full indentChar ensureAscii errorHandler hbytes, and_iff_right rfl]
    exact (or_iff_right fun h => absurd h.1 (lt_irrefl _)).symm
  · rw [or_iff_left fun h => hfull h.1]
    constructor
    · intro hdump
      by_contra hnarrow
      have h : indent ≤ 1024 ∨ hasLines v = false := by
        rcases Classical.not_and_iff_not_or_not.mp hnarrow with h | h
        · exact Or.inl (by omega)
        · exact Or.inr (Bool.eq_false_iff.mpr h)
      exact dump_ne_undefined indentChar ensureAscii errorHandler hbytes h hdump
    · rintro ⟨hindent, hv⟩
      exact dump_of_wide indentChar ensureAscii errorHandler hv hindent hint

theorem dump_undefined_iff_one :
    dump (.array [.null]) 1026 ' ' false .strict = .error .undefined ∧
    dump (.array [.null]) 1025 ' ' false .strict ≠ .error .undefined ∧
    dump (.array [.array [.null]]) 1025 ' ' false .strict = .error .undefined := by
  have hone := @dump_undefined_iff (.array [.null]) 1026 ' ' false .strict
    (List.forall_mem_nil _) (by decide)
  have hnull := @dump_undefined_iff (.array [.null]) 1025 ' ' false .strict
    (List.forall_mem_nil _) (by decide)
  have hnested := @dump_undefined_iff (.array [.array [.null]]) 1025 ' ' false .strict
    (List.forall_mem_nil _) (by decide)
  refine ⟨hone.mpr (Or.inl ⟨by decide, rfl⟩), fun h => ?_,
    hnested.mpr (Or.inr ⟨rfl, List.forall_mem_nil _, Or.inl rfl⟩)⟩
  rcases hnull.mp h with ⟨hlt, -⟩ | ⟨-, -, hlines | ⟨-, hrest⟩⟩
  · exact absurd hlt (lt_irrefl _)
  · cases hlines
  · exact hrest

end Dump

end JsonText
end IntBlock
