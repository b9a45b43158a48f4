import IntBlock.JsonText.Escaping
import IntBlock.JsonText.Integers

/-!
# The text of a value

The text `serializer::dump` writes, as a function of the value: without its buffers,
and with the blanks of each line in full.  The serializer writes this text or throws
what a string of the value makes it throw; it stays inside its indentation string for
steps of up to 1024 blanks.

## Main definitions

* `layout` — the text.
* `Ready` — the buffers are as long as they have to be.

## Main results

* `serialize_result` — **the serializer writes the text, or throws for a string.**
* `dump_cases` — so does `dump`, for an indentation of up to 1024.
* `layout_eq_dump` — the compact text is the one of `Json.dump`.
* `printable_layout` — it has no control characters.
-/

namespace IntBlock

open Cpp

namespace Json

/-- A value is made of values. -/
@[elab_as_elim]
theorem induction {motive : Json → Prop} (null : motive .null)
    (boolean : ∀ b, motive (.boolean b)) (integer : ∀ n, motive (.integer n))
    (unsigned : ∀ n, motive (.unsigned n)) (float : ∀ text, motive (.float text))
    (string : ∀ s, motive (.string s))
    (array : ∀ elements, (∀ v ∈ elements, motive v) → motive (.array elements))
    (object : ∀ members, (∀ m ∈ members, motive m.2) → motive (.object members)) (v : Json) :
    motive v :=
  Json.rec (motive_1 := motive) (motive_2 := fun elements => ∀ v ∈ elements, motive v)
    (motive_3 := fun members => ∀ m ∈ members, motive m.2) (motive_4 := fun m => motive m.2)
    null boolean integer unsigned float string array object nofun
    (fun _ _ hv hvs => List.forall_mem_cons.mpr ⟨hv, hvs⟩) nofun
    (fun _ _ hm hms => List.forall_mem_cons.mpr ⟨hm, hms⟩) (fun _ _ hv => hv) v

mutual

/-- The strings of a value, keys included. -/
def strings : Json → List Str
  | string s => [s]
  | array elements => elementStrings elements
  | object members => memberStrings members
  | _ => []

def elementStrings : List Json → List Str
  | [] => []
  | v :: vs => strings v ++ elementStrings vs

def memberStrings : List (Str × Json) → List Str
  | [] => []
  | (key, v) :: ms => key :: strings v ++ memberStrings ms

end

theorem mem_elementStrings {s : Str} {vs : List Json} :
    s ∈ elementStrings vs ↔ ∃ v ∈ vs, s ∈ v.strings := by
  induction vs with
  | nil => simp [elementStrings]
  | cons v vs ih => simp [elementStrings, ih]

theorem mem_memberStrings {s : Str} {ms : List (Str × Json)} :
    s ∈ memberStrings ms ↔ ∃ m ∈ ms, s = m.1 ∨ s ∈ m.2.strings := by
  induction ms with
  | nil => simp [memberStrings]
  | cons m ms ih =>
    obtain ⟨key, v⟩ := m
    simp [memberStrings, ih, or_assoc]

mutual

/-- The texts of the floating point numbers in a value. -/
def floats : Json → List Str
  | float text => [text]
  | array elements => elementFloats elements
  | object members => memberFloats members
  | _ => []

def elementFloats : List Json → List Str
  | [] => []
  | v :: vs => floats v ++ elementFloats vs

def memberFloats : List (Str × Json) → List Str
  | [] => []
  | (_, v) :: ms => floats v ++ memberFloats ms

end

theorem mem_elementFloats {text : Str} {vs : List Json} :
    text ∈ elementFloats vs ↔ ∃ v ∈ vs, text ∈ v.floats := by
  induction vs with
  | nil => simp [elementFloats]
  | cons v vs ih => simp [elementFloats, ih]

theorem mem_memberFloats {text : Str} {ms : List (Str × Json)} :
    text ∈ memberFloats ms ↔ ∃ m ∈ ms, text ∈ m.2.floats := by
  induction ms with
  | nil => simp [memberFloats]
  | cons m ms ih =>
    obtain ⟨key, v⟩ := m
    simp [memberFloats, ih]

end Json

namespace JsonText

/-! ### The text -/

/-- The text of a string, where `dump_escaped` does not throw. -/
def rawOf (f : Format) (s : Str) : Str := ((dumpEscaped f s).toOption).getD []

/-- The blanks at the beginning of a line: those beyond the first 512 are spaces. -/
def indentation (f : Format) (n : ℕ) : Str :=
  (List.replicate 512 f.indentChar ++ List.replicate (n - 512) ' ').take n

mutual

/-- The text of a value. -/
def layout (f : Format) (indent : ℕ) : Json → Str
  | .object [] => ['\x7b', '\x7d']
  | .object (m :: members) =>
      if f.prettyPrint then
        ['\x7b', '\n'] ++ layoutMembers f (newIndent f indent) (m :: members) ++ ['\n'] ++
          indentation f indent ++ ['\x7d']
      else ['\x7b'] ++ layoutMembers f indent (m :: members) ++ ['\x7d']
  | .array [] => ['[', ']']
  | .array (v :: elements) =>
      if f.prettyPrint then
        ['[', '\n'] ++ layoutElements f (newIndent f indent) (v :: elements) ++ ['\n'] ++
          indentation f indent ++ [']']
      else ['['] ++ layoutElements f indent (v :: elements) ++ [']']
  | .string s => ['"'] ++ rawOf f s ++ ['"']
  | .boolean b => if b then "true".toList else "false".toList
  | .integer n => decimal n.toInt
  | .unsigned n => decimal n.toNat
  | .float text => text
  | .null => "null".toList

def layoutElements (f : Format) (indent : ℕ) : List Json → Str
  | [] => []
  | v :: elements =>
      (if f.prettyPrint then indentation f indent else []) ++ layout f indent v ++
        (if elements.isEmpty then []
          else (if f.prettyPrint then [',', '\n'] else [',']) ++ layoutElements f indent elements)

def layoutMembers (f : Format) (indent : ℕ) : List (Str × Json) → Str
  | [] => []
  | (key, v) :: members =>
      (if f.prettyPrint then indentation f indent else []) ++ ['"'] ++ rawOf f key ++
        (if f.prettyPrint then ['"', ':', ' '] else ['"', ':']) ++ layout f indent v ++
        (if members.isEmpty then []
          else (if f.prettyPrint then [',', '\n'] else [',']) ++ layoutMembers f indent members)

end

/-! ### The buffers -/

/-- The buffers of the serializer: the one for numbers has its size, and the indentation
string begins with 512 of the character asked for. -/
structure Buffers (f : Format) (o : Serializer) : Prop where
  numberBuffer : o.numberBuffer.length = numberBufferSize
  indentString : ∃ k, o.indentString = List.replicate 512 f.indentChar ++ List.replicate k ' '

/-- The indentation string reaches to the indentation, and one step farther when it has
been doubled. -/
structure Ready (f : Format) (indent : ℕ) (o : Serializer) : Prop extends Buffers f o where
  indent_le : indent ≤ o.indentString.length
  step_le : indent = 0 ∨ f.indentStep ≤ o.indentString.length

/-- `text` has been written. -/
structure Wrote (f : Format) (o : Serializer) (text : Str) (o' : Serializer) : Prop
    extends Buffers f o' where
  out : o'.out = o.out ++ text
  grown : o.indentString.length ≤ o'.indentString.length

section Buffers

variable {f : Format} {indent : ℕ} {o o' o'' : Serializer} {text text' : Str}

theorem Ready.wrote (h : Ready f indent o) (h' : Wrote f o text o') : Ready f indent o' where
  toBuffers := h'.toBuffers
  indent_le := h.indent_le.trans h'.grown
  step_le := h.step_le.imp_right fun hle => hle.trans h'.grown

theorem Wrote.trans (h : Wrote f o text o') (h' : Wrote f o' text' o'') :
    Wrote f o (text ++ text') o'' where
  toBuffers := h'.toBuffers
  out := by rw [h'.out, h.out, List.append_assoc]
  grown := h.grown.trans h'.grown

theorem Buffers.write (h : Buffers f o) (text : Str) : Wrote f o text (o.write text) where
  toBuffers := ⟨h.numberBuffer, h.indentString⟩
  out := rfl
  grown := le_refl _

theorem Wrote.write (h : Wrote f o text o') (text' : Str) :
    Wrote f o (text ++ text') (o'.write text') := h.trans (h.toBuffers.write text')

/-- The blanks in the indentation string are those of the line. -/
theorem Ready.writeIndent (h : Ready f indent o) :
    ∃ o', o.writeIndent indent = .ok o' ∧ Wrote f o (indentation f indent) o' := by
  refine ⟨_, if_pos (Nat.le_succ_of_le h.indent_le), ?_⟩
  obtain ⟨k, hk⟩ := h.indentString
  have htake : (o.indentString ++ ['\x00']).take indent = indentation f indent := by
    have hle := h.indent_le
    rw [List.take_append_of_le_length hle]
    rw [hk, List.length_append, List.length_replicate, List.length_replicate] at hle
    rw [hk, indentation, List.take_append, List.take_append, List.take_replicate,
      List.take_replicate, List.take_replicate, List.length_replicate, Nat.min_self,
      Nat.min_eq_left (by omega : indent - 512 ≤ k)]
  rw [htake]
  exact h.toBuffers.write _

theorem Ready.growIndent (h : Ready f indent o) (hstep : f.indentStep ≤ 1024) :
    Ready f (newIndent f indent) (o.growIndent (newIndent f indent)) ∧
      Wrote f o [] (o.growIndent (newIndent f indent)) := by
  obtain ⟨k, hk⟩ := h.indentString
  -- the first step is reached by doubling these, and doubling adds no less later on
  have hlong : 512 ≤ o.indentString.length := by
    rw [hk, List.length_append, List.length_replicate]
    omega
  have hle := h.indent_le
  have hnew : newIndent f indent ≤ indent + f.indentStep := Nat.mod_le _ _
  have hzero := h.step_le
  unfold Serializer.growIndent
  split_ifs with hgrow
  · have hbuffers : Buffers f { o with
        indentString := o.indentString ++ List.replicate o.indentString.length ' ' } :=
      ⟨h.numberBuffer, k + o.indentString.length, by
        dsimp only
        rw [List.replicate_add, ← List.append_assoc, ← hk]⟩
    have hlength : (o.indentString ++ List.replicate o.indentString.length ' ').length =
        o.indentString.length + o.indentString.length := by
      rw [List.length_append, List.length_replicate]
    constructor
    · refine ⟨hbuffers, ?_, ?_⟩
      · dsimp only
        omega
      · dsimp only
        omega
    · refine ⟨hbuffers, (List.append_nil _).symm, ?_⟩
      dsimp only
      omega
  · constructor
    · refine ⟨h.toBuffers, by omega, ?_⟩
      -- the first step, or a later one, for which the string is long enough already
      rcases hzero with hzero | hzero
      · unfold newIndent at hgrow ⊢
        rw [hzero, Nat.zero_add, Nat.mod_eq_of_lt (by omega)] at hgrow
        exact Or.inr (by omega)
      · exact Or.inr hzero
    · exact ⟨h.toBuffers, (List.append_nil _).symm, le_refl _⟩

end Buffers

/-! ### The serializer -/

/-- The serializer has written the text, or thrown what a string made it throw. -/
def Result (f : Format) (o : Serializer) (text : Str) (strings : List Str)
    (result : Exec Serializer) : Prop :=
  (∃ o', result = .ok o' ∧ Wrote f o text o' ∧
    ∀ s ∈ strings, dumpEscaped f s = .ok (rawOf f s)) ∨
  ∃ s ∈ strings, ∃ e, dumpEscaped f s = .error e ∧ result = .error e

section Result

variable {f : Format} {indent : ℕ} {o : Serializer} {text : Str} {strings : List Str}
  {result : Exec Serializer}

theorem rawOf_of_ok {s raw : Str} (h : dumpEscaped f s = .ok raw) : rawOf f s = raw := by
  rw [rawOf, h]
  rfl

theorem Result.ok {o' : Serializer} (h : Wrote f o text o') : Result f o text [] (.ok o') :=
  Or.inl ⟨o', rfl, h, nofun⟩

/-- One part after another. -/
theorem Result.bind {text' : Str} {strings' : List Str} {g : Serializer → Exec Serializer}
    (h : Result f o text strings result)
    (h' : ∀ o', Wrote f o text o' → Result f o' text' strings' (g o')) :
    Result f o (text ++ text') (strings ++ strings') (result >>= g) := by
  rcases h with ⟨o', rfl, hwrote, hstrings⟩ | ⟨s, hs, e, he, rfl⟩
  · rcases h' o' hwrote with ⟨o'', hok, hwrote', hstrings'⟩ | ⟨s, hs, e, he, herr⟩
    · exact Or.inl ⟨o'', hok, hwrote.trans hwrote', List.forall_mem_append.mpr ⟨hstrings, hstrings'⟩⟩
    · exact Or.inr ⟨s, List.mem_append_right _ hs, e, he, herr⟩
  · exact Or.inr ⟨s, List.mem_append_left _ hs, e, he, rfl⟩

theorem Buffers.writeEscaped (h : Buffers f o) (s : Str) :
    Result f o (rawOf f s) [s] (o.writeEscaped f s) := by
  unfold Serializer.writeEscaped
  cases hs : dumpEscaped f s with
  | error e => exact Or.inr ⟨s, List.mem_singleton_self s, e, hs, rfl⟩
  | ok raw =>
    refine Or.inl ⟨_, rfl, ?_, List.forall_mem_singleton.mpr ?_⟩
    · rw [rawOf_of_ok hs]
      exact h.write raw
    · rw [rawOf_of_ok hs, hs]

theorem Buffers.writeInteger (h : Buffers f o) (signed : Bool) (x : BitVec 64) :
    Result f o (decimal (integerValue signed x)) [] (o.writeInteger signed x) := by
  obtain ⟨buffer, hlength, hdump⟩ := dumpInteger_eq signed x h.numberBuffer
  unfold Serializer.writeInteger
  rw [hdump]
  exact Result.ok ⟨⟨hlength, h.indentString⟩, rfl, le_refl _⟩

/-- The blanks of a line, which there are in the pretty text only. -/
theorem Ready.line (h : Ready f indent o) {g : Serializer → Exec Serializer}
    (hg : ∀ o', Ready f indent o' → Result f o' text strings (g o')) :
    Result f o ((if f.prettyPrint then indentation f indent else []) ++ text) strings
      (do let o ← if f.prettyPrint then o.writeIndent indent else .ok o
          g o) := by
  by_cases hpretty : f.prettyPrint = true
  · obtain ⟨o', hok, hwrote⟩ := h.writeIndent
    simp only [hpretty, if_true]
    rw [hok]
    rcases hg o' (h.wrote hwrote) with ⟨o'', hok', hwrote', hstrings⟩ | herr
    · exact Or.inl ⟨o'', hok', hwrote.trans hwrote', hstrings⟩
    · exact Or.inr herr
  · simp only [hpretty]
    exact hg o h

theorem Result.after {o' : Serializer} {text' : Str} (h : Wrote f o text o')
    (h' : Result f o' text' strings result) : Result f o (text ++ text') strings result := by
  rcases h' with ⟨o'', hok, hwrote, hstrings⟩ | herr
  · exact Or.inl ⟨o'', hok, h.trans hwrote, hstrings⟩
  · exact Or.inr herr

/-- The brackets and quotes at the end. -/
theorem Result.close (h : Result f o text strings result) (text' : Str) :
    Result f o (text ++ text') strings (result >>= fun o => pure (o.write text')) := by
  have hbind := h.bind fun o' hwrote => Result.ok (hwrote.toBuffers.write text')
  rwa [List.append_nil] at hbind

theorem Buffers.nothing (h : Buffers f o) : Wrote f o [] o where
  toBuffers := h
  out := (List.append_nil _).symm
  grown := le_refl _

theorem serializeElements_result {vs : List Json}
    (ih : ∀ v ∈ vs, ∀ indent o, Ready f indent o →
      Result f o (layout f indent v) v.strings (serialize f indent v o))
    (h : Ready f indent o) :
    Result f o (layoutElements f indent vs) (Json.elementStrings vs)
      (serializeElements f indent vs o) := by
  induction vs generalizing o with
  | nil => exact Result.ok h.toBuffers.nothing
  | cons v vs ih' =>
    obtain ⟨hv, hvs⟩ := List.forall_mem_cons.mp ih
    rw [serializeElements, layoutElements, Json.elementStrings, List.append_assoc]
    refine h.line fun o₁ ho₁ => (hv indent o₁ ho₁).bind fun o₂ hvalue => ?_
    have ho₂ := ho₁.wrote hvalue
    cases vs with
    | nil => exact Result.ok ho₂.toBuffers.nothing
    | cons w ws =>
      have hseparator := ho₂.toBuffers.write (if f.prettyPrint then [',', '\n'] else [','])
      exact Result.after hseparator (ih' hvs (ho₂.wrote hseparator))

theorem serializeMembers_result {ms : List (Str × Json)}
    (ih : ∀ m ∈ ms, ∀ indent o, Ready f indent o →
      Result f o (layout f indent m.2) m.2.strings (serialize f indent m.2 o))
    (h : Ready f indent o) :
    Result f o (layoutMembers f indent ms) (Json.memberStrings ms)
      (serializeMembers f indent ms o) := by
  induction ms generalizing o with
  | nil => exact Result.ok h.toBuffers.nothing
  | cons m ms ih' =>
    obtain ⟨key, v⟩ := m
    obtain ⟨hv, hvs⟩ := List.forall_mem_cons.mp ih
    have hstrings : Json.memberStrings ((key, v) :: ms) =
        [key] ++ (v.strings ++ Json.memberStrings ms) := rfl
    rw [serializeMembers, layoutMembers, hstrings]
    simp only [List.append_assoc]
    refine h.line fun o₁ ho₁ => ?_
    have hquote := ho₁.toBuffers.write ['"']
    refine Result.after hquote ((hquote.toBuffers.writeEscaped key).bind fun o₂ hkey => ?_)
    have hcolon := hkey.toBuffers.write (if f.prettyPrint then ['"', ':', ' '] else ['"', ':'])
    have ho₂ := ((ho₁.wrote hquote).wrote hkey).wrote hcolon
    refine Result.after hcolon ((hv indent _ ho₂).bind fun o₃ hvalue => ?_)
    have ho₃ := ho₂.wrote hvalue
    cases ms with
    | nil => exact Result.ok ho₃.toBuffers.nothing
    | cons w ws =>
      have hseparator := ho₃.toBuffers.write (if f.prettyPrint then [',', '\n'] else [','])
      exact Result.after hseparator (ih' hvs (ho₃.wrote hseparator))

/-- The brackets around what is in the lines between them. -/
theorem Ready.bracket (h : Ready f indent o) (hstep : f.indentStep ≤ 1024) (opening closing : Str)
    {body : Serializer → Exec Serializer}
    (hbody : ∀ o', Ready f (newIndent f indent) o' → Result f o' text strings (body o')) :
    Result f o (opening ++ text ++ ['\n'] ++ indentation f indent ++ closing) strings
      (do let o' ← body ((o.write opening).growIndent (newIndent f indent))
          let o'' ← (o'.write ['\n']).writeIndent indent
          pure (o''.write closing)) := by
  have hopening := h.toBuffers.write opening
  obtain ⟨hready, hgrow⟩ := (h.wrote hopening).growIndent hstep
  have hwrote := hopening.trans hgrow
  rw [List.append_nil] at hwrote
  rcases Result.after hwrote (hbody _ hready) with
    ⟨o', hok, hwrote', hstrings⟩ | ⟨s, hs, e, he, herr⟩
  · have hnewline := hwrote'.write ['\n']
    obtain ⟨o'', hok', hwrote''⟩ := (h.wrote hnewline).writeIndent
    refine Or.inl ⟨o''.write closing, ?_, (hnewline.trans hwrote'').write closing, hstrings⟩
    rw [hok, bind_ok, hok']
    rfl
  · refine Or.inr ⟨s, hs, e, he, ?_⟩
    rw [herr]
    rfl

end Result

/-- A value with something to indent. -/
def hasLines : Json → Bool
  | .array elements => !elements.isEmpty
  | .object members => !members.isEmpty
  | _ => false

/-- A value with nothing to indent is written in each of the formats. -/
theorem serialize_of_not_hasLines {f : Format} {v : Json} (hv : hasLines v = false) (indent : ℕ)
    {o : Serializer} (h : Buffers f o) :
    Result f o (layout f indent v) v.strings (serialize f indent v o) := by
  cases v with
  | null => exact Result.ok (h.write _)
  | boolean b => exact Result.ok (h.write _)
  | integer n => exact h.writeInteger true n
  | unsigned n => exact h.writeInteger false n
  | float text => exact Result.ok (h.write _)
  | string s =>
    have hquote := h.write ['"']
    exact (Result.after hquote (hquote.toBuffers.writeEscaped s)).close ['"']
  | array elements =>
    cases elements with
    | nil => exact Result.ok (h.write _)
    | cons v vs => cases hv
  | object members =>
    cases members with
    | nil => exact Result.ok (h.write _)
    | cons m ms => cases hv

/-- **The serializer writes the text**, or throws what a string makes it throw. -/
theorem serialize_result {f : Format} (hstep : f.indentStep ≤ 1024) (v : Json) :
    ∀ indent o, Ready f indent o →
      Result f o (layout f indent v) v.strings (serialize f indent v o) := by
  induction v using Json.induction with
  | null | boolean b | integer n | unsigned n | float text | string s =>
    exact fun indent o h => serialize_of_not_hasLines rfl indent h.toBuffers
  | array elements ih =>
    intro indent o h
    cases elements with
    | nil => exact Result.ok (h.toBuffers.write _)
    | cons v vs =>
      rw [serialize, layout]
      split_ifs
      · exact h.bracket hstep ['[', '\n'] [']'] fun o' ho' => serializeElements_result ih ho'
      · have hopening := h.toBuffers.write ['[']
        exact (Result.after hopening
          (serializeElements_result ih (h.wrote hopening))).close [']']
  | object members ih =>
    intro indent o h
    cases members with
    | nil => exact Result.ok (h.toBuffers.write _)
    | cons m ms =>
      rw [serialize, layout]
      split_ifs
      · exact h.bracket hstep ['\x7b', '\n'] ['\x7d'] fun o' ho' => serializeMembers_result ih ho'
      · have hopening := h.toBuffers.write ['\x7b']
        exact (Result.after hopening
          (serializeMembers_result ih (h.wrote hopening))).close ['\x7d']

theorem ready_newSerializer (f : Format) : Ready f 0 (newSerializer f.indentChar) where
  numberBuffer := List.length_replicate
  indentString := ⟨0, (List.append_nil _).symm⟩
  indent_le := Nat.zero_le _
  step_le := Or.inl rfl

/-- **What `dump` does** for an indentation of up to 1024, or nothing to indent: it returns
the text, or throws what a string makes it throw. -/
theorem dump_cases {v : Json} {indent : ℤ} (h : indent ≤ 1024 ∨ hasLines v = false)
    (indentChar : Char) (ensureAscii : Bool) (errorHandler : ErrorHandler) :
    (dump v indent indentChar ensureAscii errorHandler =
        .ok (layout (dumpFormat indent indentChar ensureAscii errorHandler) 0 v) ∧
      ∀ s ∈ v.strings, dumpEscaped (dumpFormat indent indentChar ensureAscii errorHandler) s =
        .ok (rawOf (dumpFormat indent indentChar ensureAscii errorHandler) s)) ∨
    ∃ s ∈ v.strings, ∃ e,
      dumpEscaped (dumpFormat indent indentChar ensureAscii errorHandler) s = .error e ∧
      dump v indent indentChar ensureAscii errorHandler = .error e := by
  have hready := ready_newSerializer (dumpFormat indent indentChar ensureAscii errorHandler)
  have hresult : Result (dumpFormat indent indentChar ensureAscii errorHandler)
      (newSerializer indentChar)
      (layout (dumpFormat indent indentChar ensureAscii errorHandler) 0 v) v.strings
      (serialize (dumpFormat indent indentChar ensureAscii errorHandler) 0 v
        (newSerializer indentChar)) := by
    rcases h with hindent | hv
    · refine serialize_result ?_ v 0 _ hready
      unfold dumpFormat
      dsimp only
      omega
    · exact serialize_of_not_hasLines hv 0 hready.toBuffers
  unfold dump
  rcases hresult with ⟨o, hok, hwrote, hstrings⟩ | ⟨s, hs, e, he, herr⟩
  · left
    refine ⟨?_, hstrings⟩
    rw [hok]
    exact congrArg Except.ok hwrote.out
  · right
    refine ⟨s, hs, e, he, ?_⟩
    rw [herr]
    rfl

/-! ### The compact text -/

theorem rawOf_eq_flatMap {f : Format} (hf : f.ensureAscii = false) {s : Str} (hs : IsUtf8 s) :
    rawOf f s = s.flatMap Json.escape := by
  obtain ⟨raw, hok, hesc⟩ := dumpEscaped_of_isUtf8 f hs
  rw [rawOf_of_ok hok, hesc.eq_flatMap hf]

/-- **The compact text is the one of `Json.dump`.** -/
theorem layout_eq_dump {f : Format} (hpretty : f.prettyPrint = false)
    (hascii : f.ensureAscii = false) (indent : ℕ) {v : Json} (hv : ∀ s ∈ v.strings, IsUtf8 s) :
    layout f indent v = v.dump := by
  induction v using Json.induction with
  | null => rfl
  | boolean b => rfl
  | integer n => rfl
  | unsigned n => rfl
  | float text => rfl
  | string s =>
    rw [layout, rawOf_eq_flatMap hascii (hv s (List.mem_singleton_self s))]
    rfl
  | array elements ih =>
    have hstrings : ∀ v ∈ elements, ∀ s ∈ v.strings, IsUtf8 s := fun v hmem s hs =>
      hv s (Json.mem_elementStrings.mpr ⟨v, hmem, hs⟩)
    have helements : layoutElements f indent elements = Json.dumpElements elements := by
      clear hv
      induction elements with
      | nil => rfl
      | cons v vs ih' =>
        obtain ⟨hv, hvs⟩ := List.forall_mem_cons.mp ih
        obtain ⟨hsv, hsvs⟩ := List.forall_mem_cons.mp hstrings
        rw [layoutElements, hv hsv, ih' hvs hsvs, hpretty]
        cases vs with
        | nil => exact List.append_nil _
        | cons w ws => rfl
    cases elements with
    | nil => rfl
    | cons v vs =>
      rw [layout, hpretty, helements]
      rfl
  | object members ih =>
    have hkeys : ∀ m ∈ members, IsUtf8 m.1 := fun m hmem =>
      hv m.1 (Json.mem_memberStrings.mpr ⟨m, hmem, Or.inl rfl⟩)
    have hstrings : ∀ m ∈ members, ∀ s ∈ m.2.strings, IsUtf8 s := fun m hmem s hs =>
      hv s (Json.mem_memberStrings.mpr ⟨m, hmem, Or.inr hs⟩)
    have hmembers : layoutMembers f indent members = Json.dumpMembers members := by
      clear hv
      induction members with
      | nil => rfl
      | cons m ms ih' =>
        obtain ⟨key, v⟩ := m
        obtain ⟨hv, hvs⟩ := List.forall_mem_cons.mp ih
        obtain ⟨hkey, hkeys⟩ := List.forall_mem_cons.mp hkeys
        obtain ⟨hsv, hsvs⟩ := List.forall_mem_cons.mp hstrings
        rw [layoutMembers, hv hsv, ih' hvs hkeys hsvs, hpretty, rawOf_eq_flatMap hascii hkey]
        cases ms with
        | nil => simp [Json.dumpMembers, Json.quoted]
        | cons w ws => simp [Json.dumpMembers, Json.quoted]
    cases members with
    | nil => rfl
    | cons m ms =>
      rw [layout, hpretty, hmembers]
      rfl

/-! ### The bytes of the compact text -/

/-- A byte that is no control character, and in ASCII where that is asked for. -/
def Printable (f : Format) (c : Char) : Prop :=
  0x20 ≤ c.toNat ∧ (f.ensureAscii = true → c.toNat < 0x7F)

theorem printable_of_bounds {f : Format} {c : Char} (h : 0x20 ≤ c.toNat ∧ c.toNat < 0x7F) :
    Printable f c := ⟨h.1, fun _ => h.2⟩

/-- The lower case letters of the three names. -/
theorem isLower_bounds {c : Char} (h : c.isLower = true) : 0x20 ≤ c.toNat ∧ c.toNat < 0x7F := by
  simp only [Char.isLower, Bool.and_eq_true, decide_eq_true_eq, ge_iff_le] at h
  have ha : 97 ≤ c.toNat := h.1
  have hz : c.toNat ≤ 122 := h.2
  omega

theorem isDigit_bounds {c : Char} (h : c.isDigit = true) : 0x20 ≤ c.toNat ∧ c.toNat < 0x7F := by
  simp only [Char.isDigit, Bool.and_eq_true, decide_eq_true_eq, ge_iff_le] at h
  have h0 : 48 ≤ c.toNat := h.1
  have h9 : c.toNat ≤ 57 := h.2
  omega

theorem printable_decimal (f : Format) (n : ℤ) : ∀ c ∈ decimal n, Printable f c := by
  intro c hc
  unfold decimal at hc
  rcases List.mem_append.mp hc with hc | hc
  · split_ifs at hc
    · rw [List.mem_singleton.mp hc]
      exact printable_of_bounds (by decide)
    · cases hc
  · exact printable_of_bounds
      (isDigit_bounds (Nat.isDigit_of_mem_toDigits (by decide) (by decide) hc))

/-- The text between two printable brackets. -/
theorem printable_between {f : Format} {first last : Char} {text : Str} (hfirst : Printable f first)
    (htext : ∀ c ∈ text, Printable f c) (hlast : Printable f last) :
    ∀ c ∈ [first] ++ text ++ [last], Printable f c :=
  List.forall_mem_append.mpr ⟨List.forall_mem_append.mpr
    ⟨List.forall_mem_singleton.mpr hfirst, htext⟩, List.forall_mem_singleton.mpr hlast⟩

section Printable

variable {f : Format} (hpretty : f.prettyPrint = false) {indent : ℕ}

include hpretty

theorem printable_layoutElements {vs : List Json}
    (ih : ∀ v ∈ vs, ∀ c ∈ layout f indent v, Printable f c) :
    ∀ c ∈ layoutElements f indent vs, Printable f c := by
  induction vs with
  | nil => exact List.forall_mem_nil _
  | cons v vs ih' =>
    obtain ⟨hv, hvs⟩ := List.forall_mem_cons.mp ih
    rw [layoutElements, hpretty]
    simp only [Bool.false_eq_true, if_false, List.nil_append]
    refine List.forall_mem_append.mpr ⟨hv, ?_⟩
    cases vs with
    | nil => exact List.forall_mem_nil _
    | cons w ws => exact List.forall_mem_cons.mpr ⟨printable_of_bounds (by decide), ih' hvs⟩

theorem printable_layoutMembers {ms : List (Str × Json)}
    (ih : ∀ m ∈ ms, ∀ c ∈ layout f indent m.2, Printable f c)
    (hkeys : ∀ m ∈ ms, ∀ c ∈ rawOf f m.1, Printable f c) :
    ∀ c ∈ layoutMembers f indent ms, Printable f c := by
  induction ms with
  | nil => exact List.forall_mem_nil _
  | cons m ms ih' =>
    obtain ⟨key, v⟩ := m
    obtain ⟨hv, hvs⟩ := List.forall_mem_cons.mp ih
    obtain ⟨hkey, hkeys⟩ := List.forall_mem_cons.mp hkeys
    have hquote : Printable f '"' := printable_of_bounds (by decide)
    have hcolon : Printable f ':' := printable_of_bounds (by decide)
    rw [layoutMembers, hpretty]
    simp only [Bool.false_eq_true, if_false, List.nil_append]
    refine List.forall_mem_append.mpr ⟨List.forall_mem_append.mpr
      ⟨List.forall_mem_append.mpr ⟨?_, ?_⟩, hv⟩, ?_⟩
    · exact List.forall_mem_append.mpr ⟨List.forall_mem_singleton.mpr hquote, hkey⟩
    · exact List.forall_mem_cons.mpr ⟨hquote, List.forall_mem_singleton.mpr hcolon⟩
    · cases ms with
      | nil => exact List.forall_mem_nil _
      | cons m ms => exact List.forall_mem_cons.mpr ⟨printable_of_bounds (by decide), ih' hvs hkeys⟩

/-- **The compact text has no control characters.** -/
theorem printable_layout {v : Json} (hstrings : ∀ s ∈ v.strings, IsUtf8 s)
    (hfloats : ∀ text ∈ v.floats, ∀ c ∈ text, 0x20 ≤ c.toNat ∧ c.toNat < 0x7F) :
    ∀ c ∈ layout f indent v, Printable f c := by
  have hraw : ∀ s, IsUtf8 s → ∀ c ∈ rawOf f s, Printable f c := by
    intro s hs
    obtain ⟨raw, hok, hesc⟩ := dumpEscaped_of_isUtf8 f hs
    rw [rawOf_of_ok hok]
    exact hesc.bounds
  -- the literals are made of small letters
  have hletters : ∀ text : Str, text.all Char.isLower = true → ∀ c ∈ text, Printable f c :=
    fun text htext c hc => printable_of_bounds (isLower_bounds (List.all_eq_true.mp htext c hc))
  have hleft : Printable f '[' := printable_of_bounds (by decide)
  have hright : Printable f ']' := printable_of_bounds (by decide)
  have hopen : Printable f '\x7b' := printable_of_bounds (by decide)
  have hclose : Printable f '\x7d' := printable_of_bounds (by decide)
  induction v using Json.induction with
  | null => exact hletters "null".toList (by decide)
  | boolean b =>
    cases b with
    | true => exact hletters "true".toList (by decide)
    | false => exact hletters "false".toList (by decide)
  | integer n => exact printable_decimal f n.toInt
  | unsigned n => exact printable_decimal f n.toNat
  | float text =>
    exact fun c hc => printable_of_bounds (hfloats text (List.mem_singleton_self text) c hc)
  | string s =>
    have hquote : Printable f '"' := printable_of_bounds (by decide)
    exact printable_between hquote (hraw s (hstrings s (List.mem_singleton_self s))) hquote
  | array elements ih =>
    have helements := printable_layoutElements hpretty fun v hv => ih v hv
      (fun s hs => hstrings s (Json.mem_elementStrings.mpr ⟨v, hv, hs⟩))
      (fun text htext => hfloats text (Json.mem_elementFloats.mpr ⟨v, hv, htext⟩))
    cases elements with
    | nil => exact printable_between hleft (List.forall_mem_nil _) hright
    | cons v vs =>
      rw [layout, hpretty]
      exact printable_between hleft helements hright
  | object members ih =>
    have hmembers := printable_layoutMembers hpretty (fun m hm => ih m hm
      (fun s hs => hstrings s (Json.mem_memberStrings.mpr ⟨m, hm, Or.inr hs⟩))
      (fun text htext => hfloats text (Json.mem_memberFloats.mpr ⟨m, hm, htext⟩)))
      (fun m hm => hraw m.1 (hstrings m.1 (Json.mem_memberStrings.mpr ⟨m, hm, Or.inl rfl⟩)))
    cases members with
    | nil => exact printable_between hopen (List.forall_mem_nil _) hclose
    | cons m ms =>
      rw [layout, hpretty]
      exact printable_between hopen hmembers hclose

end Printable

end JsonText
end IntBlock
