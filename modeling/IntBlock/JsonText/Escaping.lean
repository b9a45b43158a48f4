import IntBlock.JsonText.Strings
import IntBlock.JsonText.Serializer

/-!
# Strings in the output

What `dump_escaped` writes for a string: each character as it is or as an escape, and
what is not UTF-8 refused, dropped or replaced, as the error handler says.  Its buffer
of 512 bytes never runs over, and what it writes is read back as the string.

## Main definitions

* `Escapes f s raw` — the characters of `s` written one after another.
* `Repairs r s s'` — `s'` is `s` with `r` for each longest piece that is not UTF-8.
* `Reading` — the invariant of the loop.

## Main results

* `dumpBytes_cases` — the loop goes through, or is stopped at the first byte no valid
  string goes on with.
* `dumpEscaped_of_isUtf8` — **a valid string is written, whatever the handler.**
* `dumpEscaped_repairs` — **another one is repaired**, where the handler is not strict.
* `Escapes.body` — **what is written is read as the string.**
-/

namespace IntBlock
namespace JsonText

open Cpp

/-! ### The text of a string -/

/-- The text of a character. -/
def escaped (f : Format) (cp : ℕ) : Str :=
  match shortEscapes.lookup cp with
  | some letter => ['\\', letter]
  | none =>
      if cp ≤ 0x1F ∨ (f.ensureAscii = true ∧ 0x7F ≤ cp) then
        if cp ≤ 0xFFFF then unicodeEscape cp
        else
          unicodeEscape (0xD800 + (cp - 0x10000) / 1024) ++
            unicodeEscape (0xDC00 + (cp - 0x10000) % 1024)
      else utf8 cp

/-- The characters of a string, each with its text. -/
inductive Escapes (f : Format) : Str → Str → Prop
  | nil : Escapes f [] []
  | cons {cp : ℕ} {s raw : Str} (hcp : Utf8.IsScalar cp) (h : Escapes f s raw) :
      Escapes f (utf8 cp ++ s) (escaped f cp ++ raw)

theorem Escapes.concat {f : Format} {s raw : Str} (h : Escapes f s raw) {cp : ℕ}
    (hcp : Utf8.IsScalar cp) : Escapes f (s ++ utf8 cp) (raw ++ escaped f cp) := by
  induction h with
  | nil =>
    have hone := Escapes.cons hcp (@Escapes.nil f)
    rwa [List.append_nil, List.append_nil] at hone
  | cons hcp' _ ih =>
    rw [List.append_assoc, List.append_assoc]
    exact .cons hcp' ih

theorem Escapes.isUtf8 {f : Format} {s raw : Str} (h : Escapes f s raw) : IsUtf8 s := by
  induction h with
  | nil => exact isUtf8_nil
  | cons hcp _ ih => exact isUtf8_utf8_append hcp ih

/-! ### Its meaning -/

theorem hex4_digits (unit : ℕ) (h : unit < 0x10000) :
    Hex4 [Nat.digitChar (unit / 4096 % 16), Nat.digitChar (unit / 256 % 16),
      Nat.digitChar (unit / 16 % 16), Nat.digitChar (unit % 16)] unit := by
  have hdigit : ∀ n, isxdigit (Nat.digitChar (n % 16)) = true ∧
      xdigit? (Nat.digitChar (n % 16)) = some (n % 16) := by
    intro n
    exact isxdigit_digitChar (Nat.mod_lt _ (by decide))
  refine ⟨rfl, ?_, ?_⟩
  · intro d hd
    simp only [List.mem_cons, List.not_mem_nil, or_false] at hd
    rcases hd with rfl | rfl | rfl | rfl
    · exact (hdigit _).1
    · exact (hdigit _).1
    · exact (hdigit _).1
    · exact (hdigit _).1
  · simp only [hexValue, List.foldl_cons, List.foldl_nil, (hdigit _).2, Option.getD_some]
    omega

/-- The text of a character stands for it. -/
theorem Body.escaped (f : Format) {cp : ℕ} (hcp : Utf8.IsScalar cp) {raw s : Str}
    (h : Body raw s) : Body (escaped f cp ++ raw) (utf8 cp ++ s) := by
  unfold JsonText.escaped
  cases hshort : shortEscapes.lookup cp with
  | some letter =>
    have hall : ∀ p ∈ shortEscapes,
        escapes.lookup p.2 = some (Char.ofNat p.1) ∧ utf8 p.1 = [Char.ofNat p.1] := by decide
    obtain ⟨hescape, hutf8⟩ := hall _ (mem_of_lookup hshort)
    rw [hutf8]
    exact .escape hescape h
  | none =>
    have hquote : cp ≠ 0x22 := by
      rintro rfl
      cases hshort
    have hbackslash : cp ≠ 0x5C := by
      rintro rfl
      cases hshort
    dsimp only
    split_ifs with hescape hunit
    · exact .unicode (hex4_digits cp (by omega)) hcp h
    · unfold Utf8.IsScalar at hcp
      have hhigh := hex4_digits (0xD800 + (cp - 0x10000) / 1024) (by omega)
      have hlow := hex4_digits (0xDC00 + (cp - 0x10000) % 1024) (by omega)
      -- the two units are read as the code point
      have hpair : surrogates (0xD800 + (cp - 0x10000) / 1024) (0xDC00 + (cp - 0x10000) % 1024) =
          cp := by
        unfold surrogates
        omega
      have hbody := Body.pair hhigh hlow (by omega) (by omega) h
      rw [hpair] at hbody
      exact hbody
    · push Not at hescape
      exact .char hcp (by omega) hquote hbackslash h

/-- **What is written is read as the string.** -/
theorem Escapes.body {f : Format} {s raw : Str} (h : Escapes f s raw) : Body raw s := by
  induction h with
  | nil => exact .nil
  | cons hcp _ ih => exact Body.escaped f hcp ih

/-! ### Repairs -/

/-- The bytes of a character of which some are missing. -/
def Incomplete (t : Str) : Prop := ∃ bounds, bounds ≠ [] ∧ Utf8.Begins (codes t) bounds

/-- No valid string begins with these bytes. -/
def Refused (t : Str) : Prop := Utf8.run (some []) (codes t) = none

/-- `s'` is `s` with `r` in the place of each longest piece of it that begins a
character, or fails to, without being one. -/
inductive Repairs (r : Str) : Str → Str → Prop
  | nil : Repairs r [] []
  | char {cp : ℕ} {s s' : Str} (hcp : Utf8.IsScalar cp) (h : Repairs r s s') :
      Repairs r (utf8 cp ++ s) (utf8 cp ++ s')
  | byte {c : Char} {s s' : Str} (hc : Refused [c]) (h : Repairs r s s') :
      Repairs r (c :: s) (r ++ s')
  | broken {t s s' : Str} {c : Char} (ht : Incomplete t) (hc : Refused (t ++ [c]))
      (h : Repairs r (c :: s) s') : Repairs r (t ++ c :: s) (r ++ s')
  | incomplete {t : Str} (ht : Incomplete t) : Repairs r t r

theorem isUtf8_iff_run {s : Str} : IsUtf8 s ↔ Utf8.run (some []) (codes s) = some [] :=
  Utf8.wellFormed_iff

theorem refused_iff {t : Str} : Refused t ↔ ∀ bs, ¬ Utf8.WellFormed (codes t ++ bs) :=
  Utf8.run_eq_none_iff

theorem not_isUtf8_of_refused {t : Str} (h : Refused t) (s : Str) : ¬ IsUtf8 (t ++ s) := by
  rw [IsUtf8, codes_append]
  exact refused_iff.mp h (codes s)

theorem isUtf8_of_utf8_append {cp : ℕ} {s : Str} (hcp : Utf8.IsScalar cp)
    (h : IsUtf8 (utf8 cp ++ s)) : IsUtf8 s := by
  rw [isUtf8_iff_run, codes_append, codes_utf8 hcp, Utf8.run_append, Utf8.run_encode hcp] at h
  exact isUtf8_iff_run.mpr h

theorem Incomplete.not_isUtf8 {t : Str} (h : Incomplete t) : ¬ IsUtf8 t := by
  obtain ⟨bounds, hbounds, hbegins⟩ := h
  rw [isUtf8_iff_run, hbegins.run_eq]
  exact fun h => hbounds (Option.some.inj h)

/-- A valid string needs no repair. -/
theorem Repairs.eq_of_isUtf8 {r s s' : Str} (h : Repairs r s s') (hs : IsUtf8 s) : s' = s := by
  induction h with
  | nil => rfl
  | char hcp _ ih => rw [ih (isUtf8_of_utf8_append hcp hs)]
  | byte hc _ _ => exact absurd hs (not_isUtf8_of_refused hc _)
  | broken _ hc _ _ =>
    rw [← List.singleton_append, ← List.append_assoc] at hs
    exact absurd hs (not_isUtf8_of_refused hc _)
  | incomplete ht => exact absurd hs ht.not_isUtf8

theorem repairs_self (r : Str) {s : Str} (h : IsUtf8 s) : Repairs r s s := by
  induction h using IsUtf8.induction with
  | nil => exact .nil
  | cons cp s hcp _ ih => exact .char hcp ih

/-- What is repaired is valid, if what is put in is. -/
theorem Repairs.isUtf8 {r s s' : Str} (h : Repairs r s s') (hr : IsUtf8 r) : IsUtf8 s' := by
  induction h with
  | nil => exact isUtf8_nil
  | char hcp _ ih => exact isUtf8_utf8_append hcp ih
  | byte _ _ ih => exact isUtf8_append hr ih
  | broken _ _ _ ih => exact isUtf8_append hr ih
  | incomplete _ => exact hr

/-! ### One byte -/

/-- What has been read since the last character: nothing, or a part of one. -/
def Pending (t : Str) : Prop := t = [] ∨ Incomplete t

theorem Pending.exists_bounds {t : Str} (h : Pending t) :
    ∃ bounds, Utf8.run (some []) (codes t) = some bounds ∧
      (t = [] ∧ bounds = [] ∨ bounds ≠ [] ∧ Utf8.Begins (codes t) bounds) := by
  rcases h with rfl | ⟨bounds, hne, hbegins⟩
  · exact ⟨[], rfl, Or.inl ⟨rfl, rfl⟩⟩
  · exact ⟨bounds, hbegins.run_eq, Or.inr ⟨hne, hbegins⟩⟩

theorem Pending.length_le {t : Str} (h : Pending t) : t.length ≤ 3 := by
  rcases h with rfl | ⟨bounds, hne, hbegins⟩
  · exact Nat.zero_le _
  · have hlength := hbegins.length_le
    rw [codes, List.length_map] at hlength
    have hpos := List.length_pos_of_ne_nil hne
    omega

/-- A byte is the last of a character, or another one of an incomplete character, or no
valid string goes on with it. -/
theorem Pending.concat {t : Str} (h : Pending t) (c : Char) :
    (∃ cp, Utf8.IsScalar cp ∧ t ++ [c] = utf8 cp) ∨ Refused (t ++ [c]) ∨ Incomplete (t ++ [c]) := by
  obtain ⟨bounds, hrun, hbegins⟩ := h.exists_bounds
  have hcodes : codes (t ++ [c]) = codes t ++ [c.toNat] := codes_append t [c]
  have hnext : Utf8.run (some []) (codes (t ++ [c])) = Utf8.step (some bounds) c.toNat := by
    rw [hcodes, Utf8.run_append, hrun]
    rfl
  cases hstep : Utf8.step (some bounds) c.toNat with
  | none => exact Or.inr (Or.inl (hnext.trans hstep))
  | some bounds' =>
    have hbegins' : Utf8.Begins (codes (t ++ [c])) bounds' := by
      rw [hcodes]
      rcases hbegins with ⟨rfl, rfl⟩ | ⟨hne, hbegins⟩
      · exact Utf8.begins_singleton hstep
      · cases bounds with
        | nil => exact absurd rfl hne
        | cons r bounds =>
          rw [Utf8.step] at hstep
          split_ifs at hstep with hr
          obtain rfl := Option.some.inj hstep
          exact hbegins.concat hr
    by_cases hnil : bounds' = []
    · subst hnil
      obtain ⟨cp, hcp, hencode⟩ := hbegins'.exists_encode_eq
      refine Or.inl ⟨cp, hcp, ?_⟩
      rw [utf8, hencode, ofCodes_codes]
    · exact Or.inr (Or.inr ⟨bounds', hnil, hbegins'⟩)

/-! ### The buffer -/

/-- A byte string. -/
def Bytes (s : Str) : Prop := ∀ c ∈ s, c.toNat < 0x100

/-- The bytes of an incomplete character that are in the buffer. -/
def copied (f : Format) (t : Str) : Str := if f.ensureAscii then [] else t

/-- The loop has written `accepted` and is inside of a character with the bytes `t`.
Behind what is accepted there are 13 bytes left. -/
structure Reading (f : Format) (accepted t : Str) (e : Escaper) : Prop where
  text : e.out ++ e.stringBuffer = accepted ++ copied f t
  last : e.stringBuffer.length = e.bytesAfterLastAccept + (copied f t).length
  room : e.bytesAfterLastAccept + 13 ≤ stringBufferSize
  undumped : e.undumpedChars = t.length
  pending : Pending t
  bytes : Bytes t
  decoder : ∃ d : Utf8.Decoder, d.state = Utf8.utf8Accept ∧
    e.decoder = (codes t).foldl Utf8.decode d

section Buffer

variable {f : Format} {accepted t : Str} {e : Escaper}

theorem copied_length_le (f : Format) (t : Str) : (copied f t).length ≤ t.length := by
  unfold copied
  split_ifs <;> simp

/-- The text up to the last character. -/
theorem Reading.text_take (h : Reading f accepted t e) :
    e.out ++ e.stringBuffer.take e.bytesAfterLastAccept = accepted := by
  have htext := h.text
  rw [← List.take_append_drop e.bytesAfterLastAccept e.stringBuffer, ← List.append_assoc] at htext
  refine (List.append_inj' htext ?_).1
  rw [List.length_drop, h.last]
  omega

theorem Escaper.put_ok {c : Char} (h : e.stringBuffer.length < stringBufferSize) :
    e.put c = .ok { e with stringBuffer := e.stringBuffer ++ [c] } := if_pos h

theorem Escaper.print_ok {text : Str}
    (h : e.stringBuffer.length + text.length < stringBufferSize) :
    e.print text = .ok { e with stringBuffer := e.stringBuffer ++ text } := if_pos h

theorem Escaper.foldlM_put {text : Str}
    (h : e.stringBuffer.length + text.length ≤ stringBufferSize) :
    text.foldlM Escaper.put e = .ok { e with stringBuffer := e.stringBuffer ++ text } := by
  induction text generalizing e with
  | nil =>
    rw [List.append_nil]
    rfl
  | cons c text ih =>
    rw [List.length_cons] at h
    rw [List.foldlM_cons, Escaper.put_ok (by omega)]
    refine (ih ?_).trans ?_
    · simp only [List.length_append, List.length_singleton]
      omega
    · simp only [List.append_assoc, List.singleton_append]

theorem Escaper.flush_text (e : Escaper) :
    e.flush.out ++ e.flush.stringBuffer = e.out ++ e.stringBuffer := by
  unfold Escaper.flush
  split_ifs
  · exact List.append_nil _
  · rfl

theorem Escaper.flush_room (e : Escaper) : e.flush.stringBuffer.length + 13 ≤ stringBufferSize := by
  unfold Escaper.flush
  split_ifs with h
  · unfold stringBufferSize
    rw [List.length_nil]
    omega
  · unfold stringBufferSize at h ⊢
    omega

@[simp] theorem Escaper.flush_decoder (e : Escaper) : e.flush.decoder = e.decoder := by
  unfold Escaper.flush
  split_ifs <;> rfl

/-- After a flush the loop is between two characters. -/
theorem reading_flush {text : Str} {e' : Escaper} (htext : e.out ++ e.stringBuffer = text)
    (hout : e'.out = e.flush.out) (hbuffer : e'.stringBuffer = e.flush.stringBuffer)
    (hlast : e'.bytesAfterLastAccept = e'.stringBuffer.length) (hundumped : e'.undumpedChars = 0)
    (hdecoder : e'.decoder.state = Utf8.utf8Accept) : Reading f text [] e' where
  text := by rw [hout, hbuffer, e.flush_text, htext, copied, ite_self, List.append_nil]
  last := by rw [hlast, copied, ite_self, List.length_nil, Nat.add_zero]
  room := by
    rw [hlast, hbuffer]
    exact e.flush_room
  undumped := hundumped
  pending := Or.inl rfl
  bytes := nofun
  decoder := ⟨e'.decoder, hdecoder, rfl⟩

/-! ### One round -/

theorem length_utf8 {cp : ℕ} (h : cp < 0x80) : (utf8 cp).length = 1 := by
  rw [utf8, Utf8.encode_of_lt h]
  rfl

/-- The shifts and masks find the surrogates. -/
theorem surrogate_units {cp : ℕ} (hcp : Utf8.IsScalar cp) (h : 0xFFFF < cp) :
    (0xD7C0 + cp >>> 10) % 65536 = 0xD800 + (cp - 0x10000) / 1024 ∧
      (0xDC00 + (cp &&& 0x3FF)) % 65536 = 0xDC00 + (cp - 0x10000) % 1024 := by
  unfold Utf8.IsScalar at hcp
  rw [Nat.shiftRight_eq_div_pow, show (0x3FF : ℕ) = 2 ^ 10 - 1 by rfl,
    Nat.and_two_pow_sub_one_eq_mod]
  omega

/-- A character of the code point has been read: the bytes put in are there, and those
that are missing are put behind them. -/
theorem Reading.dumpCodepoint (h : Reading f accepted t e) {c : Char} {cp : ℕ}
    (hcp : Utf8.IsScalar cp) (ht : t ++ [c] = utf8 cp) (decoder : Utf8.Decoder) :
    ∃ added, copied f t ++ added = escaped f cp ∧
      dumpCodepoint f cp c { e with decoder } =
        .ok { e with decoder, stringBuffer := e.stringBuffer ++ added } := by
  have hroom := h.room
  have hlast := h.last
  have hle := h.pending.length_le
  have hcopied := copied_length_le f t
  unfold stringBufferSize at hroom
  -- an ASCII character is read all at once
  have hone : cp < 0x80 → t = [] := by
    intro hlt
    have hlength := congrArg List.length ht
    rw [length_utf8 hlt, List.length_append, List.length_singleton] at hlength
    exact List.length_eq_zero_iff.mp (by omega)
  have hnone : cp ≤ 0x1F ∨ (f.ensureAscii = true ∧ 0x7F ≤ cp) → copied f t = [] := by
    rintro (hlt | ⟨hascii, -⟩)
    · rw [hone (by omega), copied, ite_self]
    · rw [copied, if_pos hascii]
  unfold JsonText.dumpCodepoint escaped
  cases hshort : shortEscapes.lookup cp with
  | some letter =>
    have hall : ∀ p ∈ shortEscapes, p.1 < 0x80 := by decide
    have hnil := hone (hall _ (mem_of_lookup hshort))
    subst hnil
    rw [copied, ite_self] at hlast ⊢
    refine ⟨['\\', letter], rfl, ?_⟩
    dsimp only
    rw [Escaper.put_ok (by unfold stringBufferSize; simp at hlast ⊢; omega)]
    refine (Escaper.put_ok ?_).trans ?_
    · unfold stringBufferSize
      simp at hlast ⊢
      omega
    · simp only [List.append_assoc, List.singleton_append]
  | none =>
    dsimp only
    split_ifs with hescape hunit
    · rw [hnone hescape] at hlast ⊢
      refine ⟨unicodeEscape cp, rfl, ?_⟩
      rw [Nat.mod_eq_of_lt (by omega)]
      refine Escaper.print_ok ?_
      simp [unicodeEscape, stringBufferSize] at hlast ⊢
      omega
    · rw [hnone hescape] at hlast ⊢
      obtain ⟨hhigh, hlow⟩ := surrogate_units hcp (by omega)
      refine ⟨_, List.nil_append _, ?_⟩
      rw [hhigh, hlow]
      refine Escaper.print_ok ?_
      simp [unicodeEscape, stringBufferSize] at hlast ⊢
      omega
    · refine ⟨[c], ?_, Escaper.put_ok ?_⟩
      · rw [← ht, copied]
        split_ifs with hascii
        · push Not at hescape
          rw [hone (by have := hescape.2 hascii; omega)]
        · rfl
      · unfold stringBufferSize
        dsimp only
        omega

/-- A character is accepted. -/
theorem Reading.accept (h : Reading f accepted t e) {c : Char} {cp : ℕ}
    (hcp : Utf8.IsScalar cp) (ht : t ++ [c] = utf8 cp) :
    ∃ e', JsonText.accept f c { e with decoder := ⟨Utf8.utf8Accept, cp⟩ } = .ok e' ∧
      Reading f (accepted ++ escaped f cp) [] e' := by
  obtain ⟨added, hadded, hdump⟩ := h.dumpCodepoint hcp ht ⟨Utf8.utf8Accept, cp⟩
  unfold JsonText.accept
  dsimp only
  rw [hdump]
  refine ⟨_, rfl, ?_⟩
  have htext : e.out ++ (e.stringBuffer ++ added) = accepted ++ escaped f cp := by
    rw [← List.append_assoc, h.text, List.append_assoc, hadded]
  exact reading_flush htext rfl rfl rfl rfl (congrArg Utf8.Decoder.state (Escaper.flush_decoder _))

/-- What is put in the place of a piece that is not UTF-8. -/
def repair (f : Format) : Str :=
  match f.errorHandler with
  | .replace => utf8 0xFFFD
  | _ => []

/-- Its text. -/
def repairText (f : Format) : Str :=
  match f.errorHandler with
  | .replace => replacement f
  | _ => []

theorem replacement_eq (f : Format) : replacement f = escaped f 0xFFFD := by
  have hutf8 : utf8 0xFFFD = ['\xef', '\xbf', '\xbd'] := by decide
  have hunicode : unicodeEscape 0xFFFD = "\\ufffd".toList := by decide
  have hshort : shortEscapes.lookup 0xFFFD = none := rfl
  unfold replacement escaped
  rw [hshort]
  by_cases hascii : f.ensureAscii = true
  · rw [if_pos hascii]
    dsimp only
    rw [if_pos (Or.inr ⟨hascii, by decide⟩), if_pos (by decide), hunicode]
  · rw [if_neg hascii]
    dsimp only
    rw [if_neg (by simp [hascii]), hutf8]

theorem replacement_length_le (f : Format) : (replacement f).length ≤ 6 := by
  unfold replacement
  split_ifs <;> decide

/-- A refused byte, where the handler goes on. -/
theorem Reading.discard (h : Reading f accepted t e) (hhandler : f.errorHandler ≠ .strict)
    (i byte : ℕ) (decoder : Utf8.Decoder) :
    ∃ e', discard f i byte { e with decoder } = .ok e' ∧
      Reading f (accepted ++ repairText f) []
        { e' with
          undumpedChars := 0
          decoder := { decoder with state := Utf8.utf8Accept } } := by
  have hroom := h.room
  -- what is kept was written up to the last whole character
  have htake : (e.stringBuffer.take e.bytesAfterLastAccept).length = e.bytesAfterLastAccept := by
    rw [List.length_take, h.last]
    omega
  unfold JsonText.discard repairText
  cases hf : f.errorHandler with
  | strict => exact absurd hf hhandler
  | ignore =>
    refine ⟨_, rfl, ?_⟩
    exact
      { text := by
          rw [copied, ite_self]
          exact h.text_take.trans (by rw [List.append_nil, List.append_nil])
        last := by
          rw [copied, ite_self]
          exact htake
        room := hroom
        undumped := rfl
        pending := Or.inl rfl
        bytes := nofun
        decoder := ⟨_, rfl, rfl⟩ }
  | replace =>
    have hlength := replacement_length_le f
    dsimp only
    rw [Escaper.foldlM_put (by dsimp only; omega)]
    refine ⟨_, rfl, ?_⟩
    refine reading_flush ?_ rfl rfl rfl rfl rfl
    dsimp only
    rw [← List.append_assoc, h.text_take]

/-- A byte of a character of which more are missing. -/
theorem Reading.pend (h : Reading f accepted t e) {c : Char} (hc : c.toNat < 0x100)
    (ht : Incomplete (t ++ [c])) :
    ∃ e', (if f.ensureAscii then .ok { e with decoder := Utf8.decode e.decoder c.toNat }
        else Escaper.put { e with decoder := Utf8.decode e.decoder c.toNat } c) = Except.ok e' ∧
      Reading f accepted (t ++ [c]) { e' with undumpedChars := e.undumpedChars + 1 } := by
  have hroom := h.room
  have hle := h.pending.length_le
  have hcopied := copied_length_le f t
  have hlast := h.last
  have hbytes : Bytes (t ++ [c]) :=
    List.forall_mem_append.mpr ⟨h.bytes, List.forall_mem_singleton.mpr hc⟩
  have hdecoder : ∃ d : Utf8.Decoder, d.state = Utf8.utf8Accept ∧
      Utf8.decode e.decoder c.toNat = (codes (t ++ [c])).foldl Utf8.decode d := by
    obtain ⟨d, hd, he⟩ := h.decoder
    refine ⟨d, hd, ?_⟩
    rw [codes_append, List.foldl_append, ← he]
    rfl
  have hundumped : e.undumpedChars + 1 = (t ++ [c]).length := by
    rw [h.undumped, List.length_append, List.length_singleton]
  -- with `ensure_ascii` the bytes of a character are not copied
  by_cases hascii : f.ensureAscii = true
  · rw [if_pos hascii]
    refine ⟨_, rfl, ?_⟩
    exact
      { text := by
          have htext := h.text
          rw [copied, if_pos hascii] at htext ⊢
          exact htext
        last := by
          rw [copied, if_pos hascii] at hlast ⊢
          exact hlast
        room := hroom
        undumped := hundumped
        pending := Or.inr ht
        bytes := hbytes
        decoder := hdecoder }
  · rw [if_neg hascii]
    refine ⟨_, Escaper.put_ok ?_, ?_⟩
    · unfold stringBufferSize at hroom ⊢
      dsimp only
      omega
    · exact
        { text := by
            have htext := h.text
            rw [copied, if_neg hascii] at htext ⊢
            rw [← List.append_assoc, ← List.append_assoc, htext]
          last := by
            rw [copied, if_neg hascii] at hlast ⊢
            rw [List.length_append, List.length_append, hlast, Nat.add_assoc]
          room := hroom
          undumped := hundumped
          pending := Or.inr ht
          bytes := hbytes
          decoder := hdecoder }

/-- The state of the decoder says what has been read. -/
theorem Reading.decode (h : Reading f accepted t e) {c : Char} (hc : c.toNat < 0x100) :
    (∃ cp, Utf8.IsScalar cp ∧ t ++ [c] = utf8 cp ∧
      Utf8.decode e.decoder c.toNat = ⟨Utf8.utf8Accept, cp⟩) ∨
    (Refused (t ++ [c]) ∧ (Utf8.decode e.decoder c.toNat).state = Utf8.utf8Reject) ∨
    (Incomplete (t ++ [c]) ∧ (Utf8.decode e.decoder c.toNat).state ≠ Utf8.utf8Accept ∧
      (Utf8.decode e.decoder c.toNat).state ≠ Utf8.utf8Reject) := by
  obtain ⟨d, hd, he⟩ := h.decoder
  have hdecode : Utf8.decode e.decoder c.toNat = (codes (t ++ [c])).foldl Utf8.decode d := by
    rw [codes_append, List.foldl_append, ← he]
    rfl
  have hlt : ∀ b ∈ codes (t ++ [c]), b < 0x100 :=
    List.forall_mem_map.mpr
      (List.forall_mem_append.mpr ⟨h.bytes, List.forall_mem_singleton.mpr hc⟩)
  have hstate : d.state < 9 := by
    rw [hd]
    decide
  have hbounds := Utf8.boundsOf_foldl hstate hlt
  have hnine := Utf8.foldl_decode_state_lt hstate hlt
  rw [hd, ← hdecode] at hbounds
  rw [← hdecode] at hnine
  change _ = Utf8.run (some []) (codes (t ++ [c])) at hbounds
  -- a character, bytes that begin none, or a character still to be completed
  rcases h.pending.concat c with ⟨cp, hcp, ht⟩ | hrefused | ⟨bounds, hne, hbegins⟩
  · refine Or.inl ⟨cp, hcp, ht, ?_⟩
    rw [hdecode, ht, codes_utf8 hcp, Utf8.decode_encode hcp hd]
  · refine Or.inr (Or.inl ⟨hrefused, ?_⟩)
    rw [← Utf8.boundsOf_eq_none hnine, hbounds]
    exact hrefused
  · rw [hbegins.run_eq] at hbounds
    refine Or.inr (Or.inr ⟨⟨bounds, hne, hbegins⟩, ?_, ?_⟩)
    · intro haccept
      rw [(Utf8.boundsOf_eq_some_nil hnine).mpr haccept] at hbounds
      exact hne (Option.some.inj hbounds).symm
    · intro hreject
      rw [(Utf8.boundsOf_eq_none hnine).mpr hreject] at hbounds
      cases hbounds

/-! ### The loop -/

variable {i : ℕ} {c : Char} {rest : Str}

theorem mod_eq_of_byte (hc : c.toNat < 0x100) : c.toNat % 256 = c.toNat := Nat.mod_eq_of_lt hc

theorem dumpBytes_accept {cp : ℕ} {e' : Escaper} (hc : c.toNat < 0x100)
    (hd : Utf8.decode e.decoder c.toNat = ⟨Utf8.utf8Accept, cp⟩)
    (he : JsonText.accept f c { e with decoder := ⟨Utf8.utf8Accept, cp⟩ } = .ok e') :
    dumpBytes f i (c :: rest) e = dumpBytes f (i + 1) rest e' := by
  rw [dumpBytes]
  simp only [mod_eq_of_byte hc, hd, if_true, he]
  rfl

theorem dumpBytes_discard {e' : Escaper} (hc : c.toNat < 0x100)
    (hd : (Utf8.decode e.decoder c.toNat).state = Utf8.utf8Reject)
    (he : discard f i c.toNat { e with decoder := Utf8.decode e.decoder c.toNat } = .ok e') :
    dumpBytes f i (c :: rest) e =
      if 0 < e.undumpedChars then
        dumpBytes f i (c :: rest)
          { e' with
            undumpedChars := 0
            decoder := { Utf8.decode e.decoder c.toNat with state := Utf8.utf8Accept } }
      else
        dumpBytes f (i + 1) rest
          { e' with
            undumpedChars := 0
            decoder := { Utf8.decode e.decoder c.toNat with state := Utf8.utf8Accept } } := by
  have hne : Utf8.utf8Reject ≠ Utf8.utf8Accept := by decide
  rw [dumpBytes]
  simp only [mod_eq_of_byte hc, hd, if_neg hne, if_true, he]
  rfl

theorem dumpBytes_pend {e' : Escaper} (hc : c.toNat < 0x100)
    (haccept : (Utf8.decode e.decoder c.toNat).state ≠ Utf8.utf8Accept)
    (hreject : (Utf8.decode e.decoder c.toNat).state ≠ Utf8.utf8Reject)
    (he : (if f.ensureAscii then .ok { e with decoder := Utf8.decode e.decoder c.toNat }
        else Escaper.put { e with decoder := Utf8.decode e.decoder c.toNat } c) = Except.ok e') :
    dumpBytes f i (c :: rest) e =
      dumpBytes f (i + 1) rest { e' with undumpedChars := e.undumpedChars + 1 } := by
  rw [dumpBytes]
  simp only [mod_eq_of_byte hc, if_neg haccept, if_neg hreject]
  by_cases hascii : f.ensureAscii = true
  · rw [if_pos hascii] at he ⊢
    obtain rfl := Except.ok.inj he
    rfl
  · rw [if_neg hascii] at he ⊢
    rw [he]
    rfl

/-- The strict handler stops at a refused byte. -/
theorem dumpBytes_strict (hc : c.toNat < 0x100) (hstrict : f.errorHandler = .strict)
    (hd : (Utf8.decode e.decoder c.toNat).state = Utf8.utf8Reject) :
    dumpBytes f i (c :: rest) e =
      typeError316 ("invalid UTF-8 byte at index ".toList ++ decimal i ++ ": 0x".toList ++
        hexBytes c.toNat) := by
  have hne : Utf8.utf8Reject ≠ Utf8.utf8Accept := by decide
  rw [dumpBytes]
  simp only [mod_eq_of_byte hc, hd, if_neg hne, if_true, JsonText.discard, hstrict]
  rfl

/-- What is put in for an incomplete character at the end. -/
def ending (f : Format) (t : Str) : Str := if t = [] then [] else repair f

theorem Escapes.repair {s raw : Str} (h : Escapes f s raw) :
    Escapes f (repair f ++ s) (repairText f ++ raw) := by
  unfold JsonText.repair repairText
  cases f.errorHandler with
  | strict => exact h
  | ignore => exact h
  | replace =>
    dsimp only
    rw [replacement_eq]
    exact .cons (by decide) h

theorem refused_utf8_append {cp : ℕ} (hcp : Utf8.IsScalar cp) {s : Str} :
    Refused (utf8 cp ++ s) ↔ Refused s := by
  unfold Refused
  rw [codes_append, codes_utf8 hcp, Utf8.run_append, Utf8.run_encode hcp]

theorem Pending.not_refused {t : Str} (h : Pending t) : ¬ Refused t := by
  obtain ⟨bounds, hrun, -⟩ := h.exists_bounds
  intro hrefused
  rw [Refused, hrun] at hrefused
  cases hrefused

end Buffer

/-- **The loop goes through**, with the bytes of an incomplete character left over, **or
is stopped at the first byte no valid string goes on with.** -/
theorem dumpBytes_cases {f : Format} {accepted t s : Str} {e : Escaper} (i : ℕ) (hs : Bytes s)
    (h : Reading f accepted t e) :
    (∃ e' t' s' raw, dumpBytes f i s e = .ok e' ∧ Reading f (accepted ++ raw) t' e' ∧
      Escapes f s' raw ∧ Repairs (repair f) (t ++ s) (s' ++ ending f t') ∧
      (f.errorHandler = .strict → t ++ s = s' ++ t')) ∨
    (f.errorHandler = .strict ∧ ∃ pre c post, s = pre ++ c :: post ∧ ¬ Refused (t ++ pre) ∧
      Refused (t ++ pre ++ [c]) ∧
      dumpBytes f i s e = typeError316 ("invalid UTF-8 byte at index ".toList ++
        decimal (i + pre.length : ℕ) ++ ": 0x".toList ++ hexBytes c.toNat)) := by
  match s with
  | [] =>
    refine Or.inl ⟨e, t, [], [], by rw [dumpBytes], ?_, .nil, ?_, ?_⟩
    · rw [List.append_nil]
      exact h
    · rw [List.append_nil, List.nil_append, ending]
      rcases h.pending with rfl | ht
      · exact .nil
      · rw [if_neg]
        · exact .incomplete ht
        · rintro rfl
          exact ht.not_isUtf8 isUtf8_nil
    · intro _
      rw [List.append_nil, List.nil_append]
  | c :: rest =>
    obtain ⟨hc, hrest⟩ := List.forall_mem_cons.mp hs
    rcases h.decode hc with ⟨cp, hcp, ht, hd⟩ | ⟨ht, hd⟩ | ⟨ht, haccept, hreject⟩
    -- a character has been read
    · have hsplit : ∀ x, t ++ c :: x = utf8 cp ++ x := by
        intro x
        rw [← ht, List.append_assoc, List.singleton_append]
      obtain ⟨e', he, hreading⟩ := h.accept hcp ht
      rw [dumpBytes_accept hc hd he]
      rcases dumpBytes_cases (i + 1) hrest hreading with
        ⟨e'', t', s', raw, hok, hr, hesc, hrep, hstrict⟩ | ⟨hf, pre, b, post, rfl, hpre, hb, herr⟩
      · refine Or.inl ⟨e'', t', utf8 cp ++ s', escaped f cp ++ raw, hok, ?_, .cons hcp hesc, ?_, ?_⟩
        · rw [← List.append_assoc]
          exact hr
        · rw [hsplit, List.append_assoc]
          exact .char hcp hrep
        · intro hf
          rw [hsplit, List.append_assoc, ← hstrict hf]
          rfl
      · refine Or.inr ⟨hf, c :: pre, b, post, rfl, ?_, ?_, ?_⟩
        · rw [hsplit, refused_utf8_append hcp]
          exact hpre
        · rw [hsplit, List.append_assoc, refused_utf8_append hcp]
          exact hb
        · rw [herr, List.length_cons, Nat.add_right_comm, Nat.add_assoc]
    -- the byte is refused
    · by_cases hf : f.errorHandler = .strict
      · refine Or.inr ⟨hf, [], c, rest, rfl, ?_, ?_, dumpBytes_strict hc hf hd⟩
        · rw [List.append_nil]
          exact h.pending.not_refused
        · rw [List.append_nil]
          exact ht
      · obtain ⟨e', he, hreading⟩ := h.discard hf i c.toNat (Utf8.decode e.decoder c.toNat)
        rw [dumpBytes_discard hc hd he]
        rcases h.pending with rfl | hincomplete
        · have hundumped : e.undumpedChars = 0 := h.undumped
          rw [hundumped, if_neg (Nat.lt_irrefl 0)]
          rcases dumpBytes_cases (i + 1) hrest hreading with
            ⟨e'', t', s', raw, hok, hr, hesc, hrep, -⟩ | ⟨hf', -⟩
          · refine Or.inl ⟨e'', t', repair f ++ s', repairText f ++ raw, hok, ?_, hesc.repair, ?_,
              fun hf' => absurd hf' hf⟩
            · rw [← List.append_assoc]
              exact hr
            · rw [List.append_assoc]
              exact .byte ht hrep
          · exact absurd hf' hf
        · have hpos : 0 < e.undumpedChars := by
            rw [h.undumped]
            refine List.length_pos_of_ne_nil ?_
            rintro rfl
            exact hincomplete.not_isUtf8 isUtf8_nil
          rw [if_pos hpos]
          -- the byte is read once more, between two characters
          rcases dumpBytes_cases i hs hreading with
            ⟨e'', t', s', raw, hok, hr, hesc, hrep, -⟩ | ⟨hf', -⟩
          · refine Or.inl ⟨e'', t', repair f ++ s', repairText f ++ raw, hok, ?_, hesc.repair, ?_,
              fun hf' => absurd hf' hf⟩
            · rw [← List.append_assoc]
              exact hr
            · rw [List.append_assoc]
              exact .broken hincomplete ht hrep
          · exact absurd hf' hf
    -- more bytes are missing
    · have hsplit : ∀ x, t ++ c :: x = t ++ [c] ++ x := by
        intro x
        rw [List.append_assoc, List.singleton_append]
      obtain ⟨e', he, hreading⟩ := h.pend hc ht
      rw [dumpBytes_pend hc haccept hreject he]
      rcases dumpBytes_cases (i + 1) hrest hreading with
        ⟨e'', t', s', raw, hok, hr, hesc, hrep, hstrict⟩ | ⟨hf, pre, b, post, rfl, hpre, hb, herr⟩
      · refine Or.inl ⟨e'', t', s', raw, hok, hr, hesc, ?_, ?_⟩
        · rw [hsplit]
          exact hrep
        · intro hf
          rw [hsplit]
          exact hstrict hf
      · refine Or.inr ⟨hf, c :: pre, b, post, rfl, ?_, ?_, ?_⟩
        · rw [hsplit]
          exact hpre
        · rw [hsplit]
          exact hb
        · rw [herr, List.length_cons, Nat.add_right_comm, Nat.add_assoc]
  termination_by (s.length, t.length)
  decreasing_by
    · exact Prod.Lex.left _ _ (Nat.lt_succ_self _)
    · exact Prod.Lex.left _ _ (Nat.lt_succ_self _)
    · exact Prod.Lex.right _ (by rw [← h.undumped]; exact hpos)
    · exact Prod.Lex.left _ _ (Nat.lt_succ_self _)

/-! ### Strings -/

/-- The decoder is between two characters just when nothing is pending. -/
theorem Reading.state_eq_accept {f : Format} {accepted t : Str} {e : Escaper}
    (h : Reading f accepted t e) : e.decoder.state = Utf8.utf8Accept ↔ t = [] := by
  obtain ⟨d, hd, he⟩ := h.decoder
  have hlt : ∀ b ∈ codes t, b < 0x100 := List.forall_mem_map.mpr h.bytes
  have hstate : d.state < 9 := by
    rw [hd]
    decide
  have hbounds := Utf8.boundsOf_foldl hstate hlt
  have hnine := Utf8.foldl_decode_state_lt hstate hlt
  rw [← he] at hbounds hnine
  rw [hd] at hbounds
  obtain ⟨bounds, hrun, ht⟩ := h.pending.exists_bounds
  rw [← Utf8.boundsOf_eq_some_nil hnine, hbounds]
  change Utf8.run (some []) (codes t) = some [] ↔ t = []
  rw [hrun, Option.some.injEq]
  rcases ht with ⟨rfl, rfl⟩ | ⟨hne, hbegins⟩
  · exact iff_of_true rfl rfl
  · refine iff_of_false hne ?_
    rintro rfl
    obtain ⟨lead, met, tail, hnil, -⟩ := hbegins
    cases hnil

theorem reading_init (f : Format) :
    Reading f [] [] ⟨[], [], ⟨Utf8.utf8Accept, 0⟩, 0, 0⟩ where
  text := by rw [copied, ite_self]
  last := by
    rw [copied, ite_self]
    rfl
  room := by
    unfold stringBufferSize
    dsimp only
    omega
  undumped := rfl
  pending := Or.inl rfl
  bytes := nofun
  decoder := ⟨⟨Utf8.utf8Accept, 0⟩, rfl, rfl⟩

/-- **What `dump_escaped` does**: it writes the string, repaired where it is not valid, or
the strict handler throws, with the place of the first byte no valid string goes on with,
or because the last character is incomplete. -/
theorem dumpEscaped_cases (f : Format) {s : Str} (hs : Bytes s) :
    (∃ s' raw, dumpEscaped f s = .ok raw ∧ Escapes f s' raw ∧ Repairs (repair f) s s' ∧
      (f.errorHandler = .strict → s' = s)) ∨
    (f.errorHandler = .strict ∧ ∃ pre c post, s = pre ++ c :: post ∧ ¬ Refused pre ∧
      Refused (pre ++ [c]) ∧
      dumpEscaped f s = typeError316 ("invalid UTF-8 byte at index ".toList ++
        decimal (pre.length : ℕ) ++ ": 0x".toList ++ hexBytes c.toNat)) ∨
    (f.errorHandler = .strict ∧ ¬ Refused s ∧ ¬ IsUtf8 s ∧ ∃ c, s.getLast? = some c ∧
      dumpEscaped f s = typeError316 ("incomplete UTF-8 string; last byte: 0x".toList ++
        hexBytes c.toNat)) := by
  rcases dumpBytes_cases 0 hs (reading_init f) with
    ⟨e, t, s', raw, hok, hr, hesc, hrep, hstrict⟩ | ⟨hf, pre, c, post, hpre, hp, hc, herr⟩
  · rw [List.nil_append] at hr hrep hstrict
    unfold dumpEscaped
    rw [hok]
    rcases hr.pending with rfl | ht
    · -- the string ends with a character
      refine Or.inl ⟨s', raw, ?_, hesc, ?_, ?_⟩
      · have htext := hr.text
        rw [copied, ite_self, List.append_nil] at htext
        refine (if_pos (hr.state_eq_accept.mpr rfl)).trans ?_
        rw [htext]
        rfl
      · rwa [ending, if_pos rfl, List.append_nil] at hrep
      · intro hf
        rw [hstrict hf, List.append_nil]
    · -- it ends within one
      have hne : t ≠ [] := by
        rintro rfl
        exact ht.not_isUtf8 isUtf8_nil
      have hstate : e.decoder.state ≠ Utf8.utf8Accept := mt hr.state_eq_accept.mp hne
      have hpieces := hr.text_take
      rw [ending, if_neg hne] at hrep
      change _ ∨ _ ∨ _
      cases hf : f.errorHandler with
      | strict =>
        have hsplit := hstrict hf
        have hrun : Utf8.run (some []) (codes s) = Utf8.run (some []) (codes t) := by
          rw [hsplit, codes_append, Utf8.run_append, isUtf8_iff_run.mp hesc.isUtf8]
        have hlast : s.getLast? = some (t.getLast hne) := by
          rw [hsplit, List.getLast?_append, List.getLast?_eq_some_getLast hne]
          rfl
        have hbyte : (t.getLast hne).toNat < 0x100 := hr.bytes _ (List.getLast_mem hne)
        refine Or.inr (Or.inr ⟨rfl, ?_, ?_, t.getLast hne, hlast, ?_⟩)
        · rw [Refused, hrun]
          exact Pending.not_refused (Or.inr ht)
        · rw [isUtf8_iff_run, hrun, ← isUtf8_iff_run]
          exact ht.not_isUtf8
        · refine (if_neg hstate).trans ?_
          rw [hlast, Option.getD_some, mod_eq_of_byte hbyte]
      | ignore =>
        refine Or.inl ⟨s' ++ repair f, raw, ?_, ?_, hrep, nofun⟩
        · refine (if_neg hstate).trans ?_
          rw [hpieces]
          rfl
        · rw [repair, hf, List.append_nil]
          exact hesc
      | replace =>
        refine Or.inl ⟨s' ++ repair f, raw ++ replacement f, ?_, ?_, hrep, nofun⟩
        · refine (if_neg hstate).trans ?_
          rw [hpieces]
          rfl
        · rw [repair, hf, replacement_eq]
          exact hesc.concat (by decide)
  · -- the loop has thrown
    rw [List.nil_append] at hp hc
    rw [Nat.zero_add] at herr
    refine Or.inr (Or.inl ⟨hf, pre, c, post, hpre, hp, hc, ?_⟩)
    unfold dumpEscaped
    rw [herr]
    rfl

theorem IsUtf8.bytes {s : Str} (h : IsUtf8 s) : Bytes s := by
  intro c hc
  exact Utf8.WellFormed.lt h c.toNat (List.mem_map_of_mem hc)

/-- **A valid string is written, whatever the handler.** -/
theorem dumpEscaped_of_isUtf8 (f : Format) {s : Str} (h : IsUtf8 s) :
    ∃ raw, dumpEscaped f s = .ok raw ∧ Escapes f s raw := by
  rcases dumpEscaped_cases f h.bytes with
    ⟨s', raw, hok, hesc, hrep, -⟩ | ⟨-, pre, c, post, rfl, -, hc, -⟩ | ⟨-, -, hs, -⟩
  · rw [hrep.eq_of_isUtf8 h] at hesc
    exact ⟨raw, hok, hesc⟩
  · rw [← List.singleton_append, ← List.append_assoc] at h
    exact absurd h (not_isUtf8_of_refused hc post)
  · exact absurd h hs

/-- **Another one is repaired**, where the handler is not strict. -/
theorem dumpEscaped_repairs {f : Format} {s : Str} (hs : Bytes s)
    (hf : f.errorHandler ≠ .strict) :
    ∃ s' raw, dumpEscaped f s = .ok raw ∧ Escapes f s' raw ∧ Repairs (repair f) s s' := by
  rcases dumpEscaped_cases f hs with ⟨s', raw, hok, hesc, hrep, -⟩ | ⟨hstrict, -⟩ | ⟨hstrict, -⟩
  · exact ⟨s', raw, hok, hesc, hrep⟩
  · exact absurd hstrict hf
  · exact absurd hstrict hf

/-- What the strict handler says of a string: the first byte no valid string goes on with,
or that the string ends within a character. -/
def Complaint (s what : Str) : Prop :=
  (∃ pre c post, s = pre ++ c :: post ∧ ¬ Refused pre ∧ Refused (pre ++ [c]) ∧
    what = "[json.exception.type_error.316] ".toList ++
      ("invalid UTF-8 byte at index ".toList ++ decimal (pre.length : ℕ) ++ ": 0x".toList ++
        hexBytes c.toNat)) ∨
  (¬ Refused s ∧ ∃ c, s.getLast? = some c ∧
    what = "[json.exception.type_error.316] ".toList ++
      ("incomplete UTF-8 string; last byte: 0x".toList ++ hexBytes c.toNat))

/-- **The strict handler throws just for a string that is not UTF-8.** -/
theorem dumpEscaped_strict {f : Format} {s : Str} (hs : Bytes s)
    (hf : f.errorHandler = .strict) :
    (IsUtf8 s ∧ ∃ raw, dumpEscaped f s = .ok raw) ∨
    (¬ IsUtf8 s ∧ ∃ what, dumpEscaped f s = .error (.thrown (.json what)) ∧ Complaint s what) := by
  rcases dumpEscaped_cases f hs with
    ⟨s', raw, hok, hesc, -, hsame⟩ | ⟨-, pre, c, post, rfl, hpre, hc, hthrow⟩ |
    ⟨-, hr, hs', c, hc, hthrow⟩
  · left
    rw [← hsame hf]
    exact ⟨hesc.isUtf8, raw, hsame hf ▸ hok⟩
  · refine Or.inr ⟨?_, _, hthrow, Or.inl ⟨pre, c, post, rfl, hpre, hc, rfl⟩⟩
    rw [← List.singleton_append, ← List.append_assoc]
    exact not_isUtf8_of_refused hc post
  · exact Or.inr ⟨hs', _, hthrow, Or.inr ⟨hr, c, hc, rfl⟩⟩

/-- The buffer of `dump_escaped` never runs over. -/
theorem dumpEscaped_ne_undefined (f : Format) {s : Str} (hs : Bytes s) :
    dumpEscaped f s ≠ .error .undefined := by
  intro h
  rcases dumpEscaped_cases f hs with
    ⟨s', raw, hok, -⟩ | ⟨-, pre, c, post, -, -, -, hthrow⟩ | ⟨-, -, -, c, -, hthrow⟩
  · rw [hok] at h
    cases h
  · rw [hthrow] at h
    cases h
  · rw [hthrow] at h
    cases h

/-! ### The bytes written -/

theorem toNat_digitChar_lt {d : ℕ} (hd : d < 16) :
    0x30 ≤ (Nat.digitChar d).toNat ∧ (Nat.digitChar d).toNat < 0x7F := by
  revert d
  decide

theorem unicodeEscape_ascii (unit : ℕ) :
    ∀ c ∈ unicodeEscape unit, 0x20 ≤ c.toNat ∧ c.toNat < 0x7F := by
  intro c hc
  have hdigit : ∀ n, 0x30 ≤ (Nat.digitChar (n % 16)).toNat ∧
      (Nat.digitChar (n % 16)).toNat < 0x7F := by
    intro n
    exact toNat_digitChar_lt (Nat.mod_lt _ (by decide))
  have h1 := hdigit (unit / 4096)
  have h2 := hdigit (unit / 256)
  have h3 := hdigit (unit / 16)
  have h4 := hdigit unit
  simp only [unicodeEscape, List.mem_cons, List.not_mem_nil, or_false] at hc
  rcases hc with rfl | rfl | rfl | rfl | rfl | rfl
  · decide
  · decide
  · omega
  · omega
  · omega
  · omega

/-- No control character is written, and nothing beyond ASCII where it is not asked for. -/
theorem escaped_bounds (f : Format) {cp : ℕ} (hcp : Utf8.IsScalar cp) :
    ∀ c ∈ escaped f cp, 0x20 ≤ c.toNat ∧ (f.ensureAscii = true → c.toNat < 0x7F) := by
  intro c hc
  unfold escaped at hc
  cases hshort : shortEscapes.lookup cp with
  | some letter =>
    have hall : ∀ p ∈ shortEscapes, 0x20 ≤ p.2.toNat ∧ p.2.toNat < 0x7F := by decide
    have hletter := hall _ (mem_of_lookup hshort)
    rw [hshort] at hc
    rcases List.mem_pair.mp hc with rfl | rfl
    · exact ⟨by decide, fun _ => by decide⟩
    · exact ⟨hletter.1, fun _ => hletter.2⟩
  | none =>
    rw [hshort] at hc
    dsimp only at hc
    split_ifs at hc with hescape hunit
    · have hbounds := unicodeEscape_ascii cp c hc
      exact ⟨hbounds.1, fun _ => hbounds.2⟩
    · rcases List.mem_append.mp hc with hc | hc
      · have hbounds := unicodeEscape_ascii _ c hc
        exact ⟨hbounds.1, fun _ => hbounds.2⟩
      · have hbounds := unicodeEscape_ascii _ c hc
        exact ⟨hbounds.1, fun _ => hbounds.2⟩
    · push Not at hescape
      have hmem : c.toNat ∈ Utf8.encode cp := by
        rw [← codes_utf8 hcp]
        exact List.mem_map_of_mem hc
      -- copied as it is
      by_cases hlt : cp < 0x80
      · rw [Utf8.encode_of_lt hlt, List.mem_singleton] at hmem
        rw [hmem]
        exact ⟨by omega, hescape.2⟩
      · have hbounds := Utf8.encode_bounds hcp (by omega) _ hmem
        refine ⟨by omega, fun hascii => ?_⟩
        have := hescape.2 hascii
        omega

/-- **The text of a string has no control characters**, and is in ASCII where that is
asked for. -/
theorem Escapes.bounds {f : Format} {s raw : Str} (h : Escapes f s raw) :
    ∀ c ∈ raw, 0x20 ≤ c.toNat ∧ (f.ensureAscii = true → c.toNat < 0x7F) := by
  induction h with
  | nil => exact nofun
  | cons hcp _ ih => exact List.forall_mem_append.mpr ⟨escaped_bounds f hcp, ih⟩

/-- Without the demand for ASCII each byte is escaped for itself. -/
theorem escaped_eq_escape {f : Format} (hf : f.ensureAscii = false) {cp : ℕ}
    (hcp : Utf8.IsScalar cp) : escaped f cp = (utf8 cp).flatMap Json.escape := by
  by_cases hlt : cp < 0x80
  · -- in ASCII they are compared one by one
    have hall : ∀ cp < 0x80, (match shortEscapes.lookup cp with
        | some letter => ['\\', letter]
        | none => if cp ≤ 0x1F then unicodeEscape cp else utf8 cp) =
          (utf8 cp).flatMap Json.escape := by decide +kernel
    rw [← hall cp hlt, escaped]
    cases hshort : shortEscapes.lookup cp with
    | some letter => rfl
    | none =>
      dsimp only
      rw [hf]
      by_cases hcontrol : cp ≤ 0x1F
      · rw [if_pos (Or.inl hcontrol), if_pos (by omega), if_pos hcontrol]
      · rw [if_neg (by simp [hcontrol]), if_neg hcontrol]
  · have hshort : shortEscapes.lookup cp = none := by
      have hall : ∀ p ∈ shortEscapes, p.1 < 0x80 := by decide
      cases h : shortEscapes.lookup cp with
      | none => rfl
      | some letter => exact absurd (hall _ (mem_of_lookup h)) hlt
    -- all other bytes are copied
    have hcopy : ∀ c ∈ utf8 cp, Json.escape c = [c] := by
      intro c hc
      have hmem : c.toNat ∈ Utf8.encode cp := by
        rw [← codes_utf8 hcp]
        exact List.mem_map_of_mem hc
      have hbounds := (Utf8.encode_bounds hcp (by omega) _ hmem).1
      have hne : ∀ d : Char, d.toNat < 0x80 → c ≠ d := by
        rintro d hd rfl
        omega
      unfold Json.escape
      rw [if_neg (hne _ (by decide)), if_neg (hne _ (by decide)), if_neg (hne _ (by decide)),
        if_neg (hne _ (by decide)), if_neg (hne _ (by decide)), if_neg (hne _ (by decide)),
        if_neg (hne _ (by decide)), if_neg (by omega)]
    rw [escaped, hshort]
    dsimp only
    rw [if_neg (by rw [hf]; simp; omega), List.flatMap_congr hcopy, List.flatMap_singleton']

theorem Escapes.eq_flatMap {f : Format} (hf : f.ensureAscii = false) {s raw : Str}
    (h : Escapes f s raw) : raw = s.flatMap Json.escape := by
  induction h with
  | nil => rfl
  | cons hcp _ ih => rw [List.flatMap_append, escaped_eq_escape hf hcp, ih]

end JsonText
end IntBlock
