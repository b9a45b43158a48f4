import IntBlock.BlockchainClient.Quantity
import IntBlock.Lib.Json

/-!
# Timestamps

`format_timestamp`, `display_timestamp_if_present` and `JSON_DEBUG` of
`blockchain_client.h`.  Every reply and every message goes through `JSON_DEBUG`,
and so does the timestamp text the sender has put into it.  `localtime` returns
a null pointer for an instant whose year does not fit an `int`, and `strftime`
is called with it.

## Main definitions

* `Libc` — `localtime` and `strftime`.
* `formatTimestamp`, `displayTimestampIfPresent`, `jsonDebug` — the functions.
* `NullTime c s` — the text makes `format_timestamp` pass a null pointer on.
* `TimestampExact c s r` — what the result for `s` should be.
* `Unambiguous c s` — the texts on which it surely is.
* `utc` — a `Libc` for a machine that runs on UTC.

## Main results

* `formatTimestamp_of_reads`, `formatTimestamp_of_unread` — the result, by what
  `std::stoull` reads.
* `jsonDebug_eq_ok`, `jsonDebug_eq_undefined` — `JSON_DEBUG` does no harm unless the
  text is a `NullTime`.
* `formatTimestamp_exact` — **when the result is what it should be.**
-/

namespace IntBlock
namespace BlockchainClient

open Cpp

/-! ### The functions -/

/-- The functions of the C library: `localtime`, with its null pointer, and `strftime`. -/
structure Libc (Tm : Type) where
  localtime : ℤ → Option Tm
  strftime : Str → Tm → Str

section Functions

variable {Tm : Type} (c : Libc Tm)

/-- `strftime(buffer, sizeof(buffer), "%Y-%m-%d %H:%M:%S", timeinfo)`, where
`timeinfo` must not be null. -/
def renderTime : Option Tm → Exec Str
  | none => .error .undefined
  | some timeinfo => .ok (c.strftime "%Y-%m-%d %H:%M:%S".toList timeinfo)

def formatTimestamp (hexTimestamp : Str) : Exec Str :=
  catching (fun _ => true)
    (do
      let hex := remove0x hexTimestamp
      let timestamp ← stoull16 hex
      -- `static_cast<time_t>`, of 64 bits with a sign
      let time := timestamp.toInt
      let timeinfo := c.localtime time
      renderTime c timeinfo)
    (fun _ => .ok hexTimestamp)

/-- The text `display_timestamp_if_present` finds: at the top level, or in the result. -/
def timestampText (j : Json) : Str :=
  let timestamp := "timestamp".toList
  let result := "result".toList
  if j.isObject && j.contains timestamp && (j.member timestamp).isString then
    match j.member timestamp with
    | .string tsStr => tsStr
    | _ => []
  else if j.isObject && j.contains result && (j.member result).isObject &&
      (j.member result).contains timestamp && ((j.member result).member timestamp).isString then
    match (j.member result).member timestamp with
    | .string tsStr => tsStr
    | _ => []
  else []

/-- What is printed is left out. -/
def displayTimestampIfPresent (j : Json) : Exec Unit :=
  catching (fun _ => true)
    (do
      let tsStr := timestampText j
      if tsStr ≠ [] then
        let _readable ← formatTimestamp c tsStr)
    (fun _ => .ok ())

/-- The macro `JSON_DEBUG`.  The text it prints is left out, with the strict `dump(2)` that
makes it: that throws for a string that is not UTF-8, which no parsed value has. -/
def jsonDebug (j : Json) : Exec Unit := displayTimestampIfPresent c j

end Functions

/-! ### UTC -/

/-- A broken-down time. -/
structure Tm where
  year : ℤ
  month : ℤ
  day : ℤ
  hour : ℤ
  minute : ℤ
  second : ℤ
  deriving DecidableEq, Repr

/-- The civil time of an instant, null where the year since 1900 is no `int`.
Years are counted from the first of March. -/
def gmtime (t : ℤ) : Option Tm :=
  let days := t / 86400 + 719468
  let era := days / 146097
  let dayOfEra := days % 146097
  let yearOfEra := (dayOfEra - dayOfEra / 1460 + dayOfEra / 36524 - dayOfEra / 146096) / 365
  let dayOfYear := dayOfEra - (365 * yearOfEra + yearOfEra / 4 - yearOfEra / 100)
  let month := (5 * dayOfYear + 2) / 153
  let day := dayOfYear - (153 * month + 2) / 5 + 1
  let year := 400 * era + yearOfEra + if month < 10 then 0 else 1
  if -2 ^ 31 ≤ year - 1900 ∧ year - 1900 < 2 ^ 31 then
    some
      { year
        month := if month < 10 then month + 3 else month - 9
        day
        hour := t % 86400 / 3600
        minute := t % 3600 / 60
        second := t % 60 }
  else none

def twoDigits (n : ℤ) : Str := if n < 10 then '0' :: decimal n else decimal n

/-- `strftime`, for the conversions in use; a year is computed as an `int`. -/
def strftimeC : Str → Tm → Str
  | '%' :: x :: format, tm =>
      (if x = 'Y' then decimal (tm.year.bmod (2 ^ 32))
        else if x = 'm' then twoDigits tm.month
        else if x = 'd' then twoDigits tm.day
        else if x = 'H' then twoDigits tm.hour
        else if x = 'M' then twoDigits tm.minute
        else twoDigits tm.second) ++ strftimeC format tm
  | x :: format, tm => x :: strftimeC format tm
  | [], _ => []

/-- The C library of a machine on UTC. -/
def utc : Libc Tm := ⟨gmtime, strftimeC⟩

example : formatTimestamp utc "0x65a1b2c3".toList = .ok "2024-01-12 21:44:35".toList := by decide

/-! ### What the text makes of it -/

section Results

variable {Tm : Type} {c : Libc Tm} {s : Str}

/-- A text that begins with a number of 64 bits is shown as that instant. -/
theorem formatTimestamp_of_reads {negative : Bool} {ds : Str}
    (h : Reads (remove0x s) negative ds) (hlt : hexValue ds < 2 ^ 64) :
    formatTimestamp c s = renderTime c (c.localtime (signed64 negative (hexValue ds)).toInt) := by
  unfold formatTimestamp
  simp only [stoull16_of_reads h, if_neg (not_le.mpr hlt), bind_ok]
  -- the catch-all has nothing to do: a null pointer is no exception
  cases c.localtime (signed64 negative (hexValue ds)).toInt with
  | none => rfl
  | some timeinfo => rfl

/-- Any other text is returned as it is. -/
theorem formatTimestamp_of_unread
    (h : ∀ negative ds, Reads (remove0x s) negative ds → 2 ^ 64 ≤ hexValue ds) :
    formatTimestamp c s = .ok s := by
  have hthrow : ∃ e, stoull16 (remove0x s) = .error (.thrown e) := by
    by_cases hreads : ∃ negative ds, Reads (remove0x s) negative ds
    · obtain ⟨negative, ds, hds⟩ := hreads
      exact ⟨.outOfRange, by rw [stoull16_of_reads hds, if_pos (h negative ds hds)]; rfl⟩
    · push Not at hreads
      exact ⟨.invalidArgument, by rw [stoull16_of_not_reads hreads]; rfl⟩
  obtain ⟨e, he⟩ := hthrow
  unfold formatTimestamp
  simp only [he, bind_error]
  exact catching_thrown _ _ rfl

/-- The text begins with a number of 64 bits for which `localtime` returns null. -/
def NullTime (c : Libc Tm) (s : Str) : Prop :=
  ∃ negative ds, Reads (remove0x s) negative ds ∧ hexValue ds < 2 ^ 64 ∧
    c.localtime (signed64 negative (hexValue ds)).toInt = none

theorem formatTimestamp_of_nullTime (h : NullTime c s) :
    formatTimestamp c s = .error .undefined := by
  obtain ⟨negative, ds, hreads, hlt, hnone⟩ := h
  rw [formatTimestamp_of_reads hreads hlt, hnone]
  rfl

theorem formatTimestamp_of_not_nullTime (h : ¬NullTime c s) : ∃ r, formatTimestamp c s = .ok r := by
  by_cases hreads : ∃ negative ds, Reads (remove0x s) negative ds ∧ hexValue ds < 2 ^ 64
  · obtain ⟨negative, ds, hds, hlt⟩ := hreads
    rw [formatTimestamp_of_reads hds hlt]
    cases htime : c.localtime (signed64 negative (hexValue ds)).toInt with
    | none => exact absurd ⟨negative, ds, hds, hlt, htime⟩ h
    | some timeinfo => exact ⟨_, rfl⟩
  · push Not at hreads
    exact ⟨s, formatTimestamp_of_unread hreads⟩

/-- There is no number in an empty text. -/
theorem not_nullTime_nil : ¬NullTime c [] := by
  rintro ⟨negative, ds, hreads, -⟩
  have hscan := hreads.scan16_eq
  obtain ⟨-, hne⟩ := reads_iff.mp hreads
  exact hne (Prod.mk.inj hscan).2.symm

theorem jsonDebug_eq_undefined {j : Json} (h : NullTime c (timestampText j)) :
    jsonDebug c j = .error .undefined := by
  have hne : timestampText j ≠ [] := by
    intro hnil
    rw [hnil] at h
    exact not_nullTime_nil h
  unfold jsonDebug displayTimestampIfPresent
  simp only [if_pos hne, formatTimestamp_of_nullTime h, bind_error, catching_undefined]

theorem jsonDebug_eq_ok {j : Json} (h : ¬NullTime c (timestampText j)) :
    jsonDebug c j = .ok () := by
  obtain ⟨r, hr⟩ := formatTimestamp_of_not_nullTime h
  unfold jsonDebug displayTimestampIfPresent
  by_cases hne : timestampText j ≠ []
  · simp only [if_pos hne, hr, bind_ok]
    rfl
  · simp only [if_neg hne]
    rfl

theorem jsonDebug_eq_ok_iff {j : Json} :
    jsonDebug c j = .ok () ↔ ¬NullTime c (timestampText j) := by
  constructor
  · intro h hnull
    rw [jsonDebug_eq_undefined hnull] at h
    cases h
  · exact jsonDebug_eq_ok

/-! ### What the result should be -/

/-- What the result for the text `s` should be: for a hexadecimal number whose
value is an instant `localtime` can convert, that instant, and for every other
text the text itself.  Neither is reached with a null pointer for `strftime`. -/
def TimestampExact (c : Libc Tm) (s : Str) (r : Exec Str) : Prop :=
  (∀ ds timeinfo, IsHex s ds → hexValue ds < 2 ^ 63 →
    c.localtime (hexValue ds) = some timeinfo → r = renderTime c (some timeinfo)) ∧
  ((¬∃ ds timeinfo, IsHex s ds ∧ hexValue ds < 2 ^ 63 ∧
    c.localtime (hexValue ds) = some timeinfo) → r = .ok s)

/-- The code does not reach its defect: the text is a hexadecimal number for an
instant `localtime` can convert, or does not even begin with a number of 64 bits. -/
def Unambiguous (c : Libc Tm) (s : Str) : Prop :=
  (∃ ds timeinfo, IsHex s ds ∧ hexValue ds < 2 ^ 63 ∧
    c.localtime (hexValue ds) = some timeinfo) ∨
  ∀ negative ds, Reads (remove0x s) negative ds → 2 ^ 64 ≤ hexValue ds

theorem timestampExact_of_instant
    (h : ∃ ds timeinfo, IsHex s ds ∧ hexValue ds < 2 ^ 63 ∧
      c.localtime (hexValue ds) = some timeinfo) :
    TimestampExact c s (formatTimestamp c s) := by
  refine ⟨fun ds timeinfo hds hlt htime => ?_, fun hno => absurd h hno⟩
  rw [formatTimestamp_of_reads hds.reads (by omega), toInt_signed64 hlt, htime]

theorem timestampExact_of_unread
    (h : ∀ negative ds, Reads (remove0x s) negative ds → 2 ^ 64 ≤ hexValue ds) :
    TimestampExact c s (formatTimestamp c s) := by
  refine ⟨fun ds timeinfo hds hlt _ => ?_, fun _ => formatTimestamp_of_unread h⟩
  have hle := h false ds hds.reads
  omega

/-- On every other text an instant is shown, or a null pointer passed on. -/
theorem formatTimestamp_of_not_unambiguous (h : ¬Unambiguous c s) :
    formatTimestamp c s = .error .undefined ∨
      ∃ timeinfo, formatTimestamp c s = renderTime c (some timeinfo) := by
  have hreads : ∃ negative ds, Reads (remove0x s) negative ds ∧ hexValue ds < 2 ^ 64 := by
    by_contra hno
    push Not at hno
    exact h (Or.inr hno)
  obtain ⟨negative, ds, hds, hlt⟩ := hreads
  rw [formatTimestamp_of_reads hds hlt]
  cases c.localtime (signed64 negative (hexValue ds)).toInt with
  | none => exact Or.inl rfl
  | some timeinfo => exact Or.inr ⟨timeinfo, rfl⟩

/-- **When the result is what it should be**: where the text is `Unambiguous`, and,
unless the text has itself the form of a date as `strftime` writes it, only there. -/
theorem formatTimestamp_exact (c : Libc Tm) (s : Str) :
    (Unambiguous c s → TimestampExact c s (formatTimestamp c s)) ∧
    ((∀ timeinfo, renderTime c (some timeinfo) ≠ .ok s) →
      TimestampExact c s (formatTimestamp c s) → Unambiguous c s) := by
  constructor
  · rintro (hinstant | hunread)
    · exact timestampExact_of_instant hinstant
    · exact timestampExact_of_unread hunread
  · intro hform hexact
    by_contra hambiguous
    have hok : formatTimestamp c s = .ok s := hexact.2 fun hinstant => hambiguous (Or.inl hinstant)
    -- the text should have come back, but an instant is shown or a null pointer passed on
    rcases formatTimestamp_of_not_unambiguous hambiguous with hnull | ⟨timeinfo, hshown⟩
    · rw [hok] at hnull
      cases hnull
    · exact hform timeinfo (hshown.symm.trans hok)

end Results

theorem formatTimestamp_exact_2024 :
    TimestampExact utc "0x65a1b2c3".toList (formatTimestamp utc "0x65a1b2c3".toList) ∧
    formatTimestamp utc "0x65a1b2c3".toList = .ok "2024-01-12 21:44:35".toList := by
  have hshown : formatTimestamp utc "0x65a1b2c3".toList = .ok "2024-01-12 21:44:35".toList := by
    decide
  have hhex : IsHex "0x65a1b2c3".toList "65a1b2c3".toList :=
    ⟨by decide, List.all_eq_true.mp (by decide), "0x".toList, Or.inr (Or.inl rfl), rfl⟩
  have hlt : hexValue "65a1b2c3".toList < 2 ^ 63 := by decide
  have htime : utc.localtime (hexValue "65a1b2c3".toList) = some ⟨2024, 1, 12, 21, 44, 35⟩ := by
    decide
  exact ⟨(formatTimestamp_exact utc _).1 (Or.inl ⟨_, _, hhex, hlt, htime⟩), hshown⟩


/-- The largest `time_t` gets a null pointer to `strftime`, and a text that is no
number is shown as an instant because it begins with a digit. -/
theorem formatTimestamp_not_exact :
    ¬TimestampExact utc "0x7fffffffffffffff".toList
      (formatTimestamp utc "0x7fffffffffffffff".toList) ∧
    ¬TimestampExact utc "5z".toList (formatTimestamp utc "5z".toList) := by
  have hnull : formatTimestamp utc "0x7fffffffffffffff".toList = .error .undefined := by decide
  have hshown : formatTimestamp utc "5z".toList = .ok "1970-01-01 00:00:05".toList := by decide
  constructor
  · rintro ⟨hinstant, hother⟩
    rw [hnull] at hinstant hother
    refine nomatch hother ?_
    rintro ⟨ds, timeinfo, hds, hlt, htime⟩
    exact nomatch hinstant ds timeinfo hds hlt htime
  · rintro ⟨-, hother⟩
    rw [hshown] at hother
    refine absurd (hother ?_) (by decide)
    rintro ⟨ds, timeinfo, hds, -, -⟩
    -- `z` is no digit
    have hmem : 'z' ∈ ds := by
      rw [← hds.remove0x_eq]
      decide
    exact absurd (hds.2.1 'z' hmem) (by decide)

end BlockchainClient
end IntBlock
