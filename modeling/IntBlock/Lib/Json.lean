import IntBlock.Lib.Cpp

/-!
# JSON values as a C++ program handles them

The part of `nlohmann::json` that code reading replies rests on: the types of
values, the member lookup that inserts what is missing, the conversion to a
string, and the text of a value.

## Main definitions

* `Json` — a value.
* `Json.contains`, `Json.member`, `Json.subscript` — the lookup of a member, which
  fails quietly, needs the member, or inserts it.
* `Json.getString` — `get<std::string>()`.
* `Json.dump` — the text of a value.

## Main results

* `Json.subscript_cases` — what the mutating lookup returns for each type.
* `Json.getString_cases` — the conversion succeeds or throws.
-/

namespace IntBlock

open Cpp

/-- A JSON value.  A floating point number is given by its text, and the members
of an object are in the order of their keys. -/
inductive Json
  | null
  | boolean (b : Bool)
  /-- `number_integer`, a signed word. -/
  | integer (n : BitVec 64)
  /-- `number_unsigned` -/
  | unsigned (n : BitVec 64)
  | float (text : Str)
  | string (s : Str)
  | array (elements : List Json)
  | object (members : List (Str × Json))

namespace Json

/-! ### Types -/

def typeName : Json → Str
  | null => "null".toList
  | boolean _ => "boolean".toList
  | integer _ => "number".toList
  | unsigned _ => "number".toList
  | float _ => "number".toList
  | string _ => "string".toList
  | array _ => "array".toList
  | object _ => "object".toList

def isNull : Json → Bool
  | null => true
  | _ => false

def isString : Json → Bool
  | string _ => true
  | _ => false

def isArray : Json → Bool
  | array _ => true
  | _ => false

def isObject : Json → Bool
  | object _ => true
  | _ => false

/-! ### Members and elements -/

/-- The member of an object, where there is one. -/
def find? (key : Str) : Json → Option Json
  | object members => members.lookup key
  | _ => none

/-- `j.contains(key)`, false where `j` is no object. -/
def contains (key : Str) (j : Json) : Bool := (j.find? key).isSome

/-- `j[key]` for a member that is there. -/
def member (key : Str) (j : Json) : Json := (j.find? key).getD null

/-- `members` with a null at `key`, in the order of the keys. -/
def insertNull (key : Str) : List (Str × Json) → List (Str × Json)
  | [] => [(key, null)]
  | m :: members =>
      if key < m.1 then (key, null) :: m :: members else m :: insertNull key members

/-- `j[key]` for a `j` that is not constant, and what `j` is afterwards: a member
that is missing is inserted as null, and a null value becomes an object first. -/
def subscript (key : Str) : Json → Exec (Json × Json)
  | null => .ok (null, object [(key, null)])
  | object members =>
      match members.lookup key with
      | some v => .ok (v, object members)
      | none => .ok (null, object (insertNull key members))
  | j => raise (.json ("[json.exception.type_error.305] ".toList ++
      "cannot use operator[] with a string argument with ".toList ++ j.typeName))

/-- `j.size()` of an array. -/
def size : Json → ℕ
  | array elements => elements.length
  | _ => 0

/-- `j[i]` for an element that is there. -/
def element (i : ℕ) : Json → Json
  | array elements => elements.getD i null
  | _ => null

/-- `j.get<std::string>()` -/
def getString : Json → Exec Str
  | string s => .ok s
  | j => raise (.json ("[json.exception.type_error.302] ".toList ++
      "type must be string, but is ".toList ++ j.typeName))

/-! ### The text of a value -/

/-- One byte of a string, escaped where it has to be. -/
def escape (c : Char) : Str :=
  if c = '\x08' then ['\\', 'b']
  else if c = '\t' then ['\\', 't']
  else if c = '\n' then ['\\', 'n']
  else if c = '\x0c' then ['\\', 'f']
  else if c = '\r' then ['\\', 'r']
  else if c = '"' then ['\\', '"']
  else if c = '\\' then ['\\', '\\']
  else if c.toNat ≤ 0x1f then
    ['\\', 'u', '0', '0', Nat.digitChar (c.toNat / 16), Nat.digitChar (c.toNat % 16)]
  else [c]

def quoted (s : Str) : Str := '"' :: s.flatMap escape ++ ['"']

mutual

/-- `j.dump()`.  Every string is valid UTF-8, as those in a parsed value are;
for another one `dump` throws. -/
def dump : Json → Str
  | null => "null".toList
  | boolean b => if b then "true".toList else "false".toList
  | integer n => decimal n.toInt
  | unsigned n => decimal n.toNat
  | float text => text
  | string s => quoted s
  | array elements => '[' :: dumpElements elements ++ [']']
  | object members => '{' :: dumpMembers members ++ ['}']

def dumpElements : List Json → Str
  | [] => []
  | [j] => dump j
  | j :: js => dump j ++ ',' :: dumpElements js

def dumpMembers : List (Str × Json) → Str
  | [] => []
  | [(key, j)] => quoted key ++ ':' :: dump j
  | (key, j) :: ms => quoted key ++ ':' :: dump j ++ ',' :: dumpMembers ms

end

/-! ### Lookups -/

theorem contains_iff {key : Str} {j : Json} :
    j.contains key = true ↔ ∃ v, j.find? key = some v := by
  rw [contains, Option.isSome_iff_exists]

theorem contains_eq_false {key : Str} {j : Json} : j.contains key = false ↔ j.find? key = none := by
  rw [contains, Option.isSome_eq_false_iff, Option.isNone_iff_eq_none]

theorem member_of_find? {key : Str} {j v : Json} (h : j.find? key = some v) :
    j.member key = v := by
  rw [member, h, Option.getD_some]

theorem find?_eq_some {key : Str} {j v : Json} :
    j.find? key = some v ↔ ∃ members, j = object members ∧ members.lookup key = some v := by
  unfold find?
  split
  · next members =>
    constructor
    · exact fun h => ⟨members, rfl, h⟩
    · rintro ⟨_, ⟨⟩, h⟩
      exact h
  · next hobject =>
    constructor
    · exact fun h => nomatch h
    · rintro ⟨members, rfl, -⟩
      exact absurd rfl (hobject members)

/-- **What the mutating lookup returns**: the member, null where an object or null
has none, and an exception of the library for every other type. -/
theorem subscript_cases (key : Str) (j : Json) :
    (∃ v, j.find? key = some v ∧ j.subscript key = .ok (v, j)) ∨
    ((j = null ∨ ∃ members, j = object members ∧ members.lookup key = none) ∧
      ∃ j', j.subscript key = .ok (null, j')) ∨
    (j ≠ null ∧ (∀ members, j ≠ object members) ∧
      ∃ what, j.subscript key = .error (.thrown (.json what))) := by
  cases j with
  | null => exact Or.inr (Or.inl ⟨Or.inl rfl, _, rfl⟩)
  | object members =>
    cases h : members.lookup key with
    | some v =>
      left
      refine ⟨v, h, ?_⟩
      simp only [subscript, h]
    | none =>
      right
      left
      refine ⟨Or.inr ⟨members, rfl, h⟩, object (insertNull key members), ?_⟩
      simp only [subscript, h]
  | boolean b | integer n | unsigned n | float text | string s | array elements =>
    exact Or.inr (Or.inr ⟨nofun, nofun, _, rfl⟩)

theorem getString_string (s : Str) : (string s).getString = .ok s := rfl

theorem getString_of_not_string {j : Json} (h : j.isString = false) :
    ∃ what, j.getString = .error (.thrown (.json what)) := by
  cases j with
  | string s => cases h
  | null | boolean b | integer n | unsigned n | float text | array elements | object members =>
    exact ⟨_, rfl⟩

/-- `get<std::string>()` succeeds, or throws an exception of the library. -/
theorem getString_cases (j : Json) :
    (∃ s, j.getString = .ok s) ∨ ∃ what, j.getString = .error (.thrown (.json what)) := by
  by_cases hj : j.isString = true
  · cases j with
    | string s => exact Or.inl ⟨s, rfl⟩
    | null | boolean b | integer n | unsigned n | float text | array elements | object members =>
      cases hj
  · exact Or.inr (getString_of_not_string (by simpa using hj))

end Json
end IntBlock
