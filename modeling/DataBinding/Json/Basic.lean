import DataBinding.Number.Literal

/-!
# JSON values

Integers that fit into 64 bits stay integers, every other number is a finite binary64 number. The
members of an object are kept in the order of their names, each name once; `Members.insert` and
`Members.erase` keep it so, and they obey the laws of a map on any list.

The data that definitions are bound to is a row of such values addressed by their index. An element
may be missing.
-/

namespace DataBinding

/-- A JSON number: an integer of 64 bits, signed or unsigned, or a binary64 number. -/
inductive JsonNumber where
  | int (n : Int) (low : -0x8000000000000000 ≤ n) (high : n < 0x10000000000000000)
  | float (x : Finite)
deriving DecidableEq

namespace JsonNumber

/-- The number as binary64, rounded to nearest. -/
def toBinary64 : JsonNumber → Binary64
  | .int n _ _ => .ofInt n
  | .float x => .finite x

/-- The number that a literal denotes. Integers beyond 64 bits and negative zero are binary64. -/
def ofLiteral? (x : NumberLiteral) : Option JsonNumber :=
  match x.toInt? with
  | some n =>
    if fits : -0x8000000000000000 ≤ n ∧ n < 0x10000000000000000 then some (.int n fits.1 fits.2)
    else x.toFinite?.map .float
  | none => x.toFinite?.map .float

/-- An index or a count. -/
def ofIndex (n : UInt64) : JsonNumber :=
  .int n.toNat (by omega) (by have := n.toNat_lt; omega)

end JsonNumber

inductive Json where
  | null
  | bool (b : Bool)
  | number (n : JsonNumber)
  | string (s : String)
  | array (items : List Json)
  | object (members : List (String × Json))
deriving Inhabited

/-- Named members in the order of their names. -/
abbrev Members (α : Type) := List (String × α)

namespace Members

variable {α : Type}

def get? (name : String) : Members α → Option α
  | [] => none
  | (key, value) :: rest => if key = name then some value else get? name rest

/-- Sets a member, in place of an earlier one of that name. -/
def insert (name : String) (value : α) : Members α → Members α
  | [] => [(name, value)]
  | (key, old) :: rest =>
    if key = name then (name, value) :: rest
    else if name < key then (name, value) :: (key, old) :: rest
    else (key, old) :: insert name value rest

/-- Sets a member that is there, where it stands. -/
def replace (name : String) (value : α) : Members α → Members α
  | [] => []
  | (key, old) :: rest =>
    if key = name then (name, value) :: rest else (key, old) :: replace name value rest

def erase (name : String) (members : Members α) : Members α :=
  members.filter fun member => member.1 ≠ name

def keys (members : Members α) : List String :=
  members.map (·.1)

/-- Members as they come; of two with one name the later stays. -/
def ofList (members : List (String × α)) : Members α :=
  members.foldl (fun all member => all.insert member.1 member.2) []

@[simp] theorem get?_insert_self (name : String) (value : α) (members : Members α) :
    (insert name value members).get? name = some value := by
  induction members with
  | nil => simp [insert, get?]
  | cons member rest ih =>
    by_cases same : member.1 = name
    · simp [insert, get?, same]
    · by_cases before : name < member.1
      · simp [insert, get?, same, before]
      · simp [insert, get?, same, before, ih]

theorem get?_insert_of_ne {name other : String} (differs : other ≠ name) (value : α)
    (members : Members α) : (insert name value members).get? other = members.get? other := by
  induction members with
  | nil => simp [insert, get?, Ne.symm differs]
  | cons member rest ih =>
    by_cases same : member.1 = name
    · simp [insert, get?, same, Ne.symm differs]
    · by_cases before : name < member.1
      · simp [insert, get?, same, before, Ne.symm differs]
      · simp [insert, get?, same, before, ih]

theorem get?_replace_self {name : String} {old : α} {members : Members α}
    (found : members.get? name = some old) (value : α) :
    (replace name value members).get? name = some value := by
  induction members with
  | nil => simp [get?] at found
  | cons member rest ih =>
    by_cases same : member.1 = name
    · simp [replace, get?, same]
    · simp only [get?, same, if_false] at found
      simp [replace, get?, same, ih found]

/-- Setting a member to what it is changes nothing. -/
theorem replace_self {name : String} {value : α} {members : Members α}
    (found : members.get? name = some value) : replace name value members = members := by
  induction members with
  | nil => rfl
  | cons member rest ih =>
    obtain ⟨key, old⟩ := member
    by_cases same : key = name
    · subst same
      simp only [get?, if_true, Option.some.injEq] at found
      simp [replace, found]
    · simp only [get?, same, if_false] at found
      simp [replace, same, ih found]

@[simp] theorem get?_erase_self (name : String) (members : Members α) :
    (erase name members).get? name = none := by
  induction members with
  | nil => rfl
  | cons member rest ih =>
    by_cases same : member.1 = name
    · simpa [erase, same] using ih
    · simpa [erase, same, get?] using ih

theorem get?_erase_of_ne {name other : String} (differs : other ≠ name) (members : Members α) :
    (erase name members).get? other = members.get? other := by
  induction members with
  | nil => rfl
  | cons member rest ih =>
    by_cases same : member.1 = name
    · simpa [erase, same, get?, Ne.symm differs] using ih
    · by_cases found : member.1 = other
      · simp [erase, get?, found, differs]
      · simpa [erase, same, get?, found] using ih

/-- Of two writes to one name only the later matters. -/
theorem insert_insert (name : String) (first second : α) (members : Members α) :
    insert name second (insert name first members) = insert name second members := by
  induction members with
  | nil => simp [insert]
  | cons member rest ih =>
    by_cases same : member.1 = name
    · simp [insert, same]
    · by_cases before : name < member.1
      · simp [insert, same, before]
      · simp [insert, same, before, ih]

end Members

namespace Json

def isContainer : Json → Bool
  | .array _ | .object _ => true
  | _ => false

end Json

/-! ### Data -/

abbrev Data := List (Option Json)

namespace Data

/-- An element, missing if it is null. -/
def element : Json → Option Json
  | .null => none
  | json => some json

/-- An array is the row of its items, null is the empty row, and any other value is a row of one. -/
def ofJson : Json → Data
  | .array items => items.map element
  | .null => []
  | json => [some json]

/-- Missing elements are written as null. -/
def toJson (data : Data) : Json :=
  .array (data.map fun element => element.getD .null)

end Data

end DataBinding
