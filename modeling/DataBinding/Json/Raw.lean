import DataBinding.Number.Literal

/-!
# The grammar of JSON text

Reading happens in two steps. The first one, here, follows the grammar alone and keeps what was
written: number literals, escapes of single 16-bit units, and members in the order of the text.
Whether a literal is in range or an escape denotes a character is left to whoever needs its meaning,
so that text nobody looks at has to be well-formed and nothing more.
-/

namespace DataBinding

/-- A piece of a string: a character, or one 16-bit unit given by its number. -/
inductive StringPiece where
  | char (c : Char)
  | unit (n : Nat)
deriving DecidableEq

/-- JSON text as written. -/
inductive RawJson where
  | null
  | bool (b : Bool)
  | number (literal : NumberLiteral)
  | string (pieces : List StringPiece)
  | array (items : List RawJson)
  | object (members : List (List StringPiece × RawJson))

namespace RawJson

/-! Every reader below takes the front of a text and returns what it read with the rest. -/

def isSpace (c : Char) : Bool :=
  c = ' ' || c = '\n' || c = '\t' || c = '\r'

def skipSpace (cs : List Char) : List Char :=
  cs.dropWhile isSpace

def hexValue? (c : Char) : Option Nat :=
  if c.isDigit then some (c.toNat - '0'.toNat)
  else if 'a' ≤ c ∧ c ≤ 'f' then some (c.toNat - 'a'.toNat + 10)
  else if 'A' ≤ c ∧ c ≤ 'F' then some (c.toNat - 'A'.toNat + 10)
  else none

def unit? (a b c d : Char) : Option Nat := do
  return (((← hexValue? a) * 16 + (← hexValue? b)) * 16 + (← hexValue? c)) * 16 + (← hexValue? d)

def escape? (c : Char) : Option Char :=
  match c with
  | '\"' => some '\"'
  | '\\' => some '\\'
  | '/' => some '/'
  | 'b' => some '\x08'
  | 'f' => some '\x0c'
  | 'n' => some '\n'
  | 'r' => some '\r'
  | 't' => some '\t'
  | _ => none

/-- The pieces of a string up to its closing quote, which is read too. -/
def string? : List Char → Option (List StringPiece × List Char)
  | [] => none
  | '\"' :: rest => some ([], rest)
  | '\\' :: 'u' :: a :: b :: c :: d :: rest => do
    let n ← unit? a b c d
    let (pieces, rest) ← string? rest
    return (.unit n :: pieces, rest)
  | '\\' :: c :: rest => do
    let escaped ← escape? c
    let (pieces, rest) ← string? rest
    return (.char escaped :: pieces, rest)
  | c :: rest => do
    if c.toNat < 0x20 then none
    let (pieces, rest) ← string? rest
    return (.char c :: pieces, rest)

/-- One or more digits. -/
def digits? (cs : List Char) : Option (List Char × List Char) :=
  match cs.takeWhile Char.isDigit with
  | [] => none
  | digits => some (digits, cs.dropWhile Char.isDigit)

/-- Digits before the point: no zero in front of another digit. -/
def whole? (cs : List Char) : Option (List Char × List Char) := do
  let (digits, rest) ← digits? cs
  match digits with
  | '0' :: _ :: _ => none
  | _ => return (digits, rest)

def fraction? : List Char → Option (Option (List Char) × List Char)
  | '.' :: cs => (digits? cs).map fun (digits, rest) => (some digits, rest)
  | cs => some (none, cs)

def power? (negative : Bool) (cs : List Char) : Option (Option Int × List Char) :=
  (digits? cs).map fun (digits, rest) =>
    let power : Int := Text.decimalValue digits
    (some (if negative then -power else power), rest)

def exponent? : List Char → Option (Option Int × List Char)
  | c :: cs =>
    if c = 'e' ∨ c = 'E' then
      match cs with
      | '+' :: cs => power? false cs
      | '-' :: cs => power? true cs
      | cs => power? false cs
    else some (none, c :: cs)
  | [] => some (none, [])

def magnitude? (negative : Bool) (cs : List Char) : Option (NumberLiteral × List Char) := do
  let (whole, cs) ← whole? cs
  let (fraction, cs) ← fraction? cs
  let (exponent, cs) ← exponent? cs
  return (⟨negative, whole, fraction, exponent⟩, cs)

def number? : List Char → Option (NumberLiteral × List Char)
  | '-' :: cs => magnitude? true cs
  | cs => magnitude? false cs

def word? (word : List Char) (value : RawJson) (cs : List Char) : Option (RawJson × List Char) :=
  if word.isPrefixOf cs then some (value, cs.drop word.length) else none

mutual

/-- A value at the front of a text. The first argument bounds the number of steps. -/
def value? : Nat → List Char → Option (RawJson × List Char)
  | 0, _ => none
  | fuel + 1, cs =>
    match skipSpace cs with
    | '\"' :: cs => (string? cs).map fun (pieces, cs) => (.string pieces, cs)
    | '[' :: cs =>
      match skipSpace cs with
      | ']' :: cs => some (.array [], cs)
      | cs => (items? fuel cs).map fun (items, cs) => (.array items, cs)
    | '\x7b' :: cs =>
      match skipSpace cs with
      | '\x7d' :: cs => some (.object [], cs)
      | cs => (members? fuel cs).map fun (members, cs) => (.object members, cs)
    | 'n' :: cs => word? ['u', 'l', 'l'] .null cs
    | 't' :: cs => word? ['r', 'u', 'e'] (.bool true) cs
    | 'f' :: cs => word? ['a', 'l', 's', 'e'] (.bool false) cs
    | cs => (number? cs).map fun (literal, cs) => (.number literal, cs)

/-- Items up to the closing bracket. -/
def items? : Nat → List Char → Option (List RawJson × List Char)
  | 0, _ => none
  | fuel + 1, cs => do
    let (item, cs) ← value? fuel cs
    match skipSpace cs with
    | ',' :: cs =>
      let (items, cs) ← items? fuel cs
      return (item :: items, cs)
    | ']' :: cs => return ([item], cs)
    | _ => none

/-- Members up to the closing brace. -/
def members? : Nat → List Char → Option ((List (List StringPiece × RawJson)) × List Char)
  | 0, _ => none
  | fuel + 1, cs =>
    match skipSpace cs with
    | '\"' :: cs => do
      let (name, cs) ← string? cs
      match skipSpace cs with
      | ':' :: cs =>
        let (value, cs) ← value? fuel cs
        match skipSpace cs with
        | ',' :: cs =>
          let (members, cs) ← members? fuel cs
          return ((name, value) :: members, cs)
        | '\x7d' :: cs => return ([(name, value)], cs)
        | _ => none
      | _ => none
    | _ => none

end

/-- A whole text: one value, and nothing but space around it. -/
def read? (text : String) : Option RawJson :=
  let cs := text.toList
  match value? (cs.length + 1) cs with
  | some (json, rest) => if (skipSpace rest).isEmpty then some json else none
  | none => none

end RawJson

/-- The characters that the pieces of a string denote. A unit of the first half of a surrogate pair
needs one of the second half right behind it, and neither stands alone. -/
def stringChars? : List StringPiece → Option (List Char)
  | [] => some []
  | .char c :: rest => (stringChars? rest).map (c :: ·)
  | .unit n :: rest =>
    if 0xdc00 ≤ n ∧ n < 0xe000 then none
    else if 0xd800 ≤ n ∧ n < 0xdc00 then
      match rest with
      | .unit m :: rest =>
        if 0xdc00 ≤ m ∧ m < 0xe000 then
          (stringChars? rest).map (Char.ofNat (0x10000 + (n - 0xd800) * 0x400 + (m - 0xdc00)) :: ·)
        else none
      | _ => none
    else (stringChars? rest).map (Char.ofNat n :: ·)

def stringText? (pieces : List StringPiece) : Option String :=
  (stringChars? pieces).map String.ofList

end DataBinding
