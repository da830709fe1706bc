/-!
# Text

What the program does with text apart from showing it: lengths, indices, white space, and cutting
at a separator.
-/

namespace DataBinding.Text

/-! ### Length in 16-bit units

Hosts that keep text as UTF-16 count a character beyond the basic plane twice.
-/

/-- Number of 16-bit units that a character takes in UTF-16. -/
def charUnits (c : Char) : Nat :=
  if c.toNat < 0x10000 then 1 else 2

def units (s : String) : Nat :=
  s.toList.foldl (fun count c => count + charUnits c) 0

/-! ### Indices

An index is written with decimal digits, optionally after a single plus sign, and has to fit into
64 bits. Leading zeros are allowed.
-/

def digitValue (c : Char) : Nat :=
  c.toNat - '0'.toNat

/-- The number that a run of decimal digits denotes. -/
def decimalValue (digits : List Char) : Nat :=
  digits.foldl (fun value c => 10 * value + digitValue c) 0

def index? (cs : List Char) : Option UInt64 :=
  let digits := match cs with
    | '+' :: rest => rest
    | _ => cs
  if digits.isEmpty || !digits.all Char.isDigit then none
  else if fits : decimalValue digits < UInt64.size then
    some (UInt64.ofNatLT (decimalValue digits) fits)
  else none

/-! ### Blank text

White space is what Unicode gives the property of that name. A text is blank when it holds nothing
else, and trimming removes white space from both ends.
-/

/-- Inclusive ranges of the code points that are white space. -/
def blankRanges : List (Nat × Nat) :=
  [(0x9, 0xd), (0x20, 0x20), (0x85, 0x85), (0xa0, 0xa0), (0x1680, 0x1680), (0x2000, 0x200a),
    (0x2028, 0x2029), (0x202f, 0x202f), (0x205f, 0x205f), (0x3000, 0x3000)]

def isBlank (c : Char) : Bool :=
  blankRanges.any fun (low, high) => low ≤ c.toNat && c.toNat ≤ high

/-- The characters without the white space at either end. -/
def trimChars (cs : List Char) : List Char :=
  ((cs.dropWhile isBlank).reverse.dropWhile isBlank).reverse

def trim (s : String) : String :=
  String.ofList (trimChars s.toList)

/-- Nothing but white space. -/
def allBlank (s : String) : Bool :=
  s.toList.all isBlank

/-! ### Cutting at a separator

Lists are cut at every occurrence of a separator, at the first one, or at the last one. The pieces
never contain the separator where they are cut, and an empty text has one empty piece.
-/

section Cutting

variable {α : Type} [DecidableEq α]

/-- The piece before the first separator, and the pieces after it. -/
def pieces (separator : α) : List α → List α × List (List α)
  | [] => ([], [])
  | c :: rest =>
    let (head, tail) := pieces separator rest
    if c = separator then ([], head :: tail) else (c :: head, tail)

/-- All pieces between separators, in order. There is always at least one. -/
def splitList (separator : α) (xs : List α) : List (List α) :=
  (pieces separator xs).1 :: (pieces separator xs).2

/-- What stands before and after the first separator. -/
def cutFirst? (separator : α) : List α → Option (List α × List α)
  | [] => none
  | c :: rest =>
    if c = separator then some ([], rest)
    else (cutFirst? separator rest).map fun (before, after) => (c :: before, after)

/-- What stands before and after the last separator. -/
def cutLast? (separator : α) (xs : List α) : Option (List α × List α) :=
  (cutFirst? separator xs.reverse).map fun (after, before) => (before.reverse, after.reverse)

/-- Text on both sides of a separator is cut independently. -/
theorem splitList_append_cons (separator : α) (xs ys : List α) :
    splitList separator (xs ++ separator :: ys) =
      splitList separator xs ++ splitList separator ys := by
  suffices pieces separator (xs ++ separator :: ys) =
      ((pieces separator xs).1, (pieces separator xs).2 ++ splitList separator ys) by
    simp [splitList, this]
  induction xs with
  | nil => simp [pieces, splitList]
  | cons x rest ih =>
    by_cases same : x = separator <;> simp [pieces, same, ih]

theorem splitList_of_not_mem {separator : α} {xs : List α} (absent : separator ∉ xs) :
    splitList separator xs = [xs] := by
  suffices pieces separator xs = (xs, []) by simp [splitList, this]
  induction xs with
  | nil => rfl
  | cons x rest ih =>
    have differs : x ≠ separator := fun same => absent (by simp [same])
    have later : separator ∉ rest := fun found => absent (by simp [found])
    simp [pieces, ih later, differs]

private theorem not_mem_pieces (separator : α) (xs : List α) :
    separator ∉ (pieces separator xs).1 ∧ ∀ piece ∈ (pieces separator xs).2, separator ∉ piece := by
  induction xs with
  | nil => simp [pieces]
  | cons x rest ih =>
    by_cases same : x = separator
    · simpa [pieces, same] using ih
    · simpa [pieces, same, Ne.symm same] using ih

theorem not_mem_of_mem_splitList {separator : α} {xs piece : List α}
    (found : piece ∈ splitList separator xs) : separator ∉ piece := by
  obtain ⟨first, later⟩ := not_mem_pieces separator xs
  rcases List.mem_cons.1 found with rfl | inside
  · exact first
  · exact later piece inside

theorem cutFirst?_eq_some_iff {separator : α} {xs before after : List α} :
    cutFirst? separator xs = some (before, after) ↔
      xs = before ++ separator :: after ∧ separator ∉ before := by
  induction xs generalizing before with
  | nil => simp [cutFirst?]
  | cons x rest ih =>
    by_cases same : x = separator
    · cases before with
      | nil => simp [cutFirst?, same]
      | cons head tail =>
        simp [cutFirst?, same]
        exact fun equal _ differs => absurd equal differs
    · cases before with
      | nil => simp [cutFirst?, same]
      | cons head tail =>
        simp only [cutFirst?, same, if_false, Option.map_eq_some_iff, Prod.exists, Prod.mk.injEq,
          List.cons.injEq, List.cons_append, List.mem_cons, not_or]
        constructor
        · rintro ⟨b, a, cut, ⟨rfl, rfl⟩, rfl⟩
          obtain ⟨shape, absent⟩ := ih.1 cut
          exact ⟨⟨rfl, shape⟩, fun equal => same equal.symm, absent⟩
        · rintro ⟨⟨rfl, shape⟩, _, absent⟩
          exact ⟨tail, after, ih.2 ⟨shape, absent⟩, ⟨rfl, rfl⟩, rfl⟩

theorem cutFirst?_eq_none_iff {separator : α} {xs : List α} :
    cutFirst? separator xs = none ↔ separator ∉ xs := by
  induction xs with
  | nil => simp [cutFirst?]
  | cons x rest ih =>
    by_cases same : x = separator
    · simp [cutFirst?, same]
    · simp [cutFirst?, same, ih, Ne.symm same]

def split (separator : Char) (s : String) : List String :=
  (splitList separator s.toList).map String.ofList

def splitFirst? (separator : Char) (s : String) : Option (String × String) :=
  (cutFirst? separator s.toList).map fun (before, after) =>
    (String.ofList before, String.ofList after)

def splitLast? (separator : Char) (s : String) : Option (String × String) :=
  (cutLast? separator s.toList).map fun (before, after) =>
    (String.ofList before, String.ofList after)

/-- The last piece is the one without the separator. -/
theorem chars_of_splitLast? {separator : Char} {s head last : String}
    (cut : splitLast? separator s = some (head, last)) :
    s.toList = head.toList ++ separator :: last.toList ∧ separator ∉ last.toList := by
  obtain ⟨⟨before, after⟩, found, same⟩ := Option.map_eq_some_iff.1 cut
  obtain ⟨⟨tail, front⟩, backwards, swapped⟩ := Option.map_eq_some_iff.1 found
  obtain ⟨shape, absent⟩ := cutFirst?_eq_some_iff.1 backwards
  cases swapped
  cases same
  rw [List.reverse_eq_iff] at shape
  refine ⟨?_, by simpa using absent⟩
  rw [shape]
  simp

theorem not_mem_of_splitLast?_eq_none {separator : Char} {s : String}
    (uncut : splitLast? separator s = none) : separator ∉ s.toList := by
  rw [splitLast?, Option.map_eq_none_iff, cutLast?, Option.map_eq_none_iff,
    cutFirst?_eq_none_iff] at uncut
  simpa using uncut

end Cutting

end DataBinding.Text
