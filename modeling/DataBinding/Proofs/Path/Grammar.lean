import DataBinding.Proofs.Path.Addresses

/-!
# The grammar of addresses

Which texts are addresses and of what, and what is wrong with the others, all said as shapes of the
text. Every text has one of these shapes and the parser goes by them, so it takes exactly the texts of
the grammar, among them every address as it is written.
-/

namespace DataBinding

namespace Text

/-- One or more decimal digits, behind a single plus sign or not, as the number that they denote. -/
inductive Numeral : List Char → Nat → Prop
  | unsigned {digits : List Char} (hne : digits ≠ []) (each : ∀ c ∈ digits, c.isDigit = true) :
    Numeral digits (Nat.ofDigitChars 10 digits 0)
  | signed {digits : List Char} (hne : digits ≠ []) (each : ∀ c ∈ digits, c.isDigit = true) :
    Numeral ('+' :: digits) (Nat.ofDigitChars 10 digits 0)

namespace Numeral

variable {cs : List Char} {n : Nat}

theorem not_mem {c : Char} (numeral : Numeral cs n) (differs : c ≠ '+') (other : c.isDigit = false) :
    c ∉ cs := by
  have absent : ∀ digits : List Char, (∀ c ∈ digits, c.isDigit = true) → c ∉ digits := by
    intro digits each inside
    rw [each c inside] at other
    cases other
  cases numeral with
  | unsigned _ each => exact absent cs each
  | signed _ each => exact List.not_mem_cons_of_ne_of_not_mem differs (absent _ each)

theorem signed_iff {digits : List Char} : Numeral ('+' :: digits) n ↔
    digits ≠ [] ∧ (∀ c ∈ digits, c.isDigit = true) ∧ decimalValue digits = n := by
  constructor
  · intro numeral
    cases numeral with
    | unsigned _ each =>
      -- a plus sign is no digit
      exact absurd (each '+' List.mem_cons_self) (by decide)
    | signed hne each => exact ⟨hne, each, rfl⟩
  · rintro ⟨hne, each, rfl⟩
    exact .signed hne each

theorem unsigned_iff (free : ∀ rest, cs ≠ '+' :: rest) : Numeral cs n ↔
    cs ≠ [] ∧ (∀ c ∈ cs, c.isDigit = true) ∧ decimalValue cs = n := by
  constructor
  · intro numeral
    cases numeral with
    | unsigned hne each => exact ⟨hne, each, rfl⟩
    | signed _ _ => exact absurd rfl (free _)
  · rintro ⟨hne, each, rfl⟩
    exact .unsigned hne each

end Numeral

theorem index?_eq_some_iff {cs : List Char} {index : UInt64} :
    index? cs = some index ↔ Numeral cs index.toNat := by
  have value : ∀ digits : List Char, (if digits.isEmpty || !digits.all Char.isDigit then none
      else if fits : decimalValue digits < UInt64.size then
        some (UInt64.ofNatLT (decimalValue digits) fits)
      else none) = some index ↔
      digits ≠ [] ∧ (∀ c ∈ digits, c.isDigit = true) ∧ decimalValue digits = index.toNat := by
    intro digits
    have written : (digits.isEmpty || !digits.all Char.isDigit) = false ↔
        digits ≠ [] ∧ ∀ c ∈ digits, c.isDigit = true := by
      simp
    by_cases wrong : (digits.isEmpty || !digits.all Char.isDigit) = true
    · rw [if_pos wrong, ← and_assoc, ← written, wrong]
      simp
    rw [if_neg wrong, ← and_assoc, ← written, iff_true_intro (Bool.eq_false_iff.2 wrong), true_and]
    split
    case isTrue fits => rw [Option.some.injEq, ← UInt64.toNat_inj, UInt64.toNat_ofNatLT]
    case isFalse large =>
      have differs : decimalValue digits ≠ index.toNat := by
        intro same
        exact large (same ▸ index.toNat_lt)
      simp [differs]
  unfold index?
  split
  case h_1 rest => rw [Numeral.signed_iff, ← value rest]
  case h_2 free => rw [Numeral.unsigned_iff free, ← value cs]

theorem index?_eq_none_iff {cs : List Char} :
    index? cs = none ↔ ∀ index : UInt64, ¬ Numeral cs index.toNat := by
  rw [Option.eq_none_iff_forall_ne_some]
  exact forall_congr' fun index => not_congr index?_eq_some_iff

end Text

namespace Address

/-- What a text means as an address. -/
inductive Denotes (path : String) : Address → Prop
  | everything (blank : path = "") : Denotes path .everything
  | null (token : path = "%null%") : Denotes path .null
  | skip (token : path = "%%") : Denotes path .skip
  | dotted {digits : List Char} {index : UInt64} {inside : String}
    (numeral : Text.Numeral digits index.toNat)
    (shape : path.toList = '%' :: (digits ++ '%' :: '.' :: inside.toList)) :
    Denotes path (.element index inside)
  | undotted {digits : List Char} {index : UInt64} {inside : String}
    (numeral : Text.Numeral digits index.toNat)
    (shape : path.toList = '%' :: (digits ++ '%' :: inside.toList))
    (undotted : inside.toList.head? ≠ some '.') : Denotes path (.element index inside)

/-- Why a text is no address. -/
inductive Refused (path : String) : AddressError → Prop
  | notAnchored (nonempty : path ≠ "") (unanchored : ∀ body, path.toList ≠ '%' :: body) :
    Refused path (.notAnchored path)
  | unterminatedAnchor {body : List Char} (shape : path.toList = '%' :: body)
    (unterminated : '%' ∉ body) : Refused path (.unterminatedAnchor path)
  | malformedIndex {between tail : List Char} (notNull : path ≠ "%null%") (notSkip : path ≠ "%%")
    (shape : path.toList = '%' :: (between ++ '%' :: tail)) (first : '%' ∉ between)
    (malformed : ∀ index : UInt64, ¬ Text.Numeral between index.toNat) :
    Refused path (.malformedIndex path (String.ofList between))

variable {path : String}

theorem dropDot_of_head?_ne {tail : List Char} (undotted : tail.head? ≠ some '.') :
    dropDot tail = tail := by
  unfold dropDot
  split
  case h_1 => exact absurd rfl undotted
  case h_2 => rfl

theorem parse_of_numeral {digits tail : List Char} {index : UInt64}
    (numeral : Text.Numeral digits index.toNat)
    (shape : path.toList = '%' :: (digits ++ '%' :: tail)) :
    parse path = .ok (.element index (String.ofList (dropDot tail))) := by
  rw [parse_eq_element_iff shape, parseAnchor_eq_element_iff]
  have cut : Text.cutFirst? '%' (digits ++ '%' :: tail) = some (digits, tail) :=
    Text.cutFirst?_eq_some_iff.2 ⟨rfl, numeral.not_mem (by decide) (by decide)⟩
  exact ⟨digits, tail, cut, Text.index?_eq_some_iff.2 numeral, rfl⟩

theorem parse_of_denotes {address : Address} (denotes : Denotes path address) :
    parse path = .ok address := by
  cases denotes with
  | everything blank => rw [blank]; rfl
  | null token => rw [token]; rfl
  | skip token => rw [token]; rfl
  | dotted numeral shape =>
    rw [parse_of_numeral numeral shape, dropDot, String.ofList_toList]
  | undotted numeral shape undotted =>
    rw [parse_of_numeral numeral shape, dropDot_of_head?_ne undotted, String.ofList_toList]

theorem parse_of_body {body : List Char} (shape : path.toList = '%' :: body)
    (notNull : path ≠ "%null%") (notSkip : path ≠ "%%") : parse path = parseAnchor path body := by
  have nonempty : path ≠ "" := by
    rintro rfl
    cases shape
  rw [parse, if_neg nonempty, if_neg (show path ≠ nullToken from notNull),
    if_neg (show path ≠ skipToken from notSkip), shape]
  rfl

theorem parse_of_refused {e : AddressError} (refused : Refused path e) : parse path = .error e := by
  cases refused with
  | notAnchored nonempty unanchored =>
    have apart : ∀ token : String, (∃ body, token.toList = '%' :: body) → path ≠ token := by
      rintro _ ⟨body, shape⟩ rfl
      exact unanchored body shape
    rw [parse, if_neg nonempty, if_neg (apart nullToken ⟨_, rfl⟩), if_neg (apart skipToken ⟨_, rfl⟩)]
    split
    case h_1 body shape => exact absurd shape (unanchored body)
    case h_2 => rfl
  | unterminatedAnchor shape unterminated =>
    have apart : ∀ token : String, '%' ∈ token.toList.tail → path ≠ token := by
      rintro _ again rfl
      rw [shape] at again
      exact unterminated again
    rw [parse_of_body shape (apart _ (by decide)) (apart _ (by decide)), parseAnchor,
      Text.cutFirst?_eq_none_iff.2 unterminated]
  | malformedIndex notNull notSkip shape first malformed =>
    rw [parse_of_body shape notNull notSkip, parseAnchor,
      Text.cutFirst?_eq_some_iff.2 ⟨rfl, first⟩]
    simp only [Text.index?_eq_none_iff.2 malformed]

theorem exists_denotes {digits tail : List Char} {index : UInt64}
    (numeral : Text.Numeral digits index.toNat)
    (shape : path.toList = '%' :: (digits ++ '%' :: tail)) : ∃ address, Denotes path address := by
  by_cases dot : ∃ rest, tail = '.' :: rest
  · obtain ⟨rest, rfl⟩ := dot
    rw [← String.toList_ofList (l := rest)] at shape
    exact ⟨_, .dotted numeral shape⟩
  · rw [← String.toList_ofList (l := tail)] at shape
    refine ⟨_, .undotted numeral shape fun first => dot ?_⟩
    rw [String.toList_ofList] at first
    obtain ⟨rest, same⟩ := List.head?_eq_some_iff.1 first
    exact ⟨rest, same⟩

theorem exists_denotes_or_refused (path : String) :
    (∃ address, Denotes path address) ∨ ∃ e, Refused path e := by
  by_cases blank : path = ""
  · exact .inl ⟨_, .everything blank⟩
  by_cases null : path = "%null%"
  · exact .inl ⟨_, .null null⟩
  by_cases skip : path = "%%"
  · exact .inl ⟨_, .skip skip⟩
  by_cases anchored : ∃ body, path.toList = '%' :: body
  case neg => exact .inr ⟨_, .notAnchored blank (not_exists.1 anchored)⟩
  obtain ⟨body, shape⟩ := anchored
  cases cut : Text.cutFirst? '%' body with
  | none => exact .inr ⟨_, .unterminatedAnchor shape (Text.cutFirst?_eq_none_iff.1 cut)⟩
  | some pieces =>
    obtain ⟨between, tail⟩ := pieces
    obtain ⟨rfl, first⟩ := Text.cutFirst?_eq_some_iff.1 cut
    cases number : Text.index? between with
    | none => exact .inr ⟨_, .malformedIndex null skip shape first (Text.index?_eq_none_iff.1 number)⟩
    | some index => exact .inl (exists_denotes (Text.index?_eq_some_iff.1 number) shape)

theorem parse_eq_ok_iff {address : Address} : parse path = .ok address ↔ Denotes path address := by
  refine ⟨fun parsed => ?_, parse_of_denotes⟩
  rcases exists_denotes_or_refused path with ⟨other, denotes⟩ | ⟨e, refused⟩
  · rw [parse_of_denotes denotes] at parsed
    cases parsed
    exact denotes
  · rw [parse_of_refused refused] at parsed
    cases parsed

theorem parse_eq_error_iff {e : AddressError} : parse path = .error e ↔ Refused path e := by
  refine ⟨fun parsed => ?_, parse_of_refused⟩
  rcases exists_denotes_or_refused path with ⟨address, denotes⟩ | ⟨other, refused⟩
  · rw [parse_of_denotes denotes] at parsed
    cases parsed
  · rw [parse_of_refused refused] at parsed
    cases parsed
    exact refused

theorem parse_text (address : Address) : parse address.text = .ok address := by
  cases address with
  | everything | null | skip => rfl
  | element index inside =>
    rw [text]
    split
    case isTrue blank =>
      rw [blank]
      refine parse_of_denotes (.undotted (Text.index?_eq_some_iff.1 (Text.index?_repr index)) ?_ ?_)
      · simp [anchorText]
      · simp
    case isFalse => exact parse_anchorText_append index inside

/-- Every address is read back from its text, a text is read as an address exactly when the grammar
says so, and any other text is refused for the first thing that it has wrong. -/
theorem parse_reads_grammar : (∀ address : Address, parse address.text = .ok address) ∧
    ∀ path : String, (∀ address, parse path = .ok address ↔ Denotes path address) ∧
      ∀ e, parse path = .error e ↔ Refused path e :=
  ⟨parse_text, fun _ => ⟨fun _ => parse_eq_ok_iff, fun _ => parse_eq_error_iff⟩⟩

/-- A sign, leading zeros and the first dot behind the anchor are no part of what is read; the least
number that is too large is none. -/
example : parse "%+007%..a%" = .ok (.element 7 ".a%") ∧
    parse "%18446744073709551616%" = .error
      (.malformedIndex "%18446744073709551616%" "18446744073709551616") := by
  decide +kernel

end Address

end DataBinding
