import DataBinding.Proofs.Path.Extension

/-!
# Addresses in text

An index that is written in decimal digits is read as that index, so behind an anchor, with a dot in
between, any path leads into the element of that index.
-/

namespace DataBinding

namespace Text

theorem toList_repr (n : Nat) : (Nat.repr n).toList = Nat.toDigits 10 n := by
  rw [Nat.repr, String.toList_ofList]

theorem isDigit_of_mem_repr {n : Nat} {c : Char} (inside : c ∈ (Nat.repr n).toList) :
    c.isDigit = true := by
  rw [toList_repr] at inside
  exact Nat.isDigit_of_mem_toDigits (by decide) (by decide) inside

theorem decimalValue_repr (n : Nat) : decimalValue (Nat.repr n).toList = n := by
  rw [toList_repr]
  exact Nat.ofDigitChars_ten_toDigits

theorem index?_of_digits {cs : List Char} (hne : cs ≠ []) (digits : ∀ c ∈ cs, c.isDigit = true)
    (fits : decimalValue cs < UInt64.size) :
    index? cs = some (UInt64.ofNatLT (decimalValue cs) fits) := by
  unfold index?
  split
  case h_1 rest =>
    -- no digit is a plus sign
    exact absurd (digits '+' List.mem_cons_self) (by decide)
  case h_2 =>
    have written : (cs.isEmpty || !cs.all Char.isDigit) = false := by
      rw [List.isEmpty_eq_false_iff.2 hne, List.all_eq_true.2 digits]
      rfl
    simp only [written, Bool.false_eq_true, if_false, dif_pos fits]

theorem index?_repr (n : UInt64) : index? (Nat.repr n.toNat).toList = some n := by
  have written : (Nat.repr n.toNat).toList ≠ [] := by
    rw [toList_repr]
    exact Nat.toDigits_ne_nil
  have fits : decimalValue (Nat.repr n.toNat).toList < UInt64.size := by
    rw [decimalValue_repr]
    exact n.toNat_lt
  rw [index?_of_digits written (fun c inside => isDigit_of_mem_repr inside) fits, Option.some.injEq]
  apply UInt64.toNat.inj
  rw [UInt64.toNat_ofNatLT, decimalValue_repr]

end Text

namespace Address

theorem parse_anchorText_append (index : UInt64) (inside : String) :
    parse (anchorText index ++ "." ++ inside) = .ok (.element index inside) := by
  have shape : (anchorText index ++ "." ++ inside).toList =
      '%' :: ((Nat.repr index.toNat).toList ++ '%' :: '.' :: inside.toList) := by
    simp [anchorText]
  rw [parse_eq_element_iff shape, parseAnchor_eq_element_iff]
  refine ⟨_, '.' :: inside.toList, Text.cutFirst?_eq_some_iff.2 ⟨rfl, fun percent => ?_⟩,
    Text.index?_repr index, ?_⟩
  · exact absurd (Text.isDigit_of_mem_repr percent) (by decide)
  · rw [dropDot, String.ofList_toList]

end Address

end DataBinding
