import DataBinding.Number.Shortest

/-!
# Layout of numbers

How the digits of a number are set: with a plain decimal point, or with one digit before the point
and a power of ten behind. A layout is one record, so each output format states its decisions in one
place.
-/

namespace DataBinding

/-- The decisions of a number format. -/
structure NumberLayout where
  /-- Choice between two equally near shortest decimals. -/
  tie : Tie
  /-- Whether a number whose first digit has this power of ten is written without an exponent. -/
  positional : Int → Bool
  /-- Whole numbers keep `.0`. -/
  pointAlways : Bool

namespace NumberLayout

private def zeros (n : Nat) : List Char :=
  List.replicate n '0'

/-- Digits around a decimal point. -/
def positionalText (pointAlways : Bool) (d : Decimal) : List Char :=
  if d.point ≤ 0 then
    ['0', '.'] ++ zeros (-d.point).toNat ++ d.digits
  else
    let before := d.point.toNat
    if d.digits.length ≤ before then
      d.digits ++ zeros (before - d.digits.length) ++ (if pointAlways then ['.', '0'] else [])
    else
      d.digits.take before ++ ['.'] ++ d.digits.drop before

/-- One digit before the point, and a signed power of ten. -/
def scientificText (d : Decimal) : List Char :=
  let power := d.point - 1
  let mantissa := match d.digits with
    | [] => []
    | [only] => [only]
    | first :: rest => first :: '.' :: rest
  mantissa ++ ['e', if power < 0 then '-' else '+'] ++ Nat.toDigits 10 power.natAbs

def text (layout : NumberLayout) (x : Finite) : String :=
  let d := x.shortest layout.tie
  let body :=
    if layout.positional (d.point - 1) then positionalText layout.pointAlways d
    else scientificText d
  String.ofList (if x.negative then '-' :: body else body)

/-- Numbers in JSON text: positional from 10⁻⁵ up to 10¹⁶, always with a fraction. -/
def json : NumberLayout :=
  ⟨.even, fun power => decide (-5 ≤ power ∧ power < 16), true⟩

/-- Numbers in messages: never with an exponent. -/
def plain : NumberLayout :=
  ⟨.up, fun _ => true, false⟩

/-- A digit, or one of the other characters that numbers are written with. -/
def Figure (c : Char) : Prop :=
  c.isDigit = true ∨ c ∈ ['.', '-', '+', 'e']

section Figures

variable {c : Char} {d : Decimal}

private theorem figure_of_mem_zeros {n : Nat} (inside : c ∈ zeros n) : Figure c := by
  rw [List.eq_of_mem_replicate inside]
  exact .inl (by decide)

private theorem figure_of_mem_positionalText {pointAlways : Bool}
    (digits : ∀ c ∈ d.digits, Figure c) (inside : c ∈ positionalText pointAlways d) :
    Figure c := by
  have point : ∀ c ∈ ['0', '.'], Figure c := by simp [Figure]
  rw [positionalText] at inside
  split at inside
  · rw [List.append_assoc, List.mem_append, List.mem_append] at inside
    rcases inside with lead | zero | digit
    · exact point c lead
    · exact figure_of_mem_zeros zero
    · exact digits c digit
  · dsimp only at inside
    split at inside
    · rw [List.append_assoc, List.mem_append, List.mem_append] at inside
      rcases inside with digit | zero | tail
      · exact digits c digit
      · exact figure_of_mem_zeros zero
      · split at tail
        · exact point c (by simpa [or_comm] using tail)
        · cases tail
    · rw [List.append_assoc, List.mem_append, List.mem_append] at inside
      rcases inside with digit | mark | digit
      · exact digits c (List.mem_of_mem_take digit)
      · exact point c (List.mem_cons_of_mem _ mark)
      · exact digits c (List.mem_of_mem_drop digit)

private theorem figure_of_mem_scientificText (digits : ∀ c ∈ d.digits, Figure c)
    (inside : c ∈ scientificText d) : Figure c := by
  rw [scientificText, List.append_assoc, List.mem_append, List.mem_append] at inside
  rcases inside with mantissa | power | digit
  · split at mantissa
    · cases mantissa
    · next only same => exact digits c (same ▸ mantissa)
    · next first rest same =>
      rw [same] at digits
      rcases List.mem_cons.1 mantissa with rfl | mantissa
      · exact digits c List.mem_cons_self
      · rcases List.mem_cons.1 mantissa with rfl | mantissa
        · exact .inr List.mem_cons_self
        · exact digits c (List.mem_cons_of_mem _ mantissa)
  · split at power <;> exact .inr (by revert power; simp +contextual [or_imp])
  · exact .inl (Nat.isDigit_of_mem_toDigits (by decide) (by decide) digit)

theorem figure_of_mem_text {layout : NumberLayout} {x : Finite}
    (inside : c ∈ (layout.text x).toList) : Figure c := by
  have digits : ∀ c ∈ (x.shortest layout.tie).digits, Figure c :=
    fun c there => .inl (x.isDigit_of_mem_shortest there)
  have body : ∀ c ∈ if layout.positional ((x.shortest layout.tie).point - 1) then
      positionalText layout.pointAlways (x.shortest layout.tie)
      else scientificText (x.shortest layout.tie), Figure c := by
    intro c inside
    split at inside
    · exact figure_of_mem_positionalText digits inside
    · exact figure_of_mem_scientificText digits inside
  rw [text, String.toList_ofList] at inside
  split at inside
  · rcases List.mem_cons.1 inside with rfl | inside
    · exact .inr (by decide)
    · exact body c inside
  · exact body c inside

end Figures

end NumberLayout

end DataBinding
