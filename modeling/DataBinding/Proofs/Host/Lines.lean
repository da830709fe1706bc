import DataBinding.Host.Report
import DataBinding.Proofs.Forest.Identities
import Mathlib.Data.List.Infix

/-!
# What can be read off a line of a report

A line is put together from parts that nothing keeps apart but the characters in them. Indentation
ends where the first letter is, a role ends in a colon where a kind is followed by a space, and
whatever may stand before the marks at the end of a line ends neither in a star nor in a closing
parenthesis. So a line has each mark, and the name of a role in front, only when it means it.
-/

namespace DataBinding

/-! ### Words -/

structure Text.Word (s : String) : Prop where
  filled : s.toList ≠ []
  letters : ∀ c ∈ s.toList, c.isAlpha = true

theorem Role.word_name (role : Role) : Text.Word role.name := by
  cases role <;> constructor <;> simp [Role.name]

theorem Kind.word_name (kind : Kind) : Text.Word kind.name := by
  cases kind <;> constructor <;> simp [Kind.name]

theorem Role.name_injective {role other : Role} (same : role.name = other.name) : role = other :=
  Option.some.inj (by rw [← ofName?_name role, same, ofName?_name])

namespace Text.Word

variable {s t : String}

theorem not_space_prefix (word : Word s) (rest : List Char) : ¬ " ".toList <+: s.toList ++ rest := by
  obtain ⟨c, others, same⟩ := List.exists_cons_of_ne_nil word.filled
  have letter := word.letters c (same ▸ List.mem_cons_self)
  rw [same, List.cons_append]
  intro blank
  rw [← (List.cons_prefix_cons.1 blank).1] at letter
  cases letter

/-- Where a word ends shows in the first character that is no letter. -/
theorem eq_of_append_eq (first : Word s) (second : Word t) {c d : Char} (ends : c.isAlpha = false)
    (ends' : d.isAlpha = false) {left right : List Char}
    (same : s.toList ++ c :: left = t.toList ++ d :: right) : s = t ∧ c = d := by
  have words : s.toList = t.toList := by
    have longest := congrArg (List.takeWhile Char.isAlpha) same
    rw [List.takeWhile_append_of_pos first.letters, List.takeWhile_append_of_pos second.letters,
      List.takeWhile_cons_of_neg (by simp [ends]), List.takeWhile_cons_of_neg (by simp [ends'])]
      at longest
    simpa using longest
  rw [words, List.append_cancel_left_eq, List.cons.injEq] at same
  exact ⟨String.toList_inj.1 words, same.1⟩

end Text.Word

namespace ReportLine

/-! ### The end of a line -/

/-- Neither of the characters that the marks of a line end in comes last. -/
def Unmarked (s : String) : Prop :=
  ∀ c ∈ s.toList.getLast?, c ≠ '*' ∧ c ≠ ')'

section Unmarked

variable {s t : String}

theorem unmarked_empty : Unmarked "" := by
  simp [Unmarked]

theorem unmarked_append (first : Unmarked s) (last : Unmarked t) : Unmarked (s ++ t) := by
  intro c final
  rw [String.toList_append, List.getLast?_append] at final
  rcases Option.or_eq_some_iff.1 final with here | ⟨_, there⟩
  · exact last c here
  · exact first c there

theorem unmarked_append_of_ne_nil (filled : t.toList ≠ []) (last : Unmarked t) (s : String) :
    Unmarked (s ++ t) := by
  intro c final
  rw [String.toList_append, List.getLast?_append_of_ne_nil _ filled] at final
  exact last c final

theorem unmarked_intercalate (separated : Unmarked t) {parts : List String}
    (each : ∀ s ∈ parts, Unmarked s) : Unmarked (String.intercalate t parts) := by
  induction parts with
  | nil => exact unmarked_empty
  | cons part rest ih =>
    rw [List.forall_mem_cons] at each
    cases rest with
    | nil => exact each.1
    | cons next rest =>
      rw [String.intercalate_cons_cons]
      exact unmarked_append (unmarked_append each.1 separated) (ih each.2)

theorem unmarked_of_figures (figures : ∀ c ∈ s.toList, NumberLayout.Figure c) : Unmarked s := by
  intro c final
  have figure := figures c (List.mem_of_mem_getLast? final)
  constructor <;> rintro rfl <;> revert figure <;> simp [NumberLayout.Figure]

theorem unmarked_nat (n : Nat) : Unmarked n.repr :=
  unmarked_of_figures fun _ inside => .inl (Text.isDigit_of_mem_repr inside)

theorem unmarked_int (n : Int) : Unmarked (toString n) := by
  rw [Int.toString_eq_repr, Int.repr_eq_if]
  split
  · exact unmarked_nat _
  · exact unmarked_append (by simp [Unmarked]) (unmarked_nat _)

theorem unmarked_number (x : Binary64) : Unmarked x.text := by
  cases x with
  | nan => simp [Unmarked, Binary64.text]
  | infinity negative => cases negative <;> simp [Unmarked, Binary64.text]
  | finite x =>
    rw [Binary64.text]
    split
    · exact unmarked_int _
    · exact unmarked_of_figures fun c => NumberLayout.figure_of_mem_text

theorem unmarked_value (v : Value) : Unmarked v.text := by
  cases v with
  | undefined | null => simp [Unmarked, Value.text]
  | bool b => cases b <;> simp [Unmarked, Value.text]
  | number x => exact unmarked_number x
  | string | array | object => exact unmarked_append_of_ne_nil (by simp) (by simp [Unmarked]) _

theorem unmarked_compact (json : Json) : Unmarked json.compact := by
  cases json with
  | null => simp [Unmarked, Json.compact]
  | bool b => cases b <;> simp [Unmarked, Json.compact]
  | number n =>
    cases n with
    | int n => exact unmarked_int n
    | float x => exact unmarked_of_figures fun c => NumberLayout.figure_of_mem_text
  | string | array | object => exact unmarked_append_of_ne_nil (by simp) (by simp [Unmarked]) _

theorem unmarked_reading (reading : Reading) : Unmarked reading.text := by
  cases reading with
  | value v => exact unmarked_value v
  | element json => exact unmarked_compact json

theorem unmarked_boundText (line : ReportLine) : Unmarked line.boundText := by
  rw [boundText]
  split
  · refine unmarked_append (unmarked_append_of_ne_nil (by simp) (by simp [Unmarked]) _) ?_
    refine unmarked_intercalate (by simp [Unmarked]) fun s inside => ?_
    obtain ⟨reading, _, rfl⟩ := List.mem_map.1 inside
    exact unmarked_reading reading
  · exact unmarked_empty

end Unmarked

/-! ### The parts of a line -/

variable (line : ReportLine)

def body : String :=
  line.roleText ++ line.kind.name ++ line.labelText ++ " [" ++ line.identity ++ "]" ++ line.boundText

theorem text_eq : line.text = line.indentation ++ (line.body ++ line.marks) := by
  simp only [text, body, String.append_assoc]

theorem unmarked_body : Unmarked line.body :=
  unmarked_append (unmarked_append_of_ne_nil (by simp) (by simp [Unmarked]) _)
    line.unmarked_boundText

/-- Behind a kind there is a space: the one before the label or the one before the identity. -/
theorem exists_kind_space (free : line.role = none) :
    ∃ rest, (line.body ++ line.marks).toList = line.kind.name.toList ++ ' ' :: rest := by
  obtain ⟨rest, same⟩ : ∃ rest, (line.labelText ++ " [").toList = ' ' :: rest := by
    rw [labelText]
    cases line.label <;> simp
  refine ⟨rest ++ (line.identity ++ "]" ++ line.boundText ++ line.marks).toList, ?_⟩
  rw [← List.cons_append, ← same, ← String.toList_append, ← String.toList_append]
  simp only [body, roleText, free, String.empty_append, String.append_assoc]

theorem exists_role_colon {role : Role} (cast : line.role = some role) :
    ∃ rest, (line.body ++ line.marks).toList = role.name.toList ++ ':' :: ' ' :: rest := by
  refine ⟨(line.kind.name ++ line.labelText ++ " [" ++ line.identity ++ "]" ++ line.boundText ++
    line.marks).toList, ?_⟩
  simp [body, roleText, cast]

theorem role_prefix_iff (role : Role) :
    (role.name ++ ": ").toList <+: (line.body ++ line.marks).toList ↔ line.role = some role := by
  constructor
  · rintro ⟨rest, same⟩
    replace same : (line.body ++ line.marks).toList = role.name.toList ++ ':' :: ' ' :: rest := by
      rw [← same]
      simp
    cases cast : line.role with
    | none =>
      obtain ⟨other, shape⟩ := line.exists_kind_space cast
      have ends := (line.kind.word_name.eq_of_append_eq role.word_name (by decide) (by decide)
        (shape.symm.trans same)).2
      cases ends
    | some given =>
      obtain ⟨other, shape⟩ := line.exists_role_colon cast
      have name := (given.word_name.eq_of_append_eq role.word_name (by decide) (by decide)
        (shape.symm.trans same)).1
      rw [Role.name_injective name]
  · intro cast
    obtain ⟨rest, shape⟩ := line.exists_role_colon cast
    exact ⟨rest, by rw [shape]; simp⟩

theorem not_space_prefix : ¬ " ".toList <+: (line.body ++ line.marks).toList := by
  cases cast : line.role with
  | none =>
    obtain ⟨rest, shape⟩ := line.exists_kind_space cast
    rw [shape]
    exact line.kind.word_name.not_space_prefix _
  | some role =>
    obtain ⟨rest, shape⟩ := line.exists_role_colon cast
    rw [shape]
    exact role.word_name.not_space_prefix _

def stem : String :=
  line.indentation ++ line.body ++ if line.hidden then " (hidden)" else ""

theorem text_eq_stem : line.text = line.stem ++ if line.edited then " *" else "" := by
  simp only [text_eq, stem, marks, String.append_assoc]

/-- A mark that may be added is at the end just when it was added, if nothing before it ends alike. -/
theorem mark_suffix_iff {s mark : String} {added : Bool} (c : Char)
    (ends : mark.toList.getLast? = some c) (differs : c ∉ s.toList.getLast?) :
    mark.toList <:+ (s ++ if added then mark else "").toList ↔ added = true := by
  cases added with
  | true => simp [String.toList_append]
  | false =>
    rw [if_neg Bool.false_ne_true, String.append_empty]
    refine iff_of_false (fun ⟨before, same⟩ => differs ?_) Bool.false_ne_true
    rw [← same, List.getLast?_append, ends]
    rfl

theorem hidden_suffix_iff : " (hidden)".toList <:+ line.stem.toList ↔ line.hidden = true := by
  have plain := unmarked_append_of_ne_nil (by simp [body]) line.unmarked_body line.indentation
  exact mark_suffix_iff ')' (by simp) fun final => (plain _ final).2 rfl

theorem star_suffix_iff : " *".toList <:+ line.text.toList ↔ line.edited = true := by
  have plain := unmarked_append_of_ne_nil (by simp [body]) line.unmarked_body line.indentation
  rw [text_eq_stem]
  refine mark_suffix_iff '*' (by simp) fun final => ?_
  rw [stem] at final
  -- a hidden definition leaves a parenthesis there, any other one the end of the body
  split at final
  · simp at final
  · rw [String.append_empty] at final
    exact (plain _ final).1 rfl

end ReportLine

end DataBinding
