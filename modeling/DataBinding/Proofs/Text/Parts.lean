import DataBinding.Text.Basic
import Mathlib.Data.List.TakeWhile

/-!
# Parts of text

Trimming gives text with no white space at either end and leaves such text alone. Parts that do not
contain the separator come back when they are joined with it and cut again.
-/

namespace DataBinding.Text

def Tight (cs : List Char) : Prop :=
  (∀ c, cs.head? = some c → isBlank c = false) ∧ ∀ c, cs.getLast? = some c → isBlank c = false

theorem head?_dropWhile_isBlank {cs : List Char} {c : Char}
    (first : (cs.dropWhile isBlank).head? = some c) : isBlank c = false := by
  have known := List.head?_dropWhile_not isBlank cs
  rwa [first] at known

theorem dropWhile_isBlank_of_head {cs : List Char}
    (first : ∀ c, cs.head? = some c → isBlank c = false) : cs.dropWhile isBlank = cs := by
  cases cs with
  | nil => rfl
  | cons c rest => rw [List.dropWhile_cons_of_neg]; rw [first c rfl]; exact Bool.false_ne_true

theorem tight_trimChars (cs : List Char) : Tight (trimChars cs) := by
  constructor
  · intro c first
    rw [trimChars, List.head?_reverse] at first
    -- what is left after both cuts starts where the first one stopped
    obtain ⟨before, split⟩ := List.dropWhile_suffix isBlank (l := (cs.dropWhile isBlank).reverse)
    refine @head?_dropWhile_isBlank cs c ?_
    rw [← List.getLast?_reverse, ← split, List.getLast?_append, first, Option.some_or]
  · intro c last
    rw [trimChars, List.getLast?_reverse] at last
    exact head?_dropWhile_isBlank last

theorem trimChars_of_tight {cs : List Char} (tight : Tight cs) : trimChars cs = cs := by
  rw [trimChars, dropWhile_isBlank_of_head tight.1, dropWhile_isBlank_of_head, List.reverse_reverse]
  intro c first
  rw [List.head?_reverse] at first
  exact tight.2 c first

theorem tight_append {xs ys : List Char} (front : Tight xs) (back : Tight ys) :
    Tight (xs ++ ys) := by
  constructor
  · intro c first
    cases xs with
    | nil => exact back.1 c first
    | cons x rest => exact front.1 c first
  · intro c last
    rw [List.getLast?_append] at last
    cases ends : ys.getLast? with
    | none =>
      rw [ends, Option.none_or] at last
      exact front.2 c last
    | some y =>
      rw [ends, Option.some_or, ← ends] at last
      exact back.2 c last

theorem trim_eq_self_iff {s : String} : trim s = s ↔ Tight s.toList := by
  constructor
  · intro same
    rw [← same, trim, String.toList_ofList]
    exact tight_trimChars _
  · intro tight
    rw [trim, trimChars_of_tight tight, String.ofList_toList]

theorem tight_trim (s : String) : Tight (trim s).toList := by
  rw [trim, String.toList_ofList]
  exact tight_trimChars _

theorem mem_of_mem_trimChars {c : Char} {cs : List Char} (inside : c ∈ trimChars cs) : c ∈ cs := by
  rw [trimChars, List.mem_reverse] at inside
  have kept := (List.dropWhile_sublist isBlank).subset inside
  rw [List.mem_reverse] at kept
  exact (List.dropWhile_sublist isBlank).subset kept

theorem splitList_intercalate {α : Type} [DecidableEq α] {separator : α} {parts : List (List α)}
    (hne : parts ≠ []) (whole : ∀ part ∈ parts, separator ∉ part) :
    splitList separator ([separator].intercalate parts) = parts := by
  induction parts with
  | nil => exact absurd rfl hne
  | cons part rest ih =>
    have first := splitList_of_not_mem (whole part List.mem_cons_self)
    cases rest with
    | nil =>
      rw [List.intercalate_singleton]
      exact first
    | cons next later =>
      rw [List.intercalate_cons_cons, List.append_assoc, List.singleton_append,
        splitList_append_cons, first, ih (List.cons_ne_nil _ _)]
      · rfl
      · exact fun other inside => whole other (List.mem_cons_of_mem _ inside)

/-- Parts that are joined with a mark of one character are found again. -/
theorem split_intercalate {separator : Char} {mark : String} {parts : List String}
    (one : mark.toList = [separator]) (hne : parts ≠ [])
    (whole : ∀ part ∈ parts, separator ∉ part.toList) :
    split separator (String.intercalate mark parts) = parts := by
  rw [split, String.toList_intercalate, one, splitList_intercalate, List.map_map]
  · simp [Function.comp_def]
  · simpa using hne
  · simpa using whole

end DataBinding.Text
