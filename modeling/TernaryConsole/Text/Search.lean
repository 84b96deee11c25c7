import TernaryConsole.Text.Blank

/-!
# Text.Search — lines and first occurrences

`lines` cuts a text at line feeds, `before` and `splitOnce` cut at the first occurrence of a
separator.
-/

namespace TernaryConsole

namespace Text

/-! ## Lines -/

/-- A line that ended in a line feed loses one carriage return as well. -/
def withoutReturn (line : List Char) : List Char :=
  if line.getLast? = some '\r' then line.dropLast else line

/-- The lines of a text. A line feed ends a line, so none follows the last one; text after it is
a line of its own and is kept as it stands. -/
def lines (text : List Char) : List (List Char) :=
  let segments := text.splitOn '\n'
  segments.dropLast.map withoutReturn ++ (segments.getLast?.filter (· ≠ [])).toList

/-! ## First occurrences -/

/-- The texts around the first occurrence of `separator`. -/
def splitOnce (separator : List Char) : List Char → Option (List Char × List Char)
  | [] => if separator = [] then some ([], []) else none
  | c :: text =>
    if separator.isPrefixOf (c :: text) then
      some ([], (c :: text).drop separator.length)
    else
      (splitOnce separator text).map fun parts => (c :: parts.1, parts.2)

/-- The text in front of the first occurrence of `separator`, or the whole text. -/
def before (separator : List Char) (text : List Char) : List Char :=
  match splitOnce separator text with
  | some parts => parts.1
  | none => text

/-- What follows `lead`, if the text begins with it. -/
def strip? (lead text : List Char) : Option (List Char) :=
  if lead.isPrefixOf text then some (text.drop lead.length) else none

/-- What stands in front of `c`, if the text ends with it. -/
def stripLast? (c : Char) (text : List Char) : Option (List Char) :=
  if text.getLast? = some c then some text.dropLast else none

/-! ## Laws -/

theorem eq_of_splitOnce {separator text front tail : List Char}
    (h : splitOnce separator text = some (front, tail)) : text = front ++ separator ++ tail := by
  induction text generalizing front with
  | nil =>
    simp only [splitOnce] at h
    split at h <;> simp_all
  | cons c text ih =>
    simp only [splitOnce] at h
    split at h
    · next lead =>
      obtain ⟨more, eq⟩ := List.isPrefixOf_iff_prefix.1 lead
      simp only [Option.some.injEq, Prod.mk.injEq] at h
      obtain ⟨rfl, rfl⟩ := h
      simp [← eq]
    · obtain ⟨parts, found, eq⟩ := Option.map_eq_some_iff.1 h
      simp only [Prod.mk.injEq] at eq
      obtain ⟨rfl, rfl⟩ := eq
      simp [ih found]

end Text

end TernaryConsole
