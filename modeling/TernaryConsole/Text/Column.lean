/-!
# Text.Column — padded columns

A column is as wide as the larger of its width and its text, counted in code points.
-/

namespace TernaryConsole

namespace Column

def blanks (count : Nat) : String :=
  String.ofList (List.replicate count ' ')

/-- Text at the left edge of the column. -/
def left (width : Nat) (text : String) : String :=
  text ++ blanks (width - text.length)

/-- Text at the right edge of the column. -/
def right (width : Nat) (text : String) : String :=
  blanks (width - text.length) ++ text

end Column

end TernaryConsole
