/-!
# Text.Quoted — quoted strings of reports

A quoted string escapes the quotation mark, the reverse solidus and the control characters below
U+0020: five of them by a letter, the others by four hexadecimal digits. All other characters
stand for themselves.
-/

namespace TernaryConsole

namespace Quoted

/-- The letter that stands for a character after a reverse solidus. -/
def letterOf? : Char → Option Char
  | '"' => some '"'
  | '\\' => some '\\'
  | '\x08' => some 'b'
  | '\t' => some 't'
  | '\n' => some 'n'
  | '\x0c' => some 'f'
  | '\r' => some 'r'
  | _ => none

def escape (c : Char) : List Char :=
  match letterOf? c with
  | some letter => ['\\', letter]
  | none =>
    if c.toNat < 0x20 then
      ['\\', 'u', '0', '0', Nat.digitChar (c.toNat / 16), Nat.digitChar (c.toNat % 16)]
    else
      [c]

def write (text : String) : String :=
  "\"" ++ String.ofList (text.toList.flatMap escape) ++ "\""

end Quoted

end TernaryConsole
