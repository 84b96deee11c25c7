import TernaryConsole.Memory
import TernaryConsole.Text.Column
import TernaryConsole.Text.Decimal
import TernaryConsole.Word

/-!
# Cli.Demo — the greeting

Without a command the program introduces itself with a few numbers in balanced ternary.
-/

namespace TernaryConsole

namespace Cli

namespace Demo

def banner : String :=
  "VOID-3 Emulator v0.1.0\nA balanced ternary fantasy console\n\n" ++
    "Use --help for available commands\n\n"

def tritRow (digit : Trit) : String :=
  "  " ++ String.singleton digit.letter ++ " = " ++ String.singleton digit.symbol ++ " = " ++
    Column.right 2 (Int.repr digit.toInt) ++ "\n"

def fieldRow (value : Int) : String :=
  "  " ++ Column.right 4 (Int.repr value) ++ " in 6 trits: " ++
    Numeral.text (Numeral.digits 6 value) ++ "\n"

def arithmeticRow (x y : Int) (sign : String) (result : Int) : String :=
  "  " ++ Int.repr x ++ " " ++ sign ++ " " ++ Int.repr y ++ " = " ++ Int.repr result ++ "\n"

def arithmetic (x y : Int) : String :=
  arithmeticRow x y "+" (Word.add x y) ++ arithmeticRow x y "-" (Word.sub x y) ++
    arithmeticRow x y "×" (Word.mul x y) ++ arithmeticRow x y "÷" (Word.div x y)

def text : String :=
  "━━━ Balanced Ternary Demo ━━━\n\n" ++
    "Trits (single balanced ternary digits):\n" ++ String.join (Trit.all.map tritRow) ++ "\n" ++
    "Fields (least significant trit first in memory, shown MSB first):\n" ++
    String.join ([42, -17, 364].map fieldRow) ++ "\n" ++
    "50-trit register arithmetic:\n" ++ arithmetic 12345 (-6789) ++
    "  " ++ Int.repr Word.largest ++ " + 1 wraps to " ++ Int.repr (Word.add Word.largest 1) ++
    "\n\nMachine: " ++ Nat.repr Memory.slotWidth ++ " trits per instruction at boot address " ++
    Int.repr Memory.bootAddress ++ "\n\n✓ Core ternary primitives working!\n"

end Demo

end Cli

end TernaryConsole
