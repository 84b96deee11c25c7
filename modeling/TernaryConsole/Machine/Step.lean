import TernaryConsole.Listing
import TernaryConsole.Machine
import TernaryConsole.Screen

/-!
# Machine.Step — executing instructions

`advance` executes the instruction at the program counter of a running machine. Nothing that a
program does can fail: a zero divisor gives zero, an unassigned code does nothing, a point off
the screen is skipped. A halted machine does not move.

The counter is moved past the instruction before its effect, so a jump replaces it and a call
saves it. Targets and frame addresses are words; each is narrowed to the nearest address.
-/

namespace TernaryConsole

namespace Machine

/-! ## Effects -/

def jump (m : Machine) (target : Int) : Machine :=
  { m with pc := Memory.narrow target }

/-- Saves the counter in a new frame and jumps. The frame lies at the offset in the stack
pointer, which then moves down by one frame. -/
def call (m : Machine) (target : Int) : Machine :=
  let offset := m.registers.get Register.stackPointer
  { m with
    memory := m.memory.store (Memory.narrow (Memory.stackBase + offset)) Memory.slotWidth m.pc
    registers := m.registers.set Register.stackPointer (offset - 15)
    pc := Memory.narrow target }

/-- Moves the stack pointer up by one frame and continues where that frame says. -/
def ret (m : Machine) : Machine :=
  let offset := m.registers.get Register.stackPointer + 15
  let target := m.memory.load (Memory.narrow (Memory.stackBase + offset)) Memory.slotWidth
  { m with registers := m.registers.set Register.stackPointer offset, pc := Memory.narrow target }

/-- Fills the rectangle described by the first seven registers: colour, corner and sides. -/
def fill (m : Machine) : Machine :=
  let argument (slot : Nat) := m.registers.get (Register.ofNat slot)
  let colour : Colour := ⟨argument 0, argument 1, argument 2⟩
  { m with
    memory := Screen.fill m.memory colour (argument 3) (argument 4) (argument 5) (argument 6) }

/-- The effect of an instruction on a machine whose counter is past it. -/
def execute (m : Machine) (i : Instruction) : Machine :=
  let lhs := m.registers.get i.operand1
  let rhs := m.registers.get i.source
  match i.opcode with
  | .halt => m.halt
  | .add => m.setRegister i.operand1 (Word.add lhs rhs)
  | .sub => m.setRegister i.operand1 (Word.sub lhs rhs)
  | .mul => m.setRegister i.operand1 (Word.mul lhs rhs)
  | .div => m.setRegister i.operand1 (Word.div lhs rhs)
  | .neg => m.setRegister i.operand1 (Word.negate lhs)
  | .tri => m.setRegister i.operand1 (Word.compare lhs rhs)
  | .set => m.setRegister i.operand1 i.operand2
  | .cpy => m.setRegister i.operand1 rhs
  | .jmp => m.jump i.operand2
  | .brn => if lhs < 0 then m.jump i.operand2 else m
  | .brp => if 0 < lhs then m.jump i.operand2 else m
  | .call => m.call i.operand2
  | .ret => m.ret
  | .rect => m.fill
  | .pollMouse => m.setRegister i.operand1 (m.input.pointerValue i.operand2)
  | .pollKey => m.setRegister i.operand1 (m.input.keyValue i.operand2)
  | .out => m.emit lhs
  | .nop => m

/-! ## Single steps -/

/-- The instruction at the program counter. -/
def current (m : Machine) : Instruction :=
  Instruction.fetch m.memory m.pc

/-- Counts an executed instruction. -/
def record (m : Machine) (i : Instruction) : Machine :=
  { m with cycles := m.cycles + 1, last := some i }

/-- Moves the counter past the instruction it stands on. -/
def skip (m : Machine) : Machine :=
  { m with pc := m.pc + 15 }

/-- One step of a machine that is taken to run. -/
def advance (m : Machine) : Machine :=
  let i := m.current
  (m.skip.execute i).record i

/-- One step, which leaves a halted machine as it is. -/
def step (m : Machine) : Machine :=
  if m.isHalted then m else m.advance

/-! ## Bursts -/

/-- At most `budget` steps, added to the `executed` ones. -/
def burstFrom (executed : Nat) : Nat → Machine → Nat × Machine
  | 0, m => (executed, m)
  | budget + 1, m =>
    if m.isHalted then (executed, m) else burstFrom (executed + 1) budget m.advance

/-- At most `budget` steps, fewer if the machine halts: their number and the machine after. -/
def burst (budget : Nat) (m : Machine) : Nat × Machine :=
  burstFrom 0 budget m

/-! ## Traced bursts -/

/-- An executed instruction and where it stood. -/
structure TraceEntry where
  pc : Int
  instruction : Instruction
  deriving DecidableEq, Repr

def TraceEntry.text (entry : TraceEntry) : String :=
  Listing.address entry.pc ++ ": " ++ Listing.instruction entry.instruction

/-- A burst that adds what it executes to a trace. -/
def traceFrom (trace : Array TraceEntry) : Nat → Machine → Array TraceEntry × Machine
  | 0, m => (trace, m)
  | budget + 1, m =>
    if m.isHalted then (trace, m)
    else traceFrom (trace.push ⟨m.pc, m.current⟩) budget m.advance

/-- At most `budget` steps with their trace. -/
def traced (budget : Nat) (m : Machine) : Array TraceEntry × Machine :=
  traceFrom #[] budget m

end Machine

end TernaryConsole
