import Mathlib.Data.List.GetD
import TernaryConsole.Proofs.Drive

/-!
# Proofs.Isa — the instruction set over unbounded integers

`Isa.State` is what a program can observe, with no arrays, no fixed widths and no saturation:
memory is a function on all integers, registers and addresses are plain integers. `Isa.next` is the
instruction table over these states. Fields are weighted sums of cells, results are exact and then
reduced to balanced residues, and stack frames lie at exact addresses.

`step_refines_next` says that a step of a running machine is exactly one line of this table.
-/

namespace TernaryConsole

namespace Isa

/-! ## States -/

@[ext]
structure State where
  /-- The digit in every cell, zero outside memory. -/
  cell : Int → Int
  register : Register → Int
  pc : Int
  running : Bool
  input : InputPorts
  cycles : Nat
  /-- The latest values, oldest first. -/
  output : List Int
  last : Option Instruction

/-- The last 4096 values of a list. -/
def latest (values : List Int) : List Int :=
  values.drop (values.length - 4096)

/-- The balanced residue modulo `3^50`. -/
def residue (value : Int) : Int :=
  value.bmod (3 ^ 50)

/-- The balanced digit of a number at a position. -/
def digitOf (value : Int) (position : Nat) : Int :=
  ((value - value.bmod (3 ^ position)) / 3 ^ position).bmod 3

namespace State

/-- The weighted sum of a window of cells. -/
def field (s : State) (address : Int) (length : Nat) : Int :=
  ∑ i ∈ Finset.range length, 3 ^ i * s.cell (address + i)

def assign (s : State) (register : Register) (value : Int) : State :=
  { s with register := Function.update s.register register value }

/-- Saves the return address in the frame at `frame`; cells outside memory are dropped. -/
def saveReturn (s : State) (frame : Int) : State :=
  { s with
    cell := fun address =>
      if frame ≤ address ∧ address < frame + 15 ∧ 0 ≤ address ∧ address < Memory.size then
        digitOf s.pc (address - frame).toNat
      else
        s.cell address }

/-- Gives the screen cells of the rectangle in registers 3 to 6 the colour in registers 0 to 2. -/
def paint (s : State) : State :=
  { s with
    cell := fun address =>
      if Screen.IsScreenCell address ∧
          Screen.Covers (s.register 3) (s.register 4) (s.register 5) (s.register 6)
            (Screen.columnOf address) (Screen.rowOf address) then
        digitOf (s.register (Register.ofNat (Screen.placeOf address / 3)))
          (Screen.placeOf address % 3)
      else
        s.cell address }

/-- The value of a pointer field: horizontal, vertical, button. -/
def pointer (s : State) (selector : Int) : Int :=
  if selector = 0 then s.input.pointerX
  else if selector = 1 then s.input.pointerY
  else if selector = 2 ∧ s.input.button then 1
  else 0

/-- The fields of the instruction at the counter. -/
def current (s : State) : Instruction :=
  { code := s.field s.pc 4
    operand1 := Register.ofInt (s.field (s.pc + 4) 5)
    operand2 := s.field (s.pc + 9) 6 }

end State

/-! ## The table -/

/-- The effect of an instruction on a state whose counter is past it. -/
def effect (s : State) (i : Instruction) : State :=
  let a := i.operand1
  let lhs := s.register a
  let rhs := s.register (Register.ofInt i.operand2)
  let top := s.register 25
  match i.code with
  | 0 => { s with running := false }
  | 45 => { s with running := false }
  | 1 => s.assign a (residue (lhs + rhs))
  | 2 => s.assign a (residue (lhs - rhs))
  | 3 => s.assign a (residue (lhs * rhs))
  | 4 => s.assign a (if rhs = 0 then 0 else lhs.tdiv rhs)
  | 6 => s.assign a (residue (-lhs))
  | 11 => s.assign a i.operand2
  | 12 => s.assign a rhs
  | 20 => { s with pc := i.operand2 }
  | 21 => if lhs < 0 then { s with pc := i.operand2 } else s
  | 22 => if 0 < lhs then { s with pc := i.operand2 } else s
  | 23 => s.assign a (lhs - rhs).sign
  | 24 =>
    { (s.saveReturn (Memory.stackBase + top)).assign 25 (residue (top - 15)) with
      pc := i.operand2 }
  | 25 =>
    { s.assign 25 (residue (top + 15)) with
      pc := s.field (Memory.stackBase + (top + 15)) 15 }
  | 30 => s.paint
  | 31 => s.assign a (residue (s.pointer i.operand2))
  | 32 => s.assign a (if i.operand2 ∈ s.input.keys then 13 else 0)
  | 40 => { s with output := latest (s.output ++ [lhs]) }
  | _ => s

/-- The state after the instruction at the counter. -/
def next (s : State) : State :=
  effect { s with pc := s.pc + 15, cycles := s.cycles + 1, last := some s.current } s.current

end Isa

/-! ## The view of a machine -/

/-- What a program can observe of a machine. -/
def Machine.view (m : Machine) : Isa.State :=
  { cell := fun address => (m.memory.cell address).toInt
    register := m.registers.get
    pc := m.pc
    running := m.isRunning
    input := m.input
    cycles := m.cycles
    output := m.output.values
    last := m.last }

theorem Memory.load_eq_sum (memory : Memory) (address : Int) (length : Nat) :
    memory.load address length =
      ∑ i ∈ Finset.range length, 3 ^ i * (memory.cell (address + i)).toInt :=
  Field.read_eq_sum memory.cells address length

/-- The latest values after a push are the latest of the values with the new one behind. -/
theorem OutputChannel.values_push_eq_latest (channel : OutputChannel) (value : Int) :
    (channel.push value).values = Isa.latest (channel.values ++ [value]) := by
  rw [values_push, List.reverse_take]
  simp [Isa.latest, capacity]

/-- Values that were dropped before do not count among the latest. -/
theorem Isa.latest_latest_append (values tail : List Int) :
    latest (latest values ++ tail) = latest (values ++ tail) := by
  have hshort : values.length - 4096 ≤ values.length := Nat.sub_le _ _
  have htotal : values.length - 4096 +
      (values.length - (values.length - 4096) + tail.length - 4096) =
        values.length + tail.length - 4096 := by
    omega
  simp only [latest, List.length_append, List.length_drop]
  rw [← List.drop_append_of_le_length hshort, List.drop_drop, htotal]

namespace Machine

@[simp]
theorem view_field (m : Machine) (address : Int) (length : Nat) :
    m.view.field address length = m.memory.load address length :=
  (Memory.load_eq_sum m.memory address length).symm

theorem view_current (m : Machine) : m.view.current = m.current := by
  simp only [Isa.State.current, view_field]
  rfl

/-! ## The view of each effect -/

theorem view_setRegister (m : Machine) (register : Register) (value : Int) :
    (m.setRegister register value).view = m.view.assign register (Word.wrap value) := by
  have hregister : (m.registers.set register value).get =
      Function.update m.registers.get register (Word.wrap value) := by
    funext other
    rw [Registers.get_set, Function.update_apply]
    simp only [eq_comm]
  simp only [view, setRegister, Isa.State.assign, hregister]
  rfl

/-- Storing a value that wraps to `result` assigns `result`. -/
theorem view_setRegister_of_wrap (m : Machine) (register : Register) {value result : Int}
    (h : Word.wrap value = result) :
    (m.setRegister register value).view = m.view.assign register result := by
  rw [view_setRegister, h]

theorem view_emit (m : Machine) (value : Int) :
    (m.emit value).view = { m.view with output := Isa.latest (m.view.output ++ [value]) } := by
  simp only [view, emit, OutputChannel.values_push_eq_latest]
  rfl

theorem view_jump (m : Machine) {target : Int} (h : Memory.narrow target = target) :
    (m.jump target).view = { m.view with pc := target } := by
  simp only [view, jump, h]
  rfl

theorem digits_getD_toInt {length : Nat} (value : Int) {position : Nat} (h : position < length) :
    ((Numeral.digits length value).getD position .zero).toInt = Isa.digitOf value position := by
  have hlength : position < (Numeral.digits length value).length := by
    rwa [Numeral.length_digits]
  rw [List.getD_eq_getElem _ _ hlength, Numeral.toInt_digits_getElem, Isa.digitOf]

/-- A call saves its frame at the exact address, whatever the stack pointer holds. -/
theorem view_call (m : Machine) {target : Int} (h : Memory.narrow target = target) :
    (m.call target).view =
      { (m.view.saveReturn (Memory.stackBase + m.view.register 25)).assign 25
          (Isa.residue (m.view.register 25 - 15)) with
        pc := target } := by
  have hshort : Memory.slotWidth ≤ 80 := by decide
  have hregister := congrArg Isa.State.register
    (view_setRegister m 25 (m.registers.get 25 - 15))
  rw [Word.wrap_eq_bmod_pow] at hregister
  refine Isa.State.ext ?_ hregister h rfl rfl rfl rfl rfl
  funext address
  -- The frame is stored at a narrowed address, which meets the same cells.
  have hcell : (m.call target).view.cell address =
      ((m.memory.store (Memory.stackBase + m.registers.get 25) Memory.slotWidth
        m.pc).cell address).toInt := by
    rw [← Memory.store_narrow m.memory _ _ hshort]
    rfl
  rw [hcell, Memory.store_eq_storeRun, Memory.cell_storeRun, Numeral.length_digits]
  by_cases hmem : Memory.stackBase + m.registers.get 25 ≤ address ∧
      address < Memory.stackBase + m.registers.get 25 + Memory.slotWidth ∧ 0 ≤ address ∧
      address < Memory.size
  · have hplace : (address - (Memory.stackBase + m.registers.get 25)).toNat < Memory.slotWidth := by
      have hwidth : Memory.slotWidth = 15 := rfl
      omega
    rw [if_pos hmem, digits_getD_toInt m.pc hplace]
    exact (if_pos hmem).symm
  · rw [if_neg hmem]
    exact (if_neg hmem).symm

theorem view_ret (m : Machine) :
    m.ret.view =
      { m.view.assign 25 (Isa.residue (m.view.register 25 + 15)) with
        pc := m.view.field (Memory.stackBase + (m.view.register 25 + 15)) 15 } := by
  have hshort : Memory.slotWidth ≤ 80 := by decide
  have hregister := congrArg Isa.State.register
    (view_setRegister m 25 (m.registers.get 25 + 15))
  rw [Word.wrap_eq_bmod_pow] at hregister
  refine Isa.State.ext rfl hregister ?_ rfl rfl rfl rfl rfl
  -- The loaded address has fifteen trits, so narrowing keeps it.
  have hbounds := Memory.load_bounds m.memory (Memory.stackBase + (m.registers.get 25 + 15))
    Memory.slotWidth
  have hlargest : Numeral.largest Memory.slotWidth = 7174453 := by decide
  have hpc : m.ret.view.pc = Memory.narrow (m.memory.load
      (Memory.narrow (Memory.stackBase + (m.registers.get 25 + 15))) Memory.slotWidth) := rfl
  rw [hpc, Memory.load_narrow _ _ hshort, view_field]
  exact Memory.narrow_eq_self (by omega) (by omega)

/-- The digits of a pixel are three digits of each channel, one channel after the other. -/
theorem pixelDigits_getD_toInt (channel : Nat → Int) {place : Nat} (h : place < 9) :
    ((Screen.pixelDigits ⟨channel 0, channel 1, channel 2⟩).getD place .zero).toInt =
      Isa.digitOf (channel (place / 3)) (place % 3) := by
  have hlength : ∀ v, (Numeral.digits Screen.channelWidth v).length = 3 := fun v =>
    Numeral.length_digits 3 v
  have hdigit : ∀ v, ((Numeral.digits Screen.channelWidth v).getD (place % 3) .zero).toInt =
      Isa.digitOf v (place % 3) := fun v => digits_getD_toInt v (Nat.mod_lt _ (by decide))
  rw [Screen.pixelDigits]
  have hcases : place / 3 = 0 ∨ place / 3 = 1 ∨ place / 3 = 2 := by omega
  rcases hcases with hchannel | hchannel | hchannel
  · rw [List.getD_append _ _ _ _ (by rw [List.length_append, hlength, hlength]; omega),
      List.getD_append _ _ _ _ (by rw [hlength]; omega), hchannel, ← hdigit]
    rw [show place % 3 = place by omega]
  · rw [List.getD_append _ _ _ _ (by rw [List.length_append, hlength, hlength]; omega),
      List.getD_append_right _ _ _ _ (by rw [hlength]; omega), hlength, hchannel, ← hdigit]
    rw [show place % 3 = place - 3 by omega]
  · rw [List.getD_append_right _ _ _ _ (by rw [List.length_append, hlength, hlength]; omega),
      List.length_append, hlength, hlength, hchannel, ← hdigit]
    rw [show place % 3 = place - (3 + 3) by omega]

theorem view_fill (m : Machine) : m.fill.view = m.view.paint := by
  refine Isa.State.ext ?_ rfl rfl rfl rfl rfl rfl rfl
  funext address
  let argument (slot : Nat) := m.registers.get (Register.ofNat slot)
  have hcell : m.fill.view.cell address =
      ((Screen.fill m.memory ⟨argument 0, argument 1, argument 2⟩ (argument 3) (argument 4)
        (argument 5) (argument 6)).cell address).toInt := rfl
  rw [hcell, Screen.cell_fill]
  by_cases hpaint : Screen.IsScreenCell address ∧
      Screen.Covers (argument 3) (argument 4) (argument 5) (argument 6)
        (Screen.columnOf address) (Screen.rowOf address)
  · have hplace : Screen.placeOf address < 9 := by
      simp only [Screen.placeOf]
      omega
    rw [if_pos hpaint, pixelDigits_getD_toInt argument hplace]
    exact (if_pos hpaint).symm
  · rw [if_neg hpaint]
    exact (if_neg hpaint).symm

theorem pointerValue_eq_pointer (m : Machine) (selector : Int) :
    m.input.pointerValue selector = m.view.pointer selector := by
  simp only [InputPorts.pointerValue, Isa.State.pointer, view]
  split <;> simp_all

theorem keyValue_eq_ite (ports : InputPorts) (code : Int) :
    ports.keyValue code = if code ∈ ports.keys then 13 else 0 := by
  simp [InputPorts.keyValue, InputPorts.holds, InputPorts.held]

theorem keyValue_mem (ports : InputPorts) (code : Int) :
    Word.InRange (ports.keyValue code) := by
  rw [keyValue_eq_ite]
  split <;> constructor <;> decide

/-! ## One step -/

/-- The effect of an instruction is its line of the table. -/
theorem view_execute (m : Machine) (i : Instruction) (hregisters : m.registers.InRange)
    (hlow : -364 ≤ i.operand2) (hhigh : i.operand2 ≤ 364) :
    (m.execute i).view = Isa.effect m.view i := by
  have hnarrow : Memory.narrow i.operand2 = i.operand2 :=
    Memory.narrow_eq_self (by omega) (by omega)
  have hword : Word.wrap i.operand2 = i.operand2 := by
    apply Word.wrap_of_mem
    have hlargest : (364 : Int) ≤ Word.largest := by decide
    constructor <;> omega
  have hopcode : i.opcode = Opcode.ofCode i.code := rfl
  have hlhs := hregisters i.operand1
  have hrhs := hregisters i.source
  unfold Isa.effect
  -- One case for every line of the table, the last one for all codes that have none.
  split
  case h_1 hcode =>
    -- HALT
    simp only [execute, hopcode, hcode, Opcode.ofCode]
    rfl
  case h_2 hcode =>
    -- HALT by its second code
    simp only [execute, hopcode, hcode, Opcode.ofCode]
    rfl
  case h_3 hcode =>
    -- ADD
    simp only [execute, hopcode, hcode, Opcode.ofCode, Word.add_eq_bmod]
    exact view_setRegister_of_wrap m _ (Word.wrap_bmod _)
  case h_4 hcode =>
    -- SUB
    simp only [execute, hopcode, hcode, Opcode.ofCode, Word.sub_eq_bmod]
    exact view_setRegister_of_wrap m _ (Word.wrap_bmod _)
  case h_5 hcode =>
    -- MUL
    simp only [execute, hopcode, hcode, Opcode.ofCode, Word.mul_eq_bmod]
    exact view_setRegister_of_wrap m _ (Word.wrap_bmod _)
  case h_6 hcode =>
    -- DIV
    simp only [execute, hopcode, hcode, Opcode.ofCode]
    refine view_setRegister_of_wrap m _ ?_
    rw [Word.wrap_of_mem (Word.div_mem _ _), Word.div_of_mem hlhs]
    rfl
  case h_7 hcode =>
    -- NEG
    simp only [execute, hopcode, hcode, Opcode.ofCode, Word.negate_eq_bmod]
    exact view_setRegister_of_wrap m _ (Word.wrap_bmod _)
  case h_8 hcode =>
    -- SET
    simp only [execute, hopcode, hcode, Opcode.ofCode]
    exact view_setRegister_of_wrap m _ hword
  case h_9 hcode =>
    -- CPY
    simp only [execute, hopcode, hcode, Opcode.ofCode]
    exact view_setRegister_of_wrap m _ (Word.wrap_of_mem hrhs)
  case h_10 hcode =>
    -- JMP
    simp only [execute, hopcode, hcode, Opcode.ofCode]
    exact view_jump m hnarrow
  case h_11 hcode =>
    -- BRN
    simp only [execute, hopcode, hcode, Opcode.ofCode, apply_ite view, view_jump m hnarrow]
    rfl
  case h_12 hcode =>
    -- BRP
    simp only [execute, hopcode, hcode, Opcode.ofCode, apply_ite view, view_jump m hnarrow]
    rfl
  case h_13 hcode =>
    -- TRI
    simp only [execute, hopcode, hcode, Opcode.ofCode]
    refine view_setRegister_of_wrap m _ ?_
    rw [Word.wrap_of_mem (Word.compare_mem _ _), Word.compare_eq_sign]
    rfl
  case h_14 hcode =>
    -- CALL
    simp only [execute, hopcode, hcode, Opcode.ofCode]
    exact view_call m hnarrow
  case h_15 hcode =>
    -- RET
    simp only [execute, hopcode, hcode, Opcode.ofCode]
    exact view_ret m
  case h_16 hcode =>
    -- RECT
    simp only [execute, hopcode, hcode, Opcode.ofCode]
    exact view_fill m
  case h_17 hcode =>
    -- POLL_MOUSE
    simp only [execute, hopcode, hcode, Opcode.ofCode]
    refine view_setRegister_of_wrap m _ ?_
    rw [Word.wrap_eq_bmod_pow, pointerValue_eq_pointer]
    rfl
  case h_18 hcode =>
    -- POLL_KEY
    simp only [execute, hopcode, hcode, Opcode.ofCode]
    refine view_setRegister_of_wrap m _ ?_
    rw [Word.wrap_of_mem (keyValue_mem _ _), keyValue_eq_ite]
    rfl
  case h_19 hcode =>
    -- OUT
    simp only [execute, hopcode, hcode, Opcode.ofCode]
    exact view_emit m _
  case h_20 =>
    -- every other code
    have hnop : Opcode.ofCode i.code = .nop := by
      unfold Opcode.ofCode
      split <;> first | contradiction | rfl
    simp only [execute, hopcode, hnop]

/-- Counting an instruction commutes with its effect. -/
theorem record_execute (m : Machine) (i j : Instruction) :
    (m.execute i).record j = (m.record j).execute i := by
  cases hopcode : i.opcode with
  | brn =>
    simp only [execute, hopcode]
    exact apply_ite (fun after : Machine => after.record j) _ _ _
  | brp =>
    simp only [execute, hopcode]
    exact apply_ite (fun after : Machine => after.record j) _ _ _
  | nop => simp only [execute, hopcode]
  | _ =>
    simp only [execute, hopcode]
    rfl

theorem view_advance (m : Machine) (hregisters : m.registers.InRange) :
    m.advance.view = Isa.next m.view := by
  have hoperand := current_operand2_bounds m
  have hpast : (m.skip.record m.current).view =
      { m.view with
        pc := m.view.pc + 15, cycles := m.view.cycles + 1, last := some m.current } := rfl
  rw [advance, record_execute, view_execute (m.skip.record m.current) _ hregisters hoperand.1
    hoperand.2, hpast, Isa.next, view_current]

/-- A step of a running machine whose registers hold words is one line of the table. -/
theorem step_refines_next (m : Machine) (hrunning : m.isRunning = true)
    (hregisters : m.registers.InRange) : m.step.view = Isa.next m.view := by
  have hstate : m.isHalted = false := by
    cases hstate : m.state <;> simp_all [isRunning, isHalted]
  rw [step, hstate, if_neg (by decide)]
  exact view_advance m hregisters

/-- A call with the stack pointer at its least value: the frame is far below memory, and the
pointer wraps around. -/
def callAtLeastPointer : Machine :=
  { initial with
    memory := Instruction.store .blank 0 24 0 30
    registers := Registers.blank.set 25 (-Word.largest) }

theorem step_refines_next_call :
    callAtLeastPointer.isRunning = true ∧ callAtLeastPointer.registers.InRange ∧
      callAtLeastPointer.step.view = Isa.next callAtLeastPointer.view := by
  have hrunning : callAtLeastPointer.isRunning = true := rfl
  have hregisters : callAtLeastPointer.registers.InRange := Registers.inRange_blank.set _ _
  exact ⟨hrunning, hregisters, step_refines_next callAtLeastPointer hrunning hregisters⟩

end Machine

end TernaryConsole
