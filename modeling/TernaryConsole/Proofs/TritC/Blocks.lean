import TernaryConsole.Proofs.Drive
import TernaryConsole.Proofs.TritC.Compiled

/-!
# Proofs.TritC.Blocks — how a machine runs compiled code

The instructions of a statement run one after the other, and all but the last one work on registers
only. `Glides` describes such a stretch of a run: registers and counter change, memory and output
stay the same throughout. Lists of transfers glide from their first slot to the slot behind
(`Glides.straight`).
-/

namespace TernaryConsole

namespace TritC

/-- A run whose machines follow each other by steps, whatever the ports hold in front of each. -/
def Driven (run : Nat → Machine) : Prop :=
  ∀ n, ∃ ports, run (n + 1) = ((run n).setInput ports).step

theorem driven_drive (writes : Machine.PortWrites) (m : Machine) :
    Driven (Machine.drive writes m) :=
  fun n => ⟨writes n (Machine.drive writes m n).input, rfl⟩

/-- What follows a machine that executes an instruction. -/
theorem Driven.executed {run : Nat → Machine} (hrun : Driven run) {n : Nat} {i : Instruction}
    (hi : (run n).executes = some i) :
    ∃ ports, run (n + 1) = (((run n).setInput ports).skip.execute i).record i := by
  obtain ⟨ports, hstep⟩ := hrun n
  exact ⟨ports, hstep.trans (Machine.step_of_executes hi)⟩

/-! ## Transfers -/

/-- Whether an operation does nothing but store a result, computed from registers, in a register. -/
def transfers : Opcode → Bool
  | .add | .sub | .mul | .div | .tri | .set | .cpy => true
  | _ => false

/-- The registers after such an operation. -/
def transfer (registers : Registers) (opcode : Opcode) (target : Register) (operand : Int) :
    Registers :=
  let lhs := registers.get target
  let rhs := registers.get (Register.ofInt operand)
  match opcode with
  | .add => registers.set target (Word.add lhs rhs)
  | .sub => registers.set target (Word.sub lhs rhs)
  | .mul => registers.set target (Word.mul lhs rhs)
  | .div => registers.set target (Word.div lhs rhs)
  | .tri => registers.set target (Word.compare lhs rhs)
  | .set => registers.set target operand
  | .cpy => registers.set target rhs
  | _ => registers

theorem execute_of_transfers (m : Machine) {i : Instruction}
    (h : transfers i.opcode = true) :
    m.execute i =
      { m with registers := transfer m.registers i.opcode i.operand1 i.operand2 } := by
  cases hop : i.opcode with
  | add | sub | mul | div | tri | set | cpy =>
    simp only [Machine.execute, hop]
    rfl
  | _ =>
    rw [hop] at h
    exact absurd h (by decide)

/-! ## Stretches of a run -/

/-- In `count` steps from step `n` on only registers and counter change, to these values. -/
structure Glides (run : Nat → Machine) (n count : Nat) (registers : Registers) (pc : Int) :
    Prop where
  registers_eq : (run (n + count)).registers = registers
  pc_eq : (run (n + count)).pc = pc
  state_eq : (run (n + count)).state = (run n).state
  quiet : ∀ k, k ≤ count →
    (run (n + k)).memory = (run n).memory ∧ (run (n + k)).output = (run n).output

namespace Glides

variable {run : Nat → Machine} {n : Nat}

theorem refl (run : Nat → Machine) (n : Nat) :
    Glides run n 0 (run n).registers (run n).pc where
  registers_eq := rfl
  pc_eq := rfl
  state_eq := rfl
  quiet := by
    intro k hk
    obtain rfl : k = 0 := by omega
    exact ⟨rfl, rfl⟩

theorem one {registers : Registers} {pc : Int} (hregisters : (run (n + 1)).registers = registers)
    (hpc : (run (n + 1)).pc = pc) (hstate : (run (n + 1)).state = (run n).state)
    (hmemory : (run (n + 1)).memory = (run n).memory)
    (houtput : (run (n + 1)).output = (run n).output) : Glides run n 1 registers pc where
  registers_eq := hregisters
  pc_eq := hpc
  state_eq := hstate
  quiet := by
    intro k hk
    obtain rfl | rfl : k = 0 ∨ k = 1 := by omega
    · exact ⟨rfl, rfl⟩
    · exact ⟨hmemory, houtput⟩

theorem trans {count more : Nat} {middle registers : Registers} {halfway pc : Int}
    (h : Glides run n count middle halfway) (hmore : Glides run (n + count) more registers pc) :
    Glides run n (count + more) registers pc where
  registers_eq := by
    rw [← Nat.add_assoc]
    exact hmore.registers_eq
  pc_eq := by
    rw [← Nat.add_assoc]
    exact hmore.pc_eq
  state_eq := by
    rw [← Nat.add_assoc, hmore.state_eq, h.state_eq]
  quiet := by
    intro k hk
    by_cases hfirst : k ≤ count
    · exact h.quiet k hfirst
    · obtain ⟨rest, rfl⟩ : ∃ rest, k = count + rest := ⟨k - count, by omega⟩
      have hrest := hmore.quiet rest (by omega)
      have hcount := h.quiet count (Nat.le_refl count)
      rw [Nat.add_assoc] at hrest
      exact ⟨hrest.1.trans hcount.1, hrest.2.trans hcount.2⟩

/-- A transfer glides to the next slot. -/
theorem of_transfers (hrun : Driven run) {i : Instruction} (hi : (run n).executes = some i)
    (htransfers : transfers i.opcode = true) :
    Glides run n 1 (transfer (run n).registers i.opcode i.operand1 i.operand2)
      ((run n).pc + 15) := by
  obtain ⟨ports, hafter⟩ := hrun.executed hi
  rw [execute_of_transfers _ htransfers] at hafter
  apply Glides.one <;> rw [hafter] <;> rfl

/-- An unconditional jump. -/
theorem of_jump (hrun : Driven run) {i : Instruction} (hi : (run n).executes = some i)
    (hop : i.opcode = .jmp) : Glides run n 1 (run n).registers (Memory.narrow i.operand2) := by
  obtain ⟨ports, hafter⟩ := hrun.executed hi
  have hexecute : ((run n).setInput ports).skip.execute i =
      ((run n).setInput ports).skip.jump i.operand2 := by
    simp only [Machine.execute, hop]
  rw [hexecute] at hafter
  apply Glides.one <;> rw [hafter] <;> rfl

/-- A jump that depends on the sign of a register. -/
theorem of_branch (hrun : Driven run) {i : Instruction} (hi : (run n).executes = some i)
    (taken : Prop) [Decidable taken]
    (hexecute : ∀ m : Machine, m.registers = (run n).registers →
      m.execute i = if taken then m.jump i.operand2 else m) :
    Glides run n 1 (run n).registers
      (if taken then Memory.narrow i.operand2 else (run n).pc + 15) := by
  obtain ⟨ports, hafter⟩ := hrun.executed hi
  rw [hexecute ((run n).setInput ports).skip rfl] at hafter
  by_cases htaken : taken
  · simp only [if_pos htaken] at hafter ⊢
    apply Glides.one <;> rw [hafter] <;> rfl
  · simp only [if_neg htaken] at hafter ⊢
    apply Glides.one <;> rw [hafter] <;> rfl

end Glides

/-! ## Standing on a slot -/

/-- A running machine on a slot of the program that was installed in `start`. -/
structure AtSlot (start x : Machine) (slot : Nat) : Prop where
  pc_eq : x.pc = 15 * slot
  state_eq : x.state = .running
  code : ∀ address : Int, address < Screen.base →
    x.memory.cell address = start.memory.cell address

/-- The next slot begins fifteen cells further on. -/
theorem AtSlot.pc_next {start x : Machine} {slot : Nat} (h : AtSlot start x slot) :
    x.pc + 15 = 15 * ((slot + 1 : Nat) : Int) := by
  rw [h.pc_eq]
  omega

theorem Glides.atSlot {run : Nat → Machine} {n count slot later : Nat} {registers : Registers}
    {start : Machine} (h : Glides run n count registers (15 * (later : Int)))
    (hat : AtSlot start (run n) slot) : AtSlot start (run (n + count)) later where
  pc_eq := h.pc_eq
  state_eq := h.state_eq.trans hat.state_eq
  code := by
    intro address hlow
    rw [(h.quiet count (Nat.le_refl count)).1]
    exact hat.code address hlow

namespace CodeAt

variable {registers : Name → Int} {statements : List Statement}
  {operations : List Assembly.Operation} {slot : Nat}

theorem left {first second : List Draft}
    (h : CodeAt registers statements operations slot (first ++ second)) :
    CodeAt registers statements operations slot first := by
  intro place draft hdraft
  apply h place draft
  rw [List.getElem?_append_left (List.getElem?_eq_some_iff.1 hdraft).1]
  exact hdraft

theorem right {first second : List Draft}
    (h : CodeAt registers statements operations slot (first ++ second)) :
    CodeAt registers statements operations (slot + first.length) second := by
  intro place draft hdraft
  have hwhole := h (first.length + place) draft (by
    rw [List.getElem?_append_right (by omega)]
    simpa using hdraft)
  rwa [← Nat.add_assoc] at hwhole

theorem head {draft : Draft} {rest : List Draft}
    (h : CodeAt registers statements operations slot (draft :: rest)) :
    CodeAt registers statements operations slot [draft] :=
  left (show CodeAt registers statements operations slot ([draft] ++ rest) from h)

theorem tail {draft : Draft} {rest : List Draft}
    (h : CodeAt registers statements operations slot (draft :: rest)) :
    CodeAt registers statements operations (slot + 1) rest :=
  right (show CodeAt registers statements operations slot ([draft] ++ rest) from h)

/-- A machine on the slot of a draft executes it. -/
theorem executes {m x : Machine} {source : String} {draft : Draft} {rest : List Draft}
    (h : CodeAt registers statements (Assembly.operations source) slot (draft :: rest))
    (hat : AtSlot (m.install source).2 x slot)
    (hsize : (Assembly.operations source).length ≤ 35429) :
    draft.target.Marked statements ∧ ∃ i, x.executes = some i ∧ i.opcode = draft.opcode ∧
      i.operand1 = Register.ofInt draft.register ∧
      i.operand2 = draft.target.operand registers statements slot ∧
      Memory.narrow i.operand2 = i.operand2 := by
  obtain ⟨hmarked, operation, hoperation, hop, hfirst, hsecond⟩ := h 0 draft rfl
  have hslot := (List.getElem?_eq_some_iff.1 hoperation).1
  have hbase := Screen.base_eq
  have hmemory : Memory.size = 1594323 := rfl
  rw [Nat.add_zero] at hoperation hslot hsecond
  -- The second operand of an instruction has six trits.
  have hbounds := Numeral.bmod_bounds 6 operation.operand2
  have hlargest : Numeral.largest 6 = 364 := by decide
  have hnarrow : Memory.narrow operation.instruction.operand2 =
      operation.instruction.operand2 := by
    apply Memory.narrow_eq_self
    · exact le_trans (by omega) hbounds.1
    · exact le_trans hbounds.2 (by omega)
  refine ⟨hmarked, operation.instruction, ?_, hop, hfirst, hsecond, hnarrow⟩
  apply Machine.executes_slot m hoperation (by omega) hat.pc_eq hat.state_eq
  intro address hlow hhigh
  exact hat.code address (by omega)

end CodeAt

/-- Behind the last slot the cells are zero, which reads as a halt. -/
theorem AtSlot.executes_end {m x : Machine} {source : String}
    (hat : AtSlot (m.install source).2 x (Assembly.operations source).length)
    (hsize : (Assembly.operations source).length ≤ 35429) :
    ∃ i, x.executes = some i ∧ i.opcode = .halt := by
  have hwidth : Instruction.codeWidth = 4 := rfl
  have hbase := Screen.base_eq
  have hcleared : Machine.clearedEnd = 1062882 := rfl
  -- The program ends in front of the screen, so the cells behind it have been cleared.
  have hzero : x.memory.load x.pc Instruction.codeWidth = 0 := by
    rw [← Memory.load_blank x.pc Instruction.codeWidth]
    apply Memory.load_congr
    intro address hlow hhigh
    rw [hat.pc_eq] at hlow hhigh
    rw [hat.code address (by omega), Machine.cell_install, Memory.cell_blank, if_neg (by omega),
      if_pos ⟨by omega, by omega⟩]
  have hopcode : x.current.opcode = Opcode.ofCode (x.memory.load x.pc Instruction.codeWidth) := rfl
  refine ⟨x.current, ?_, ?_⟩
  · simp [Machine.executes, Machine.isHalted, hat.state_eq]
  · rw [hopcode, hzero]
    rfl

/-! ## Straight code -/

/-- Whether a draft is a transfer with a known operand. -/
def Draft.IsStraight (draft : Draft) : Prop :=
  transfers draft.opcode = true ∧ ∃ value, draft.target = .value value

/-- The registers after a draft. -/
def Draft.apply (registers : Registers) (draft : Draft) : Registers :=
  match draft.target with
  | .value value =>
    transfer registers draft.opcode (Register.ofInt draft.register) (value.bmod (3 ^ 6))
  | _ => registers

/-- Straight code glides from its first slot to the slot behind its last one. -/
theorem Glides.straight {run : Nat → Machine} (hrun : Driven run) {m : Machine} {source : String}
    (hsize : (Assembly.operations source).length ≤ 35429) {registers : Name → Int}
    {statements : List Statement} {list : List Draft} (hstraight : ∀ d ∈ list, d.IsStraight)
    {n slot : Nat} (hat : AtSlot (m.install source).2 (run n) slot)
    (hcode : CodeAt registers statements (Assembly.operations source) slot list) :
    Glides run n list.length (list.foldl Draft.apply (run n).registers)
      (15 * ((slot + list.length : Nat) : Int)) := by
  -- By induction on the code, one step of the run and one slot at a time.
  induction list generalizing n slot with
  | nil =>
    have hpc : 15 * (slot : Int) = (run n).pc := hat.pc_eq.symm
    rw [List.length_nil, Nat.add_zero, hpc]
    exact Glides.refl run n
  | cons draft rest ih =>
    obtain ⟨_, i, hi, hop, hfirst, hsecond, _⟩ := hcode.executes hat hsize
    obtain ⟨htransfers, value, hvalue⟩ := hstraight draft List.mem_cons_self
    have hstep := Glides.of_transfers hrun hi (by rw [hop]; exact htransfers)
    have hregisters : transfer (run n).registers i.opcode i.operand1 i.operand2 =
        Draft.apply (run n).registers draft := by
      rw [hop, hfirst, hsecond, Draft.apply, hvalue]
      rfl
    rw [hregisters, hat.pc_next] at hstep
    have htail := ih (fun d hd => hstraight d (List.mem_cons_of_mem _ hd)) (hstep.atSlot hat)
      hcode.tail
    rw [hstep.registers_eq] at htail
    have hwhole := hstep.trans htail
    rw [List.length_cons, List.foldl_cons, Nat.add_comm rest.length 1, ← Nat.add_assoc]
    exact hwhole

/-! ## Jumps -/

section Jumps

variable {run : Nat → Machine} {m : Machine} {source : String} {registers : Name → Int}
  {statements : List Statement} {target : Target} {rest : List Draft} {n slot : Nat}

theorem Glides.jmp (hrun : Driven run) (hsize : (Assembly.operations source).length ≤ 35429)
    (hat : AtSlot (m.install source).2 (run n) slot) {register : Int}
    (hcode : CodeAt registers statements (Assembly.operations source) slot
      (⟨.jmp, register, target⟩ :: rest)) :
    target.Marked statements ∧
      Glides run n 1 (run n).registers (target.operand registers statements slot) := by
  obtain ⟨hmarked, i, hi, hop, _, hsecond, hnarrow⟩ := hcode.executes hat hsize
  have hjump := Glides.of_jump hrun hi hop
  rw [hnarrow, hsecond] at hjump
  exact ⟨hmarked, hjump⟩

theorem Glides.brn (hrun : Driven run) (hsize : (Assembly.operations source).length ≤ 35429)
    (hat : AtSlot (m.install source).2 (run n) slot) {register : Int}
    (hcode : CodeAt registers statements (Assembly.operations source) slot
      (⟨.brn, register, target⟩ :: rest)) :
    target.Marked statements ∧ Glides run n 1 (run n).registers
      (if (run n).registers.get (Register.ofInt register) < 0 then
        target.operand registers statements slot
      else 15 * ((slot + 1 : Nat) : Int)) := by
  obtain ⟨hmarked, i, hi, hop, hfirst, hsecond, hnarrow⟩ := hcode.executes hat hsize
  have hbranch := Glides.of_branch hrun hi
    ((run n).registers.get i.operand1 < 0) (by
      intro x hx
      simp only [Machine.execute, hop, hx])
  rw [hnarrow, hsecond, hfirst, hat.pc_next] at hbranch
  exact ⟨hmarked, hbranch⟩

theorem Glides.brp (hrun : Driven run) (hsize : (Assembly.operations source).length ≤ 35429)
    (hat : AtSlot (m.install source).2 (run n) slot) {register : Int}
    (hcode : CodeAt registers statements (Assembly.operations source) slot
      (⟨.brp, register, target⟩ :: rest)) :
    target.Marked statements ∧ Glides run n 1 (run n).registers
      (if 0 < (run n).registers.get (Register.ofInt register) then
        target.operand registers statements slot
      else 15 * ((slot + 1 : Nat) : Int)) := by
  obtain ⟨hmarked, i, hi, hop, hfirst, hsecond, hnarrow⟩ := hcode.executes hat hsize
  have hbranch := Glides.of_branch hrun hi
    (0 < (run n).registers.get i.operand1) (by
      intro x hx
      simp only [Machine.execute, hop, hx])
  rw [hnarrow, hsecond, hfirst, hat.pc_next] at hbranch
  exact ⟨hmarked, hbranch⟩

/-- The jumps behind a comparison lead to the label exactly when the condition holds, and else to
the slot behind them. -/
theorem Glides.testJumps (hrun : Driven run)
    (hsize : (Assembly.operations source).length ≤ 35429)
    (hat : AtSlot (m.install source).2 (run n) slot) {label : Name} {test : Test}
    (hcode : CodeAt registers statements (Assembly.operations source) slot
      (testJumps label test)) {a b : Int}
    (hscratch : (run n).registers.get (Register.ofInt scratch) = (b - a).sign) :
    Statement.label label ∈ statements ∧ ∃ count, 0 < count ∧
      Glides run n count (run n).registers
        (15 * ((if test.holds a b then slotOf registers statements (behind statements label)
          else slot + (TritC.testJumps label test).length : Nat) : Int)) := by
  have hneg : (run n).registers.get (Register.ofInt scratch) < 0 ↔ b < a := by
    rw [hscratch, Int.sign_neg_iff]
    omega
  have hpos : 0 < (run n).registers.get (Register.ofInt scratch) ↔ a < b := by
    rw [hscratch, Int.sign_pos_iff]
    omega
  cases test with
  | equal =>
    -- Both branches lead past the jump to the label.
    refine ⟨(hcode 2 _ rfl).1 label rfl, ?_⟩
    obtain ⟨_, hfirst⟩ := Glides.brn hrun hsize hat hcode
    by_cases hless : b < a
    · have hholds : ¬ Test.equal.holds a b := fun heq : a = b => by omega
      rw [if_pos (hneg.2 hless)] at hfirst
      rw [if_neg hholds]
      exact ⟨1, Nat.one_pos, hfirst⟩
    · rw [if_neg (mt hneg.1 hless)] at hfirst
      have hnext := hfirst.atSlot hat
      obtain ⟨_, hsecond⟩ := Glides.brp hrun hsize hnext hcode.tail
      rw [hfirst.registers_eq] at hsecond
      by_cases hmore : a < b
      · have hholds : ¬ Test.equal.holds a b := fun heq : a = b => by omega
        rw [if_pos (hpos.2 hmore)] at hsecond
        rw [if_neg hholds]
        exact ⟨2, Nat.two_pos, hfirst.trans hsecond⟩
      · have hholds : Test.equal.holds a b := show a = b by omega
        rw [if_neg (mt hpos.1 hmore)] at hsecond
        have hboth := hfirst.trans hsecond
        obtain ⟨_, hthird⟩ := Glides.jmp hrun hsize (hboth.atSlot hat)
          hcode.tail.tail
        rw [hboth.registers_eq] at hthird
        rw [if_pos hholds]
        exact ⟨3, Nat.succ_pos _, hboth.trans hthird⟩
  | notEqual =>
    -- Both branches lead to the label themselves.
    refine ⟨(hcode 0 _ rfl).1 label rfl, ?_⟩
    obtain ⟨_, hfirst⟩ := Glides.brn hrun hsize hat hcode
    by_cases hless : b < a
    · have hholds : Test.notEqual.holds a b := show a ≠ b by omega
      rw [if_pos (hneg.2 hless)] at hfirst
      rw [if_pos hholds]
      exact ⟨1, Nat.one_pos, hfirst⟩
    · rw [if_neg (mt hneg.1 hless)] at hfirst
      have hnext := hfirst.atSlot hat
      obtain ⟨_, hsecond⟩ := Glides.brp hrun hsize hnext hcode.tail
      rw [hfirst.registers_eq] at hsecond
      by_cases hmore : a < b
      · have hholds : Test.notEqual.holds a b := show a ≠ b by omega
        rw [if_pos (hpos.2 hmore)] at hsecond
        rw [if_pos hholds]
        exact ⟨2, Nat.two_pos, hfirst.trans hsecond⟩
      · have hholds : ¬ Test.notEqual.holds a b := fun hne : a ≠ b => hne (by omega)
        rw [if_neg (mt hpos.1 hmore)] at hsecond
        rw [if_neg hholds]
        exact ⟨2, Nat.two_pos, hfirst.trans hsecond⟩

end Jumps

end TritC

end TernaryConsole
