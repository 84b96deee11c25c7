import TernaryConsole.Proofs.Drive

/-!
# Proofs.Isolation — an installed program starts afresh

Installing clears the program region and the screen but not the cells behind them, where call
frames lie. Two machines that get the same program and the same port writes stay in lockstep as
long as the first one reads no cell of that area that was not written since the installation
(`lockstep_of_reads_written`). Nothing else of what the machines held before has any influence.

The invariant is `AgreeOn`: equal processors, and equal cells below the uncleared area and wherever
the assembler or a call wrote.
-/

namespace TernaryConsole

namespace Machine

/-! ## Reads and writes -/

/-- The cells that the next step reads: its instruction and, when it returns, a frame. -/
def Reads (m : Machine) (address : Int) : Prop :=
  ∃ i, m.executes = some i ∧
    ((m.pc ≤ address ∧ address < m.pc + 15) ∨
      (i.opcode = .ret ∧ m.frame + 15 ≤ address ∧ address < m.frame + 30))

/-- The cells that the assembler wrote for so many instructions, or a call in the first steps of
the run. -/
def WrittenSince (run : Nat → Machine) (instructions steps : Nat) (address : Int) : Prop :=
  (0 ≤ address ∧ address < 15 * instructions) ∨ ∃ k, k < steps ∧ (run k).Saves address

theorem WrittenSince.succ {run : Nat → Machine} {instructions steps : Nat} {address : Int}
    (h : WrittenSince run instructions (steps + 1) address) :
    WrittenSince run instructions steps address ∨ (run steps).Saves address := by
  rcases h with himage | ⟨k, hk, hsaves⟩
  · exact Or.inl (Or.inl himage)
  · by_cases hlast : k = steps
    · subst hlast
      exact Or.inr hsaves
    · exact Or.inl (Or.inr ⟨k, by omega, hsaves⟩)

/-! ## Agreement -/

/-- Machines that differ at most in memory, and there only outside `S`. -/
structure AgreeOn (S : Int → Prop) (a b : Machine) : Prop where
  registers : a.registers = b.registers
  pc : a.pc = b.pc
  state : a.state = b.state
  input : a.input = b.input
  cycles : a.cycles = b.cycles
  output : a.output = b.output
  last : a.last = b.last
  cells : ∀ address, S address → a.memory.cell address = b.memory.cell address

namespace AgreeOn

variable {S T : Int → Prop} {a b : Machine}

theorem mono (h : AgreeOn S a b) (hsub : ∀ address, T address → S address) : AgreeOn T a b :=
  { h with cells := fun address hT => h.cells address (hsub address hT) }

/-- The second machine is the first one with its own memory. -/
theorem eq_with_memory (h : AgreeOn S a b) : b = { a with memory := b.memory } := by
  cases a
  cases b
  simp only [Machine.mk.injEq, true_and]
  exact ⟨h.registers.symm, h.pc.symm, h.state.symm, h.input.symm, h.cycles.symm, h.output.symm,
    h.last.symm⟩

theorem setInput (h : AgreeOn S a b) (ports : InputPorts) :
    AgreeOn S (a.setInput ports) (b.setInput ports) :=
  { h with input := rfl }

theorem skip (h : AgreeOn S a b) : AgreeOn S a.skip b.skip :=
  { h with pc := by simp only [Machine.skip, h.pc] }

theorem record (h : AgreeOn S a b) (i : Instruction) : AgreeOn S (a.record i) (b.record i) :=
  { h with
    cycles := by simp only [Machine.record, h.cycles]
    last := rfl }

/-- Machines whose counters stand on equal cells execute the same instruction. -/
theorem executes (h : AgreeOn S a b)
    (hcells : a.isHalted = false → ∀ address, a.pc ≤ address → address < a.pc + 15 →
      a.memory.cell address = b.memory.cell address) : a.executes = b.executes := by
  have hstate : a.isHalted = b.isHalted := by simp only [isHalted, h.state]
  cases hhalted : a.isHalted with
  | true => simp only [Machine.executes, ← hstate, hhalted, if_true]
  | false =>
    have hcurrent : a.current = b.current := by
      rw [current, current, ← h.pc]
      exact Instruction.fetch_congr (hcells hhalted)
    simp only [Machine.executes, ← hstate, hhalted, hcurrent]

end AgreeOn

/-- Instructions that touch no memory do the same over any memory. -/
theorem execute_with_memory (m : Machine) (memory : Memory) {i : Instruction}
    (hcall : i.opcode ≠ .call) (hret : i.opcode ≠ .ret) (hrect : i.opcode ≠ .rect) :
    ({ m with memory := memory }).execute i = { m.execute i with memory := memory } ∧
      (m.execute i).memory = m.memory := by
  unfold execute
  cases hop : i.opcode with
  | call => exact absurd hop hcall
  | ret => exact absurd hop hret
  | rect => exact absurd hop hrect
  | brn =>
    by_cases hneg : m.registers.get i.operand1 < 0
    · simp only [if_pos hneg]
      exact ⟨rfl, rfl⟩
    · simp only [if_neg hneg, and_self]
  | brp =>
    by_cases hpos : 0 < m.registers.get i.operand1
    · simp only [if_pos hpos]
      exact ⟨rfl, rfl⟩
    · simp only [if_neg hpos, and_self]
  | _ => exact ⟨rfl, rfl⟩

namespace AgreeOn

variable {S : Int → Prop} {a b : Machine}

/-- A call extends the agreement by the frame that it saves. -/
theorem call (h : AgreeOn S a b) (target : Int) :
    AgreeOn (fun address => S address ∨ (a.frame ≤ address ∧ address < a.frame + 15))
      (a.call target) (b.call target) := by
  have hcells := h.cells
  rw [h.eq_with_memory] at hcells ⊢
  generalize b.memory = memory at hcells ⊢
  refine ⟨rfl, rfl, rfl, rfl, rfl, rfl, rfl, ?_⟩
  intro address haddress
  rw [memory_call, memory_call, Memory.store_eq_storeRun, Memory.store_eq_storeRun,
    Memory.cell_storeRun, Memory.cell_storeRun, Numeral.length_digits]
  by_cases hsaved : a.frame ≤ address ∧ address < a.frame + Memory.slotWidth ∧ 0 ≤ address ∧
      address < Memory.size
  · exact (if_pos hsaved).trans (if_pos hsaved).symm
  · refine (if_neg hsaved).trans (Eq.trans ?_ (if_neg hsaved).symm)
    rcases haddress with hS | hwindow
    · exact hcells address hS
    · -- The part of the frame that lies outside memory reads as zero.
      have hwidth : Memory.slotWidth = 15 := rfl
      have hout : ¬ (0 ≤ address ∧ address < Memory.size) := by omega
      rw [Memory.cell_of_not_mem hout]
      exact (Memory.cell_of_not_mem hout).symm

/-- A return goes to the same address if the frame that it loads is the same. -/
theorem ret (h : AgreeOn S a b)
    (hframe : ∀ address, a.frame + 15 ≤ address → address < a.frame + 30 →
      a.memory.cell address = b.memory.cell address) : AgreeOn S a.ret b.ret := by
  have hcells := h.cells
  rw [h.eq_with_memory] at hframe hcells ⊢
  generalize b.memory = memory at hframe hcells ⊢
  have hload : a.memory.load (a.frame + 15) Memory.slotWidth =
      memory.load (a.frame + 15) Memory.slotWidth := by
    have hwidth : Memory.slotWidth = 15 := rfl
    apply Memory.load_congr
    intro address hlow hhigh
    exact hframe address hlow (by omega)
  refine ⟨rfl, ?_, rfl, rfl, rfl, rfl, rfl, hcells⟩
  rw [pc_ret, pc_ret, hload]
  rfl

/-- A fill writes colours that do not depend on memory. -/
theorem fill (h : AgreeOn S a b) : AgreeOn S a.fill b.fill := by
  have hcells := h.cells
  rw [h.eq_with_memory] at hcells ⊢
  generalize b.memory = memory at hcells ⊢
  refine ⟨rfl, rfl, rfl, rfl, rfl, rfl, rfl, ?_⟩
  intro address hS
  simp only [Machine.fill, Screen.cell_fill, hcells address hS]

/-- An instruction keeps the agreement and extends it by the frame that a call saves, if the frame
that a return loads is the same in both machines. -/
theorem execute (h : AgreeOn S a b) (i : Instruction)
    (hframe : i.opcode = .ret → ∀ address, a.frame + 15 ≤ address → address < a.frame + 30 →
      a.memory.cell address = b.memory.cell address) :
    AgreeOn (fun address => S address ∨
        (i.opcode = .call ∧ a.frame ≤ address ∧ address < a.frame + 15))
      (a.execute i) (b.execute i) := by
  by_cases hcall : i.opcode = .call
  · have hexec : ∀ m : Machine, m.execute i = m.call i.operand2 := by
      intro m
      simp only [Machine.execute, hcall]
    rw [hexec, hexec]
    apply (h.call i.operand2).mono
    rintro address (hS | ⟨_, hwindow⟩)
    · exact Or.inl hS
    · exact Or.inr hwindow
  · -- Nothing else saves a frame, so the agreement is the old one.
    refine mono (S := S) ?_ fun address haddress =>
      haddress.resolve_right fun hsaved => hcall hsaved.1
    by_cases hret : i.opcode = .ret
    · have hexec : ∀ m : Machine, m.execute i = m.ret := by
        intro m
        simp only [Machine.execute, hret]
      rw [hexec, hexec]
      exact h.ret (hframe hret)
    · by_cases hrect : i.opcode = .rect
      · have hexec : ∀ m : Machine, m.execute i = m.fill := by
          intro m
          simp only [Machine.execute, hrect]
        rw [hexec, hexec]
        exact h.fill
      · have hboth := execute_with_memory a b.memory hcall hret hrect
        have hcells := h.cells
        rw [h.eq_with_memory, hboth.1]
        refine ⟨rfl, rfl, rfl, rfl, rfl, rfl, rfl, ?_⟩
        intro address hS
        rw [hboth.2]
        exact hcells address hS

/-- One step under the same ports keeps the agreement, if all cells that it reads agree. -/
theorem step (h : AgreeOn S a b)
    (hreads : ∀ address, a.Reads address → a.memory.cell address = b.memory.cell address) :
    a.executes = b.executes ∧
      AgreeOn (fun address => S address ∨ a.Saves address) a.step b.step := by
  have hexecutes : a.executes = b.executes := by
    apply h.executes
    intro hhalted address hlow hhigh
    refine hreads address ⟨a.current, ?_, Or.inl ⟨hlow, hhigh⟩⟩
    simp [Machine.executes, hhalted]
  refine ⟨hexecutes, ?_⟩
  cases hi : a.executes with
  | none =>
    -- Both machines have halted and rest.
    have hhalted := executes_eq_none_iff.1 hi
    have hother : b.isHalted = true := executes_eq_none_iff.1 (hexecutes ▸ hi)
    rw [step_of_isHalted hhalted, step_of_isHalted hother]
    apply h.mono
    rintro address (hS | ⟨i, hsome, _⟩)
    · exact hS
    · rw [hi] at hsome
      exact absurd hsome (by simp)
  | some i =>
    rw [step_of_executes hi, step_of_executes (hexecutes ▸ hi)]
    have hafter := (h.skip.execute i fun hret address hlow hhigh =>
      hreads address ⟨i, hi, Or.inr ⟨hret, hlow, hhigh⟩⟩).record i
    apply hafter.mono
    rintro address (hS | ⟨j, hj, hcall, hwindow⟩)
    · exact Or.inl hS
    · have hij : i = j := by
        rw [hi] at hj
        exact Option.some.inj hj
      subst hij
      exact Or.inr ⟨hcall, hwindow⟩

end AgreeOn

/-! ## Two runs -/

/-- The cells on which two runs agree after so many steps: those below the uncleared area, and
those that the assembler or a call wrote. -/
def Shared (run : Nat → Machine) (instructions steps : Nat) (address : Int) : Prop :=
  address < clearedEnd ∨ WrittenSince run instructions steps address

theorem agreeOn_install (source : String) {a b : Machine} (hinput : a.input = b.input)
    (run : Nat → Machine) :
    AgreeOn (Shared run (Assembly.operations source).length 0)
      (a.install source).2 (b.install source).2 := by
  refine ⟨?_, ?_, ?_, ?_, ?_, ?_, ?_, fun address haddress => ?_⟩
  · rw [registers_install, registers_install]
  · rw [pc_install, pc_install]
  · rw [state_install, state_install]
  · rw [input_install, input_install, hinput]
  · rw [cycles_install, cycles_install]
  · rw [output_install, output_install]
  · rw [last_install, last_install]
  · by_cases hmem : 0 ≤ address ∧ address < Memory.size
    · rw [cell_install, cell_install]
      by_cases himage : address < 15 * (Assembly.operations source).length
      · rw [if_pos ⟨hmem.1, himage, hmem.2⟩, if_pos ⟨hmem.1, himage, hmem.2⟩]
      · -- Shared cells that the assembler did not write have been cleared.
        have hcleared : 0 ≤ address ∧ address < clearedEnd := by
          rcases haddress with hlow | himage' | ⟨k, hk, _⟩
          · exact ⟨hmem.1, hlow⟩
          · exact absurd himage'.2 himage
          · exact absurd hk (Nat.not_lt_zero k)
        have houtside : ¬ (0 ≤ address ∧ address < 15 * (Assembly.operations source).length ∧
            address < Memory.size) := fun h => himage h.2.1
        rw [if_neg houtside, if_neg houtside, if_pos hcleared, if_pos hcleared]
    · exact (Memory.cell_of_not_mem hmem).trans (Memory.cell_of_not_mem hmem).symm

/-- One step of two runs: the agreement lasts, if each uncleared cell that the first machine reads
was written. -/
theorem AgreeOn.drive_succ {writes : PortWrites} {a b : Machine} {instructions k : Nat}
    (h : AgreeOn (Shared (drive writes a) instructions k) (drive writes a k) (drive writes b k))
    (hreads : ∀ address : Int, clearedEnd ≤ address → address < Memory.size →
      (drive writes a k).Reads address → WrittenSince (drive writes a) instructions k address) :
    (drive writes a k).executes = (drive writes b k).executes ∧
      AgreeOn (Shared (drive writes a) instructions (k + 1))
        (drive writes a (k + 1)) (drive writes b (k + 1)) := by
  have hports := h.setInput (writes k (drive writes a k).input)
  -- Of all cells that are read only the uncleared ones inside memory could differ.
  have hstep := hports.step (by
    intro address hread
    by_cases hmem : 0 ≤ address ∧ address < Memory.size
    · apply h.cells
      by_cases hlow : address < clearedEnd
      · exact Or.inl hlow
      · exact Or.inr (hreads address (by omega) hmem.2 hread)
    · exact (Memory.cell_of_not_mem hmem).trans (Memory.cell_of_not_mem hmem).symm)
  refine ⟨hstep.1, ?_⟩
  rw [drive, drive, ← h.input]
  apply hstep.2.mono
  rintro address (hlow | hwritten)
  · exact Or.inl (Or.inl hlow)
  · rcases hwritten.succ with hbefore | hsaved
    · exact Or.inl (Or.inr hbefore)
    · exact Or.inr hsaved

/-- Two machines with equal ports that get the same program and the same port writes stay in
lockstep, as long as every uncleared cell that the first one reads was written since. -/
theorem lockstep_of_reads_written (source : String) (a b : Machine) (hinput : a.input = b.input)
    (writes : PortWrites) (steps : Nat)
    (hreads : ∀ k, k < steps → ∀ address : Int, clearedEnd ≤ address → address < Memory.size →
      (drive writes (a.install source).2 k).Reads address →
      WrittenSince (drive writes (a.install source).2) (Assembly.operations source).length k
        address) :
    (∀ k, k < steps → (drive writes (a.install source).2 k).executes =
      (drive writes (b.install source).2 k).executes) ∧
    AgreeOn (fun address => address < clearedEnd)
      (drive writes (a.install source).2 steps) (drive writes (b.install source).2 steps) := by
  -- By induction on the number of steps; `Shared` grows by the frames that calls save.
  have hagree : ∀ k, k ≤ steps →
      AgreeOn (Shared (drive writes (a.install source).2) (Assembly.operations source).length k)
        (drive writes (a.install source).2 k) (drive writes (b.install source).2 k) := by
    intro k
    induction k with
    | zero =>
      intro _
      exact agreeOn_install source hinput _
    | succ k ih =>
      intro hk
      exact ((ih (by omega)).drive_succ (hreads k hk)).2
  refine ⟨?_, ?_⟩
  · intro k hk
    exact ((hagree k (by omega)).drive_succ (hreads k hk)).1
  · exact (hagree steps (Nat.le_refl steps)).mono fun _ hlow => Or.inl hlow

/-- A machine that has run before. -/
def used : Machine :=
  { initial with
    memory := Memory.blank.store 1594000 15 7174453
    registers := Registers.blank.set (Register.ofInt 25) (-30)
    pc := 1062900
    cycles := 77 }

/-- The return of `bounce` reads the frame that its call saved. -/
theorem lockstep_of_reads_written_bounce :
    used.input = initial.input ∧
    (∀ k, k < 2 → ∀ address : Int, clearedEnd ≤ address → address < Memory.size →
      (drive (fun _ ports => ports) (used.install bounce).2 k).Reads address →
      WrittenSince (drive (fun _ ports => ports) (used.install bounce).2)
        (Assembly.operations bounce).length k address) ∧
    AgreeOn (fun address => address < clearedEnd)
      (drive (fun _ ports => ports) (used.install bounce).2 2)
      (drive (fun _ ports => ports) (initial.install bounce).2 2) := by
  have hreads : ∀ k, k < 2 → ∀ address : Int, clearedEnd ≤ address → address < Memory.size →
      (drive (fun _ ports => ports) (used.install bounce).2 k).Reads address →
      WrittenSince (drive (fun _ ports => ports) (used.install bounce).2)
        (Assembly.operations bounce).length k address := by
    have hcleared : clearedEnd = 1062882 := rfl
    have hsize : Memory.size = 1594323 := rfl
    have hfirst := executes_bounce_zero (fun _ ports => ports) used
    have hsecond := drive_succ hfirst
    have hpc : (drive (fun _ ports => ports) (used.install bounce).2 1).pc = 15 := by
      rw [hsecond]
      rfl
    have hframe : (drive (fun _ ports => ports) (used.install bounce).2 1).frame = 1594293 := by
      rw [hsecond]
      rfl
    intro k hk address hlow hhigh hread
    obtain ⟨i, hi, hcell⟩ := hread
    obtain rfl | rfl : k = 0 ∨ k = 1 := by omega
    · have hstart : (drive (fun _ ports => ports) (used.install bounce).2 0).pc = 0 :=
        pc_install used bounce
      rw [hfirst] at hi
      cases hi
      rcases hcell with hfetch | ⟨hret, _⟩
      · omega
      · exact absurd hret (by decide)
    · have hstart : (drive (fun _ ports => ports) (used.install bounce).2 0).frame = 1594308 := rfl
      rcases hcell with hfetch | ⟨_, hloaded⟩
      · omega
      · exact Or.inr ⟨0, by decide, ⟨24, 0, 15⟩, hfirst, rfl, by omega, by omega⟩
  exact ⟨rfl, hreads,
    (lockstep_of_reads_written bounce used initial rfl (fun _ ports => ports) 2 hreads).2⟩

end Machine

end TernaryConsole
