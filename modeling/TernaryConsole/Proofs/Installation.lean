import TernaryConsole.Proofs.Image
import TernaryConsole.Proofs.Isolation

/-!
# Proofs.Installation — what is in a machine when a program was put into it

Whatever ran before, an installation leaves the image of the program from address zero on, zeros
behind it up to the end of the screen, and a processor that starts afresh. Images of any length are
allowed: one that is longer than the program region reaches into the screen, and what does not fit
into memory is dropped (`installed_install`). Only the cells behind the screen and behind the image
are left from before, and the input ports, so installing a text again changes nothing
(`installs_source`).
-/

namespace TernaryConsole

namespace Machine

variable {m other : Machine} {source : String}

/-! ## The machine after an installation -/

/-- A machine into which a program text was just put, in terms of the machine before. Program
region and screen end at 1062882. -/
structure Installed (m : Machine) (source : String) (after : Machine) : Prop where
  /-- Each operation lies in its slot, as far as that is inside memory. -/
  image : ∀ (slot : Nat) (operation : Assembly.Operation),
    (Assembly.operations source)[slot]? = some operation → ∀ place : Nat, place < 15 →
    15 * slot + place < Memory.size →
    after.memory.cell (15 * slot + place : Nat) = operation.trits.getD place .zero
  /-- The cells of the image are those that assembling the text gives in any memory. -/
  assembled : ∀ (memory : Memory) (address : Int), 0 ≤ address →
    address < 15 * (Assembly.operations source).length →
    after.memory.cell address = (memory.assemble source 0).1.cell address
  zeroed : ∀ address : Int, 15 * (Assembly.operations source).length ≤ address →
    address < 1062882 → after.memory.cell address = .zero
  kept : ∀ address : Int, max (15 * (Assembly.operations source).length) 1062882 ≤ address →
    after.memory.cell address = m.memory.cell address
  registers : ∀ register, after.registers.get register = 0
  pc : after.pc = 0
  cycles : after.cycles = 0
  output : after.output = .empty
  last : after.last = none
  input : after.input = m.input
  state : after.state = .running
  /-- A program that fits into its region leaves the screen black. -/
  black : (Assembly.operations source).length ≤ 35429 →
    ∀ x y, Screen.pixel after.memory x y = ⟨0, 0, 0⟩

theorem clearedEnd_eq : clearedEnd = 1062882 := rfl

/-- The trits of an operation at its place in an installed image. -/
theorem cell_install_slot (m : Machine) {slot : Nat} {operation : Assembly.Operation}
    (hslot : (Assembly.operations source)[slot]? = some operation) {place : Nat}
    (hplace : place < 15) (hmem : 15 * slot + place < Memory.size) :
    (m.install source).2.memory.cell (15 * slot + place : Nat) =
      operation.trits.getD place .zero := by
  have hlength : slot < (Assembly.operations source).length :=
    (List.getElem?_eq_some_iff.1 hslot).1
  rw [cell_install, if_pos (by omega), Int.toNat_natCast]
  exact Assembly.getD_image hslot hplace

theorem cell_install_of_lt (m : Machine) (memory : Memory) {address : Int} (low : 0 ≤ address)
    (high : address < 15 * (Assembly.operations source).length) :
    (m.install source).2.memory.cell address = (memory.assemble source 0).1.cell address := by
  have hlength := Assembly.length_image (Assembly.operations source)
  by_cases hmem : 0 ≤ address ∧ address < Memory.size
  · rw [cell_install, Memory.assemble_memory, Memory.cell_storeRun, hlength,
      if_pos ⟨low, high, hmem.2⟩, if_pos (by omega), Int.sub_zero]
  · exact (Memory.cell_of_not_mem hmem).trans (Memory.cell_of_not_mem hmem).symm

theorem cell_install_of_zeroed (m : Machine) {address : Int}
    (low : 15 * (Assembly.operations source).length ≤ address) (high : address < 1062882) :
    (m.install source).2.memory.cell address = .zero := by
  rw [cell_install, if_neg (by omega), if_pos ⟨by omega, by rwa [clearedEnd_eq]⟩]

theorem cell_install_of_kept (m : Machine) {address : Int}
    (h : max (15 * (Assembly.operations source).length) 1062882 ≤ address) :
    (m.install source).2.memory.cell address = m.memory.cell address := by
  have hcleared := clearedEnd_eq
  rw [cell_install, if_neg (by omega), if_neg (by omega)]

theorem pixel_install (m : Machine) (hlength : (Assembly.operations source).length ≤ 35429)
    (x y : Int) : Screen.pixel (m.install source).2.memory x y = ⟨0, 0, 0⟩ := by
  have hblank : Screen.pixel Memory.blank x y = ⟨0, 0, 0⟩ := by
    unfold Screen.pixel
    split
    · simp only [Memory.load_blank]
    · rfl
  rw [← hblank]
  -- The image ends in front of the screen, so every cell of it is one of the zeroed ones.
  refine Screen.pixel_congr fun address hscreen _ _ => ?_
  rw [Screen.IsScreenCell, Screen.base_eq, Screen.length_eq] at hscreen
  rw [cell_install_of_zeroed m (by omega) hscreen.2, Memory.cell_blank]

theorem installed_install (m : Machine) (source : String) :
    Installed m source (m.install source).2 where
  image := fun slot operation hslot place hplace hmem => cell_install_slot m hslot hplace hmem
  assembled := fun memory address low high => cell_install_of_lt m memory low high
  zeroed := fun address low high => cell_install_of_zeroed m low high
  kept := fun address h => cell_install_of_kept m h
  registers := by
    intro register
    rw [registers_install, Registers.get_blank]
  pc := pc_install m source
  cycles := cycles_install m source
  output := output_install m source
  last := last_install m source
  input := input_install m source
  state := state_install m source
  black := pixel_install m

/-! ## What is left from before -/

/-- The report of an installation depends on the text only. -/
theorem report_install (m other : Machine) (source : String) :
    (m.install source).1 = (other.install source).1 := by
  have hreport : ∀ m : Machine, (m.install source).1 =
      ((m.memory.clear 0 clearedEnd).assemble source Memory.bootAddress).2 := fun m => rfl
  rw [hreport, hreport, Memory.assemble_report, Memory.assemble_report]

/-- Machines with the same ports and the same cells behind screen and image become equal. -/
theorem install_congr (hinput : other.input = m.input)
    (hcells : ∀ address : Int, max (15 * (Assembly.operations source).length) 1062882 ≤ address →
      other.memory.cell address = m.memory.cell address) :
    other.install source = m.install source := by
  -- The machines agree below that, and above it nothing is written.
  have hagree := agreeOn_install source hinput fun _ => m
  have hmemory : (m.install source).2.memory = (other.install source).2.memory := by
    refine Memory.ext_cell fun address => ?_
    by_cases hbehind : max (15 * (Assembly.operations source).length) 1062882 ≤ address
    · rw [cell_install_of_kept m hbehind, cell_install_of_kept other hbehind,
        hcells address hbehind]
    · refine (hagree.cells address ?_).symm
      by_cases hcleared : address < clearedEnd
      · exact Or.inl hcleared
      · rw [clearedEnd_eq] at hcleared
        exact Or.inr (Or.inl ⟨by omega, by omega⟩)
  have hmachine := hagree.eq_with_memory
  rw [hmemory] at hmachine
  exact Prod.ext (report_install other m source) hmachine.symm

/-! ## The law -/

/-- What installing a text does to a machine, and launching a file that holds it. -/
structure Installs (m : Machine) (source : String) : Prop where
  installed : Installed m source (m.install source).2
  launched : ∀ (files : Files) (path : String), files.readText path = .ok source →
    m.launch path (files.readText path) =
      (.ok ⟨path, (m.install source).1⟩, (m.install source).2)
  instructions : (m.install source).1.instructions = (Assembly.operations source).length
  /-- Nothing else of the machine before has any influence. -/
  independent : ∀ other : Machine, other.input = m.input →
    (∀ address : Int, max (15 * (Assembly.operations source).length) 1062882 ≤ address →
      other.memory.cell address = m.memory.cell address) →
    other.install source = m.install source
  repeated : (m.install source).2.install source = m.install source

theorem installs_source (m : Machine) (source : String) : Installs m source where
  installed := installed_install m source
  launched := by
    intro files path hread
    rw [hread]
    rfl
  instructions := instructions_install m source
  independent := fun other hinput hcells => install_congr hinput hcells
  repeated := install_congr (input_install m source) fun address h => cell_install_of_kept m h

end Machine

end TernaryConsole
