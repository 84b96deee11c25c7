import TernaryConsole.Assembly
import TernaryConsole.Proofs.Memory
import TernaryConsole.Proofs.Text

/-!
# Proofs.Assembly — the image of a program text

Assembling goes through the lines once and stores operation after operation. `assemble_memory`
says that this is the storing of one run, `image`, the trits of all operations behind each other;
`assemble_report` gives the counts. `fetch_storeRun_image` reads an instruction back.
-/

namespace TernaryConsole

/-- The fields of an instruction are stored as one run. -/
theorem Instruction.store_eq_storeRun (memory : Memory) (address code operand1 operand2 : Int) :
    store memory address code operand1 operand2 =
      memory.storeRun address
        (Numeral.digits codeWidth code ++ Numeral.digits operand1Width operand1 ++
          Numeral.digits operand2Width operand2) := by
  have hfirst : address + (Numeral.digits codeWidth code).length = address + 4 := by
    rw [Numeral.length_digits]
    rfl
  have hsecond : address + (Numeral.digits codeWidth code ++
      Numeral.digits operand1Width operand1).length = address + 9 := by
    rw [List.length_append, Numeral.length_digits, Numeral.length_digits]
    rfl
  rw [Memory.storeRun_append, Memory.storeRun_append, hfirst, hsecond]
  rfl

namespace Assembly

/-! ## Images -/

/-- The fifteen trits of an operation. -/
def Operation.trits (operation : Operation) : List Trit :=
  Numeral.digits Instruction.codeWidth operation.code ++
    Numeral.digits Instruction.operand1Width operation.operand1 ++
    Numeral.digits Instruction.operand2Width operation.operand2

/-- The instruction that is fetched where an operation was stored. -/
def Operation.instruction (operation : Operation) : Instruction :=
  .ofFields (operation.code.bmod (3 ^ 4)) (operation.operand1.bmod (3 ^ 5))
    (operation.operand2.bmod (3 ^ 6))

/-- The trits of a program. -/
def image (program : List Operation) : List Trit :=
  program.flatMap Operation.trits

theorem image_cons (operation : Operation) (program : List Operation) :
    image (operation :: program) = operation.trits ++ image program :=
  List.flatMap_cons

theorem length_trits (operation : Operation) : operation.trits.length = 15 := by
  simp [Operation.trits, Instruction.codeWidth, Instruction.operand1Width,
    Instruction.operand2Width]

theorem length_image (program : List Operation) : (image program).length = 15 * program.length := by
  induction program with
  | nil => rfl
  | cons operation program ih =>
    rw [image_cons, List.length_append, length_trits, ih, List.length_cons]
    omega

theorem place_eq_storeRun (memory : Memory) (address : Int) (operation : Operation) :
    place memory address operation = memory.storeRun address operation.trits :=
  Instruction.store_eq_storeRun memory address operation.code operation.operand1 operation.operand2

/-! ## Assembling -/

theorem operation?_of_isBlankLine {line : List Char} (h : isBlankLine line = true) :
    operation? line = none := by
  have hwords := Text.words_of_forall_blank (Text.forall_blank_of_trim_isEmpty h)
  simp only [operation?, hwords]

/-- The lines that have text and name no operation. -/
def isSkipped (line : List Char) : Bool :=
  !isBlankLine line && (operation? line).isNone

theorem addLine_none (state : Memory × Report) {line : List Char} (h : operation? line = none) :
    addLine state line =
      (state.1, { state.2 with skipped := state.2.skipped + (isSkipped line).toNat }) := by
  cases hblank : isBlankLine line <;> simp [addLine, isSkipped, h, hblank]

theorem addLine_some (state : Memory × Report) {line : List Char} {operation : Operation}
    (h : operation? line = some operation) :
    addLine state line =
      (state.1.storeRun state.2.stop operation.trits,
        { state.2 with
          instructions := state.2.instructions + 1, stop := state.2.stop + 15 }) := by
  have hblank : isBlankLine line = false := by
    cases hblank : isBlankLine line with
    | false => rfl
    | true =>
      rw [operation?_of_isBlankLine hblank] at h
      exact absurd h (by simp)
  simp [addLine, h, hblank, place_eq_storeRun]

/-- Going through lines stores the image of their operations where the report stops. -/
theorem foldl_addLine (lines : List (List Char)) (memory : Memory) (report : Report) :
    lines.foldl addLine (memory, report) =
      (memory.storeRun report.stop (image (lines.filterMap operation?)),
        { report with
          instructions := report.instructions + (lines.filterMap operation?).length
          skipped := report.skipped + lines.countP isSkipped
          stop := report.stop + (15 * (lines.filterMap operation?).length : Nat) }) := by
  -- By induction on the lines; the memory and the report are those reached so far.
  induction lines generalizing memory report with
  | nil =>
    simp [image, Memory.storeRun, Field.putRun]
  | cons line lines ih =>
    cases hline : operation? line with
    | none =>
      have hcount : (line :: lines).countP isSkipped =
          (isSkipped line).toNat + lines.countP isSkipped := by
        cases hskipped : isSkipped line <;> simp [hskipped, Nat.add_comm]
      rw [List.foldl_cons, addLine_none _ hline, ih, List.filterMap_cons_none hline, hcount,
        Nat.add_assoc]
    | some operation =>
      have hskipped : isSkipped line = false := by simp [isSkipped, hline]
      rw [List.foldl_cons, addLine_some _ hline, ih, List.filterMap_cons_some hline, image_cons,
        Memory.storeRun_append, length_trits, List.countP_cons_of_neg (by simp [hskipped])]
      congr 2
      · simp only [List.length_cons]
        omega
      · simp only [List.length_cons]
        push_cast
        omega

end Assembly

namespace Memory

/-- Assembling is storing the image of the text as one run. -/
theorem assemble_memory (memory : Memory) (source : String) (base : Int) :
    (memory.assemble source base).1 =
      memory.storeRun base (Assembly.image (Assembly.operations source)) := by
  rw [assemble, Assembly.foldl_addLine]
  rfl

theorem assemble_report (memory : Memory) (source : String) (base : Int) :
    (memory.assemble source base).2 =
      { base := base
        instructions := (Assembly.operations source).length
        skipped := (Text.lines source.toList).countP Assembly.isSkipped
        stop := base + (15 * (Assembly.operations source).length : Nat) } := by
  rw [assemble, Assembly.foldl_addLine]
  simp [Assembly.operations]

end Memory

namespace Instruction

/-! ## Fetching -/

/-- An instruction depends on its fifteen cells only. -/
theorem fetch_congr {a b : Memory} {address : Int}
    (h : ∀ other, address ≤ other → other < address + 15 → a.cell other = b.cell other) :
    fetch a address = fetch b address := by
  have hcode : a.load address codeWidth = b.load address codeWidth :=
    Memory.load_congr fun other hlow hhigh => h other hlow (by
      have hwidth : codeWidth = 4 := rfl
      omega)
  have hfirst : a.load (address + 4) operand1Width = b.load (address + 4) operand1Width :=
    Memory.load_congr fun other hlow hhigh => h other (by omega) (by
      have hwidth : operand1Width = 5 := rfl
      omega)
  have hsecond : a.load (address + 9) operand2Width = b.load (address + 9) operand2Width :=
    Memory.load_congr fun other hlow hhigh => h other (by omega) (by
      have hwidth : operand2Width = 6 := rfl
      omega)
  simp only [fetch, hcode, hfirst, hsecond]

theorem fetch_place (memory : Memory) {address : Int} (operation : Assembly.Operation)
    (low : 0 ≤ address) (high : address + 15 ≤ Memory.size) :
    fetch (Assembly.place memory address operation) address = operation.instruction := by
  have hcode : codeWidth = 4 := rfl
  have hfirst : operand1Width = 5 := rfl
  have hsecond : operand2Width = 6 := rfl
  have hsize : Memory.size = 1594323 := rfl
  unfold Assembly.place store
  -- The three fields are stored one after the other, each into what the one before left.
  generalize hm : memory.store address codeWidth operation.code = coded
  generalize hn : coded.store (address + 4) operand1Width operation.operand1 = named
  have hread1 : (named.store (address + 9) operand2Width operation.operand2).load address
      codeWidth = operation.code.bmod (3 ^ codeWidth) := by
    rw [Memory.load_store_of_disjoint _ _ (by omega), ← hn,
      Memory.load_store_of_disjoint _ _ (by omega), ← hm,
      Memory.load_store_same memory address codeWidth operation.code low (by omega)]
  have hread2 : (named.store (address + 9) operand2Width operation.operand2).load (address + 4)
      operand1Width = operation.operand1.bmod (3 ^ operand1Width) := by
    rw [Memory.load_store_of_disjoint _ _ (by omega), ← hn,
      Memory.load_store_same coded (address + 4) operand1Width operation.operand1 (by omega)
        (by omega)]
  have hread3 : (named.store (address + 9) operand2Width operation.operand2).load (address + 9)
      operand2Width = operation.operand2.bmod (3 ^ operand2Width) :=
    Memory.load_store_same named (address + 9) operand2Width operation.operand2 (by omega)
      (by omega)
  simp only [fetch, hread1, hread2, hread3]
  rfl

end Instruction

namespace Assembly

/-- The trits of the operation in a slot stand at its place in the image. -/
theorem getD_image {program : List Operation} {slot : Nat} {operation : Operation}
    (h : program[slot]? = some operation) {place : Nat} (hplace : place < 15) :
    (image program).getD (15 * slot + place) .zero = operation.trits.getD place .zero := by
  induction program generalizing slot with
  | nil => simp at h
  | cons first program ih =>
    have hlength := length_trits first
    cases slot with
    | zero =>
      have hfirst : first = operation := by simpa using h
      subst hfirst
      rw [image_cons, List.getD_eq_getElem?_getD, List.getD_eq_getElem?_getD, Nat.mul_zero,
        Nat.zero_add, List.getElem?_append_left (by omega)]
    | succ slot =>
      have hslot : program[slot]? = some operation := by simpa using h
      have htail := ih hslot
      rw [List.getD_eq_getElem?_getD] at htail ⊢
      rw [image_cons, List.getElem?_append_right (by omega), hlength,
        show 15 * (slot + 1) + place - 15 = 15 * slot + place by omega, htail]

/-- Fetching from a slot of a stored image gives the instruction of its operation. -/
theorem fetch_storeRun_image (memory : Memory) {base : Int} {program : List Operation} {slot : Nat}
    {operation : Operation} (h : program[slot]? = some operation)
    (low : 0 ≤ base + 15 * slot) (high : base + 15 * slot + 15 ≤ Memory.size) :
    Instruction.fetch (memory.storeRun base (image program)) (base + 15 * slot) =
      operation.instruction := by
  have hslot : slot < program.length := (List.getElem?_eq_some_iff.1 h).1
  have hlength := length_image program
  rw [← Instruction.fetch_place memory operation low high]
  apply Instruction.fetch_congr
  intro other hlow hhigh
  have htrits := length_trits operation
  rw [place_eq_storeRun, Memory.cell_storeRun, Memory.cell_storeRun,
    if_pos ⟨by omega, by omega, by omega, by omega⟩,
    if_pos ⟨by omega, by omega, by omega, by omega⟩]
  have hwithin : (other - (base + 15 * slot)).toNat < 15 := by omega
  have hplace := getD_image h hwithin
  rwa [show 15 * slot + (other - (base + 15 * slot)).toNat = (other - base).toNat by omega]
    at hplace

end Assembly

end TernaryConsole
