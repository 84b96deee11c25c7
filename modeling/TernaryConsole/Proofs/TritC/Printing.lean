import TernaryConsole.Proofs.Reading
import TernaryConsole.TritC.Program

/-!
# Proofs.TritC.Printing — compiled programs read back

A compiled program is printed as assembly text and assembled from it. `operations_assembly` says
that nothing is lost on the way: each line of code reads back as its operation, with its operands
folded into the range of words, and the notes behind the instructions are comments.
-/

namespace TernaryConsole

namespace TritC

/-! ## Lines of code -/

namespace CodeLine

/-- The operation that a line of code stands for. -/
def operation (line : CodeLine) : Assembly.Operation :=
  ⟨line.opcode, Word.wrap line.operand1, Word.wrap line.operand2⟩

/-- The instruction of a line, without its note. -/
def front (line : CodeLine) : List Char :=
  line.opcode.mnemonic.toList ++
    ' ' :: ((Int.repr line.operand1).toList ++ ' ' :: (Int.repr line.operand2).toList)

/-- The text of a line without the line feed. -/
def content (line : CodeLine) : List Char :=
  match line.note with
  | some note =>
    line.front ++ List.replicate (20 - line.front.length) ' ' ++
      ' ' :: '/' :: '/' :: ' ' :: note.toList
  | none => line.front

theorem text_toList (line : CodeLine) : line.text.toList = line.content ++ ['\n'] := by
  have hlength : (line.opcode.mnemonic ++ " " ++ Int.repr line.operand1 ++ " " ++
      Int.repr line.operand2).length = line.front.length := by
    rw [← String.length_toList]
    simp [front]
  unfold text content
  cases line.note with
  | none => simp [front]
  | some note =>
    simp only [Column.left, Column.blanks, hlength]
    simp [front]

theorem front_eq_written (line : CodeLine) :
    line.front = Assembly.written line.opcode [line.operand1, line.operand2] := by
  simp [front, Assembly.written, Assembly.wordsOf]

/-- The only blank in an instruction is the space. -/
theorem not_mem_front {line : CodeLine} {c : Char} (hblank : Text.isBlank c = true)
    (hspace : c ≠ ' ') : c ∉ line.front := by
  rw [front_eq_written]
  exact Assembly.not_mem_written hblank hspace

theorem not_mem_content {line : CodeLine}
    (hnote : ∀ note, line.note = some note → '\n' ∉ note.toList) : '\n' ∉ line.content := by
  have hfront : '\n' ∉ line.front := not_mem_front (by decide) (by decide)
  unfold content
  split
  · next note hsome =>
    have htext := hnote note hsome
    simp [hfront, htext]
  · exact hfront

theorem isPlain_front (line : CodeLine) : ∀ c ∈ line.front, Assembly.IsPlain c := by
  rw [front_eq_written]
  exact Assembly.isPlain_written

/-- A line whose code is an instruction and blanks names the operation. -/
theorem operation?_of_code (line : CodeLine) (hopcode : line.opcode ≠ .nop) {text : List Char}
    (tail : List Char) (hcode : Assembly.code text = line.front ++ tail)
    (htail : ∀ c ∈ tail, Text.isBlank c = true) :
    Assembly.operation? text = some line.operation := by
  rw [front_eq_written] at hcode
  exact Assembly.operation?_of_code hopcode hcode htail

/-- The text of a line reads back, also if reading takes a carriage return from the note. -/
theorem operation?_content (line : CodeLine) (hopcode : line.opcode ≠ .nop) :
    Assembly.operation? (Text.withoutReturn line.content) = some line.operation := by
  cases hnote : line.note with
  | none =>
    have hcontent : line.content = line.front := by simp only [content, hnote]
    have hreturn : '\r' ∉ line.front := not_mem_front (by decide) (by decide)
    apply operation?_of_code line hopcode []
    · rw [hcontent, Text.withoutReturn_of_not_mem hreturn, List.append_nil]
      exact Assembly.code_eq_self line.isPlain_front
    · exact fun c hc => absurd hc (List.not_mem_nil)
  | some note =>
    have hblanks : ∀ c ∈ List.replicate (20 - line.front.length) ' ' ++ [' '], c = ' ' := by
      intro c hc
      rcases List.mem_append.1 hc with hpad | hlast
      · exact List.eq_of_mem_replicate hpad
      · exact List.mem_singleton.1 hlast
    have hplain : ∀ c ∈ line.front ++ (List.replicate (20 - line.front.length) ' ' ++ [' ']),
        Assembly.IsPlain c := by
      intro c hc
      rcases List.mem_append.1 hc with hfront | hpad
      · exact line.isPlain_front c hfront
      · rw [hblanks c hpad]
        decide
    -- The text up to the first slash is kept, whatever happens to the end of the note.
    have hcontent : line.content = (line.front ++ (List.replicate (20 - line.front.length) ' ' ++
        [' ']) ++ ['/']) ++ '/' :: (' ' :: note.toList) := by
      simp [content, hnote]
    obtain ⟨rest, hrest⟩ := Text.exists_withoutReturn_append (line.front ++
      (List.replicate (20 - line.front.length) ' ' ++ [' ']) ++ ['/']) (c := '/') (by decide)
      (' ' :: note.toList)
    apply operation?_of_code line hopcode
      (List.replicate (20 - line.front.length) ' ' ++ [' '])
    · rw [hcontent, hrest, List.append_assoc, List.singleton_append]
      exact Assembly.code_append_comment hplain rest
    · intro c hc
      rw [hblanks c hc]
      decide

end CodeLine

/-! ## Programs -/

namespace Program

/-- The lines of the printed program. -/
def contents (program : Program) : List (List Char) :=
  "// Trit-C compiler output".toList :: program.code.map CodeLine.content

theorem assembly_toList (program : Program) :
    program.assembly.toList =
      (program.contents.map fun content => content ++ ['\n']).flatten := by
  have hheader : header.toList = "// Trit-C compiler output".toList ++ ['\n'] := rfl
  have htext : (String.toList ∘ CodeLine.text) = fun line => line.content ++ ['\n'] := by
    funext line
    exact line.text_toList
  rw [assembly, String.toList_append, String.toList_join, hheader, contents, List.map_cons,
    List.flatten_cons, List.map_map, List.flatMap_def, List.map_map, htext]
  rfl

section

variable {program : Program}

/-- The lines of the printed program are read back, each without a carriage return at its end. -/
theorem lines_assembly
    (hnote : ∀ line ∈ program.code, ∀ note, line.note = some note → '\n' ∉ note.toList) :
    Text.lines program.assembly.toList = program.contents.map Text.withoutReturn := by
  have hlines : ∀ content ∈ program.contents, '\n' ∉ content := by
    intro content hmem
    rcases List.mem_cons.1 hmem with rfl | hcode
    · decide
    · obtain ⟨line, hline, rfl⟩ := List.mem_map.1 hcode
      exact CodeLine.not_mem_content (hnote line hline)
  rw [assembly_toList, Text.lines_flatten hlines]

/-- The printed program is assembled into the operations of its code, in order. -/
theorem operations_assembly (hopcode : ∀ line ∈ program.code, line.opcode ≠ .nop)
    (hnote : ∀ line ∈ program.code, ∀ note, line.note = some note → '\n' ∉ note.toList) :
    Assembly.operations program.assembly = program.code.map CodeLine.operation := by
  -- The header is a comment and names no operation.
  have hheader : Assembly.operation?
      (Text.withoutReturn "// Trit-C compiler output".toList) = none := by
    decide
  have hcode : ∀ lines : List CodeLine, (∀ line ∈ lines, line.opcode ≠ .nop) →
      ((lines.map CodeLine.content).map Text.withoutReturn).filterMap Assembly.operation? =
        lines.map CodeLine.operation := by
    intro lines
    induction lines with
    | nil =>
      intro _
      rfl
    | cons line lines ih =>
      intro hall
      have hline := line.operation?_content (hall line List.mem_cons_self)
      rw [List.map_cons, List.map_cons, List.filterMap_cons_some hline, List.map_cons,
        ih fun other hmem => hall other (List.mem_cons_of_mem _ hmem)]
  rw [Assembly.operations, lines_assembly hnote, contents, List.map_cons,
    List.filterMap_cons_none hheader, hcode program.code hopcode]

/-- The header is a comment, and all other lines name operations. -/
theorem skipped_assembly (hopcode : ∀ line ∈ program.code, line.opcode ≠ .nop)
    (hnote : ∀ line ∈ program.code, ∀ note, line.note = some note → '\n' ∉ note.toList) :
    (Text.lines program.assembly.toList).countP Assembly.isSkipped = 0 := by
  have hheader : Assembly.isSkipped
      (Text.withoutReturn "// Trit-C compiler output".toList) = false := by
    decide
  rw [lines_assembly hnote, List.countP_eq_zero]
  intro content hmem
  obtain ⟨written, hwritten, rfl⟩ := List.mem_map.1 hmem
  rcases List.mem_cons.1 hwritten with rfl | hcode
  · rw [hheader]
    exact Bool.false_ne_true
  · obtain ⟨line, hline, rfl⟩ := List.mem_map.1 hcode
    simp [Assembly.isSkipped, line.operation?_content (hopcode line hline)]

end

end Program

end TritC

end TernaryConsole
