import TernaryConsole.Proofs.TritC.Outcome

/-!
# Proofs.TritC.Stages — lowering a line check by check

`lowerLine` reads the whole statement of a line before it touches anything. Here a line goes through
stages instead (`Stages.statement`): every check stands where it is made, among the instructions
that are emitted, the registers that are handed out and the labels that are defined on the way.
Both come to the same (`compileStaged_eq_compile`), and whichever check rejects a line, the stages
in front of it have changed nothing (`Stages.rejects_iff`).
-/

namespace TernaryConsole

namespace TritC

namespace Stages

/-! ## Stages -/

/-- What the stages work on. -/
structure Workspace where
  emissions : List Emission := []
  /-- The labels with the slots they mark. -/
  labels : List (Name × Nat) := []
  /-- The variables that have registers, in order. -/
  allocated : List Name := []
  /-- The lines that were no statements. -/
  skipped : Nat := 0

abbrev Stage (α : Type) : Type :=
  StateT Workspace (Except CompileError) α

/-- Goes on with what was read, or rejects the line. -/
def check {α : Type} (read : Option α) (next : α → Stage Bool) : Stage Bool :=
  match read with
  | some value => next value
  | none => pure false

/-- A draft as the emission of a line, which has no text yet. -/
def unnoted (line : Nat) (draft : Draft) : Emission :=
  ⟨draft, line, none⟩

def emit (line : Nat) (opcode : Opcode) (register : Int) (target : Target) : Stage Unit :=
  modify fun work =>
    { work with emissions := work.emissions ++ [unnoted line ⟨opcode, register, target⟩] }

def lastRegister : Int := 24

/-- The register of a variable, which is handed out if it has none. -/
def register (line : Nat) (name : Name) : Stage Int := do
  let work ← get
  if name ∈ work.allocated then
    return registerOf work.allocated name
  else if lastRegister < firstRegister + work.allocated.length then
    throw (.outOfRegisters line name)
  else do
    set { work with allocated := work.allocated ++ [name] }
    return firstRegister + work.allocated.length

/-- Puts an operand into a register. -/
def load (line : Nat) (target : Int) : Operand → Stage Unit
  | .literal value => emit line .set target (.value value)
  | .variable name => do
    let source ← register line name
    if source = target then return () else emit line .cpy target (.value source)

/-- Defines a label, and refuses it if it was there. -/
def label (line : Nat) (name : Name) : Stage Bool := do
  let work ← get
  set { work with labels := (name, work.emissions.length) :: work.labels }
  if (work.labels.lookup name).isSome then
    throw (.duplicateLabel line name)
  else
    return true

def jumps (line : Nat) (target : Name) : Test → Stage Unit
  | .equal => do
    emit line .brn scratch (.ahead 3)
    emit line .brp scratch (.ahead 2)
    emit line .jmp 0 (.label target)
  | .notEqual => do
    emit line .brn scratch (.label target)
    emit line .brp scratch (.label target)

/-- What follows `if`. -/
def branch (line : Nat) (rest : List Char) : Stage Bool :=
  check (Text.strip? ['('] (Text.trim rest)) fun inner =>
  check (Text.splitOnce [')'] inner) fun (condition, tail) =>
  check (Reader.keyword? "goto" (Text.trim tail)) fun name =>
  check (Reader.condition? condition) fun (left, test, right) =>
  check (Reader.name? left) fun subject =>
  check (Reader.name? (Text.trim name)) fun target =>
  check (Reader.operand? right) fun value => do
    let compared ← register line subject
    load line scratch value
    emit line .tri scratch (.value compared)
    jumps line target test
    return true

/-- The registers of a device call with some number of arguments. -/
def deviceRegisters? : Name → Nat → Option (List Int)
  | "color", 3 => some [0, 1, 2]
  | "pos", 2 => some [3, 4]
  | "size", 2 => some [5, 6]
  | "out", 1 => some [scratch]
  | _, _ => none

def loadAll (line : Nat) : List (Int × Operand) → Stage Unit
  | [] => return ()
  | (target, operand) :: rest => do
    load line target operand
    loadAll line rest

def out (line : Nat) : List Operand → Stage Bool
  | [] => return false
  | .variable name :: _ => do
    let source ← register line name
    emit line .out source (.value 0)
    return true
  | .literal value :: _ => do
    load line scratch (.literal value)
    emit line .out scratch (.value 0)
    return true

def device (line : Nat) (name : Name) (arguments : List (List Char)) : Stage Bool :=
  check (deviceRegisters? name arguments.length) fun registers =>
  check (arguments.mapM Reader.operand?) fun operands =>
    if name = "out" then
      out line operands
    else do
      loadAll line (registers.zip operands)
      return true

def combine (line : Nat) (target left : Int) (opcode : Opcode) (right : Int) : Stage Unit :=
  if target = right ∧ target ≠ left then do
    emit line .cpy scratch (.value left)
    emit line opcode scratch (.value right)
    emit line .cpy target (.value scratch)
  else if target ≠ left then do
    emit line .cpy target (.value left)
    emit line opcode target (.value right)
  else
    emit line opcode target (.value right)

def assign (line : Nat) (left right : List Char) : Stage Bool :=
  check (Reader.name? left) fun target =>
    match Reader.operand? right with
    | some value => do
      let targetRegister ← register line target
      load line targetRegister value
      return true
    | none =>
      check (Reader.binary? right) fun (first, operator, second) => do
        let targetRegister ← register line target
        let firstOperand ← register line first
        let secondOperand ← register line second
        combine line targetRegister firstOperand operator.opcode secondOperand
        return true

/-- The forms that follow labels, single words and keywords. -/
def remaining (line : Nat) (text : List Char) : Stage Bool :=
  if text.head? = some '*' then
    return false
  else
    match Reader.call? text with
    | some (name, arguments) => device line name arguments
    | none =>
      match Text.splitOnce ['='] text with
      | some (left, right) => assign line (Text.trim left) (Text.trim right)
      | none => return false

def keywords (line : Nat) (text : List Char) : Stage Bool :=
  match Reader.keyword? "if" text with
  | some rest => branch line rest
  | none =>
    match Reader.keyword? "goto" text with
    | some name =>
      check (Reader.name? (Text.trim name)) fun target => do
        emit line .jmp 0 (.label target)
        return true
    | none => remaining line text

/-- Lowers a statement, and tells whether the line is one. -/
def statement (line : Nat) (text : List Char) : Stage Bool :=
  match Text.stripLast? ':' text with
  | some name => check (Reader.name? (Text.trim name)) fun name => label line name
  | none =>
    let word := String.ofList (text.map Char.toLower)
    if word = "halt" ∨ word = "halt()" then do
      emit line .halt 0 (.value 0)
      return true
    else if word = "rect" ∨ word = "rect()" then do
      emit line .rect 0 (.value 0)
      return true
    else
      keywords line text

/-- Lowers a line. The first emission of a statement is given its text, and a line that is rejected
is counted. -/
def line (entry : Reader.Line) : Stage Unit := do
  let start ← get
  if ← statement entry.number entry.text then
    modify fun work =>
      { work with emissions := work.emissions.modify start.emissions.length fun first =>
          { first with note := some (String.ofList entry.text) } }
  else
    modify fun work => { work with skipped := work.skipped + 1 }

def lines : List Reader.Line → Stage Unit
  | [] => return ()
  | entry :: rest => do
    line entry
    lines rest

end Stages

/-- Compiles a source whose lines are lowered in stages. -/
def compileStaged (source : String) : Except CompileError Program := do
  let (_, work) ← (Stages.lines (Reader.lines source)).run {}
  let code ← link work.labels 0 work.emissions
  return ⟨code, work.allocated, work.skipped⟩

namespace Stages

/-! ## What stages do -/

/-- Names ask for registers and drafts are emitted. The drafts and the value depend on the registers
of these names alone, so that it does not matter which names come later. -/
structure Performs {α : Type} (line : Nat) (names : List Name) (drafts : (Name → Int) → List Draft)
    (value : (Name → Int) → α) (stage : Stage α) : Prop where
  run_eq : ∀ work : Workspace, stage.run work =
    (names.foldlM (allocate line) work.allocated).map fun allocated =>
      (value (registerOf allocated),
        { work with
          emissions := work.emissions ++ (drafts (registerOf allocated)).map (unnoted line)
          allocated := allocated })
  congr : ∀ f g : Name → Int, (∀ name ∈ names, f name = g name) →
    drafts f = drafts g ∧ value f = value g

section

variable {α β : Type} {line : Nat} {names others : List Name}
  {drafts : (Name → Int) → List Draft} {value : (Name → Int) → α} {stage : Stage α}

theorem append_unnoted_nil (line : Nat) (before : List Emission) :
    before ++ ([] : List Draft).map (unnoted line) = before :=
  List.append_nil before

theorem performs_pure (a : α) :
    Performs line [] (fun _ => []) (fun _ => a) (pure a : Stage α) where
  run_eq work := by
    rw [StateT.run_pure, append_unnoted_nil]
    rfl
  congr _ _ _ := ⟨rfl, rfl⟩

theorem performs_emit (opcode : Opcode) (target : Int) (operand : Target) :
    Performs line [] (fun _ => [⟨opcode, target, operand⟩]) (fun _ => ())
      (emit line opcode target operand) where
  run_eq _ := rfl
  congr _ _ _ := ⟨rfl, rfl⟩

theorem performs_register (name : Name) :
    Performs line [name] (fun _ => []) (fun registers => registers name) (register line name) where
  run_eq work := by
    have hfold : [name].foldlM (allocate line) work.allocated = allocate line work.allocated name :=
      by simp
    have hrun : (register line name).run work =
        (if name ∈ work.allocated then return registerOf work.allocated name
        else if lastRegister < firstRegister + work.allocated.length then
          throw (.outOfRegisters line name)
        else do
          set { work with allocated := work.allocated ++ [name] }
          return firstRegister + work.allocated.length : Stage Int).run work := rfl
    have hfull : lastRegister < firstRegister + work.allocated.length ↔
        ¬ work.allocated.length < registerCount := by
      unfold lastRegister firstRegister registerCount
      omega
    rw [hrun, hfold, append_unnoted_nil, allocate]
    by_cases hmem : name ∈ work.allocated
    · rw [if_pos hmem, if_pos hmem]
      rfl
    · rw [if_neg hmem, if_neg hmem]
      by_cases hroom : work.allocated.length < registerCount
      · rw [if_pos hroom, if_neg (by simpa [hfull] using hroom)]
        have hregister : registerOf (work.allocated ++ [name]) name =
            firstRegister + work.allocated.length := by
          rw [registerOf, List.idxOf_append_of_notMem hmem]
          simp
        simp only [Except.map, hregister]
        rfl
      · rw [if_neg hroom, if_pos (hfull.2 hroom)]
        rfl
  congr f g h := ⟨rfl, h name List.mem_cons_self⟩

theorem Performs.bind (h : Performs line names drafts value stage) {next : α → Stage β}
    {more : α → (Name → Int) → List Draft} {result : α → (Name → Int) → β}
    (hnext : ∀ a, Performs line others (more a) (result a) (next a)) :
    Performs line (names ++ others)
      (fun registers => drafts registers ++ more (value registers) registers)
      (fun registers => result (value registers) registers) (stage >>= next) where
  run_eq work := by
    rw [StateT.run_bind, h.run_eq, List.foldlM_append]
    cases hnames : names.foldlM (allocate line) work.allocated with
    | error error => rfl
    | ok middle =>
      change (next (value (registerOf middle))).run _ =
        (others.foldlM (allocate line) middle).map _
      rw [(hnext (value (registerOf middle))).run_eq]
      dsimp only
      cases hothers : others.foldlM (allocate line) middle with
      | error error => rfl
      | ok final =>
        -- The registers of the names are the final ones.
        have hagree : ∀ name ∈ names, registerOf middle name = registerOf final name :=
          fun name hname => (registerOf_extended (extended_of_foldlM_allocate hothers).1
            ((extended_of_foldlM_allocate hnames).2 name hname)).symm
        obtain ⟨hdrafts, hvalue⟩ := h.congr _ _ hagree
        simp only [Except.map, hdrafts, hvalue, List.map_append, List.append_assoc]
  congr f g hagree := by
    obtain ⟨hdrafts, hvalue⟩ := h.congr f g fun name hname =>
      hagree name (List.mem_append_left _ hname)
    obtain ⟨hmore, hresult⟩ := (hnext (value f)).congr f g fun name hname =>
      hagree name (List.mem_append_right _ hname)
    exact ⟨by rw [hdrafts, hmore, hvalue], by rw [hresult, hvalue]⟩

/-- The same names and drafts, written another way. -/
theorem Performs.of_eq (h : Performs line names drafts value stage)
    {drafts' : (Name → Int) → List Draft} {value' : (Name → Int) → α} (hnames : names = others)
    (hdrafts : ∀ registers, drafts registers = drafts' registers)
    (hvalue : ∀ registers, value registers = value' registers) :
    Performs line others drafts' value' stage := by
  obtain rfl := hnames
  obtain rfl := funext hdrafts
  obtain rfl := funext hvalue
  exact h

/-- Stages in front of an accepted line. -/
theorem Performs.accept {stage : Stage Unit} {value : (Name → Int) → Unit}
    (h : Performs line names drafts value stage) :
    Performs line names drafts (fun _ => true) (do stage; return true) :=
  (h.bind fun _ => performs_pure true).of_eq (List.append_nil names)
    (fun registers => List.append_nil (drafts registers)) fun _ => rfl

theorem performs_load (target : Int) (operand : Operand) :
    Performs line operand.names (fun registers => TritC.load registers target operand)
      (fun _ => ()) (load line target operand) := by
  cases operand with
  | literal value => exact performs_emit .set target (.value value)
  | «variable» name =>
    have hcopy : ∀ source : Int, Performs line []
        (fun _ => if source = target then [] else [⟨.cpy, target, .value source⟩]) (fun _ => ())
        (if source = target then return () else emit line .cpy target (.value source)) := by
      intro source
      by_cases hsame : source = target
      · simp only [if_pos hsame]
        exact performs_pure ()
      · simp only [if_neg hsame]
        exact performs_emit .cpy target (.value source)
    exact ((performs_register name).bind hcopy).of_eq rfl (fun _ => rfl) fun _ => rfl

theorem performs_jumps (target : Name) (test : Test) :
    Performs line [] (fun _ => testJumps target test) (fun _ => ()) (jumps line target test) := by
  cases test with
  | equal =>
    exact ((performs_emit .brn scratch (.ahead 3)).bind fun _ =>
      (performs_emit .brp scratch (.ahead 2)).bind fun _ =>
        performs_emit .jmp 0 (.label target)).of_eq rfl (fun _ => rfl) fun _ => rfl
  | notEqual =>
    exact ((performs_emit .brn scratch (.label target)).bind fun _ =>
      performs_emit .brp scratch (.label target)).of_eq rfl (fun _ => rfl) fun _ => rfl

theorem performs_combine (target left : Int) (opcode : Opcode) (right : Int) :
    Performs line [] (fun _ => TritC.combine target left opcode right) (fun _ => ())
      (combine line target left opcode right) := by
  unfold TritC.combine combine
  split
  · exact ((performs_emit .cpy scratch (.value left)).bind fun _ =>
      (performs_emit opcode scratch (.value right)).bind fun _ =>
        performs_emit .cpy target (.value scratch)).of_eq rfl (fun _ => rfl) fun _ => rfl
  · split
    · exact ((performs_emit .cpy target (.value left)).bind fun _ =>
        performs_emit opcode target (.value right)).of_eq rfl (fun _ => rfl) fun _ => rfl
    · exact performs_emit opcode target (.value right)

theorem performs_loadAll (pairs : List (Int × Operand)) :
    Performs line (pairs.flatMap fun pair => pair.2.names)
      (fun registers => pairs.flatMap fun pair => TritC.load registers pair.1 pair.2)
      (fun _ => ()) (loadAll line pairs) := by
  induction pairs with
  | nil => exact performs_pure ()
  | cons pair rest ih =>
    exact ((performs_load pair.1 pair.2).bind fun _ => ih).of_eq rfl (fun _ => rfl) fun _ => rfl

theorem performs_out (operand : Operand) :
    Performs line operand.names (fun registers => TritC.drafts registers (.out operand))
      (fun _ => true) (out line [operand]) := by
  cases operand with
  | literal value =>
    exact ((performs_load scratch (.literal value)).bind fun _ =>
      (performs_emit .out scratch (.value 0)).accept).of_eq rfl (fun _ => rfl) fun _ => rfl
  | «variable» name =>
    exact ((performs_register name).bind fun source =>
      (performs_emit .out source (.value 0)).accept).of_eq rfl (fun _ => rfl) fun _ => rfl

/-! ## What a line says and what its stages do -/

/-- The stages of a line do what its statement asks for, and nothing if it is none. Labels stand
apart: the slot that a label marks depends on what has been emitted before. -/
inductive Lowers (line : Nat) : Option Statement → Stage Bool → Prop
  | rejected : Lowers line none (pure false)
  | label (name : Name) : Lowers line (some (.label name)) (label line name)
  | performed {statement : Statement} {stage : Stage Bool}
      (hlabel : ∀ name, statement ≠ .label name)
      (h : Performs line statement.names (fun registers => TritC.drafts registers statement)
        (fun _ => true) stage) : Lowers line (some statement) stage

/-- A check that fails rejects the line, whatever was to follow. -/
theorem Lowers.check {read : Option α} {next : α → Option Statement} {stages : α → Stage Bool}
    (h : ∀ a, Lowers line (next a) (stages a)) :
    Lowers line (read >>= next) (check read stages) := by
  cases read with
  | none => exact .rejected
  | some a => exact h a

theorem lowers_branch (rest : List Char) :
    Lowers line (Reader.branch? rest) (branch line rest) := by
  refine .check fun inner => .check ?_
  rintro ⟨condition, tail⟩
  refine .check fun name => .check ?_
  rintro ⟨left, test, right⟩
  refine .check fun subject => .check fun target => .check fun value => ?_
  refine .performed (by simp) ?_
  refine ((performs_register subject).bind fun compared =>
    (performs_load scratch value).bind fun _ =>
      (performs_emit .tri scratch (.value compared)).bind fun _ =>
        (performs_jumps target test).accept).of_eq ?_ ?_ fun _ => rfl
  · simp [Statement.names]
  · simp [TritC.drafts]

theorem lowers_assign (left right : List Char) :
    Lowers line (Reader.assign? left right) (assign line left right) := by
  refine .check fun target => ?_
  cases Reader.operand? right with
  | some value =>
    refine .performed (by simp) ?_
    refine ((performs_register target).bind fun targetRegister =>
      (performs_load targetRegister value).accept).of_eq ?_ ?_ fun _ => rfl
    · simp [Statement.names]
    · simp [TritC.drafts]
  | none =>
    refine .check ?_
    rintro ⟨first, operator, second⟩
    refine .performed (by simp) ?_
    refine ((performs_register target).bind fun targetRegister =>
      (performs_register first).bind fun firstOperand =>
        (performs_register second).bind fun secondOperand =>
          (performs_combine targetRegister firstOperand operator.opcode secondOperand).accept).of_eq
            ?_ ?_ fun _ => rfl
    · simp [Statement.names]
    · simp [TritC.drafts]

theorem check_bind (read : Option α) (more : α → Option β) (next : β → Stage Bool) :
    check (read >>= more) next = check read fun a => check (more a) next := by
  cases read <;> rfl

/-- Arguments are read one after the other. -/
theorem check_mapM_cons (argument : List Char) (rest : List (List Char))
    (next : List Operand → Stage Bool) :
    check ((argument :: rest).mapM Reader.operand?) next =
      check (Reader.operand? argument) fun operand =>
        check (rest.mapM Reader.operand?) fun operands => next (operand :: operands) := by
  rw [List.mapM_cons, check_bind]
  congr 1
  funext operand
  exact check_bind _ _ _

theorem device_eq {name : Name} {arguments : List (List Char)} {registers : List Int}
    (hregisters : deviceRegisters? name arguments.length = some registers) (hname : name ≠ "out") :
    device line name arguments =
      check (arguments.mapM Reader.operand?) fun operands => do
        loadAll line (registers.zip operands)
        return true := by
  rw [device, hregisters]
  simp only [check, if_neg hname]

theorem lowers_device (name : Name) (arguments : List (List Char)) :
    Lowers line (Reader.device? name arguments) (device line name arguments) := by
  unfold Reader.device?
  split
  · next red green blue =>
    rw [device_eq rfl (by decide), check_mapM_cons]
    refine .check fun redValue => ?_
    rw [check_mapM_cons]
    refine .check fun greenValue => ?_
    rw [check_mapM_cons]
    refine .check fun blueValue => .performed (by simp) ?_
    exact (performs_loadAll [(0, redValue), (1, greenValue), (2, blueValue)]).accept.of_eq
      (by simp [Statement.names]) (by simp [TritC.drafts]) fun _ => rfl
  · next x y =>
    rw [device_eq rfl (by decide), check_mapM_cons]
    refine .check fun xValue => ?_
    rw [check_mapM_cons]
    refine .check fun yValue => .performed (by simp) ?_
    exact (performs_loadAll [(3, xValue), (4, yValue)]).accept.of_eq
      (by simp [Statement.names]) (by simp [TritC.drafts]) fun _ => rfl
  · next width height =>
    rw [device_eq rfl (by decide), check_mapM_cons]
    refine .check fun widthValue => ?_
    rw [check_mapM_cons]
    refine .check fun heightValue => .performed (by simp) ?_
    exact (performs_loadAll [(5, widthValue), (6, heightValue)]).accept.of_eq
      (by simp [Statement.names]) (by simp [TritC.drafts]) fun _ => rfl
  · next value =>
    have hstages : device line "out" [value] =
        check ([value].mapM Reader.operand?) (out line) := rfl
    rw [hstages, check_mapM_cons]
    refine .check fun operand => .performed (by simp) (performs_out operand)
  · next hcolor hpos hsize hout =>
    have hnone : deviceRegisters? name arguments.length = none := by
      unfold deviceRegisters?
      split
      · next hcount =>
        obtain ⟨red, green, blue, harguments⟩ := List.length_eq_three.1 hcount
        exact (hcolor red green blue rfl harguments).elim
      · next hcount =>
        obtain ⟨x, y, harguments⟩ := List.length_eq_two.1 hcount
        exact (hpos x y rfl harguments).elim
      · next hcount =>
        obtain ⟨width, height, harguments⟩ := List.length_eq_two.1 hcount
        exact (hsize width height rfl harguments).elim
      · next hcount =>
        obtain ⟨value, harguments⟩ := List.length_eq_one_iff.1 hcount
        exact (hout value rfl harguments).elim
      · rfl
    rw [device, hnone]
    exact .rejected

theorem lowers_remaining (text : List Char) :
    Lowers line (Reader.remaining? text) (remaining line text) := by
  unfold Reader.remaining? remaining
  split
  · exact .rejected
  · cases Reader.call? text with
    | some call => exact lowers_device call.1 call.2
    | none =>
      cases Text.splitOnce ['='] text with
      | some sides => exact lowers_assign (Text.trim sides.1) (Text.trim sides.2)
      | none => exact .rejected

theorem lowers_keywords (text : List Char) :
    Lowers line
      (match Reader.keyword? "if" text with
      | some rest => Reader.branch? rest
      | none =>
        match Reader.keyword? "goto" text with
        | some label => (Reader.name? (Text.trim label)).map .goto
        | none => Reader.remaining? text) (keywords line text) := by
  unfold keywords
  cases Reader.keyword? "if" text with
  | some rest => exact lowers_branch rest
  | none =>
    cases Reader.keyword? "goto" text with
    | some label =>
      dsimp only
      cases Reader.name? (Text.trim label) with
      | none => exact .rejected
      | some target =>
        exact .performed (by simp) (performs_emit .jmp 0 (.label target)).accept
    | none => exact lowers_remaining text

theorem lowers_statement (text : List Char) :
    Lowers line (Reader.statement? text) (statement line text) := by
  unfold Reader.statement? statement
  cases Text.stripLast? ':' text with
  | some name =>
    dsimp only
    cases Reader.name? (Text.trim name) with
    | none => exact .rejected
    | some name => exact .label name
  | none =>
    dsimp only [Reader.plain?]
    generalize String.ofList (text.map Char.toLower) = word
    by_cases hhalt : word = "halt" ∨ word = "halt()"
    · simp only [if_pos hhalt]
      exact .performed (by simp) (performs_emit .halt 0 (.value 0)).accept
    · by_cases hrect : word = "rect" ∨ word = "rect()"
      · simp only [if_neg hhalt, if_pos hrect]
        exact .performed (by simp) (performs_emit .rect 0 (.value 0)).accept
      · simp only [if_neg hhalt, if_neg hrect]
        exact lowers_keywords text

end

/-! ## Lines -/

/-- What is known of a workspace when a line starts. -/
def Workspace.scope (work : Workspace) : Scope :=
  ⟨work.emissions.length, work.labels, work.allocated, work.skipped⟩

/-- The workspace with more emissions, and with what is known then. -/
def Workspace.after (work : Workspace) (more : List Emission) (scope : Scope) : Workspace :=
  ⟨work.emissions ++ more, scope.labels, scope.allocated, scope.skipped⟩

/-- Giving the first new emission its text makes the emissions of the line. -/
theorem modify_unnoted (entry : Reader.Line) (before : List Emission) (list : List Draft) :
    (before ++ list.map (unnoted entry.number)).modify before.length
        (fun first => { first with note := some (String.ofList entry.text) }) =
      before ++ emissions entry list := by
  rw [List.modify_eq_take_drop, List.take_left, List.drop_left]
  cases list <;> rfl

theorem run_label (number : Nat) (name : Name) (work : Workspace) :
    (label number name).run work =
      if (work.labels.lookup name).isSome then .error (.duplicateLabel number name)
      else .ok (true, { work with labels := (name, work.emissions.length) :: work.labels }) := by
  have hrun : (label number name).run work =
      (if (work.labels.lookup name).isSome then throw (.duplicateLabel number name)
      else return true : Stage Bool).run
        { work with labels := (name, work.emissions.length) :: work.labels } := rfl
  rw [hrun]
  split <;> rfl

/-- What a line adds to the stages of its statement: the text of the first emission, or one more
line that was rejected. -/
theorem run_line (entry : Reader.Line) (work : Workspace) :
    (line entry).run work = ((statement entry.number entry.text).run work).map fun result =>
      ((), if result.1 then
        { result.2 with emissions := result.2.emissions.modify work.emissions.length fun first =>
          { first with note := some (String.ofList entry.text) } }
      else { result.2 with skipped := result.2.skipped + 1 }) := by
  have hrun : (line entry).run work =
      (statement entry.number entry.text).run work >>= fun result =>
        (if result.1 then
          modify fun after : Workspace =>
            { after with emissions := after.emissions.modify work.emissions.length fun first =>
                { first with note := some (String.ofList entry.text) } }
        else
          modify fun after : Workspace => { after with skipped := after.skipped + 1 } :
            Stage Unit).run result.2 := rfl
  rw [hrun]
  cases (statement entry.number entry.text).run work with
  | error error => rfl
  | ok result =>
    obtain ⟨accepted, after⟩ := result
    cases accepted <;> rfl

theorem line_eq (entry : Reader.Line) (work : Workspace) :
    (line entry).run work = (lowerLine work.scope entry).map fun result =>
      ((), work.after result.1 result.2) := by
  have hlowers : Lowers entry.number (Reader.statement? entry.text)
      (statement entry.number entry.text) := lowers_statement entry.text
  rw [run_line, lowerLine]
  generalize Reader.statement? entry.text = read at hlowers ⊢
  generalize statement entry.number entry.text = stage at hlowers ⊢
  cases hlowers with
  | rejected =>
    rw [StateT.run_pure]
    change Except.ok _ = Except.ok _
    simp [Workspace.after, Workspace.scope]
  | label name =>
    rw [run_label]
    dsimp only [define, Workspace.scope]
    split
    · rfl
    · -- A label emits nothing, so there is no emission that its text could be given to.
      have hsame := modify_unnoted entry work.emissions []
      simp only [List.map_nil, List.append_nil] at hsame
      simp only [Except.map, if_true, hsame]
      rfl
  | @performed said _ hlabel h =>
    have hdefine : define entry.number work.scope said = .ok work.labels := by
      cases said with
      | label name => exact absurd rfl (hlabel name)
      | _ => rfl
    rw [h.run_eq]
    dsimp only
    rw [hdefine]
    change Except.map _ (Except.map _ (said.names.foldlM (allocate entry.number) work.allocated)) =
      Except.map _ (said.names.foldlM (allocate entry.number) work.allocated >>= _)
    cases said.names.foldlM (allocate entry.number) work.allocated with
    | error error => rfl
    | ok allocated =>
      simp only [Except.map, if_true, modify_unnoted]
      rfl

theorem slots_of_lowerLine {scope next : Scope} {entry : Reader.Line} {first : List Emission}
    (h : lowerLine scope entry = .ok (first, next)) : next.slots = scope.slots + first.length := by
  cases hread : Reader.statement? entry.text with
  | none =>
    rw [lowerLine_none hread] at h
    cases h
    rfl
  | some said =>
    obtain ⟨labels, allocated, -, -, -, rfl⟩ := lowerLine_some hread h
    rfl

theorem lines_eq (entries : List Reader.Line) (work : Workspace) :
    (lines entries).run work = (lower work.scope entries).map fun result =>
      ((), work.after result.1 result.2) := by
  induction entries generalizing work with
  | nil =>
    rw [lines, StateT.run_pure, lower]
    change Except.ok _ = Except.ok _
    simp [Workspace.after, Workspace.scope]
  | cons entry rest ih =>
    rw [lines, StateT.run_bind, line_eq]
    cases hline : lowerLine work.scope entry with
    | error error =>
      rw [lower_cons_error hline]
      rfl
    | ok result =>
      obtain ⟨first, scope⟩ := result
      have hscope : (work.after first scope).scope = scope := by
        have hslots := slots_of_lowerLine hline
        simp only [Workspace.scope, Workspace.after, List.length_append] at hslots ⊢
        rw [← hslots]
      rw [lower_cons_ok hline]
      change (lines rest).run (work.after first scope) = _
      rw [ih, hscope]
      cases lower scope rest with
      | error error => rfl
      | ok others => simp only [Except.map, Workspace.after, List.append_assoc]

/-- Only a line that says nothing is rejected, and whichever check rejects it, it leaves the
workspace as it was. -/
theorem rejects_iff (number : Nat) (text : List Char) (work after : Workspace) :
    (statement number text).run work = .ok (false, after) ↔
      Reader.statement? text = none ∧ after = work := by
  have hlowers : Lowers number (Reader.statement? text) (statement number text) :=
    lowers_statement text
  generalize Reader.statement? text = read at hlowers ⊢
  generalize statement number text = stage at hlowers ⊢
  cases hlowers with
  | rejected =>
    rw [StateT.run_pure]
    change Except.ok (false, work) = Except.ok (false, after) ↔ _
    simp [eq_comm]
  | label name =>
    rw [run_label]
    split <;> simp
  | @performed said _ _ h =>
    rw [h.run_eq]
    cases said.names.foldlM (allocate number) work.allocated <;> simp [Except.map]

end Stages

theorem compileStaged_eq_compile (source : String) : compileStaged source = compile source := by
  rw [compileStaged, compile, Stages.lines_eq]
  change Except.bind (Except.map _ (lower {} (Reader.lines source))) _ = _
  cases hlower : lower {} (Reader.lines source) <;> rfl

end TritC

end TernaryConsole
