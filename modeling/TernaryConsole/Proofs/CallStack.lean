import TernaryConsole.Proofs.Drive

/-!
# Proofs.CallStack — calls and returns nest

As long as a program leaves the stack pointer to calls and returns and nests no deeper than the
free cells allow, the cells behind the screen are a stack. The pointer is determined by the depth,
each open call has its return address in a frame of its own, and every return continues behind the
call that it belongs to (`nested_of_bounded_depth`).

`OpenCall` speaks about the history of the run; `StackHolds` is the invariant that ties it to the
machine.
-/

namespace TernaryConsole

namespace Machine

/-! ## Depth -/

/-- The operation that the next step executes. -/
def nextOpcode (m : Machine) : Option Opcode :=
  m.executes.map Instruction.opcode

/-- What the next step adds to the depth. -/
def depthChange (m : Machine) : Int :=
  if m.nextOpcode = some .call then 1 else if m.nextOpcode = some .ret then -1 else 0

/-- The number of calls minus the number of returns in the first steps of a run. -/
def depth (run : Nat → Machine) : Nat → Int
  | 0 => 0
  | n + 1 => depth run n + (run n).depthChange

/-- Step `call` of the run called at depth `level`, and the call has not returned before
step `n`. -/
structure OpenCall (run : Nat → Machine) (level : Int) (call n : Nat) : Prop where
  before : call < n
  calls : (run call).nextOpcode = some .call
  level_eq : depth run call = level
  inside : ∀ k, call < k → k ≤ n → level < depth run k

section History

variable {run : Nat → Machine} {n : Nat}

theorem depth_succ_of_call (h : (run n).nextOpcode = some .call) :
    depth run (n + 1) = depth run n + 1 := by
  rw [depth, depthChange, if_pos h]

theorem depth_succ_of_ret (h : (run n).nextOpcode = some .ret) :
    depth run (n + 1) = depth run n - 1 := by
  rw [depth, depthChange, h, if_neg (by decide), if_pos rfl]
  rfl

theorem depth_succ_of_ne (hcall : (run n).nextOpcode ≠ some .call)
    (hret : (run n).nextOpcode ≠ some .ret) : depth run (n + 1) = depth run n := by
  rw [depth, depthChange, if_neg hcall, if_neg hret, Int.add_zero]

namespace OpenCall

variable {level : Int} {call : Nat}

/-- Each level has one open call at most. -/
theorem unique {other : Nat} (h : OpenCall run level call n) (hother : OpenCall run level other n) :
    call = other := by
  rcases Nat.lt_trichotomy call other with hlt | heq | hgt
  · have hdeeper := h.inside other hlt (Nat.le_of_lt hother.before)
    have hlevel := hother.level_eq
    omega
  · exact heq
  · have hdeeper := hother.inside call hgt (Nat.le_of_lt h.before)
    have hlevel := h.level_eq
    omega

/-- Later calls open higher levels. -/
theorem lt_of_level_lt {higher : Int} {other : Nat} (h : OpenCall run level call n)
    (hother : OpenCall run higher other n) (hlevel : level < higher) : call < other := by
  rcases Nat.lt_trichotomy call other with hlt | rfl | hgt
  · exact hlt
  · have hlow := h.level_eq
    have hhigh := hother.level_eq
    omega
  · -- While the higher level is open the depth exceeds it, so no lower call can follow.
    have hdeeper := hother.inside call hgt (Nat.le_of_lt h.before)
    have hlow := h.level_eq
    omega

theorem level_lt (h : OpenCall run level call n) : level < depth run n :=
  h.inside n h.before (Nat.le_refl n)

/-- An open call stays open until the depth falls back to its level. -/
theorem succ (h : OpenCall run level call n) (hdepth : level < depth run (n + 1)) :
    OpenCall run level call (n + 1) where
  before := Nat.lt_succ_of_lt h.before
  calls := h.calls
  level_eq := h.level_eq
  inside := by
    intro k hlow hhigh
    by_cases hlast : k = n + 1
    · subst hlast
      exact hdepth
    · exact h.inside k hlow (by omega)

/-- A call opens the level at which it is made. -/
theorem of_call (h : (run n).nextOpcode = some .call) :
    OpenCall run (depth run n) n (n + 1) where
  before := Nat.lt_succ_self n
  calls := h
  level_eq := rfl
  inside := by
    intro k hlow hhigh
    obtain rfl : k = n + 1 := by omega
    have hsucc := depth_succ_of_call h
    omega

/-- The calls that are open after a step were open before, or the step is the call. -/
theorem cases_succ (h : OpenCall run level call (n + 1)) :
    OpenCall run level call n ∨ (call = n ∧ (run n).nextOpcode = some .call ∧
      depth run n = level) := by
  by_cases hlast : call = n
  · subst hlast
    exact Or.inr ⟨rfl, h.calls, h.level_eq⟩
  · have hbefore := h.before
    exact Or.inl ⟨by omega, h.calls, h.level_eq,
      fun k hlow hhigh => h.inside k hlow (Nat.le_succ_of_le hhigh)⟩

end OpenCall

end History

/-! ## One step -/

theorem nextOpcode_eq_some {m : Machine} {opcode : Opcode} (h : m.nextOpcode = some opcode) :
    ∃ i, m.executes = some i ∧ i.opcode = opcode := by
  simpa [nextOpcode, Option.map_eq_some_iff] using h

theorem nextOpcode_of_executes {m : Machine} {i : Instruction} (h : m.executes = some i) :
    m.nextOpcode = some i.opcode := by
  rw [nextOpcode, h]
  rfl

/-- Whoever calls stands on a cell of memory or at most three cells in front of it. -/
theorem pc_bounds_of_call {m : Machine} (h : m.nextOpcode = some .call) :
    -3 ≤ m.pc ∧ m.pc < Memory.size := by
  obtain ⟨i, hi, hop⟩ := nextOpcode_eq_some h
  exact pc_bounds_of_executes hi (by simp [hop])

/-- A call moves the stack pointer down by a frame, a return moves it up, and all other
instructions keep it, if none of them names it as its result. -/
theorem stackPointer_step {m : Machine}
    (hpointer : ∀ i, m.executes = some i → i.opcode.writesRegister = true →
      i.operand1 ≠ Register.stackPointer) :
    m.step.registers.get Register.stackPointer =
      if m.depthChange = 0 then m.registers.get Register.stackPointer
      else Word.wrap (m.registers.get Register.stackPointer - 15 * m.depthChange) := by
  cases hi : m.executes with
  | none =>
    have hchange : m.depthChange = 0 := by
      simp [depthChange, nextOpcode, hi]
    rw [if_pos hchange, step_of_isHalted (executes_eq_none_iff.1 hi)]
  | some i =>
    have hop := nextOpcode_of_executes hi
    have hkept : i.opcode ≠ .call → i.opcode ≠ .ret → m.depthChange = 0 := by
      intro hcall hret
      simp [depthChange, hop, hcall, hret]
    have hafter : m.step.registers = (m.skip.execute i).registers := by
      rw [step_of_executes hi]
      rfl
    have heffect := effect_execute m.skip i
    rw [hafter]
    generalize m.skip.execute i = after at heffect ⊢
    -- Results never go to the pointer, so only the two cases of the stack itself move it.
    cases heffect with
    | write value hwrites =>
      have hcall : i.opcode ≠ .call := by
        intro hopcode
        rw [hopcode] at hwrites
        exact absurd hwrites (by decide)
      have hret : i.opcode ≠ .ret := by
        intro hopcode
        rw [hopcode] at hwrites
        exact absurd hwrites (by decide)
      rw [if_pos (hkept hcall hret)]
      exact Registers.get_set_of_ne _ _ (hpointer i hi hwrites)
    | call hopcode =>
      have hchange : m.depthChange = 1 := by
        simp [depthChange, hop, hopcode]
      rw [hchange, if_neg (by decide)]
      exact Registers.get_set_same _ _ _
    | ret hopcode =>
      have hchange : m.depthChange = -1 := by
        simp [depthChange, hop, hopcode]
      rw [hchange, if_neg (by decide), show m.registers.get Register.stackPointer - 15 * (-1) =
        m.registers.get Register.stackPointer + 15 by omega]
      exact Registers.get_set_same _ _ _
    | rect hopcode =>
      rw [if_pos (hkept (by rw [hopcode]; decide) (by rw [hopcode]; decide))]
      rfl
    | pass pc state output hopcode =>
      rw [if_pos (hkept hopcode.1 hopcode.2)]
      rfl

/-- What a call does to memory. -/
theorem memory_step_of_call {m : Machine} (h : m.nextOpcode = some .call) :
    m.step.memory = m.memory.store m.frame Memory.slotWidth (m.pc + 15) := by
  obtain ⟨i, hi, hop⟩ := nextOpcode_eq_some h
  have hcall : m.skip.execute i = m.skip.call i.operand2 := by
    simp only [execute, hop]
  rw [step_of_executes hi, hcall]
  exact memory_call m.skip i.operand2

/-- A call saves the address behind it, if its frame lies in memory. -/
theorem load_step_of_call {m : Machine} (h : m.nextOpcode = some .call) (low : 0 ≤ m.frame)
    (high : m.frame + 15 ≤ Memory.size) :
    m.step.memory.load m.frame Memory.slotWidth = m.pc + 15 := by
  have hpc := pc_bounds_of_call h
  have hsize : Memory.size = 1594323 := rfl
  have hlargest : Numeral.largest Memory.slotWidth = 7174453 := by decide
  -- The counter is so small that fifteen trits hold it.
  have hshort : (m.pc + 15).bmod (3 ^ Memory.slotWidth) = m.pc + 15 :=
    Numeral.bmod_of_mem (by omega) (by omega)
  have hread := Memory.load_store_same m.memory m.frame Memory.slotWidth (m.pc + 15) low high
  rw [memory_step_of_call h, hread, hshort]

/-- A return continues where the frame above the stack pointer says. -/
theorem pc_step_of_ret {m : Machine} (h : m.nextOpcode = some .ret) :
    m.step.pc = m.memory.load (m.frame + 15) Memory.slotWidth := by
  obtain ⟨i, hi, hop⟩ := nextOpcode_eq_some h
  have hret : m.skip.execute i = m.skip.ret := by
    simp only [execute, hop]
  rw [step_of_executes hi, hret]
  exact pc_ret m.skip

/-! ## The invariant -/

/-- The address of the frame of a level. -/
def frameOf (level : Int) : Int :=
  Memory.stackBase - 15 * level

/-- How deep calls may nest before their frames meet the screen. -/
def maxDepth : Int := 35429

/-- The stack in front of step `n` of a run. -/
structure StackHolds (run : Nat → Machine) (n : Nat) : Prop where
  pointer : (run n).registers.get Register.stackPointer = -15 * depth run n
  opened : ∀ level, 0 ≤ level → level < depth run n → ∃ call, OpenCall run level call n
  saved : ∀ level call, OpenCall run level call n →
    (run n).memory.load (frameOf level) Memory.slotWidth = (run call).pc + 15

namespace StackHolds

variable {writes : PortWrites} {m : Machine} {n : Nat}

theorem zero (hpointer : m.registers.get Register.stackPointer = 0) :
    StackHolds (drive writes m) 0 where
  pointer := hpointer
  opened := by
    intro level hlow hhigh
    have hzero : depth (drive writes m) 0 = 0 := rfl
    omega
  saved := by
    intro level call hopen
    exact absurd hopen.before (Nat.not_lt_zero call)

theorem frame_eq (h : StackHolds (drive writes m) n) :
    (drive writes m n).frame = frameOf (depth (drive writes m) n) := by
  rw [frame, h.pointer, frameOf]
  omega

/-- A step keeps all cells above the frame that a call would save. -/
theorem cell_above (h : StackHolds (drive writes m) n)
    (hdepth : depth (drive writes m) n ≤ maxDepth) {address : Int}
    (hlow : frameOf (depth (drive writes m) n) + 15 ≤ address) :
    (drive writes m (n + 1)).memory.cell address = (drive writes m n).memory.cell address := by
  have hframe := h.frame_eq
  have hmax : maxDepth = 35429 := rfl
  have hbase : Memory.stackBase = 1594308 := rfl
  apply cell_step (m := (drive writes m n).setInput _)
  · -- The bound on the depth keeps all frames behind the screen.
    intro hscreen
    simp only [Screen.IsScreenCell, Screen.base_eq, Screen.length_eq] at hscreen
    simp only [frameOf] at hlow
    omega
  · -- A call writes to the next free frame, which ends where these cells begin.
    rintro ⟨i, _, _, _, hhigh⟩
    have hsame : ((drive writes m n).setInput (writes n (drive writes m n).input)).frame =
        (drive writes m n).frame := rfl
    omega

/-- A call that stays within the bound saves its frame behind the screen. -/
theorem clearedEnd_le_frame (h : StackHolds (drive writes m) n)
    (hdepth : depth (drive writes m) (n + 1) ≤ maxDepth)
    (hcall : (drive writes m n).nextOpcode = some .call) :
    clearedEnd ≤ (drive writes m n).frame := by
  have hsucc := depth_succ_of_call hcall
  have hmax : maxDepth = 35429 := rfl
  have hbase : Memory.stackBase = 1594308 := rfl
  have hcleared : clearedEnd = 1062882 := rfl
  rw [h.frame_eq, frameOf]
  omega

/-- A call changes no cell in front of the uncleared area. -/
theorem cell_of_call (h : StackHolds (drive writes m) n)
    (hdepth : depth (drive writes m) (n + 1) ≤ maxDepth)
    (hcall : (drive writes m n).nextOpcode = some .call) {address : Int}
    (hlow : address < clearedEnd) :
    (drive writes m (n + 1)).memory.cell address = (drive writes m n).memory.cell address := by
  have hframe := h.clearedEnd_le_frame hdepth hcall
  have hmemory : (drive writes m (n + 1)).memory = (drive writes m n).memory.store
      (drive writes m n).frame Memory.slotWidth ((drive writes m n).pc + 15) :=
    memory_step_of_call (m := (drive writes m n).setInput _) hcall
  rw [hmemory]
  exact Memory.cell_store_of_not_mem (by omega)

/-- No step changes the program region. -/
theorem cell_below_screen (h : StackHolds (drive writes m) n)
    (hdepth : depth (drive writes m) (n + 1) ≤ maxDepth) {address : Int}
    (hlow : address < Screen.base) :
    (drive writes m (n + 1)).memory.cell address = (drive writes m n).memory.cell address := by
  have hcleared : clearedEnd = 1062882 := rfl
  have hbase := Screen.base_eq
  apply cell_step (m := (drive writes m n).setInput _)
  · intro hscreen
    exact absurd hscreen.1 (by omega)
  · rintro ⟨i, hi, hop, hframe, _⟩
    have hcall : (drive writes m n).nextOpcode = some .call := by
      rw [← hop]
      exact nextOpcode_of_executes hi
    have habove := h.clearedEnd_le_frame hdepth hcall
    have hsame : ((drive writes m n).setInput (writes n (drive writes m n).input)).frame =
        (drive writes m n).frame := rfl
    omega

/-- The frame of an open level keeps its return address. -/
theorem load_frame (h : StackHolds (drive writes m) n)
    (hdepth : depth (drive writes m) n ≤ maxDepth) {level : Int}
    (hopen : level < depth (drive writes m) n) :
    (drive writes m (n + 1)).memory.load (frameOf level) Memory.slotWidth =
      (drive writes m n).memory.load (frameOf level) Memory.slotWidth := by
  apply Memory.load_congr
  intro address hlow _
  apply h.cell_above hdepth
  simp only [frameOf] at hlow ⊢
  omega

/-- One step of a run keeps the invariant. -/
theorem succ (h : StackHolds (drive writes m) n)
    (hpointer : ∀ i, (drive writes m n).executes = some i → i.opcode.writesRegister = true →
      i.operand1 ≠ Register.stackPointer)
    (hdepth : ∀ k, k ≤ n + 1 → 0 ≤ depth (drive writes m) k ∧ depth (drive writes m) k ≤ maxDepth) :
    StackHolds (drive writes m) (n + 1) where
  pointer := by
    have hstep := stackPointer_step
      (m := (drive writes m n).setInput (writes n (drive writes m n).input)) hpointer
    have hsucc : depth (drive writes m) (n + 1) =
        depth (drive writes m) n + (drive writes m n).depthChange := rfl
    have hnow := hdepth (n + 1) (Nat.le_refl _)
    have hmax : maxDepth = 35429 := rfl
    have hlargest : (600000 : Int) ≤ Word.largest := by decide
    have hold : ((drive writes m n).setInput (writes n (drive writes m n).input)).registers.get
        Register.stackPointer = -15 * depth (drive writes m) n := h.pointer
    refine hstep.trans ?_
    rw [hold]
    by_cases hchange : (drive writes m n).depthChange = 0
    · refine (if_pos hchange).trans ?_
      omega
    · refine (if_neg hchange).trans ?_
      have hsame : ((drive writes m n).setInput (writes n (drive writes m n).input)).depthChange =
          (drive writes m n).depthChange := rfl
      -- With the depth bounded the pointer never wraps.
      rw [hsame, Word.wrap_of_mem ⟨by omega, by omega⟩]
      omega
  opened := by
    intro level hlow hhigh
    by_cases hold : level < depth (drive writes m) n
    · obtain ⟨call, hopen⟩ := h.opened level hlow hold
      exact ⟨call, hopen.succ hhigh⟩
    · -- Only a call makes the run deeper.
      have hcall : (drive writes m n).nextOpcode = some .call := by
        by_contra hcall
        by_cases hret : (drive writes m n).nextOpcode = some .ret
        · have hsucc := depth_succ_of_ret hret
          omega
        · have hsucc := depth_succ_of_ne hcall hret
          omega
      have hsucc := depth_succ_of_call hcall
      obtain rfl : level = depth (drive writes m) n := by omega
      exact ⟨n, OpenCall.of_call hcall⟩
  saved := by
    intro level call hopen
    have hnow := hdepth n (Nat.le_succ n)
    rcases hopen.cases_succ with hbefore | ⟨rfl, hcall, hlevel⟩
    · -- The call was open before, and the step does not reach its frame.
      rw [h.load_frame hnow.2 hbefore.level_lt]
      exact h.saved level call hbefore
    · -- The step is the call.
      have hframe := h.frame_eq
      have hcleared := h.clearedEnd_le_frame (hdepth _ (Nat.le_refl _)).2 hcall
      have hbase : Memory.stackBase = 1594308 := rfl
      have hsize : Memory.size = 1594323 := rfl
      rw [← hlevel, ← hframe]
      apply load_step_of_call
        (m := (drive writes m call).setInput (writes call (drive writes m call).input)) hcall
      · exact le_trans (by omega) hcleared
      · have hsame : ((drive writes m call).setInput
            (writes call (drive writes m call).input)).frame = (drive writes m call).frame := rfl
        rw [hsame, hframe, frameOf]
        omega

end StackHolds

/-! ## Runs -/

/-- Calls and returns nest in the first `n` steps of a run. -/
structure Nested (run : Nat → Machine) (n : Nat) : Prop where
  /-- The stack pointer counts the open calls. -/
  pointer : ∀ k, k ≤ n → (run k).registers.get Register.stackPointer = -15 * depth run k
  /-- Every level below the depth has one open call. -/
  opened : ∀ k, k ≤ n → ∀ level, 0 ≤ level → level < depth run k →
    ∃! call, OpenCall run level call k
  /-- The levels number the open calls in the order in which they were made. -/
  ordered : ∀ k, k ≤ n → ∀ level higher call other, OpenCall run level call k →
    OpenCall run higher other k → level < higher → call < other
  /-- The frame of an open call holds the address behind it. -/
  saved : ∀ k, k ≤ n → ∀ level call, OpenCall run level call k →
    (run k).memory.load (frameOf level) Memory.slotWidth = (run call).pc + 15
  /-- A return continues behind the call whose level it leaves. -/
  returns : ∀ k, k < n → (run k).nextOpcode = some .ret →
    ∃ call, OpenCall run (depth run (k + 1)) call k ∧ (run (k + 1)).pc = (run call).pc + 15
  /-- A call writes behind the screen only. -/
  calls : ∀ k, k < n → (run k).nextOpcode = some .call → ∀ address : Int, address < clearedEnd →
    (run (k + 1)).memory.cell address = (run k).memory.cell address
  /-- No step writes to the frame of an open call. -/
  frames : ∀ k, k < n → ∀ level, level < depth run k → ∀ address, frameOf level ≤ address →
    address < frameOf level + 15 →
    (run (k + 1)).memory.cell address = (run k).memory.cell address
  /-- No step writes to the program region. -/
  program : ∀ k, k < n → ∀ address : Int, address < Screen.base →
    (run (k + 1)).memory.cell address = (run k).memory.cell address

/-- The invariant holds along a run from an installation. -/
theorem stackHolds_install (source : String) (m : Machine) (writes : PortWrites) (n : Nat)
    (hpointer : ∀ k, k < n → ∀ i, (drive writes (m.install source).2 k).executes = some i →
      i.opcode.writesRegister = true → i.operand1 ≠ Register.stackPointer)
    (hdepth : ∀ k, k ≤ n → 0 ≤ depth (drive writes (m.install source).2) k ∧
      depth (drive writes (m.install source).2) k ≤ maxDepth) :
    StackHolds (drive writes (m.install source).2) n := by
  induction n with
  | zero =>
    apply StackHolds.zero
    rw [registers_install]
    exact Registers.get_blank _
  | succ n ih =>
    have hbefore := ih (fun k hk => hpointer k (Nat.lt_succ_of_lt hk))
      (fun k hk => hdepth k (Nat.le_succ_of_le hk))
    exact hbefore.succ (hpointer n (Nat.lt_succ_self n)) hdepth

/-- Calls nest in every run from an installation in which no result goes to the stack pointer and
the depth stays between zero and `maxDepth`. -/
theorem nested_of_bounded_depth (source : String) (m : Machine) (writes : PortWrites) (n : Nat)
    (hpointer : ∀ k, k < n → ∀ i, (drive writes (m.install source).2 k).executes = some i →
      i.opcode.writesRegister = true → i.operand1 ≠ Register.stackPointer)
    (hdepth : ∀ k, k ≤ n → 0 ≤ depth (drive writes (m.install source).2) k ∧
      depth (drive writes (m.install source).2) k ≤ maxDepth) :
    Nested (drive writes (m.install source).2) n := by
  have hholds : ∀ k, k ≤ n → StackHolds (drive writes (m.install source).2) k := by
    intro k hk
    exact stackHolds_install source m writes k (fun j hj => hpointer j (by omega))
      (fun j hj => hdepth j (by omega))
  refine ⟨?_, ?_, ?_, ?_, ?_, ?_, ?_, ?_⟩
  · intro k hk
    exact (hholds k hk).pointer
  · intro k hk level hlow hhigh
    obtain ⟨call, hopen⟩ := (hholds k hk).opened level hlow hhigh
    exact ⟨call, hopen, fun other hother => hother.unique hopen⟩
  · intro k hk level higher call other hopen hother hlevel
    exact hopen.lt_of_level_lt hother hlevel
  · intro k hk
    exact (hholds k hk).saved
  · -- The frame above the pointer is that of the topmost open level.
    intro k hk hret
    have hk' := hholds k (Nat.le_of_lt hk)
    have hsucc := depth_succ_of_ret hret
    have hlow := (hdepth (k + 1) hk).1
    obtain ⟨call, hopen⟩ := hk'.opened _ hlow (by omega)
    have hframe : (drive writes (m.install source).2 k).frame + 15 =
        frameOf (depth (drive writes (m.install source).2) (k + 1)) := by
      rw [hk'.frame_eq, hsucc]
      simp only [frameOf]
      omega
    have hpc : (drive writes (m.install source).2 (k + 1)).pc =
        (drive writes (m.install source).2 k).memory.load
          ((drive writes (m.install source).2 k).frame + 15) Memory.slotWidth :=
      pc_step_of_ret (m := (drive writes (m.install source).2 k).setInput _) hret
    refine ⟨call, hopen, ?_⟩
    rw [hpc, hframe]
    exact hk'.saved _ call hopen
  · intro k hk hcall address hlow
    exact (hholds k (Nat.le_of_lt hk)).cell_of_call (hdepth (k + 1) hk).2 hcall hlow
  · intro k hk level hlevel address hlow _
    apply (hholds k (Nat.le_of_lt hk)).cell_above (hdepth k (Nat.le_of_lt hk)).2
    simp only [frameOf] at hlow ⊢
    omega
  · intro k hk address hlow
    exact (hholds k (Nat.le_of_lt hk)).cell_below_screen (hdepth (k + 1) hk).2 hlow

theorem nested_of_bounded_depth_bounce :
    (∀ k, k < 2 → ∀ i, (drive (fun _ ports => ports) (initial.install bounce).2 k).executes =
      some i → i.opcode.writesRegister = true → i.operand1 ≠ Register.stackPointer) ∧
    (∀ k, k ≤ 2 → 0 ≤ depth (drive (fun _ ports => ports) (initial.install bounce).2) k ∧
      depth (drive (fun _ ports => ports) (initial.install bounce).2) k ≤ maxDepth) ∧
    Nested (drive (fun _ ports => ports) (initial.install bounce).2) 2 := by
  have hfirst := executes_bounce_zero (fun _ ports => ports) initial
  have hsecond := executes_bounce_one (fun _ ports => ports) initial
  have hpointer : ∀ k, k < 2 → ∀ i,
      (drive (fun _ ports => ports) (initial.install bounce).2 k).executes = some i →
      i.opcode.writesRegister = true → i.operand1 ≠ Register.stackPointer := by
    intro k hk i hi hwrites
    obtain rfl | rfl : k = 0 ∨ k = 1 := by omega
    · rw [hfirst] at hi
      cases hi
      exact absurd hwrites (by decide)
    · rw [hsecond] at hi
      cases hi
      exact absurd hwrites (by decide)
  have hdepth : ∀ k, k ≤ 2 →
      0 ≤ depth (drive (fun _ ports => ports) (initial.install bounce).2) k ∧
      depth (drive (fun _ ports => ports) (initial.install bounce).2) k ≤ maxDepth := by
    have hzero : depth (drive (fun _ ports => ports) (initial.install bounce).2) 0 = 0 := rfl
    have hone : depth (drive (fun _ ports => ports) (initial.install bounce).2) 1 = 1 := by
      rw [depth_succ_of_call (nextOpcode_of_executes hfirst), hzero, Int.zero_add]
    have htwo : depth (drive (fun _ ports => ports) (initial.install bounce).2) 2 = 0 := by
      rw [depth_succ_of_ret (nextOpcode_of_executes hsecond), hone, Int.sub_self]
    intro k hk
    obtain rfl | rfl | rfl : k = 0 ∨ k = 1 ∨ k = 2 := by omega
    · rw [hzero]
      decide
    · rw [hone]
      decide
    · rw [htwo]
      decide
  exact ⟨hpointer, hdepth,
    nested_of_bounded_depth bounce initial (fun _ ports => ports) 2 hpointer hdepth⟩

end Machine

end TernaryConsole
