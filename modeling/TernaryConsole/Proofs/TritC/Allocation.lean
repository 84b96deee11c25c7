import TernaryConsole.Proofs.TritC.Blocks

/-!
# Proofs.TritC.Allocation — registers hold configurations

Every variable has a register of its own, the arguments of a fill have theirs, and the scratch
register belongs to nobody. Straight code therefore acts on what the registers hold as statements
act on configurations, whichever of their variables coincide.
-/

namespace TernaryConsole

namespace TritC

/-- Registers with the variables and the arguments of a configuration. -/
structure Holds (allocated : List Name) (registers : Registers) (c : Config) : Prop where
  words : registers.InRange
  store : ∀ name ∈ allocated,
    registers.get (Register.ofInt (registerOf allocated name)) = c.store name
  arguments : ∀ slot : Fin 7, registers.get (Register.ofNat slot) = c.arguments slot

/-! ## Different registers -/

theorem ofInt_ne {a b : Int} (ha : 0 ≤ a ∧ a ≤ 26) (hb : 0 ≤ b ∧ b ≤ 26) (hne : a ≠ b) :
    Register.ofInt a ≠ Register.ofInt b := by
  intro heq
  have hval := congrArg (fun register : Register => (register.val : Int)) heq
  simp only [val_ofInt ha.1 ha.2, val_ofInt hb.1 hb.2] at hval
  exact hne hval

theorem ofNat_ne_ofInt (slot : Fin 7) {b : Int} (hb : 7 ≤ b ∧ b ≤ 26) :
    Register.ofNat slot ≠ Register.ofInt b := by
  have hslot := slot.isLt
  rw [← Register.ofInt_natCast]
  exact ofInt_ne ⟨by omega, by omega⟩ ⟨by omega, hb.2⟩ (by omega)

theorem registerOf_injective {allocated : List Name} {name other : Name}
    (hname : name ∈ allocated) (heq : registerOf allocated name = registerOf allocated other) :
    name = other := by
  have hindex : allocated.idxOf name = allocated.idxOf other := by
    simp only [registerOf] at heq
    omega
  exact List.idxOf_inj hname |>.1 hindex

/-- Storing what a register holds changes nothing. -/
theorem set_get_self {registers : Registers} (h : registers.InRange) (register : Register) :
    registers.set register (registers.get register) = registers := by
  have hword := Word.wrap_of_mem (h register)
  cases registers with
  | mk slots =>
    simp only [Registers.set, Registers.get, Registers.mk.injEq] at hword ⊢
    rw [hword]
    simp

namespace Holds

variable {allocated : List Name} {registers : Registers} {c : Config}

/-- Variables are words. -/
theorem wrap_store (h : Holds allocated registers c) {name : Name} (hname : name ∈ allocated) :
    Word.wrap (c.store name) = c.store name := by
  have hword := h.words (Register.ofInt (registerOf allocated name))
  rw [h.store name hname] at hword
  exact Word.wrap_of_mem hword

theorem set_variable (h : Holds allocated registers c) (hwell : WellAllocated allocated)
    {name : Name} (hname : name ∈ allocated) (value : Int) :
    Holds allocated (registers.set (Register.ofInt (registerOf allocated name)) value)
      (c.assign name (Word.wrap value)) where
  words := h.words.set _ _
  store := by
    intro other hother
    by_cases heq : name = other
    · subst heq
      rw [Registers.get_set_same, Config.store_assign_self]
    · have hbounds := registerOf_bounds hwell hname
      have hbounds' := registerOf_bounds hwell hother
      have hne := ofInt_ne (a := registerOf allocated name) (b := registerOf allocated other)
        (by omega) (by omega) (fun hsame => heq (registerOf_injective hname hsame))
      rw [Registers.get_set_of_ne _ _ hne, Config.store_assign_of_ne _ _ heq]
      exact h.store other hother
  arguments := by
    intro slot
    have hbounds := registerOf_bounds hwell hname
    have hne := (ofNat_ne_ofInt slot (b := registerOf allocated name) (by omega)).symm
    rw [Registers.get_set_of_ne _ _ hne]
    exact h.arguments slot

theorem set_argument (h : Holds allocated registers c) (hwell : WellAllocated allocated)
    (slot : Fin 7) (value : Int) :
    Holds allocated (registers.set (Register.ofNat slot) value)
      (c.argue slot (Word.wrap value)) where
  words := h.words.set _ _
  store := by
    intro name hname
    have hbounds := registerOf_bounds hwell hname
    have hne := ofNat_ne_ofInt slot (b := registerOf allocated name) (by omega)
    rw [Registers.get_set_of_ne _ _ hne]
    exact h.store name hname
  arguments := by
    intro other
    by_cases heq : slot = other
    · subst heq
      rw [Registers.get_set_same, Config.arguments_argue_self]
    · have hne : Register.ofNat slot ≠ Register.ofNat other := by
        have hslot := slot.isLt
        have hother := other.isLt
        intro hsame
        have hval := congrArg Fin.val hsame
        simp only [Register.ofNat] at hval
        exact heq (Fin.ext (by omega))
      rw [Registers.get_set_of_ne _ _ hne, Config.arguments_argue_of_ne _ _ heq]
      exact h.arguments other

theorem set_scratch (h : Holds allocated registers c) (hwell : WellAllocated allocated)
    (value : Int) : Holds allocated (registers.set (Register.ofInt scratch) value) c where
  words := h.words.set _ _
  store := by
    intro name hname
    have hbounds := registerOf_bounds hwell hname
    have hscratch : scratch = 26 := rfl
    have hne := ofInt_ne (a := scratch) (b := registerOf allocated name) (by decide) (by omega)
      (by omega)
    rw [Registers.get_set_of_ne _ _ hne]
    exact h.store name hname
  arguments := by
    intro slot
    have hne := (ofNat_ne_ofInt slot (b := scratch) (by decide)).symm
    rw [Registers.get_set_of_ne _ _ hne]
    exact h.arguments slot

end Holds

/-! ## Operands -/

theorem wrap_eval {allocated : List Name} {registers : Registers} {c : Config}
    (h : Holds allocated registers c) {operand : Operand}
    (hnames : ∀ name ∈ operand.names, name ∈ allocated) :
    Word.wrap (c.eval operand) = c.eval operand := by
  cases operand with
  | literal value =>
    have hbounds := Numeral.bmod_bounds 6 value
    have hlargest : Numeral.largest 6 ≤ Word.largest := by decide
    exact Word.wrap_of_mem ⟨le_trans (neg_le_neg hlargest) hbounds.1, hbounds.2.trans hlargest⟩
  | «variable» name => exact h.wrap_store (hnames name List.mem_cons_self)

/-- A number of a register is read back from a second operand. -/
theorem bmod_register {number : Int} (low : 0 ≤ number) (high : number ≤ 26) :
    number.bmod (3 ^ 6) = number := by
  have hlargest : Numeral.largest 6 = 364 := by decide
  have hlow : -Numeral.largest 6 ≤ number := by omega
  exact Numeral.bmod_of_mem hlow (by omega)

theorem isStraight_load {registers : Name → Int} {register : Int} {operand : Operand} :
    ∀ draft ∈ load registers register operand, draft.IsStraight := by
  intro draft hmem
  cases operand with
  | literal value =>
    obtain rfl := List.mem_singleton.1 hmem
    exact ⟨rfl, value, rfl⟩
  | «variable» name =>
    simp only [load] at hmem
    split at hmem
    · exact absurd hmem List.not_mem_nil
    · obtain rfl := List.mem_singleton.1 hmem
      exact ⟨rfl, registers name, rfl⟩

/-- Loading an operand stores its value, also where no instruction is needed for it. -/
theorem foldl_load {allocated : List Name} {registers : Registers} {c : Config}
    (h : Holds allocated registers c) (hwell : WellAllocated allocated) {operand : Operand}
    (hnames : ∀ name ∈ operand.names, name ∈ allocated) (register : Int) :
    (load (registerOf allocated) register operand).foldl Draft.apply registers =
      registers.set (Register.ofInt register) (c.eval operand) := by
  cases operand with
  | literal value => rfl
  | «variable» name =>
    have hname := hnames name List.mem_cons_self
    have hbounds := registerOf_bounds hwell hname
    have hvalue := h.store name hname
    by_cases hsame : registerOf allocated name = register
    · -- The value is where it belongs already, and no draft is needed.
      rw [load, if_pos hsame, Config.eval, ← hvalue, ← hsame]
      exact (set_get_self h.words _).symm
    · rw [load, if_neg hsame, Config.eval, ← hvalue]
      simp only [List.foldl_cons, List.foldl_nil, Draft.apply, transfer,
        bmod_register (by omega : 0 ≤ registerOf allocated name) (by omega)]

/-! ## Operators -/

theorem wrap_result (operator : Operator) (a b : Int) :
    Word.wrap (operator.result a b) = operator.result a b := by
  cases operator with
  | add => exact Word.wrap_bmod _
  | sub => exact Word.wrap_bmod _
  | mul => exact Word.wrap_bmod _
  | div =>
    simp only [Operator.result]
    split
    · exact Word.wrap_of_mem Word.zero_mem
    · exact Word.wrap_bmod _

/-- The instruction of an operator stores its exact result, reduced. -/
theorem transfer_opcode (registers : Registers) (operator : Operator) (target : Register)
    (operand : Int) :
    transfer registers operator.opcode target operand =
      registers.set target (operator.result (registers.get target)
        (registers.get (Register.ofInt operand))) := by
  cases operator with
  | add => simp only [Operator.opcode, transfer, Operator.result, Word.add_eq_bmod]
  | sub => simp only [Operator.opcode, transfer, Operator.result, Word.sub_eq_bmod]
  | mul => simp only [Operator.opcode, transfer, Operator.result, Word.mul_eq_bmod]
  | div => simp only [Operator.opcode, transfer, Operator.result, Word.div, Word.wrap_eq_bmod_pow]

theorem apply_cpy (registers : Registers) (target origin : Int) (low : 0 ≤ origin)
    (high : origin ≤ 26) :
    Draft.apply registers ⟨.cpy, target, .value origin⟩ =
      registers.set (Register.ofInt target) (registers.get (Register.ofInt origin)) := by
  simp only [Draft.apply, transfer, bmod_register low high]

theorem apply_tri (registers : Registers) (target : Int) {right : Int} (low : 0 ≤ right)
    (high : right ≤ 26) :
    Draft.apply registers ⟨.tri, target, .value right⟩ =
      registers.set (Register.ofInt target)
        (registers.get (Register.ofInt target) - registers.get (Register.ofInt right)).sign := by
  simp only [Draft.apply, transfer, bmod_register low high, Word.compare_eq_sign]

theorem apply_operator (registers : Registers) (operator : Operator) (target : Int) {right : Int}
    (low : 0 ≤ right) (high : right ≤ 26) :
    Draft.apply registers ⟨operator.opcode, target, .value right⟩ =
      registers.set (Register.ofInt target)
        (operator.result (registers.get (Register.ofInt target))
          (registers.get (Register.ofInt right))) := by
  simp only [Draft.apply, transfer_opcode, bmod_register low high]

theorem isStraight_combine {target left right : Int} {operator : Operator} :
    ∀ draft ∈ combine target left operator.opcode right, draft.IsStraight := by
  have htransfers : transfers operator.opcode = true := by cases operator <;> rfl
  intro draft hmem
  unfold combine at hmem
  split at hmem
  · simp only [List.mem_cons, List.not_mem_nil, or_false] at hmem
    rcases hmem with rfl | rfl | rfl
    · exact ⟨rfl, _, rfl⟩
    · exact ⟨htransfers, _, rfl⟩
    · exact ⟨rfl, _, rfl⟩
  · split at hmem
    · simp only [List.mem_cons, List.not_mem_nil, or_false] at hmem
      rcases hmem with rfl | rfl
      · exact ⟨rfl, _, rfl⟩
      · exact ⟨htransfers, _, rfl⟩
    · obtain rfl := List.mem_singleton.1 hmem
      exact ⟨htransfers, _, rfl⟩

/-- The code of an operation assigns its result, whichever of the three variables coincide. -/
theorem holds_combine {allocated : List Name} {registers : Registers} {c : Config}
    (h : Holds allocated registers c) (hwell : WellAllocated allocated) (operator : Operator)
    {target left right : Name} (htarget : target ∈ allocated) (hleft : left ∈ allocated)
    (hright : right ∈ allocated) :
    Holds allocated
      ((combine (registerOf allocated target) (registerOf allocated left) operator.opcode
        (registerOf allocated right)).foldl Draft.apply registers)
      (c.assign target (operator.result (c.store left) (c.store right))) := by
  have hboundsLeft := registerOf_bounds hwell hleft
  have hboundsRight := registerOf_bounds hwell hright
  have hscratch : 0 ≤ scratch ∧ scratch ≤ 26 := by decide
  have hwordLeft := h.wrap_store hleft
  unfold combine
  by_cases hover : registerOf allocated target = registerOf allocated right ∧
      registerOf allocated target ≠ registerOf allocated left
  · -- The target is the right operand: the result is formed in the scratch register.
    have hcopied := h.set_scratch hwell (c.store left)
    have hformed := hcopied.set_scratch hwell (operator.result (c.store left) (c.store right))
    have hfinal := hformed.set_variable hwell htarget
      (operator.result (c.store left) (c.store right))
    rw [if_pos hover]
    simp only [List.foldl_cons, List.foldl_nil]
    rw [apply_cpy registers scratch (registerOf allocated left) (by omega) (by omega),
      h.store left hleft, apply_operator _ operator scratch (by omega) (by omega),
      Registers.get_set_same, hwordLeft, hcopied.store right hright,
      apply_cpy _ _ _ hscratch.1 hscratch.2, Registers.get_set_same, wrap_result]
    rwa [wrap_result] at hfinal
  · rw [if_neg hover]
    by_cases hcopy : registerOf allocated target ≠ registerOf allocated left
    · -- The target is neither operand: the left one is copied first.
      have hne : target ≠ right := by
        rintro rfl
        exact hover ⟨rfl, hcopy⟩
      have hcopied := h.set_variable hwell htarget (c.store left)
      rw [hwordLeft] at hcopied
      have hfinal := hcopied.set_variable hwell htarget
        (operator.result (c.store left) (c.store right))
      rw [if_pos hcopy]
      simp only [List.foldl_cons, List.foldl_nil]
      rw [apply_cpy registers (registerOf allocated target) (registerOf allocated left)
        (by omega) (by omega), h.store left hleft,
        apply_operator _ operator (registerOf allocated target) (by omega) (by omega),
        Registers.get_set_same, hwordLeft, hcopied.store right hright,
        Config.store_assign_of_ne _ _ hne]
      rwa [wrap_result, Config.assign_assign] at hfinal
    · -- The target is the left operand.
      have hsame : registerOf allocated target = registerOf allocated left := not_not.1 hcopy
      rw [if_neg hcopy]
      simp only [List.foldl_cons, List.foldl_nil]
      rw [apply_operator _ _ _ (by omega) (by omega), hsame, h.store left hleft,
        h.store right hright, ← hsame]
      have hfinal := h.set_variable hwell htarget
        (operator.result (c.store left) (c.store right))
      rwa [wrap_result] at hfinal

end TritC

end TernaryConsole
