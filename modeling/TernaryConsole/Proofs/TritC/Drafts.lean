import TernaryConsole.Proofs.Drive
import TernaryConsole.TritC.Lowering

/-!
# Proofs.TritC.Drafts — what lowering emits

Statement by statement, the drafts of a source call nothing and return nowhere, name only registers
that the compiler hands out or keeps for itself, and jump to labels or no farther than to the end
of their own statement (`confined_drafts`).
-/

namespace TernaryConsole

namespace TritC

/-- A draft that is followed by `left` drafts of its statement, counted with itself. -/
structure Draft.Confined (owned : Int → Prop) (left : Nat) (draft : Draft) : Prop where
  opcode_ne : draft.opcode ≠ .nop ∧ draft.opcode ≠ .call ∧ draft.opcode ≠ .ret
  register : owned draft.register
  target : draft.opcode.jumps = true →
    (∃ name, draft.target = .label name) ∨ ∃ slots ≤ left, draft.target = .ahead slots

/-- All drafts of a list are confined to it. -/
inductive Confined (owned : Int → Prop) : List Draft → Prop
  | nil : Confined owned []
  | cons {draft : Draft} {rest : List Draft} (h : draft.Confined owned (rest.length + 1))
      (hrest : Confined owned rest) : Confined owned (draft :: rest)

namespace Confined

variable {owned : Int → Prop}

theorem append {first second : List Draft} (h : Confined owned first)
    (hsecond : Confined owned second) : Confined owned (first ++ second) := by
  induction h with
  | nil => exact hsecond
  | cons hdraft hrest ih =>
    refine Confined.cons ⟨hdraft.opcode_ne, hdraft.register, fun hjumps => ?_⟩ ih
    -- The end of the list moves away, so what was in front of it still is.
    rcases hdraft.target hjumps with hlabel | ⟨slots, hle, hahead⟩
    · exact Or.inl hlabel
    · exact Or.inr ⟨slots, by simp; omega, hahead⟩

theorem getElem? {list : List Draft} (h : Confined owned list) {place : Nat} {draft : Draft}
    (hdraft : list[place]? = some draft) : draft.Confined owned (list.length - place) := by
  induction h generalizing place with
  | nil => exact absurd hdraft (by simp)
  | cons hfirst hrest ih =>
    cases place with
    | zero =>
      obtain rfl := Option.some.inj hdraft
      exact hfirst
    | succ place =>
      rw [List.length_cons, Nat.add_sub_add_right]
      exact ih hdraft

/-- A single draft that does not jump. -/
theorem one {opcode : Opcode} {register : Int} {target : Target}
    (hop : opcode ≠ .nop ∧ opcode ≠ .call ∧ opcode ≠ .ret) (hjumps : opcode.jumps = false)
    (hregister : owned register) : Confined owned [⟨opcode, register, target⟩] :=
  Confined.cons ⟨hop, hregister, fun h => absurd (hjumps.symm.trans h) (by decide)⟩ Confined.nil

theorem toLabel {opcode : Opcode} {register : Int} {label : Name} {rest : List Draft}
    (hop : opcode ≠ .nop ∧ opcode ≠ .call ∧ opcode ≠ .ret) (hregister : owned register)
    (hrest : Confined owned rest) : Confined owned (⟨opcode, register, .label label⟩ :: rest) :=
  Confined.cons ⟨hop, hregister, fun _ => Or.inl ⟨label, rfl⟩⟩ hrest

theorem toAhead {opcode : Opcode} {register : Int} {slots : Nat} {rest : List Draft}
    (hop : opcode ≠ .nop ∧ opcode ≠ .call ∧ opcode ≠ .ret) (hregister : owned register)
    (hslots : slots ≤ rest.length + 1) (hrest : Confined owned rest) :
    Confined owned (⟨opcode, register, .ahead slots⟩ :: rest) :=
  Confined.cons ⟨hop, hregister, fun _ => Or.inr ⟨slots, hslots, rfl⟩⟩ hrest

end Confined

section Statements

variable {owned : Int → Prop} {registers : Name → Int}

theorem confined_load {register : Int} {operand : Operand} (hregister : owned register) :
    Confined owned (load registers register operand) := by
  cases operand with
  | literal value => exact Confined.one (by decide) rfl hregister
  | «variable» name =>
    rw [load]
    split
    · exact Confined.nil
    · exact Confined.one (by decide) rfl hregister

theorem confined_combine {target left right : Int} {operator : Operator}
    (htarget : owned target) (hscratch : owned scratch) :
    Confined owned (combine target left operator.opcode right) := by
  have hop : operator.opcode ≠ .nop ∧ operator.opcode ≠ .call ∧ operator.opcode ≠ .ret := by
    cases operator <;> decide
  have hjumps : operator.opcode.jumps = false := by cases operator <;> rfl
  unfold combine
  -- Through the scratch register, through the target, or at once.
  split
  · exact (Confined.one (by decide) rfl hscratch).append
      ((Confined.one hop hjumps hscratch).append (Confined.one (by decide) rfl htarget))
  · split
    · exact (Confined.one (by decide) rfl htarget).append (Confined.one hop hjumps htarget)
    · exact Confined.one hop hjumps htarget

/-- The jumps behind a comparison lead to the label or behind themselves. -/
theorem confined_testJumps {label : Name} {test : Test} (hscratch : owned scratch)
    (hzero : owned 0) : Confined owned (testJumps label test) := by
  cases test with
  | equal =>
    have hjump : Confined owned [⟨.jmp, 0, .label label⟩] :=
      Confined.toLabel (by decide) hzero Confined.nil
    have hpositive : Confined owned [⟨.brp, scratch, .ahead 2⟩, ⟨.jmp, 0, .label label⟩] :=
      Confined.toAhead (by decide) hscratch (Nat.le_refl 2) hjump
    exact Confined.toAhead (by decide) hscratch (Nat.le_refl 3) hpositive
  | notEqual =>
    exact Confined.toLabel (by decide) hscratch
      (Confined.toLabel (by decide) hscratch Confined.nil)

/-- The drafts of a statement are confined, if the arguments of a fill, the scratch register and
the registers of the variables are owned. -/
theorem confined_drafts {statement : Statement} (harguments : ∀ slot : Fin 7, owned slot)
    (hscratch : owned scratch) (hnames : ∀ name ∈ statement.names, owned (registers name)) :
    Confined owned (drafts registers statement) := by
  have hzero : owned 0 := harguments 0
  cases statement with
  | label name => exact Confined.nil
  | halt => exact Confined.one (by decide) rfl hzero
  | rect => exact Confined.one (by decide) rfl hzero
  | goto target => exact Confined.toLabel (by decide) hzero Confined.nil
  | branch subject test value target =>
    have htest : Confined owned [⟨.tri, scratch, .value (registers subject)⟩] :=
      Confined.one (by decide) rfl hscratch
    exact (confined_load hscratch).append (htest.append (confined_testJumps hscratch hzero))
  | color red green blue =>
    exact ((confined_load hzero).append (confined_load (harguments 1))).append
      (confined_load (harguments 2))
  | pos x y => exact (confined_load (harguments 3)).append (confined_load (harguments 4))
  | size width height =>
    exact (confined_load (harguments 5)).append (confined_load (harguments 6))
  | out value =>
    cases value with
    | literal value =>
      have hset : Confined owned [⟨.set, scratch, .value value⟩] :=
        Confined.one (by decide) rfl hscratch
      exact hset.append (Confined.one (by decide) rfl hscratch)
    | «variable» name => exact Confined.one (by decide) rfl (hnames name List.mem_cons_self)
  | assign target value => exact confined_load (hnames target List.mem_cons_self)
  | compute target left operator right =>
    exact confined_combine (hnames target List.mem_cons_self) hscratch

end Statements

end TritC

end TernaryConsole
