import Mathlib.Data.Nat.Digits.Defs
import TernaryConsole.Proofs.Image
import TernaryConsole.Proofs.Overflow

/-!
# Proofs.Literal — numbers of any length as operands

A literal is a row of decimal digits with an optional sign, and `Denotes` gives the integer that it
stands for by the place values of its digits. Reading one takes a remainder at every digit and puts
the sign on at the end; what comes out is the balanced residue of that integer modulo `3^50`,
however long the row is (`number_of_denotes`), and nothing on the way needs more than 128 bits
(`Checked.number_eq_some`).

An operand is then cut down to its field and, where it names a register, reduced modulo 27. Each of
these moduli divides the one before, so what is fetched is a residue of the integer itself
(`OperandLaw`).
-/

namespace TernaryConsole

namespace Assembly

variable {word digits : List Char} {N M : Int}

/-! ## Literals -/

def digitValue (c : Char) : Nat :=
  c.toNat - '0'.toNat

/-- The number that a row of digits stands for, the last one being that of the units. -/
def placeValue (digits : List Char) : Nat :=
  Nat.ofDigits 10 (digits.reverse.map digitValue)

/-- At least one decimal digit and nothing else. -/
structure IsDigits (digits : List Char) : Prop where
  nonempty : digits ≠ []
  digit : ∀ c ∈ digits, '0' ≤ c ∧ c ≤ '9'

/-- The integer that a literal stands for. -/
inductive Denotes : List Char → Int → Prop
  | unsigned {digits : List Char} (h : IsDigits digits) : Denotes digits (placeValue digits)
  | plus {digits : List Char} (h : IsDigits digits) : Denotes ('+' :: digits) (placeValue digits)
  | minus {digits : List Char} (h : IsDigits digits) :
      Denotes ('-' :: digits) (-placeValue digits)

theorem isNumeral_iff : Decimal.isNumeral digits = true ↔ IsDigits digits := by
  have hdigit : ∀ c : Char, c.isDigit = true ↔ '0' ≤ c ∧ c ≤ '9' := by
    intro c
    simp only [Char.isDigit, Bool.and_eq_true, decide_eq_true_eq]
    exact Iff.rfl
  simp only [Decimal.isNumeral, Bool.and_eq_true, Bool.not_eq_true', List.isEmpty_eq_false_iff,
    List.all_eq_true, hdigit]
  exact ⟨fun h => ⟨h.1, h.2⟩, fun h => ⟨h.nonempty, h.digit⟩⟩

theorem splitSign_of_isDigits (h : IsDigits digits) :
    Decimal.splitSign digits = (false, digits) := by
  unfold Decimal.splitSign
  split
  · exact absurd (h.digit '-' List.mem_cons_self) (by decide)
  · exact absurd (h.digit '+' List.mem_cons_self) (by decide)
  · rfl

/-- A literal is what is left of it without its sign, and the sign. -/
theorem denotes_iff :
    Denotes word N ↔
      IsDigits (Decimal.splitSign word).2 ∧
        N = if (Decimal.splitSign word).1 then -(placeValue (Decimal.splitSign word).2 : Int)
          else placeValue (Decimal.splitSign word).2 := by
  constructor
  · intro h
    cases h with
    | unsigned h =>
      rw [splitSign_of_isDigits h]
      exact ⟨h, rfl⟩
    | plus h => exact ⟨h, rfl⟩
    | minus h => exact ⟨h, rfl⟩
  · rintro ⟨h, rfl⟩
    unfold Decimal.splitSign at h ⊢
    split at h
    · exact .minus h
    · exact .plus h
    · exact .unsigned h

theorem Denotes.unique (h : Denotes word N) (hother : Denotes word M) : N = M :=
  (denotes_iff.1 h).2.trans (denotes_iff.1 hother).2.symm

theorem Denotes.ne_nil (h : Denotes word N) : word ≠ [] := by
  cases h with
  | unsigned h => exact h.nonempty
  | plus | minus => exact List.cons_ne_nil _ _

/-! ## Reading literals -/

theorem placeValue_cons (c : Char) (digits : List Char) :
    placeValue (c :: digits) = placeValue digits + 10 ^ digits.length * digitValue c := by
  simp [placeValue, Nat.ofDigits_append]

/-- Reading from the left gives the place values. -/
theorem ofDigitChars_eq_placeValue (digits : List Char) (value : Nat) :
    Nat.ofDigitChars 10 digits value = 10 ^ digits.length * value + placeValue digits := by
  induction digits generalizing value with
  | nil => simp [placeValue]
  | cons c digits ih =>
    rw [Nat.ofDigitChars_cons, ih, placeValue_cons, List.length_cons, pow_succ, digitValue]
    ring

theorem magnitude_eq_emod (digits : List Char) :
    magnitude digits = placeValue digits % Word.modulus := by
  -- Remainders are taken after every digit; the induction moves them to the end.
  have hfold : ∀ (rest : List Char) (value : Nat),
      rest.foldl (fun value c => (10 * value + (c.toNat - '0'.toNat)) % Word.modulus)
        (value % Word.modulus) = Nat.ofDigitChars 10 rest value % Word.modulus := by
    intro rest
    induction rest with
    | nil =>
      intro value
      rfl
    | cons c rest ih =>
      intro value
      rw [List.foldl_cons, Nat.ofDigitChars_cons, ← ih]
      congr 1
      rw [Nat.add_mod, Nat.mul_mod_mod, ← Nat.add_mod]
  have hvalue := ofDigitChars_eq_placeValue digits 0
  rw [Nat.mul_zero, Nat.zero_add] at hvalue
  rw [← hvalue]
  exact hfold digits 0

/-- A literal reads as the balanced residue of its integer. -/
theorem number_of_denotes (h : Denotes word N) : number word = N.bmod (3 ^ 50) := by
  obtain ⟨hdigits, rfl⟩ := denotes_iff.1 h
  rw [← Word.modulus_eq_pow, number]
  simp only [isNumeral_iff.2 hdigits, if_true, magnitude_eq_emod, Word.wrap_eq_bmod,
    Int.natCast_emod]
  generalize (placeValue (Decimal.splitSign word).2 : Int) = value
  generalize Word.modulus = modulus
  -- The sign comes after the remainder, which is why it has to be moved through it.
  cases (Decimal.splitSign word).1 with
  | false => exact Int.emod_bmod value modulus
  | true =>
    have hneg := Int.sub_emod_bmod (y := value) 0 modulus
    rwa [Int.zero_sub, Int.zero_sub] at hneg

/-- Any other word reads as zero. -/
theorem number_of_not_denotes (h : ∀ N, ¬ Denotes word N) : number word = 0 := by
  have hdigits : ¬ Decimal.isNumeral (Decimal.splitSign word).2 = true := by
    intro hnumeral
    exact h _ (denotes_iff.2 ⟨isNumeral_iff.1 hnumeral, rfl⟩)
  rw [number]
  exact if_neg hdigits

end Assembly

/-! ## Nothing overflows -/

namespace Checked

/-- Takes one more digit in. -/
def takeDigit (value : Int) (c : Char) : Option Int := do
  let shifted ← fit (value * 10)
  let sum ← fit (shifted + (c.toNat - '0'.toNat : Nat))
  fit (sum.tmod Word.modulus)

def number (word : List Char) : Option Int :=
  let (negative, digits) := Decimal.splitSign word
  if Decimal.isNumeral digits then do
    let magnitude ← digits.foldlM takeDigit 0
    let signed ← if negative then fit (-magnitude) else some magnitude
    wrap signed
  else some 0

theorem takeDigit_eq_some {value : Nat} (hvalue : value < Word.modulus) {c : Char}
    (hc : '0' ≤ c ∧ c ≤ '9') :
    takeDigit value c = some ((10 * value + (c.toNat - '0'.toNat)) % Word.modulus : Nat) := by
  have hmodulus : Word.modulus = 717897987691852588770249 := rfl
  have hdigit : c.toNat - '0'.toNat ≤ 9 := Nat.sub_le_sub_right hc.2 _
  -- The modulus has 80 bits, so ten times a remainder and a digit stay far below the limit.
  rw [takeDigit]
  generalize c.toNat - '0'.toNat = digit at hdigit ⊢
  have hsum : ((value : Int) * 10 + digit).tmod Word.modulus =
      ((10 * value + digit) % Word.modulus : Nat) := by
    rw [Int.tmod_eq_emod_of_nonneg (by omega), Int.natCast_emod]
    congr 1
    omega
  rw [fit_bind (fits_128_iff.2 ⟨by omega, by omega⟩),
    fit_bind (fits_128_iff.2 ⟨by omega, by omega⟩), hsum]
  have hrest : (10 * value + digit) % Word.modulus < Word.modulus := Nat.mod_lt _ (by decide)
  generalize (10 * value + digit) % Word.modulus = rest at hrest ⊢
  exact fit_of_fits (fits_128_iff.2 ⟨by omega, by omega⟩)

theorem foldlM_takeDigit {digits : List Char} (h : ∀ c ∈ digits, '0' ≤ c ∧ c ≤ '9') {value : Nat}
    (hvalue : value < Word.modulus) :
    digits.foldlM takeDigit (value : Int) =
      some (digits.foldl (fun value c => (10 * value + (c.toNat - '0'.toNat)) % Word.modulus)
        value : Nat) := by
  induction digits generalizing value with
  | nil => rfl
  | cons c digits ih =>
    have hnext : (10 * value + (c.toNat - '0'.toNat)) % Word.modulus < Word.modulus :=
      Nat.mod_lt _ (by decide)
    -- What the digit leaves is a remainder again, which the induction hypothesis asks for.
    rw [List.foldlM_cons, takeDigit_eq_some hvalue (h c List.mem_cons_self)]
    exact ih (fun d hd => h d (List.mem_cons_of_mem c hd)) hnext

/-- Whatever a word is and however long, reading it needs no more than 128 bits. -/
theorem number_eq_some (word : List Char) : number word = some (Assembly.number word) := by
  rw [number, Assembly.number]
  by_cases hnumeral : Decimal.isNumeral (Decimal.splitSign word).2 = true
  · -- The remainder of all digits is below the modulus, so the sign cannot overflow either.
    have hzero : 0 < Word.modulus := by decide
    have hmagnitude : (Decimal.splitSign word).2.foldlM takeDigit 0 =
        some (Assembly.magnitude (Decimal.splitSign word).2 : Int) :=
      foldlM_takeDigit (Assembly.isNumeral_iff.1 hnumeral).digit hzero
    have hlt : Assembly.magnitude (Decimal.splitSign word).2 < Word.modulus := by
      rw [Assembly.magnitude_eq_emod]
      exact Nat.mod_lt _ (by decide)
    have hmodulus : Word.modulus = 717897987691852588770249 := rfl
    simp only [hnumeral, if_true, hmagnitude, Option.bind_eq_bind, Option.bind_some]
    generalize Assembly.magnitude (Decimal.splitSign word).2 = magnitude at hlt ⊢
    have hfits : Fits 128 (-magnitude) := fits_128_iff.2 ⟨by omega, by omega⟩
    cases (Decimal.splitSign word).1 with
    | false => exact wrap_eq_some magnitude
    | true => exact (fit_bind hfits wrap).trans (wrap_eq_some (-magnitude))
  · simp only [hnumeral, Bool.false_eq_true, if_false]

end Checked

namespace Assembly

/-! ## Operands -/

/-- The integer that the operand at a position among the words behind a mnemonic stands for. -/
inductive Means (words : List (List Char)) (position : Nat) : Int → Prop
  | literal {word : List Char} {N : Int} (hword : words[position]? = some word)
      (hdenotes : Denotes word N) : Means words position N
  /-- A word that is no literal stands for zero. -/
  | other {word : List Char} (hword : words[position]? = some word)
      (hnone : ∀ N, ¬ Denotes word N) : Means words position 0
  | missing (hword : words[position]? = none) : Means words position 0

section

variable {words : List (List Char)} {position : Nat} {N M : Int}

theorem operand_of_some {word : List Char} (hword : words[position]? = some word) :
    operand words position = number word := by
  simp only [operand, hword]

theorem operand_of_none (hword : words[position]? = none) : operand words position = 0 := by
  simp only [operand, hword]

theorem operand_of_means (h : Means words position N) :
    operand words position = N.bmod (3 ^ 50) := by
  cases h with
  | literal hword hdenotes => rw [operand_of_some hword, number_of_denotes hdenotes]
  | other hword hnone => rw [operand_of_some hword, number_of_not_denotes hnone, Int.zero_bmod]
  | missing hword => rw [operand_of_none hword, Int.zero_bmod]

theorem exists_means (words : List (List Char)) (position : Nat) : ∃ N, Means words position N := by
  cases hword : words[position]? with
  | none => exact ⟨0, .missing hword⟩
  | some word =>
    by_cases hdenotes : ∃ N, Denotes word N
    · obtain ⟨N, hN⟩ := hdenotes
      exact ⟨N, .literal hword hN⟩
    · exact ⟨0, .other hword (not_exists.1 hdenotes)⟩

theorem Means.unique (h : Means words position N) (hother : Means words position M) : N = M := by
  cases h with
  | literal hword hdenotes =>
    cases hother with
    | literal hsame hagain =>
      cases hword.symm.trans hsame
      exact hdenotes.unique hagain
    | other hsame hnone =>
      cases hword.symm.trans hsame
      exact absurd hdenotes (hnone N)
    | missing hsame => cases hword.symm.trans hsame
  | other hword hnone =>
    cases hother with
    | literal hsame hdenotes =>
      cases hword.symm.trans hsame
      exact absurd hdenotes (hnone M)
    | other => rfl
    | missing => rfl
  | missing hword =>
    cases hother with
    | literal hsame => cases hword.symm.trans hsame
    | other => rfl
    | missing => rfl

end

/-! ## Operands in memory -/

/-- A line of a text that begins with a mnemonic, and the slot inside memory that it takes when the
text is assembled at `base`. -/
structure Occurs (source : String) (base : Int) (slot : Nat) (opcode : Opcode)
    (words : List (List Char)) : Prop where
  line : ∃ front line back name, Text.lines source.toList = front ++ line :: back ∧
    Text.words (code line) = name :: words ∧ Opcode.ofMnemonic? name = some opcode ∧
    (front.filterMap operation?).length = slot
  low : 0 ≤ base + 15 * slot
  high : base + 15 * slot + 15 ≤ Memory.size

/-- What is fetched from the slot of a line with operands that stand for `first` and `second`. -/
structure Keeps (i : Instruction) (opcode : Opcode) (first second : Int) : Prop where
  opcode_eq : i.opcode = opcode
  register : (i.operand1.val : Int) = first % 27
  value : i.operand2 = second.bmod (3 ^ 6)
  source : (i.source.val : Int) = second % 27

theorem getElem?_operations {source : String} {base : Int} {slot : Nat} {opcode : Opcode}
    {words : List (List Char)} (h : Occurs source base slot opcode words) :
    (operations source)[slot]? = some ⟨opcode, operand words 0, operand words 1⟩ := by
  obtain ⟨front, line, back, name, hlines, hwords, hname, hslot⟩ := h.line
  have hline : operation? line = some ⟨opcode, operand words 0, operand words 1⟩ := by
    simp only [operation?, hwords, hname, Option.map_some]
  rw [operations, hlines, List.filterMap_append, List.filterMap_cons_some hline,
    List.getElem?_append_right hslot.le, hslot, Nat.sub_self, List.getElem?_cons_zero]

/-- A remainder is not changed by a balanced residue modulo a multiple. -/
theorem bmod_emod_of_dvd (v : Int) {small large : Nat} (h : small ∣ large) :
    v.bmod large % small = v % small := by
  have hdvd : (small : Int) ∣ large := Int.natCast_dvd_natCast.2 h
  rw [← Int.emod_emod_of_dvd _ hdvd, Int.bmod_emod, Int.emod_emod_of_dvd _ hdvd]

theorem keeps_instruction {words : List (List Char)} {opcode : Opcode} (hopcode : opcode ≠ .nop)
    {first second : Int} (hfirst : Means words 0 first) (hsecond : Means words 1 second) :
    Keeps (Operation.instruction ⟨opcode, operand words 0, operand words 1⟩) opcode first
      second := by
  have hvalue : (Operation.instruction ⟨opcode, operand words 0, operand words 1⟩).operand2 =
      second.bmod (3 ^ 6) := by
    have hfield : (Operation.instruction ⟨opcode, operand words 0, operand words 1⟩).operand2 =
        (operand words 1).bmod (3 ^ 6) := rfl
    rw [hfield, operand_of_means hsecond]
    exact Int.bmod_bmod_of_dvd (Nat.pow_dvd_pow 3 (by decide))
  refine ⟨opcode_instruction hopcode, ?_, hvalue, ?_⟩
  · rw [operand1_instruction, operand_of_means hfirst]
    exact bmod_emod_of_dvd first (show 27 ∣ 3 ^ 50 by decide)
  · have hregister : ∀ v : Int, ((Register.ofInt v).val : Int) = v % 27 :=
      fun v => Int.toNat_of_nonneg (Int.emod_nonneg v (by decide))
    rw [Instruction.source, hregister, hvalue]
    exact bmod_emod_of_dvd second (show 27 ∣ 3 ^ 6 by decide)

/-! ## The law -/

/-- How the words behind a mnemonic are read as operands, and what is fetched where they were
assembled. -/
structure OperandLaw (words : List (List Char)) : Prop where
  literal : ∀ position word N, words[position]? = some word → Denotes word N →
    operand words position = N.bmod (3 ^ 50)
  other : ∀ position word, words[position]? = some word → (∀ N, ¬ Denotes word N) →
    operand words position = 0
  missing : ∀ position, words[position]? = none → operand words position = 0
  /-- No intermediate leaves 128 bits. -/
  checked : ∀ position word, words[position]? = some word →
    Checked.number word = some (operand words position)
  meaning : ∀ position, ∃! N, Means words position N
  fetched : ∀ (memory : Memory) (source : String) (base : Int) (slot : Nat) (opcode : Opcode),
    Occurs source base slot opcode words →
    ∀ first second, Means words 0 first → Means words 1 second →
    Keeps (Instruction.fetch (memory.assemble source base).1 (base + 15 * slot)) opcode first second

theorem operand_law (words : List (List Char)) : OperandLaw words where
  literal := fun position word N hword hdenotes => operand_of_means (.literal hword hdenotes)
  other := by
    intro position word hword hnone
    rw [operand_of_some hword, number_of_not_denotes hnone]
  missing := fun position hword => operand_of_none hword
  checked := by
    intro position word hword
    rw [operand_of_some hword, Checked.number_eq_some]
  meaning := by
    intro position
    obtain ⟨N, hN⟩ := exists_means words position
    exact ⟨N, hN, fun M hM => hM.unique hN⟩
  fetched := by
    intro memory source base slot opcode hoccurs first second hfirst hsecond
    have hslot := getElem?_operations hoccurs
    have hopcode := opcode_ne_nop_of_mem (List.mem_of_getElem? hslot)
    rw [Memory.assemble_memory, fetch_storeRun_image memory hslot hoccurs.low hoccurs.high]
    exact keeps_instruction hopcode hfirst hsecond

end Assembly

end TernaryConsole
