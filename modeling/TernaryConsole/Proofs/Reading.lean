import TernaryConsole.Proofs.Literal

/-!
# Proofs.Reading — the parts of a written instruction

An instruction is written as a mnemonic and decimal numbers with spaces between them. Each part is
a word without blanks (`IsWord`) and reads back: a mnemonic as its operation
(`Assembly.ofMnemonic?_mnemonic`), a number as the word that it folds to (`Assembly.number_repr`).
-/

namespace TernaryConsole

namespace Assembly

/-! ## Comments -/

/-- Whether a character starts no comment. -/
def IsPlain (c : Char) : Prop :=
  c ≠ '/' ∧ c ≠ ';'

instance (c : Char) : Decidable (IsPlain c) :=
  inferInstanceAs (Decidable (_ ∧ _))

theorem code_cons {c : Char} (h : IsPlain c) (line : List Char) :
    code (c :: line) = c :: code line := by
  conv_lhs => unfold code
  split
  · next heq => exact absurd heq (by simp)
  · next heq => exact absurd (List.cons.inj heq).1 h.1
  · next heq => exact absurd (List.cons.inj heq).1 h.2
  · next heq =>
    obtain ⟨rfl, rfl⟩ := List.cons.inj heq
    rfl

/-- A line without characters that start comments has none. -/
theorem code_eq_self {line : List Char} (h : ∀ c ∈ line, IsPlain c) : code line = line := by
  induction line with
  | nil => rfl
  | cons c line ih =>
    rw [code_cons (h c List.mem_cons_self), ih fun d hd => h d (List.mem_cons_of_mem _ hd)]

theorem code_append_comment {line : List Char} (h : ∀ c ∈ line, IsPlain c)
    (comment : List Char) : code (line ++ '/' :: '/' :: comment) = line := by
  induction line with
  | nil => rfl
  | cons c line ih =>
    rw [List.cons_append, code_cons (h c List.mem_cons_self),
      ih fun d hd => h d (List.mem_cons_of_mem _ hd)]

/-! ## Numbers -/

theorem placeValue_toDigits (n : Nat) : placeValue (Nat.toDigits 10 n) = n := by
  have hvalue := ofDigitChars_eq_placeValue (Nat.toDigits 10 n) 0
  rw [Nat.ofDigitChars_toDigits (by decide) (by decide), Nat.mul_zero, Nat.zero_add] at hvalue
  exact hvalue.symm

/-- A written number is a literal of that number. -/
theorem denotes_repr (v : Int) : Denotes (Int.repr v).toList v := by
  have hdigits : ∀ n : Nat, IsDigits (Nat.toDigits 10 n) :=
    fun n => isNumeral_iff.1 (Decimal.isNumeral_toDigits n)
  cases v with
  | ofNat n =>
    have htext : (Int.repr (Int.ofNat n)).toList = Nat.toDigits 10 n := by simp [Int.repr]
    have hvalue := Denotes.unsigned (hdigits n)
    rwa [placeValue_toDigits, ← htext] at hvalue
  | negSucc n =>
    have htext : (Int.repr (Int.negSucc n)).toList = '-' :: Nat.toDigits 10 (n + 1) := by
      simp [Int.repr]
    have hvalue := Denotes.minus (hdigits (n + 1))
    rwa [placeValue_toDigits, ← htext, Int.natCast_succ, ← Int.negSucc_eq] at hvalue

/-- Reading a written number folds it into the range of words. -/
theorem number_repr (v : Int) : number (Int.repr v).toList = Word.wrap v := by
  rw [number_of_denotes (denotes_repr v), Word.wrap_eq_bmod_pow]

/-! ## Words of instructions -/

/-- A word as it stands in an instruction: not empty, without blanks and comments. -/
structure IsWord (word : List Char) : Prop where
  nonempty : word ≠ []
  solid : ∀ c ∈ word, Text.isBlank c = false
  plain : ∀ c ∈ word, IsPlain c

theorem isWord_mnemonic (opcode : Opcode) : IsWord opcode.mnemonic.toList := by
  have hnonempty : opcode.mnemonic.toList ≠ [] := by cases opcode <;> decide
  -- A check of the list, since membership would be decided over all characters.
  have hletters : opcode.mnemonic.toList.all
      (fun c => !Text.isBlank c && decide (IsPlain c)) = true := by
    cases opcode <;> decide
  simp only [List.all_eq_true, Bool.and_eq_true, Bool.not_eq_true', decide_eq_true_eq] at hletters
  exact ⟨hnonempty, fun c hc => (hletters c hc).1, fun c hc => (hletters c hc).2⟩

theorem isBlank_eq_false_of_isDigit {c : Char} (h : c.isDigit = true) :
    Text.isBlank c = false := by
  have hrange : 48 ≤ c.toNat ∧ c.toNat ≤ 57 := by
    simpa [Char.isDigit, UInt32.le_iff_toNat_le] using h
  have hapart : ∀ range ∈ Text.blankRanges, range.2 < 48 ∨ 57 < range.1 := by decide
  rw [Text.isBlank, List.any_eq_false]
  intro range hmem
  have hrangeApart := hapart range hmem
  simp only [Bool.and_eq_true, decide_eq_true_eq]
  omega

theorem isWord_repr (v : Int) : IsWord (Int.repr v).toList := by
  have hchars : ∀ c ∈ (Int.repr v).toList, c = '-' ∨ c.isDigit = true := by
    intro c hc
    cases v with
    | ofNat n =>
      have hdigit : c ∈ Nat.toDigits 10 n := by simpa [Int.repr] using hc
      exact Or.inr (Nat.isDigit_of_mem_toDigits (by decide) (by decide) hdigit)
    | negSucc n =>
      have hcases : c = '-' ∨ c ∈ Nat.toDigits 10 (n + 1) := by simpa [Int.repr] using hc
      exact hcases.imp_right (Nat.isDigit_of_mem_toDigits (by decide) (by decide))
  refine ⟨?_, ?_, ?_⟩
  · exact (denotes_repr v).ne_nil
  · intro c hc
    rcases hchars c hc with rfl | hdigit
    · decide
    · exact isBlank_eq_false_of_isDigit hdigit
  · intro c hc
    rcases hchars c hc with rfl | hdigit
    · decide
    · constructor
      · rintro rfl
        exact absurd hdigit (by decide)
      · rintro rfl
        exact absurd hdigit (by decide)

/-! ## Written instructions -/

/-- Every mnemonic that is written reads back. -/
theorem ofMnemonic?_mnemonic {opcode : Opcode} (h : opcode ≠ .nop) :
    Opcode.ofMnemonic? opcode.mnemonic.toList = some opcode := by
  cases opcode with
  | nop => exact absurd rfl h
  | _ => decide

/-- The words of a written instruction: its mnemonic and its operands. -/
def wordsOf (opcode : Opcode) (operands : List Int) : List (List Char) :=
  opcode.mnemonic.toList :: operands.map fun operand => (Int.repr operand).toList

/-- The text of an instruction, with a space between any two words. -/
def written (opcode : Opcode) (operands : List Int) : List Char :=
  [' '].intercalate (wordsOf opcode operands)

theorem isWord_of_mem_wordsOf {opcode : Opcode} {operands : List Int} :
    ∀ word ∈ wordsOf opcode operands, IsWord word := by
  intro word hmem
  rcases List.mem_cons.1 hmem with rfl | hoperand
  · exact isWord_mnemonic opcode
  · obtain ⟨operand, -, rfl⟩ := List.mem_map.1 hoperand
    exact isWord_repr operand

theorem mem_intercalate {words : List (List Char)} {c : Char}
    (h : c ∈ [' '].intercalate words) : c = ' ' ∨ ∃ word ∈ words, c ∈ word := by
  induction words with
  | nil => exact absurd h List.not_mem_nil
  | cons word words ih =>
    cases words with
    | nil =>
      rw [List.intercalate_singleton] at h
      exact Or.inr ⟨word, List.mem_cons_self, h⟩
    | cons next words =>
      rw [List.intercalate_cons_cons, List.mem_append, List.mem_append] at h
      rcases h with (hword | hspace) | hrest
      · exact Or.inr ⟨word, List.mem_cons_self, hword⟩
      · exact Or.inl (List.mem_singleton.1 hspace)
      · refine (ih hrest).imp_right ?_
        rintro ⟨other, hother, hc⟩
        exact ⟨other, List.mem_cons_of_mem _ hother, hc⟩

/-- Words with a space between any two, and blanks behind them, are found again. -/
theorem words_intercalate {words : List (List Char)} (hwords : ∀ word ∈ words, IsWord word)
    {tail : List Char} (htail : ∀ c ∈ tail, Text.isBlank c = true) :
    Text.words ([' '].intercalate words ++ tail) = words := by
  induction words with
  | nil => exact Text.words_of_forall_blank htail
  | cons word words ih =>
    have hword := hwords word List.mem_cons_self
    cases words with
    | nil =>
      rw [List.intercalate_singleton]
      exact Text.words_append_of_forall_blank hword.nonempty hword.solid htail
    | cons next words =>
      have hrest := ih fun other hmem => hwords other (List.mem_cons_of_mem _ hmem)
      rw [List.intercalate_cons_cons, List.append_assoc, List.append_assoc, List.singleton_append,
        Text.words_append_blank hword.nonempty hword.solid (by decide), hrest]

section

variable {opcode : Opcode} {operands : List Int}

/-- The only blank in an instruction is the space. -/
theorem not_mem_written {c : Char} (hblank : Text.isBlank c = true) (hspace : c ≠ ' ') :
    c ∉ written opcode operands := by
  intro hmem
  rcases mem_intercalate hmem with heq | ⟨word, hword, hc⟩
  · exact hspace heq
  · rw [(isWord_of_mem_wordsOf word hword).solid c hc] at hblank
    exact absurd hblank (by decide)

theorem isPlain_written : ∀ c ∈ written opcode operands, IsPlain c := by
  intro c hc
  rcases mem_intercalate hc with rfl | ⟨word, hword, hmem⟩
  · decide
  · exact (isWord_of_mem_wordsOf word hword).plain c hmem

theorem operand_map_repr (operands : List Int) (position : Nat) :
    operand (operands.map fun operand => (Int.repr operand).toList) position =
      Word.wrap (operands.getD position 0) := by
  rw [operand, List.getElem?_map, List.getD_eq_getElem?_getD]
  cases operands[position]? with
  | none => rfl
  | some value => exact number_repr value

/-- A line whose code is an instruction and blanks names the operation, with its operands folded
into the range of words and zeros for those that are not there. -/
theorem operation?_of_code (hopcode : opcode ≠ .nop) {text tail : List Char}
    (hcode : code text = written opcode operands ++ tail)
    (htail : ∀ c ∈ tail, Text.isBlank c = true) :
    operation? text =
      some ⟨opcode, Word.wrap (operands.getD 0 0), Word.wrap (operands.getD 1 0)⟩ := by
  have hwords : Text.words (code text) = wordsOf opcode operands := by
    rw [hcode]
    exact words_intercalate isWord_of_mem_wordsOf htail
  simp only [operation?, hwords, wordsOf, ofMnemonic?_mnemonic hopcode, Option.map_some,
    operand_map_repr]

end

end Assembly

end TernaryConsole
