import Mathlib.Data.List.TakeWhile
import TernaryConsole.Text.Search

/-!
# Proofs.Text — words and lines of composed texts

What `Text.words` and `Text.lines` answer for a text that is put together from words and blanks, or
from lines and line feeds, and what trimming and looking for a separator answer for a text that has
something before or behind it.
-/

namespace TernaryConsole

namespace Text

/-! ## Words -/

theorem words_cons_blank {c : Char} (hblank : isBlank c = true) (text : List Char) :
    words (c :: text) = words text := by
  simp [words, List.splitOnP_cons_eq_if_modifyHead, hblank]

theorem words_of_forall_blank {text : List Char} (h : ∀ c ∈ text, isBlank c = true) :
    words text = [] := by
  induction text with
  | nil => rfl
  | cons c text ih =>
    rw [words_cons_blank (h c List.mem_cons_self)]
    exact ih fun d hd => h d (List.mem_cons_of_mem _ hd)

/-- A word in front of a blank is the first word. -/
theorem words_append_blank {word : List Char} (hnonempty : word ≠ [])
    (hword : ∀ c ∈ word, isBlank c = false) {c : Char} (hblank : isBlank c = true)
    (text : List Char) : words (word ++ c :: text) = word :: words text := by
  have hsplit := List.splitOnP_append_cons_of_forall_mem hword c hblank text
  simp [words, hsplit, hnonempty]

/-- A single word between nothing and blanks. -/
theorem words_append_of_forall_blank {word : List Char} (hnonempty : word ≠ [])
    (hword : ∀ c ∈ word, isBlank c = false) {tail : List Char}
    (htail : ∀ c ∈ tail, isBlank c = true) : words (word ++ tail) = [word] := by
  cases tail with
  | nil =>
    have hsplit : word.splitOnP isBlank = [word] := List.splitOnP_eq_singleton hword
    simp [words, hsplit, hnonempty]
  | cons c tail =>
    have hrest : words tail = [] :=
      words_of_forall_blank fun d hd => htail d (List.mem_cons_of_mem _ hd)
    rw [words_append_blank hnonempty hword (htail c List.mem_cons_self), hrest]

/-! ## Trimming -/

theorem mem_of_mem_dropTrailing {α : Type} {p : α → Bool} {items : List α} {x : α}
    (h : x ∈ dropTrailing p items) : x ∈ items := by
  have hrev := (List.dropWhile_sublist p).mem (List.mem_reverse.1 h)
  exact List.mem_reverse.1 hrev

theorem mem_of_mem_trimEnd {text : List Char} {c : Char} (h : c ∈ trimEnd text) : c ∈ text :=
  mem_of_mem_dropTrailing h

theorem mem_of_mem_trim {text : List Char} {c : Char} (h : c ∈ trim text) : c ∈ text :=
  (List.dropWhile_sublist isBlank).mem (mem_of_mem_trimEnd h)

theorem before_isPrefix (separator text : List Char) : before separator text <+: text := by
  unfold before
  split
  · next parts hsplit =>
    refine ⟨separator ++ parts.2, ?_⟩
    rw [← List.append_assoc, ← eq_of_splitOnce hsplit]
  · exact List.prefix_refl text

theorem mem_of_mem_before {separator text : List Char} {c : Char} (h : c ∈ before separator text) :
    c ∈ text :=
  (before_isPrefix separator text).subset h

/-- A text of which trimming leaves nothing is blank throughout. -/
theorem forall_blank_of_trim_isEmpty {text : List Char} (h : (trim text).isEmpty = true) :
    ∀ c ∈ text, isBlank c = true := by
  have htrim : dropTrailing isBlank (trimStart text) = [] := List.isEmpty_iff.1 h
  have hstart : ∀ c ∈ trimStart text, isBlank c = true := by
    have hdrop := List.reverse_eq_nil_iff.1 htrim
    intro c hc
    exact List.dropWhile_eq_nil_iff.1 hdrop c (List.mem_reverse.2 hc)
  have hnil : trimStart text = [] := by
    cases hrest : trimStart text with
    | nil => rfl
    | cons c rest =>
      -- The first character that is kept in front is not blank.
      have hhead : isBlank c = false := by
        have hnot := List.head?_dropWhile_not isBlank text
        have hfirst : (text.dropWhile isBlank).head? = some c := by
          rw [show text.dropWhile isBlank = c :: rest from hrest]
          rfl
        rw [hfirst] at hnot
        simpa using hnot
      have hblank := hstart c (by rw [hrest]; exact List.mem_cons_self)
      rw [hhead] at hblank
      exact absurd hblank (by decide)
  exact List.dropWhile_eq_nil_iff.1 hnil

theorem dropTrailing_append {α : Type} {p : α → Bool} {tail : List α}
    (h : ∀ x ∈ tail, p x = true) (items : List α) :
    dropTrailing p (items ++ tail) = dropTrailing p items := by
  have hreverse : ∀ x ∈ tail.reverse, p x = true := fun x hx => h x (List.mem_reverse.1 hx)
  rw [dropTrailing, List.reverse_append, List.dropWhile_append_of_pos hreverse, dropTrailing]

/-- Blanks in front of a text are trimmed with its own. -/
theorem trim_blanks_append {blanks : List Char} (h : ∀ c ∈ blanks, isBlank c = true)
    (text : List Char) : trim (blanks ++ text) = trim text := by
  rw [trim, trimStart, List.dropWhile_append_of_pos h, trim, trimStart]

theorem trim_append_blanks {blanks : List Char} (h : ∀ c ∈ blanks, isBlank c = true)
    (text : List Char) : trim (text ++ blanks) = trim text := by
  rw [trim, trimStart, List.dropWhile_append]
  split
  · next hblank =>
    -- Nothing of the text is left in front, and nothing of the blanks either.
    have hblanks : blanks.dropWhile isBlank = [] := List.dropWhile_eq_nil_iff.2 h
    rw [hblanks, trim, trimStart, List.isEmpty_iff.1 hblank]
  · exact dropTrailing_append h _

/-! ## First occurrences -/

section Separator

variable {separator : List Char}

/-- A separator does not reach into a tail that has none of its characters. -/
theorem prefix_append_iff_of_disjoint {tail : List Char} (h : ∀ c ∈ tail, c ∉ separator)
    (text : List Char) : separator <+: text ++ tail ↔ separator <+: text := by
  refine ⟨fun hprefix => ?_, fun hprefix => hprefix.trans (List.prefix_append text tail)⟩
  rcases List.prefix_or_prefix_of_prefix hprefix (List.prefix_append text tail) with
    hshort | ⟨rest, rfl⟩
  · exact hshort
  · cases rest with
    | nil => simp
    | cons c rest =>
      have hrest : c :: rest <+: tail := (List.prefix_append_right_inj text).1 hprefix
      have hmem : c ∈ tail := hrest.subset List.mem_cons_self
      exact absurd (by simp) (h c hmem)

variable (hnonempty : separator ≠ [])
include hnonempty

/-- A separator is not found where none of its characters stands. -/
theorem splitOnce_append_of_disjoint {front : List Char} (h : ∀ c ∈ front, c ∉ separator)
    (text : List Char) :
    splitOnce separator (front ++ text) =
      (splitOnce separator text).map fun parts => (front ++ parts.1, parts.2) := by
  induction front with
  | nil => simp
  | cons c front ih =>
    have hlead : ¬ separator.isPrefixOf (c :: (front ++ text)) = true := by
      intro hprefix
      obtain ⟨rest, hrest⟩ := List.isPrefixOf_iff_prefix.1 hprefix
      cases separator with
      | nil => exact hnonempty rfl
      | cons d separator =>
        obtain ⟨rfl, -⟩ := List.cons.inj hrest
        exact h _ List.mem_cons_self List.mem_cons_self
    rw [List.cons_append, splitOnce, if_neg hlead,
      ih fun d hd => h d (List.mem_cons_of_mem _ hd), Option.map_map]
    rfl

theorem splitOnce_append_tail {tail : List Char} (h : ∀ c ∈ tail, c ∉ separator)
    (text : List Char) :
    splitOnce separator (text ++ tail) =
      (splitOnce separator text).map fun parts => (parts.1, parts.2 ++ tail) := by
  induction text with
  | nil =>
    have hnone := splitOnce_append_of_disjoint hnonempty h []
    simpa [splitOnce, hnonempty] using hnone
  | cons c text ih =>
    by_cases hlead : separator <+: c :: text
    · have hlead' : separator.isPrefixOf (c :: text) = true := List.isPrefixOf_iff_prefix.2 hlead
      have hlong : separator.isPrefixOf (c :: (text ++ tail)) = true :=
        List.isPrefixOf_iff_prefix.2 ((prefix_append_iff_of_disjoint h (c :: text)).2 hlead)
      rw [List.cons_append, splitOnce, splitOnce, if_pos hlead', if_pos hlong, Option.map_some,
        ← List.cons_append, List.drop_append_of_le_length hlead.length_le]
    · have hlead' : ¬ separator.isPrefixOf (c :: text) = true :=
        fun hprefix => hlead (List.isPrefixOf_iff_prefix.1 hprefix)
      have hlong : ¬ separator.isPrefixOf (c :: (text ++ tail)) = true := fun hprefix =>
        hlead ((prefix_append_iff_of_disjoint h (c :: text)).1
          (List.isPrefixOf_iff_prefix.1 hprefix))
      rw [List.cons_append, splitOnce, splitOnce, if_neg hlead', if_neg hlong, ih, Option.map_map,
        Option.map_map]
      rfl

/-- In front of its first occurrence a separator does not occur. -/
theorem splitOnce_front {text front tail : List Char}
    (h : splitOnce separator text = some (front, tail)) : splitOnce separator front = none := by
  induction text generalizing front with
  | nil => simp [splitOnce, hnonempty] at h
  | cons c text ih =>
    rw [splitOnce] at h
    split at h
    · obtain ⟨rfl, -⟩ := Prod.mk.inj (Option.some.inj h)
      simp [splitOnce, hnonempty]
    · next hlead =>
      obtain ⟨⟨first, last⟩, hfound, hparts⟩ := Option.map_eq_some_iff.1 h
      obtain ⟨rfl, rfl⟩ := Prod.mk.inj hparts
      have hlead' : ¬ separator.isPrefixOf (c :: first) = true := by
        intro hprefix
        have hshape : c :: text = c :: first ++ (separator ++ last) := by
          rw [eq_of_splitOnce hfound]
          simp
        refine hlead (List.isPrefixOf_iff_prefix.2 ?_)
        rw [hshape]
        exact (List.isPrefixOf_iff_prefix.1 hprefix).trans (List.prefix_append _ _)
      rw [splitOnce, if_neg hlead', ih hfound]
      rfl

theorem before_append_of_disjoint {front : List Char} (h : ∀ c ∈ front, c ∉ separator)
    (text : List Char) : before separator (front ++ text) = front ++ before separator text := by
  rw [before, before, splitOnce_append_of_disjoint hnonempty h]
  cases splitOnce separator text <;> rfl

/-- A tail without the separator's characters is kept or cut off as a whole. -/
theorem before_append_tail {tail : List Char} (h : ∀ c ∈ tail, c ∉ separator)
    (text : List Char) :
    before separator (text ++ tail) = before separator text ∨
      before separator (text ++ tail) = before separator text ++ tail := by
  rw [before, before, splitOnce_append_tail hnonempty h]
  cases splitOnce separator text with
  | some parts => exact Or.inl rfl
  | none => exact Or.inr rfl

theorem before_before (text : List Char) :
    before separator (before separator text) = before separator text := by
  cases hsplit : splitOnce separator text with
  | none => simp [before, hsplit]
  | some parts => simp [before, hsplit, splitOnce_front hnonempty hsplit]

end Separator

/-! ## Lines -/

theorem splitOn_flatten_lines {contents : List (List Char)}
    (h : ∀ content ∈ contents, '\n' ∉ content) :
    ((contents.map fun content => content ++ ['\n']).flatten).splitOn '\n' = contents ++ [[]] := by
  induction contents with
  | nil => rfl
  | cons content contents ih =>
    have hhead := h content List.mem_cons_self
    have htail := ih fun other hmem => h other (List.mem_cons_of_mem _ hmem)
    have hshape : ((content :: contents).map fun content => content ++ ['\n']).flatten =
        content ++ '\n' :: (contents.map fun content => content ++ ['\n']).flatten := by
      simp
    rw [hshape, List.splitOn_append_cons_self, List.splitOn_eq_singleton hhead, htail]
    rfl

theorem not_mem_of_mem_splitOn {separator : Char} {text segment : List Char}
    (h : segment ∈ text.splitOn separator) : separator ∉ segment := by
  induction text generalizing segment with
  | nil =>
    have hnil : segment = [] := by simpa using h
    rw [hnil]
    exact List.not_mem_nil
  | cons c text ih =>
    rw [List.splitOn_cons_eq_if_modifyHead] at h
    split at h
    · rcases List.mem_cons.1 h with rfl | hrest
      · exact List.not_mem_nil
      · exact ih hrest
    · next hc =>
      cases hparts : text.splitOn separator with
      | nil => exact absurd hparts (List.splitOn_ne_nil _ _)
      | cons first rest =>
        rw [hparts] at h ih
        rcases List.mem_cons.1 h with rfl | hrest
        · have hfirst := ih List.mem_cons_self
          intro hmem
          rcases List.mem_cons.1 hmem with rfl | htail
          · simp at hc
          · exact hfirst htail
        · exact ih (List.mem_cons_of_mem _ hrest)

/-- A line is what stands between line feeds, without a carriage return at its end. -/
theorem exists_segment_of_mem_lines {text line : List Char} (h : line ∈ lines text) :
    ∃ segment ∈ text.splitOn '\n', line = withoutReturn segment ∨ line = segment := by
  rcases List.mem_append.1 h with hended | hlast
  · obtain ⟨segment, hsegment, rfl⟩ := List.mem_map.1 hended
    exact ⟨segment, (List.dropLast_sublist _).mem hsegment, Or.inl rfl⟩
  · have hsegment : (text.splitOn '\n').getLast? = some line :=
      (Option.filter_eq_some_iff.1 (Option.mem_toList.1 hlast)).1
    exact ⟨line, List.mem_of_getLast? hsegment, Or.inr rfl⟩

theorem exists_withoutReturn_eq (line : List Char) :
    withoutReturn line = line ∨ line = withoutReturn line ++ ['\r'] := by
  unfold withoutReturn
  split
  · next hlast =>
    obtain ⟨front, rfl⟩ := List.getLast?_eq_some_iff.1 hlast
    right
    rw [List.dropLast_concat]
  · exact Or.inl rfl

/-- No line contains a line feed. -/
theorem not_mem_of_mem_lines {text line : List Char} (h : line ∈ lines text) : '\n' ∉ line := by
  obtain ⟨segment, hsegment, hline⟩ := exists_segment_of_mem_lines h
  have hclean := not_mem_of_mem_splitOn hsegment
  rcases hline with rfl | rfl
  · intro hmem
    rcases exists_withoutReturn_eq segment with heq | heq
    · exact hclean (heq ▸ hmem)
    · exact hclean (heq ▸ List.mem_append_left _ hmem)
  · exact hclean

/-- Lines that all end in a line feed are read back, each without a carriage return at its end. -/
theorem lines_flatten {contents : List (List Char)} (h : ∀ content ∈ contents, '\n' ∉ content) :
    lines ((contents.map fun content => content ++ ['\n']).flatten) =
      contents.map withoutReturn := by
  simp [lines, splitOn_flatten_lines h]

theorem withoutReturn_of_not_mem {line : List Char} (h : '\r' ∉ line) :
    withoutReturn line = line := by
  unfold withoutReturn
  split
  · next hlast => exact absurd (List.mem_of_getLast? hlast) h
  · rfl

/-- A carriage return is taken from the end of the last part of a line. -/
theorem exists_withoutReturn_append (front : List Char) {c : Char} (hc : c ≠ '\r')
    (tail : List Char) :
    ∃ rest, withoutReturn (front ++ c :: tail) = front ++ c :: rest := by
  unfold withoutReturn
  split
  · cases htail : tail.reverse with
    | nil =>
      have hnil : tail = [] := List.reverse_eq_nil_iff.1 htail
      subst hnil
      next hlast =>
        simp only [List.getLast?_append, List.getLast?_singleton, Option.some_or,
          Option.some.injEq] at hlast
        exact absurd hlast hc
    | cons d rest =>
      have hshape : tail = rest.reverse ++ [d] := by
        rw [← List.reverse_reverse tail, htail, List.reverse_cons]
      subst hshape
      refine ⟨rest.reverse, ?_⟩
      rw [← List.cons_append, ← List.append_assoc, List.dropLast_concat]
  · exact ⟨tail, rfl⟩

/-- Where empty lines and carriage returns at the end do not matter, the lines of a text are what
stands between its line feeds. -/
theorem filterMap_lines {β : Type} {f : List Char → Option β} (hempty : f [] = none)
    (hreturn : ∀ line, f (withoutReturn line) = f line) (text : List Char) :
    (lines text).filterMap f = (text.splitOn '\n').filterMap f := by
  obtain ⟨ended, last, hparts⟩ : ∃ ended last, text.splitOn '\n' = ended ++ [last] :=
    ⟨_, _, (List.dropLast_concat_getLast (List.splitOn_ne_nil '\n' text)).symm⟩
  have hcomp : f ∘ withoutReturn = f := funext hreturn
  have hlast : ((some last).filter (· ≠ [])).toList.filterMap f = [last].filterMap f := by
    by_cases hnil : last = []
    · simp [hnil, hempty]
    · simp [Option.filter, hnil]
  rw [lines, hparts, List.dropLast_concat, List.getLast?_concat, List.filterMap_append,
    List.filterMap_append, List.filterMap_map, hcomp, hlast]

end Text

end TernaryConsole
