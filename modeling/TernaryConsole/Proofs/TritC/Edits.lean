import Mathlib.Data.List.Induction
import Mathlib.Logic.Relation
import TernaryConsole.Proofs.Text
import TernaryConsole.TritC.Reader

/-!
# Proofs.TritC.Edits — text that says nothing

A source says the texts of its statements, line after line (`said`). `Edit` lists what can be taken
away without a word being lost: comments, blanks at the ends of lines and lines that are no
statements; line feeds may get a carriage return. One edit keeps what is said, and so do any number
of them (`said_of_edits`). `bare` is what is left if everything of that kind is gone.
-/

namespace TernaryConsole

namespace TritC

/-! ## What a source says -/

/-- A line without comment and surrounding blanks. -/
def strip (line : List Char) : List Char :=
  Text.trim (Text.before "//".toList line)

/-- A line is an accepted statement. -/
def isStatement (line : List Char) : Bool :=
  (Reader.statement? (Reader.code line)).isSome

/-- The texts of the statements of a source, in the order of the lines. -/
def said (text : List Char) : List (List Char) :=
  (Text.lines text).filterMap fun line => if isStatement line then some (Reader.code line) else none

/-! ## Edits -/

/-- A part of a text that does not end within a line. -/
def Whole (front : List Char) : Prop :=
  front = [] ∨ ∃ rest, front = rest ++ ['\n']

/-- A part of a text that does not begin within a line. -/
def Ends (back : List Char) : Prop :=
  back = [] ∨ ∃ rest, back = '\n' :: rest

/-- What can be taken away from a line. -/
inductive LineEdit : List Char → List Char → Prop
  | leading {blanks : List Char} (h : ∀ c ∈ blanks, Text.isBlank c = true) (line : List Char) :
      LineEdit (blanks ++ line) line
  | trailing {blanks : List Char} (h : ∀ c ∈ blanks, Text.isBlank c = true) (line : List Char) :
      LineEdit (line ++ blanks) line
  | comment (line : List Char) : LineEdit line (Text.before "//".toList line)

/-- What can be done to a text. Blank lines and lines that hold a comment only are among the lines
that are no statements. -/
inductive Edit : List Char → List Char → Prop
  | within {front line other back : List Char} (hfront : Whole front) (hback : Ends back)
      (hline : '\n' ∉ line) (h : LineEdit line other) :
      Edit (front ++ (line ++ back)) (front ++ (other ++ back))
  | line {front line : List Char} (hfront : Whole front) (hline : '\n' ∉ line)
      (h : isStatement line = false) (back : List Char) :
      Edit (front ++ (line ++ '\n' :: back)) (front ++ back)
  /-- The last line need not have a line feed. -/
  | lastLine {front line : List Char} (hfront : Whole front) (hline : '\n' ∉ line)
      (h : isStatement line = false) : Edit (front ++ line) front
  /-- A line feed at the end of a text begins no line. -/
  | lastFeed (front : List Char) : Edit (front ++ ['\n']) front
  | carriageReturn (front back : List Char) :
      Edit (front ++ '\n' :: back) (front ++ '\r' :: '\n' :: back)

/-- A source becomes another one by edits, in any combination. -/
def Edits (source edited : String) : Prop :=
  Relation.ReflTransGen Edit source.toList edited.toList

/-- The lines that are left of a source without all that says nothing. -/
def bareLines (text : List Char) : List (List Char) :=
  (Text.lines text).filterMap fun line => if isStatement line then some (strip line) else none

/-- A source without all that says nothing. -/
def bare (source : String) : String :=
  String.ofList (['\n'].intercalate (bareLines source.toList))

/-! ## Lines -/

theorem notMem_slashes_of_isBlank {c : Char} (h : Text.isBlank c = true) :
    c ∉ "//".toList := by
  intro hmem
  have hslash : c = '/' := by simpa using hmem
  rw [hslash] at h
  exact absurd h (by decide)

namespace LineEdit

variable {line other : List Char}

theorem strip_eq (h : LineEdit line other) : strip other = strip line := by
  have hnonempty : "//".toList ≠ [] := by decide
  cases h with
  | leading hblank =>
    have hclean := fun c hc => notMem_slashes_of_isBlank (hblank c hc)
    rw [strip, strip, Text.before_append_of_disjoint hnonempty hclean,
      Text.trim_blanks_append hblank]
  | trailing hblank =>
    have hclean := fun c hc => notMem_slashes_of_isBlank (hblank c hc)
    rcases Text.before_append_tail hnonempty hclean other with hcut | hkept
    · rw [strip, strip, hcut]
    · rw [strip, strip, hkept, Text.trim_append_blanks hblank]
  | comment => rw [strip, strip, Text.before_before hnonempty]

theorem code_eq (h : LineEdit line other) : Reader.code other = Reader.code line := by
  have hcode : ∀ text, Reader.code text = Text.trimEnd (Text.dropTrailing (· = ';') (strip text)) :=
    fun _ => rfl
  rw [hcode, hcode, h.strip_eq]

theorem isStatement_eq (h : LineEdit line other) : isStatement other = isStatement line := by
  rw [isStatement, isStatement, h.code_eq]

theorem sublist (h : LineEdit line other) : other.Sublist line := by
  cases h with
  | leading => exact List.sublist_append_right _ _
  | trailing => exact List.sublist_append_left _ _
  | comment => exact (Text.before_isPrefix _ line).sublist

end LineEdit

/-- A carriage return at the end of a line is a blank. -/
theorem lineEdit_carriageReturn (line : List Char) : LineEdit (line ++ ['\r']) line := by
  have hreturn : Text.isBlank '\r' = true := by decide
  exact .trailing (fun c hc => List.mem_singleton.1 hc ▸ hreturn) line

/-- A line is stripped by edits. -/
theorem lineEdits_strip (line : List Char) : Relation.ReflTransGen LineEdit line (strip line) := by
  have hstart : LineEdit (Text.before "//".toList line)
      (Text.trimStart (Text.before "//".toList line)) := by
    have hblank : ∀ c ∈ (Text.before "//".toList line).takeWhile Text.isBlank,
        Text.isBlank c = true := fun c hc => List.mem_takeWhile_imp hc
    have hedit := LineEdit.leading hblank (Text.trimStart (Text.before "//".toList line))
    rwa [Text.trimStart, List.takeWhile_append_dropWhile] at hedit
  have hend : ∀ text : List Char, LineEdit text (Text.trimEnd text) := by
    intro text
    have hblank : ∀ c ∈ (text.reverse.takeWhile Text.isBlank).reverse, Text.isBlank c = true :=
      fun c hc => List.mem_takeWhile_imp (List.mem_reverse.1 hc)
    have hedit := LineEdit.trailing hblank (Text.trimEnd text)
    rwa [Text.trimEnd, Text.dropTrailing, ← List.reverse_append, List.takeWhile_append_dropWhile,
      List.reverse_reverse] at hedit
  exact ((Relation.ReflTransGen.single (.comment line)).tail hstart).tail (hend _)

/-! ## What edits keep -/

theorem isStatement_nil : isStatement [] = false := by rfl

theorem withoutReturn_edit (line : List Char) :
    Text.withoutReturn line = line ∨ LineEdit line (Text.withoutReturn line) := by
  refine (Text.exists_withoutReturn_eq line).imp id fun heq => ?_
  have hedit := lineEdit_carriageReturn (Text.withoutReturn line)
  rwa [← heq] at hedit

/-- Lines are what stands between line feeds. -/
theorem said_eq (text : List Char) :
    said text = (text.splitOn '\n').filterMap fun line =>
      if isStatement line then some (Reader.code line) else none := by
  refine Text.filterMap_lines (by rw [isStatement_nil]; rfl) (fun line => ?_) text
  rcases withoutReturn_edit line with heq | hedit
  · rw [heq]
  · rw [hedit.isStatement_eq, hedit.code_eq]

theorem said_nil : said [] = [] := by rfl

theorem said_append_feed (front back : List Char) :
    said (front ++ '\n' :: back) = said front ++ said back := by
  rw [said_eq, List.splitOn_append_cons_self, List.filterMap_append, ← said_eq, ← said_eq]

theorem said_line {line : List Char} (h : '\n' ∉ line) :
    said line = if isStatement line then [Reader.code line] else [] := by
  rw [said_eq, List.splitOn_eq_singleton h]
  cases hline : isStatement line <;> simp [hline]

theorem Whole.said_append {front : List Char} (h : Whole front) (text : List Char) :
    said (front ++ text) = said front ++ said text := by
  rcases h with rfl | ⟨rest, rfl⟩
  · rfl
  · have hshape : rest ++ ['\n'] ++ text = rest ++ '\n' :: text := by simp
    rw [hshape, said_append_feed, said_append_feed, said_nil, List.append_nil]

theorem Ends.said_append {back : List Char} (h : Ends back) (text : List Char) :
    said (text ++ back) = said text ++ said back := by
  rcases h with rfl | ⟨rest, rfl⟩
  · rw [said_nil, List.append_nil, List.append_nil]
  · have hback : said ('\n' :: rest) = said rest := said_append_feed [] rest
    rw [said_append_feed, hback]

/-- A text is whole lines and a last one that has no line feed. -/
theorem exists_whole_append_line (text : List Char) :
    ∃ front line, text = front ++ line ∧ Whole front ∧ '\n' ∉ line := by
  induction text using List.reverseRecOn with
  | nil => exact ⟨[], [], rfl, Or.inl rfl, List.not_mem_nil⟩
  | append_singleton text c ih =>
    by_cases hfeed : c = '\n'
    · subst hfeed
      exact ⟨text ++ ['\n'], [], by simp, Or.inr ⟨text, rfl⟩, List.not_mem_nil⟩
    · obtain ⟨front, line, rfl, hfront, hline⟩ := ih
      refine ⟨front, line ++ [c], by simp, hfront, ?_⟩
      simp [hline, Ne.symm hfeed]

/-- One edit keeps what is said. -/
theorem said_of_edit {text edited : List Char} (h : Edit text edited) :
    said edited = said text := by
  cases h with
  | within hfront hback hline hedit =>
    have hother := fun hmem => hline (hedit.sublist.mem hmem)
    rw [hfront.said_append, hfront.said_append, hback.said_append, hback.said_append,
      said_line hline, said_line hother, hedit.isStatement_eq, hedit.code_eq]
  | line hfront hline hnone back =>
    rw [hfront.said_append, hfront.said_append, said_append_feed, said_line hline, hnone]
    rfl
  | lastLine hfront hline hnone =>
    rw [hfront.said_append, said_line hline, hnone]
    simp
  | lastFeed front =>
    rw [said_append_feed, said_nil, List.append_nil]
  | carriageReturn front back =>
    obtain ⟨whole, line, rfl, hwhole, hline⟩ := exists_whole_append_line front
    have hedit := lineEdit_carriageReturn line
    have hreturn : '\n' ∉ line ++ ['\r'] := by simpa using hline
    have hshape : whole ++ line ++ '\r' :: '\n' :: back =
        whole ++ (line ++ ['\r']) ++ '\n' :: back := by simp
    rw [hshape, said_append_feed, said_append_feed, hwhole.said_append, hwhole.said_append,
      said_line hreturn, said_line hline, hedit.isStatement_eq, hedit.code_eq]

/-- Edits keep what is said. -/
theorem said_of_edits {text edited : List Char} (h : Relation.ReflTransGen Edit text edited) :
    said edited = said text := by
  induction h with
  | refl => rfl
  | tail _ hedit ih => rw [said_of_edit hedit, ih]

/-! ## Bare sources -/

theorem Whole.append {front more : List Char} (h : Whole front) (hmore : Whole more) :
    Whole (front ++ more) := by
  rcases hmore with rfl | ⟨rest, rfl⟩
  · rwa [List.append_nil]
  · exact Or.inr ⟨front ++ rest, by simp⟩

/-- Behind whole lines a text is edited like a text of its own. -/
theorem Edit.behind {front : List Char} (hfront : Whole front) {text edited : List Char}
    (h : Edit text edited) : Edit (front ++ text) (front ++ edited) := by
  cases h with
  | @within before line other back hbefore hback hline hedit =>
    have hwithin := Edit.within (hfront.append hbefore) hback hline hedit
    rwa [List.append_assoc, List.append_assoc] at hwithin
  | @line before line hbefore hline hnone back =>
    have hdelete := Edit.line (hfront.append hbefore) hline hnone back
    rwa [List.append_assoc, List.append_assoc] at hdelete
  | @lastLine _ line hbefore hline hnone =>
    have hdelete := Edit.lastLine (hfront.append hbefore) hline hnone
    rwa [List.append_assoc] at hdelete
  | lastFeed before =>
    have hdelete := Edit.lastFeed (front ++ edited)
    rwa [List.append_assoc] at hdelete
  | carriageReturn before back =>
    have hreturn := Edit.carriageReturn (front ++ before) back
    rwa [List.append_assoc, List.append_assoc] at hreturn

theorem edits_behind {front text edited : List Char} (hfront : Whole front)
    (h : Relation.ReflTransGen Edit text edited) :
    Relation.ReflTransGen Edit (front ++ text) (front ++ edited) :=
  h.lift (front ++ ·) fun _ _ hedit => hedit.behind hfront

theorem edits_within {line other back : List Char} (hback : Ends back) (hline : '\n' ∉ line)
    (h : Relation.ReflTransGen LineEdit line other) :
    Relation.ReflTransGen Edit (line ++ back) (other ++ back) ∧ '\n' ∉ other := by
  induction h with
  | refl => exact ⟨.refl, hline⟩
  | tail _ hedit ih =>
    obtain ⟨hedits, hmiddle⟩ := ih
    have hlast := Edit.within (Or.inl rfl) hback hmiddle hedit
    exact ⟨hedits.tail hlast, fun hmem => hmiddle (hedit.sublist.mem hmem)⟩

theorem bareLines_eq (text : List Char) :
    bareLines text = (text.splitOn '\n').filterMap fun line =>
      if isStatement line then some (strip line) else none := by
  refine Text.filterMap_lines (by rw [isStatement_nil]; rfl) (fun line => ?_) text
  rcases withoutReturn_edit line with heq | hedit
  · rw [heq]
  · rw [hedit.isStatement_eq, hedit.strip_eq]

/-- A line in front of others, or alone and then without its line feed. -/
theorem edits_feed (line : List Char) (others : List (List Char)) :
    Relation.ReflTransGen Edit (line ++ ['\n'] ++ ['\n'].intercalate others)
      (['\n'].intercalate (line :: others)) := by
  cases others with
  | nil => exact .single (by simpa using Edit.lastFeed line)
  | cons next others =>
    rw [List.intercalate_cons_of_ne_nil (List.cons_ne_nil _ _)]

/-- Lines are rid of what says nothing one after the other. -/
theorem edits_intercalate {lines : List (List Char)} (hlines : ∀ line ∈ lines, '\n' ∉ line) :
    Relation.ReflTransGen Edit (['\n'].intercalate lines)
      (['\n'].intercalate
        (lines.filterMap fun line => if isStatement line then some (strip line) else none)) := by
  -- By induction from the first line on: it is stripped where it stands, or it goes as a whole.
  induction lines with
  | nil => exact .refl
  | cons line rest ih =>
    have hline := hlines line List.mem_cons_self
    have hrest := ih fun other hmem => hlines other (List.mem_cons_of_mem _ hmem)
    by_cases hnil : rest = []
    · subst hnil
      cases htext : isStatement line with
      | true =>
        have hstrip := (edits_within (Or.inl rfl) hline (lineEdits_strip line)).1
        simpa [htext] using hstrip
      | false =>
        have hdelete := Edit.lastLine (Or.inl rfl) hline htext
        exact .single (by simpa [htext] using hdelete)
    · have hshape : ['\n'].intercalate (line :: rest) =
          line ++ '\n' :: ['\n'].intercalate rest := by
        rw [List.intercalate_cons_of_ne_nil hnil]
        simp
      rw [hshape]
      cases htext : isStatement line with
      | true =>
        have hends : Ends ('\n' :: ['\n'].intercalate rest) := Or.inr ⟨_, rfl⟩
        have hwhole : Whole (strip line ++ ['\n']) := Or.inr ⟨_, rfl⟩
        have hstrip := (edits_within hends hline (lineEdits_strip line)).1
        have hothers := edits_behind hwhole hrest
        rw [List.append_assoc] at hothers
        rw [List.filterMap_cons_some (by rw [if_pos htext])]
        exact (hstrip.trans hothers).trans (edits_feed _ _)
      | false =>
        have hdelete := Edit.line (Or.inl rfl) hline htext (['\n'].intercalate rest)
        rw [List.filterMap_cons_none (by rw [htext]; rfl)]
        exact .head hdelete hrest

/-- A source is made bare by edits. -/
theorem edits_bare (source : String) : Edits source (bare source) := by
  have hclean : ∀ line ∈ source.toList.splitOn '\n', '\n' ∉ line :=
    fun _ => Text.not_mem_of_mem_splitOn
  have hedits := edits_intercalate hclean
  rw [List.intercalate_splitOn, ← bareLines_eq] at hedits
  rwa [Edits, bare, String.toList_ofList]

theorem strip_edits {line other : List Char} (h : Relation.ReflTransGen LineEdit line other) :
    strip other = strip line ∧ isStatement other = isStatement line ∧ other.Sublist line := by
  induction h with
  | refl => exact ⟨rfl, rfl, List.Sublist.refl _⟩
  | tail _ hedit ih =>
    exact ⟨hedit.strip_eq.trans ih.1, hedit.isStatement_eq.trans ih.2.1, hedit.sublist.trans ih.2.2⟩

/-- All lines of a bare source are statements without comments and surrounding blanks. -/
theorem strip_of_mem_bare {source : String} {line : List Char}
    (h : line ∈ Text.lines (bare source).toList) : strip line = line ∧ isStatement line = true := by
  rw [bare, String.toList_ofList] at h
  have hkept : ∀ kept ∈ bareLines source.toList,
      strip kept = kept ∧ isStatement kept = true ∧ '\n' ∉ kept := by
    intro kept hmem
    obtain ⟨raw, hraw, heq⟩ := List.mem_filterMap.1 hmem
    simp only [Option.ite_none_right_eq_some, Option.some.injEq] at heq
    obtain ⟨htext, rfl⟩ := heq
    obtain ⟨hstrip, hstatement, hsublist⟩ := strip_edits (lineEdits_strip raw)
    exact ⟨hstrip, hstatement.trans htext,
      fun hfeed => Text.not_mem_of_mem_lines hraw (hsublist.mem hfeed)⟩
  have hnonempty : bareLines source.toList ≠ [] := by
    intro hnil
    rw [hnil] at h
    exact absurd h List.not_mem_nil
  obtain ⟨segment, hsegment, hline⟩ := Text.exists_segment_of_mem_lines h
  rw [List.splitOn_intercalate '\n' (fun kept hmem => (hkept kept hmem).2.2) hnonempty] at hsegment
  obtain ⟨hstrip, hstatement, -⟩ := hkept segment hsegment
  suffices heq : line = segment from heq ▸ ⟨hstrip, hstatement⟩
  rcases hline with rfl | rfl
  · -- A stripped line does not end in a carriage return.
    rcases withoutReturn_edit segment with heq | hedit
    · exact heq
    · have hshort := (strip_edits (lineEdits_strip (Text.withoutReturn segment))).2.2
      rw [hedit.strip_eq, hstrip] at hshort
      exact hedit.sublist.eq_of_length_le hshort.length_le
  · rfl

end TritC

end TernaryConsole
