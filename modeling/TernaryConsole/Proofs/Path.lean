import TernaryConsole.Path
import TernaryConsole.Proofs.Text

/-!
# Proofs.Path — segments and extensions

A path is its segments with slashes between them, and segments without slashes are found again
(`segments_intercalate`). Of a path that ends in a file name, another extension changes nothing but
that name (`withExtension_eq`), and it is the same path only if the name has the extension already
(`withExtension_eq_self_iff`).
-/

namespace TernaryConsole

namespace Path

/-! ## Segments -/

theorem intercalate_segments (path : String) : String.intercalate "/" (segments path) = path := by
  apply String.toList_injective
  have hparts : (segments path).map String.toList = path.toList.splitOn '/' := by
    simp [segments]
  have hslash : "/".toList = ['/'] := by decide
  rw [String.toList_intercalate, hparts, hslash, List.intercalate_splitOn]

theorem segments_intercalate {parts : List String} (hparts : parts ≠ [])
    (h : ∀ part ∈ parts, '/' ∉ part.toList) :
    segments (String.intercalate "/" parts) = parts := by
  have hslash : "/".toList = ['/'] := by decide
  have hclean : ∀ part ∈ parts.map String.toList, '/' ∉ part := by
    intro part hpart
    obtain ⟨text, htext, rfl⟩ := List.mem_map.1 hpart
    exact h text htext
  rw [segments, String.toList_intercalate, hslash,
    List.splitOn_intercalate '/' hclean (by simpa using hparts), List.map_map]
  simp

theorem notMem_of_mem_segments {path segment : String} (h : segment ∈ segments path) :
    '/' ∉ segment.toList := by
  obtain ⟨text, htext, rfl⟩ := List.mem_map.1 h
  rw [String.toList_ofList]
  exact Text.not_mem_of_mem_splitOn htext

/-! ## Stems -/

section

variable {name extension : String}

/-- A stem is what stands in front of the last dot, unless that is nothing. -/
theorem stem_append {base : String} (hbase : base ≠ "") (hdot : '.' ∉ extension.toList) :
    stem (base ++ "." ++ extension) = base := by
  -- From the right, the first dot is the one in front of the extension.
  have hreverse : (base ++ "." ++ extension).toList.reverse =
      extension.toList.reverse ++ '.' :: base.toList.reverse := by
    simp
  have hclean : ∀ c ∈ extension.toList.reverse, c ∉ ['.'] := by
    rintro c hc hmem
    rw [List.mem_singleton.1 hmem] at hc
    exact hdot (List.mem_reverse.1 hc)
  have hfound : Text.splitOnce ['.'] ('.' :: base.toList.reverse) =
      some ([], base.toList.reverse) := by
    simp [Text.splitOnce, List.isPrefixOf]
  have hfront : base.toList.reverse ≠ [] := by simpa using hbase
  rw [stem, hreverse, Text.splitOnce_append_of_disjoint (by simp) hclean, hfound]
  simp [hbase]

theorem stem_ne_empty (h : name ≠ "") : stem name ≠ "" := by
  unfold stem
  split
  · split
    · exact h
    · next hfront => simpa using hfront
  · exact h

theorem mem_of_mem_stem {c : Char} (h : c ∈ (stem name).toList) : c ∈ name.toList := by
  unfold stem at h
  split at h
  · next back front hsplit =>
    split at h
    · exact h
    · -- The stem is read off the reversed name, behind its first dot.
      have hreverse := Text.eq_of_splitOnce hsplit
      have hfront : c ∈ front := by simpa using h
      exact List.mem_reverse.1 (hreverse ▸ List.mem_append_right _ hfront)
  · exact h

/-! ## File names -/

/-- The last segment of a path names something, and that is not the parent. -/
structure EndsIn (path : String) (front : List String) (name : String) : Prop where
  segments_eq : segments path = front ++ [name]
  notIdle : isIdle name = false
  notParent : name ≠ ".."

/-- A file name with another extension. One that has nothing but a dot in front of its extension
keeps two dots. -/
def renamed (name extension : String) : String :=
  if stem name = "." then ".." else stem name ++ "." ++ extension

variable {path : String} {front : List String}

namespace EndsIn

theorem named_eq (h : EndsIn path front name) : named path = segments path := by
  rw [named, h.segments_eq, Text.dropTrailing, List.reverse_append]
  simp [h.notIdle]

theorem fileName?_eq (h : EndsIn path front name) : fileName? path = some name := by
  rw [fileName?, h.named_eq, h.segments_eq, List.getLast?_concat]
  simp [h.notParent]

theorem withExtension_eq (h : EndsIn path front name) (extension : String) :
    withExtension path extension =
      String.intercalate "/" (front ++ [renamed name extension]) := by
  rw [withExtension, h.fileName?_eq]
  simp only [h.named_eq, and_true, h.segments_eq, List.dropLast_concat, renamed]

/-- Another extension changes the last segment only. -/
theorem segments_withExtension (h : EndsIn path front name) (hslash : '/' ∉ extension.toList) :
    segments (withExtension path extension) = front ++ [renamed name extension] := by
  have hclean : ∀ part ∈ front ++ [name], '/' ∉ part.toList := by
    intro part hpart
    exact notMem_of_mem_segments (h.segments_eq ▸ hpart)
  rw [h.withExtension_eq, segments_intercalate (by simp)]
  intro part hpart
  rcases List.mem_append.1 hpart with hfront | hlast
  · exact hclean part (List.mem_append_left _ hfront)
  · rw [List.mem_singleton.1 hlast, renamed]
    split
    · decide
    · have hstem : '/' ∉ (stem name).toList :=
        fun hmem => hclean name (by simp) (mem_of_mem_stem hmem)
      simp [hstem, hslash]

/-- The path stays the same if its name does. -/
theorem withExtension_eq_self_iff_renamed (h : EndsIn path front name)
    (hslash : '/' ∉ extension.toList) :
    withExtension path extension = path ↔ renamed name extension = name := by
  constructor
  · intro hsame
    have hsegments := h.segments_withExtension hslash
    rw [hsame, h.segments_eq] at hsegments
    simpa using hsegments.symm
  · intro hsame
    rw [h.withExtension_eq, hsame, ← h.segments_eq, intercalate_segments]

theorem withExtension_eq_self_iff (h : EndsIn path front name) (hslash : '/' ∉ extension.toList)
    (hdot : '.' ∉ extension.toList) :
    withExtension path extension = path ↔
      ∃ base, base ≠ "" ∧ base ≠ "." ∧ name = base ++ "." ++ extension := by
  rw [h.withExtension_eq_self_iff_renamed hslash, renamed]
  have hname : name ≠ "" := by
    rintro rfl
    exact absurd h.notIdle (by decide)
  constructor
  · intro hsame
    split at hsame
    · -- Two dots would be no file name.
      exact absurd hsame.symm h.notParent
    · next hstem => exact ⟨stem name, stem_ne_empty hname, hstem, hsame.symm⟩
  · rintro ⟨base, hbase, hdots, rfl⟩
    rw [stem_append hbase hdot, if_neg hdots]

end EndsIn

end

end Path

end TernaryConsole
