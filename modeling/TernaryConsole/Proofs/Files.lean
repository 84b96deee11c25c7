import TernaryConsole.Files
import TernaryConsole.Proofs.Path
import TernaryConsole.Proofs.Success

/-!
# Proofs.Files — the name that a path leads to

A path that can be read or written ends in a name, and the segments in front of the name lead to a
directory (`Names`). Writing the path puts a text at that name. It changes nothing else: every
other text is still read under the paths that led to it (`Written.readText_of_ne`).
-/

namespace TernaryConsole

namespace Files

variable {files : Files} {path segment : String} {key : List String}

/-! ## Following segments -/

/-- Where a segment leads from a directory: it stays there, goes up or goes to something that is
there. -/
inductive Entered (files : Files) (key : List String) (segment : String) : List String → Prop
  | idle (h : Path.isIdle segment = true) : Entered files key segment key
  | up (h : segment = "..") : Entered files key segment (parent key)
  | down (hidle : Path.isIdle segment = false) (hparent : segment ≠ "..")
      (h : (files.node? (key ++ [segment])).isSome) : Entered files key segment (key ++ [segment])

theorem enter_known_iff {place : Place} :
    files.enter (.known key) segment = .ok place ↔
      files.node? key = some .directory ∧
        ∃ next, Entered files key segment next ∧ place = .known next := by
  constructor
  · intro h
    simp only [enter] at h
    split at h
    · next hdirectory =>
      refine ⟨hdirectory, ?_⟩
      split at h
      · next hidle => exact ⟨key, .idle hidle, (Except.ok.inj h).symm⟩
      · next hidle =>
        split at h
        · next hup => exact ⟨parent key, .up hup, (Except.ok.inj h).symm⟩
        · next hparent =>
          split at h
          · next hsome =>
            exact ⟨_, .down (Bool.eq_false_iff.2 hidle) hparent hsome, (Except.ok.inj h).symm⟩
          · cases h
    · cases h
    · cases h
  · rintro ⟨hdirectory, next, hentered, rfl⟩
    simp only [enter, hdirectory]
    cases hentered with
    | idle hidle => rw [if_pos hidle]
    | up hup =>
      subst hup
      rfl
    | down hidle hparent hsome =>
      rw [if_neg (Bool.eq_false_iff.1 hidle), if_neg hparent, if_pos hsome]

/-- Nothing leads out of the root directory. -/
theorem enter_root {place : Place} (h : files.enter .root segment = .ok place) :
    place = .root := by
  simp only [enter] at h
  split at h
  · exact (Except.ok.inj h).symm
  · cases h

theorem enter_child (hdirectory : files.node? key = some .directory)
    (hidle : Path.isIdle segment = false) (hparent : segment ≠ "..") :
    files.enter (.known key) segment =
      if (files.node? (key ++ [segment])).isSome then .ok (.known (key ++ [segment]))
      else .error .notFound := by
  simp [enter, hdirectory, hidle, hparent]

/-- Every place in front of a place is a directory. -/
def Place.Open (files : Files) : Place → Prop
  | .known key => ∀ n < key.length, files.node? (key.take n) = some .directory
  | .root => True

theorem isUpward_take (h : isUpward key = true) (n : Nat) : isUpward (key.take n) = true := by
  simp only [isUpward, List.all_eq_true] at h ⊢
  exact fun name hname => h name (List.mem_of_mem_take hname)

theorem node?_of_isUpward (h : isUpward key = true) : files.node? key = some .directory := by
  rw [node?, if_pos h]

theorem isUpward_concat (h : segment ≠ "..") : isUpward (key ++ [segment]) = false := by
  simp [isUpward, h]

theorem isUpward_parent (h : isUpward key = true) : isUpward (parent key) = true := by
  rw [parent, if_pos h]
  simpa [isUpward] using h

theorem node?_parent (h : Place.Open files (.known key)) :
    files.node? (parent key) = some .directory := by
  by_cases hupward : isUpward key
  · exact node?_of_isUpward (isUpward_parent hupward)
  · have hsome : key ≠ [] := by
      rintro rfl
      exact hupward rfl
    rw [parent, if_neg hupward, List.dropLast_eq_take]
    exact h _ (Nat.sub_lt (List.length_pos_iff.2 hsome) Nat.one_pos)

theorem open_enter {place next : Place} (hopen : place.Open files)
    (h : files.enter place segment = .ok next) : next.Open files := by
  cases place with
  | root =>
    rw [enter_root h]
    exact trivial
  | known key =>
    obtain ⟨hdirectory, below, hentered, rfl⟩ := enter_known_iff.1 h
    cases hentered with
    | idle => exact hopen
    | up =>
      intro n hn
      -- From an upward key the way goes on upward. Any other key loses its last name.
      by_cases hupward : isUpward key
      · exact node?_of_isUpward (isUpward_take (isUpward_parent hupward) n)
      · rw [parent, if_neg hupward] at hn ⊢
        rw [List.length_dropLast] at hn
        rw [List.dropLast_eq_take, List.take_take, Nat.min_eq_left hn.le]
        exact hopen n (by omega)
    | down =>
      intro n hn
      rw [List.length_append, List.length_singleton] at hn
      rcases Nat.lt_or_ge n key.length with hlt | hge
      · rw [List.take_append_of_le_length hlt.le]
        exact hopen n hlt
      · have hend : n = key.length := by omega
        rw [hend, List.take_left]
        exact hdirectory

theorem open_start (files : Files) (path : String) : (start path).Open files := by
  unfold start
  split
  · exact trivial
  · exact fun n hn => absurd hn (Nat.not_lt_zero n)

theorem readText_eq_ok_iff {content : String} :
    files.readText path = .ok content ↔
      ∃ key, files.resolve path = .ok (.known key) ∧ files.node? key = some (.text content) := by
  unfold readText
  cases files.resolve path with
  | error cause => simp [bind, Except.bind]
  | ok place =>
    cases place with
    | root => simp [bind, Except.bind]
    | known key =>
      simp only [bind, Except.bind, Except.ok.injEq, Place.known.injEq, exists_eq_left']
      cases files.node? key with
      | none => simp
      | some node => cases node <;> simp

/-! ## Names in directories -/

/-- A path leads to a name in a directory, whether something has that name or not. -/
structure Names (files : Files) (path : String) (front key : List String) (name : String) :
    Prop where
  endsIn : Path.EndsIn path front name
  reaches : front.foldlM files.enter (start path) = .ok (.known key)
  directory : files.node? key = some .directory

namespace Names

variable {front : List String} {name content : String}

theorem notUpward (h : files.Names path front key name) : isUpward (key ++ [name]) = false :=
  isUpward_concat h.endsIn.notParent

theorem start_eq (h : files.Names path front key name) : start path = .known [] := by
  unfold start
  split
  · next hslash =>
    have hroot : start path = .root := if_pos hslash
    have hreaches := h.reaches
    rw [hroot] at hreaches
    have hstays : ∀ {place segment next}, place = .root → files.enter place segment = .ok next →
        next = .root := by
      rintro place segment next rfl henter
      exact enter_root henter
    cases foldlM_preserves hstays rfl hreaches
  · rfl

theorem resolve_eq (h : files.Names path front key name) :
    files.resolve path =
      if (files.node? (key ++ [name])).isSome then .ok (.known (key ++ [name]))
      else .error .notFound := by
  have hpath : path ≠ "" := by
    rintro rfl
    have hsegments : [""] = front ++ [name] := h.endsIn.segments_eq
    have hname : name = "" := by
      have hlast := congrArg List.getLast? hsegments
      simpa using hlast.symm
    exact absurd h.endsIn.notIdle (by rw [hname]; decide)
  rw [resolve, if_neg hpath, h.endsIn.segments_eq, List.foldlM_append, h.reaches]
  simp only [List.foldlM_cons, List.foldlM_nil, bind_pure]
  exact enter_child h.directory h.endsIn.notIdle h.endsIn.notParent

theorem resolve_of_isSome (h : files.Names path front key name)
    (hsome : (files.node? (key ++ [name])).isSome) :
    files.resolve path = .ok (.known (key ++ [name])) := by
  rw [h.resolve_eq, if_pos hsome]

/-- One way in front of two names leads to one directory. -/
theorem key_eq {other otherName : String} {otherKey : List String}
    (h : files.Names path front key name) (hother : files.Names other front otherKey otherName) :
    otherKey = key := by
  have hreaches := hother.reaches
  rw [hother.start_eq, ← h.start_eq, h.reaches] at hreaches
  cases hreaches
  rfl

end Names

theorem exists_front_eq (path : String) : ∃ front last, Path.segments path = front ++ [last] := by
  have hsegments : Path.segments path ≠ [] := by
    simp [Path.segments, List.splitOn_ne_nil]
  exact ⟨_, _, (List.dropLast_concat_getLast hsegments).symm⟩

/-- A text that is read has a name. -/
theorem names_of_readText {content : String} (h : files.readText path = .ok content) :
    ∃ front key name, files.Names path front key name ∧
      files.node? (key ++ [name]) = some (.text content) := by
  obtain ⟨found, hresolve, hnode⟩ := readText_eq_ok_iff.1 h
  obtain ⟨front, last, hsegments⟩ := exists_front_eq path
  unfold resolve at hresolve
  split at hresolve
  · cases hresolve
  · rw [hsegments] at hresolve
    obtain ⟨place, hreaches, henter⟩ := exists_of_foldlM_concat hresolve
    cases place with
    | root => cases enter_root henter
    | known key =>
      obtain ⟨hdirectory, next, hentered, hnext⟩ := enter_known_iff.1 henter
      cases hnext
      -- Staying and going up end at a directory.
      cases hentered with
      | idle =>
        rw [hdirectory] at hnode
        cases hnode
      | up =>
        rw [node?_parent (foldlM_preserves open_enter (open_start files path) hreaches)] at hnode
        cases hnode
      | down hidle hparent =>
        exact ⟨front, key, last, ⟨⟨hsegments, hidle, hparent⟩, hreaches, hdirectory⟩, hnode⟩

theorem writeAt_eq_ok {place : Place} {name content : String} {after : Files}
    (h : files.writeAt place name content = .ok after) :
    ∃ key, place = .known key ∧ files.node? key = some .directory ∧
      files.node? (key ++ [name]) ≠ some .directory ∧
      after = files.put (key ++ [name]) (.text content) := by
  cases place with
  | root => cases h
  | known key =>
    simp only [writeAt] at h
    split at h
    · next hdirectory =>
      split at h
      · cases h
      · next hfree => exact ⟨key, rfl, hdirectory, hfree, (Except.ok.inj h).symm⟩
    · cases h
    · cases h

/-- A path that ends in a slash or in dots is not written. -/
theorem writeText_eq_ok {front : List String} {last content : String} {after : Files}
    (hsegments : Path.segments path = front ++ [last])
    (h : files.writeText path content = .ok after) :
    Path.isIdle last = false ∧ last ≠ ".." ∧
      ∃ place, front.foldlM files.enter (start path) = .ok place ∧
        files.writeAt place last content = .ok after := by
  unfold writeText at h
  rw [hsegments] at h
  by_cases hempty : last = ""
  · simp only [hempty] at h
    split at h
    · split at h <;> cases h
    · obtain ⟨place, -, hplace⟩ := exists_of_bind_eq_ok h
      simp only [List.getLast?_concat, decide_true, Bool.true_or, if_true] at hplace
      obtain ⟨entered, -, hentered⟩ := exists_of_bind_eq_ok hplace
      cases hentered
  · have hnamed : Text.dropTrailing (fun name => decide (name = "")) (front ++ [last]) =
        front ++ [last] := by
      rw [Text.dropTrailing, List.reverse_append]
      simp [hempty]
    have hfound : ((front ++ [last]).filter fun name => decide (name ≠ "")).getLast? =
        some last := by
      rw [List.filter_append, List.filter_singleton]
      simp [hempty]
    simp only [hfound, hnamed, List.dropLast_concat, List.getLast?_concat, Option.some.injEq,
      hempty, decide_false, Bool.false_or, Bool.or_eq_true, decide_eq_true_eq] at h
    obtain ⟨place, hreaches, hplace⟩ := exists_of_bind_eq_ok h
    split at hplace
    · obtain ⟨entered, -, hentered⟩ := exists_of_bind_eq_ok hplace
      cases hentered
    · next hdots =>
      rw [not_or] at hdots
      exact ⟨by simp [Path.isIdle, hempty, hdots.1], hdots.2, place, hreaches, hplace⟩

/-- A text that is written has a name that is no directory's, and is put there. -/
theorem names_of_writeText {content : String} {after : Files}
    (h : files.writeText path content = .ok after) :
    ∃ front key name, files.Names path front key name ∧
      files.node? (key ++ [name]) ≠ some .directory ∧
      after = files.put (key ++ [name]) (.text content) := by
  obtain ⟨front, last, hsegments⟩ := exists_front_eq path
  obtain ⟨hidle, hparent, place, hreaches, hwrite⟩ := writeText_eq_ok hsegments h
  obtain ⟨key, rfl, hdirectory, hfree, hafter⟩ := writeAt_eq_ok hwrite
  exact ⟨front, key, last, ⟨⟨hsegments, hidle, hparent⟩, hreaches, hdirectory⟩, hfree, hafter⟩

/-! ## A text in a tree -/

section

variable {place next : Place} {content : String}

/-- A text in the place of no directory takes no way away. -/
theorem enter_put (hbelow : isUpward key = false) (hfree : files.node? key ≠ some .directory)
    (h : files.enter place segment = .ok next) :
    (files.put key (.text content)).enter place segment = .ok next := by
  cases place with
  | root => exact h
  | known here =>
    obtain ⟨hdirectory, reached, hentered, rfl⟩ := enter_known_iff.1 h
    have hnode : ∀ other, (files.node? other).isSome →
        ((files.put key (.text content)).node? other).isSome := by
      intro other hother
      rw [node?_put files hbelow]
      split
      · rfl
      · exact hother
    refine enter_known_iff.2 ⟨?_, reached, ?_, rfl⟩
    · -- A way leads through directories only, and the key is none.
      rw [node?_put files hbelow, if_neg, hdirectory]
      rintro rfl
      exact hfree hdirectory
    · cases hentered with
      | idle hidle => exact .idle hidle
      | up hup => exact .up hup
      | down hidle hparent hsome => exact .down hidle hparent (hnode _ hsome)

theorem resolve_put (hbelow : isUpward key = false) (hfree : files.node? key ≠ some .directory)
    (h : files.resolve path = .ok place) :
    (files.put key (.text content)).resolve path = .ok place := by
  unfold resolve at h ⊢
  split at h
  · cases h
  · next hpath =>
    rw [if_neg hpath]
    exact foldlM_of_imp (enter_put hbelow hfree) h

end

/-! ## Written texts -/

/-- What a written text changes: its path leads to a key where the text is. Every other key has what
it had, and every path that led somewhere leads there. -/
structure Written (files : Files) (path content : String) (after : Files) (key : List String) :
    Prop where
  resolve_eq : after.resolve path = .ok (.known key)
  node?_eq : ∀ other, after.node? other =
    if other = key then some (.text content) else files.node? other
  resolve_of_ok : ∀ {other place}, files.resolve other = .ok place →
    after.resolve other = .ok place

namespace Written

variable {content text other : String} {after : Files}

/-- The text is read under every path that led to its key. -/
theorem readText_eq (h : Written files path content after key)
    (hother : after.resolve other = .ok (.known key)) : after.readText other = .ok content :=
  readText_eq_ok_iff.2 ⟨key, hother, by rw [h.node?_eq, if_pos rfl]⟩

/-- Every other text is read as before. -/
theorem readText_of_ne (h : Written files path content after key)
    (hread : files.readText other = .ok text) (hne : files.resolve other ≠ .ok (.known key)) :
    after.readText other = .ok text := by
  obtain ⟨found, hresolve, hnode⟩ := readText_eq_ok_iff.1 hread
  refine readText_eq_ok_iff.2 ⟨found, h.resolve_of_ok hresolve, ?_⟩
  rw [h.node?_eq, if_neg, hnode]
  rintro rfl
  exact hne hresolve

end Written

theorem Names.written_put {front : List String} {name : String}
    (h : files.Names path front key name) (hfree : files.node? (key ++ [name]) ≠ some .directory)
    (content : String) :
    Written files path content (files.put (key ++ [name]) (.text content)) (key ++ [name]) := by
  have hnode := node?_put files h.notUpward (.text content)
  have hnames : (files.put (key ++ [name]) (.text content)).Names path front key name := by
    refine ⟨h.endsIn, foldlM_of_imp (enter_put h.notUpward hfree) h.reaches, ?_⟩
    rw [hnode, if_neg (by simp), h.directory]
  refine ⟨hnames.resolve_of_isSome ?_, hnode, resolve_put h.notUpward hfree⟩
  rw [hnode, if_pos rfl]
  rfl

theorem written_of_writeText {content : String} {after : Files}
    (h : files.writeText path content = .ok after) :
    ∃ front key name, files.Names path front key name ∧
      Written files path content after (key ++ [name]) := by
  obtain ⟨front, key, name, hnames, hfree, rfl⟩ := names_of_writeText h
  exact ⟨front, key, name, hnames, hnames.written_put hfree content⟩

/-- A path with another extension leads to the same key only if it is the same path. -/
theorem Names.withExtension_key_iff {front otherFront otherKey : List String}
    {name otherName extension : String} (h : files.Names path front key name)
    (hother : files.Names (Path.withExtension path extension) otherFront otherKey otherName)
    (hslash : '/' ∉ extension.toList) :
    otherKey ++ [otherName] = key ++ [name] ↔ Path.withExtension path extension = path := by
  have hsegments := h.endsIn.segments_withExtension hslash
  rw [hother.endsIn.segments_eq] at hsegments
  obtain ⟨rfl, hname⟩ := List.append_inj' hsegments rfl
  rw [h.key_eq hother, h.endsIn.withExtension_eq_self_iff_renamed hslash,
    List.append_cancel_left_eq, hname]
  simp

end Files

end TernaryConsole
