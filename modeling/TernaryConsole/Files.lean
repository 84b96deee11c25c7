import TernaryConsole.Path

/-!
# Files — a directory tree and what reading it answers

A tree holds what is known around one working directory. Paths are followed segment by segment,
as far as the segments name directories. The directories above the working directory exist; what
else they hold is known only if it was put there.
-/

namespace TernaryConsole

/-- Why a file cannot be read or written. -/
inductive FileError
  | notFound
  | notDirectory
  | isDirectory
  | invalidText
  /-- Any other cause, in the words of the system. -/
  | other (message : String)
  deriving DecidableEq, Repr

def FileError.message : FileError → String
  | .notFound => "No such file or directory (os error 2)"
  | .notDirectory => "Not a directory (os error 20)"
  | .isDirectory => "Is a directory (os error 21)"
  | .invalidText => "stream did not contain valid UTF-8"
  | .other message => message

/-- What a name in a directory stands for. -/
inductive Node
  | directory
  | text (content : String)
  /-- A file whose bytes are no text. -/
  | binary
  deriving DecidableEq, Repr

/-- A directory tree. A key lists the names on the way from the working directory, after one
double dot for each directory above it that the way begins with. -/
structure Files where
  entries : List (List String × Node)
  deriving DecidableEq, Repr

namespace Files

def empty : Files := ⟨[]⟩

/-- Whether a key goes nowhere but up: it leads to the working directory or to one above it. -/
def isUpward (key : List String) : Bool :=
  key.all (· = "..")

/-- The key of the directory that holds what is at a key. -/
def parent (key : List String) : List String :=
  if isUpward key then key ++ [".."] else key.dropLast

def node? (files : Files) (key : List String) : Option Node :=
  if isUpward key then some .directory else files.entries.lookup key

/-- Puts a node at a key, in the place of the one that is there. -/
def put (files : Files) (key : List String) (node : Node) : Files :=
  if (files.entries.lookup key).isSome then
    ⟨files.entries.map fun entry => if entry.1 = key then (key, node) else entry⟩
  else
    ⟨files.entries ++ [(key, node)]⟩

/-! ## Following paths -/

/-- Where a path leads. -/
inductive Place
  | known (key : List String)
  /-- The root directory, of which nothing else is known. -/
  | root
  deriving DecidableEq, Repr

/-- Follows one segment. -/
def enter (files : Files) (place : Place) (segment : String) : Except FileError Place :=
  match place with
  | .root =>
    if Path.isIdle segment || segment = ".." then .ok .root else .error .notFound
  | .known key =>
    match files.node? key with
    | some .directory =>
      if Path.isIdle segment then .ok place
      else if segment = ".." then .ok (.known (parent key))
      else if (files.node? (key ++ [segment])).isSome then .ok (.known (key ++ [segment]))
      else .error .notFound
    | some _ => .error .notDirectory
    | none => .error .notFound

/-- Where a path starts. -/
def start (path : String) : Place :=
  if path.toList.head? = some '/' then .root else .known []

def resolve (files : Files) (path : String) : Except FileError Place :=
  if path = "" then .error .notFound
  else (Path.segments path).foldlM files.enter (start path)

/-! ## Reading and writing -/

def readText (files : Files) (path : String) : Except FileError String := do
  match ← files.resolve path with
  | .root => .error .isDirectory
  | .known key =>
    match files.node? key with
    | some (.text content) => .ok content
    | some .binary => .error .invalidText
    | some .directory => .error .isDirectory
    | none => .error .notFound

/-- Writes a file at a name in a place. -/
def writeAt (files : Files) (place : Place) (name content : String) : Except FileError Files :=
  match place with
  | .root => .error .notFound
  | .known key =>
    match files.node? key with
    | some .directory =>
      if files.node? (key ++ [name]) = some .directory then .error .isDirectory
      else .ok (files.put (key ++ [name]) (.text content))
    | some _ => .error .notDirectory
    | none => .error .notFound

/-- Writes a whole file, new or in the place of another. The directories on the way have to be
there. A path that ends in a slash or in dots asks for a directory. -/
def writeText (files : Files) (path content : String) : Except FileError Files :=
  let segments := Path.segments path
  match (segments.filter (· ≠ "")).getLast? with
  | none => if path = "" then .error .notFound else .error .isDirectory
  | some name => do
    let parents := (Text.dropTrailing (· = "") segments).dropLast
    let place ← parents.foldlM files.enter (start path)
    if segments.getLast? = some "" || name = "." || name = ".." then
      let _ ← files.enter place "."
      .error .isDirectory
    else
      files.writeAt place name content

/-! ## Trees from listings -/

/-- Follows one segment from a key and makes a directory where it names nothing. -/
def descend (state : Files × List String) (segment : String) : Files × List String :=
  let (files, key) := state
  if Path.isIdle segment then (files, key)
  else if segment = ".." then (files, parent key)
  else
    let below := key ++ [segment]
    (if (files.node? below).isSome then files else files.put below .directory, below)

/-- Puts a node at a path. Directories are made on the way, those included that a double dot leaves
again. -/
def putAt (files : Files) (path : String) (node : Node) : Files :=
  let segments := (Path.segments path).filter fun segment => !Path.isIdle segment
  let (files, key) := segments.dropLast.foldl descend (files, [])
  match segments.getLast? with
  | some name => if name = ".." then files else files.put (key ++ [name]) node
  | none => files

/-- The tree of a listing of paths and nodes. -/
def ofListing (listing : List (String × Node)) : Files :=
  listing.foldl (fun files entry => files.putAt entry.1 entry.2) empty

/-- The text files below the working directory that differ from those of an earlier tree, by
path. -/
def changedSince (files earlier : Files) : List (String × String) :=
  files.entries.filterMap fun entry =>
    match entry.2 with
    | .text content =>
      if entry.1.head? = some ".." || earlier.node? entry.1 = some entry.2 then none
      else some (String.intercalate "/" entry.1, content)
    | _ => none

/-! ## Laws -/

/-- Replacing the nodes at a key that has one changes what is found there and nowhere else. -/
theorem lookup_replace (key other : List String) (node : Node)
    (entries : List (List String × Node)) :
    (entries.map fun entry => if entry.1 = key then (key, node) else entry).lookup other =
      (entries.lookup other).map fun old => if other = key then node else old := by
  induction entries with
  | nil => rfl
  | cons entry rest ih =>
    obtain ⟨name, old⟩ := entry
    simp only [List.map_cons]
    by_cases same : name = key <;> by_cases here : other = name
    · simp [← same, here]
    · rw [if_pos same, List.lookup_cons, List.lookup_cons, ← same, beq_eq_false_iff_ne.2 here]
      rw [← same] at ih
      exact ih
    · simp [same, here]
    · rw [if_neg same, List.lookup_cons, List.lookup_cons, beq_eq_false_iff_ne.2 here]
      exact ih

/-- A put is seen at its key and nowhere else. -/
theorem node?_put (files : Files) {key : List String} (below : isUpward key = false) (node : Node)
    (other : List String) :
    (files.put key node).node? other = if other = key then some node else files.node? other := by
  by_cases upward : isUpward other
  · have apart : other ≠ key := fun same => by simp [← same, upward] at below
    simp [node?, upward, apart]
  · simp only [put, node?, if_neg upward]
    split
    · next found =>
      rw [lookup_replace]
      split
      · next same =>
        obtain ⟨old, eq⟩ := Option.isSome_iff_exists.1 found
        simp [same, eq]
      · simp
    · next missing =>
      rw [List.lookup_append]
      split
      · next same => simp [same, Option.not_isSome_iff_eq_none.1 missing]
      · next apart =>
        have unequal : (other == key) = false := beq_eq_false_iff_ne.2 apart
        simp [List.lookup_cons, unequal]

end Files

end TernaryConsole
