import Typings.Files.Error
import Typings.Files.Path

/-! # File trees -/

namespace Typings

/-- A place in a file tree: the names that lead there from the root. -/
abbrev Location := List Text

/-- What may be found at a place. -/
inductive Entry where
  /-- A regular file, with its text unless its bytes are no text. -/
  | file (text : Option Text)
  | link (target : Path)
  | directory
deriving DecidableEq, Repr

/-- A file tree lists what is where. Its root directory is not listed. -/
structure FileTree where
  entries : List (Location × Entry)
  /-- The directory that relative paths start from. -/
  working : Location
deriving DecidableEq, Repr

namespace FileTree

def lookup (t : FileTree) (l : Location) : Option Entry :=
  if l = [] then some .directory else t.entries.lookup l

/-- Puts an entry at a place, instead of the one that is there. -/
def set (t : FileTree) (l : Location) (e : Entry) : FileTree :=
  { t with entries := (l, e) :: t.entries.filter (·.1 != l) }

/-- The names in a directory, with their entries, in the order of the tree. -/
def children (t : FileTree) (l : Location) : List (Text × Entry) :=
  t.entries.filterMap fun (place, e) =>
    match place.getLast? with
    | some name => if place.dropLast = l then some (name, e) else none
    | none => none

/-- The longest name, in bytes. -/
def maxName : Nat := 255

/-- The longest path, in bytes. -/
def maxPath : Nat := 4095

/-- The number of links that one path may lead through. -/
def maxLinks : Nat := 40

/-- Where a path starts. -/
def origin (l : Location) (p : Path) : Location := if Path.isAbsolute p then [] else l

/-- The names to walk along a path. A slash at the end asks for a directory, as a name `.` does. -/
def steps (p : Path) : List Text :=
  Path.names p ++ if Path.endsInSlash p then [['.']] else []

/-- Where a walk along names comes to: its end, or a link with names behind it. -/
inductive Stop where
  | arrived (l : Location)
  | link (l : Location) (target : Path) (rest : List Text)
deriving DecidableEq, Repr

/-- Walks from a place along names up to the first link. -/
def follow (t : FileTree) (l : Location) : List Text → Except FileError Stop
  | [] => .ok (.arrived l)
  | name :: rest =>
    if t.lookup l ≠ some .directory then .error .notDirectory
    else if name = ['.'] then t.follow l rest
    else if name = ['.', '.'] then t.follow l.dropLast rest
    else if maxName < Text.byteLength name then .error .nameTooLong
    else
      match t.lookup (l ++ [name]) with
      | none => .error .notFound
      | some (.link target) => .ok (.link l target rest)
      | some _ => t.follow (l ++ [name]) rest

/-- Walks from a place along names and through at most `links` links. -/
def walk (t : FileTree) (links : Nat) (l : Location) (names : List Text) :
    Except FileError Location :=
  match t.follow l names, links with
  | .error e, _ => .error e
  | .ok (.arrived l), _ => .ok l
  | .ok (.link ..), 0 => .error .tooManyLinks
  | .ok (.link l target rest), n + 1 =>
    if target.isEmpty then .error .notFound
    else t.walk n (origin l target) (steps target ++ rest)

/-- Walks up to the first link on the way to a file that is to be written, which need not be there
yet. A slash behind the last name is refused. -/
def followToWrite (t : FileTree) (l : Location) (slash : Bool) :
    List Text → Except FileError Stop
  | [] => .error .isDirectory
  | name :: rest =>
    if t.lookup l ≠ some .directory then .error .notDirectory
    else if name = ['.'] then t.followToWrite l slash rest
    else if name = ['.', '.'] then t.followToWrite l.dropLast slash rest
    else if rest.isEmpty && slash then .error .isDirectory
    else if maxName < Text.byteLength name then .error .nameTooLong
    else
      match t.lookup (l ++ [name]) with
      | none => if rest.isEmpty then .ok (.arrived (l ++ [name])) else .error .notFound
      | some (.link target) => .ok (.link l target rest)
      | some .directory => t.followToWrite (l ++ [name]) slash rest
      | some (.file _) =>
        if rest.isEmpty then .ok (.arrived (l ++ [name])) else .error .notDirectory

/-- Walks to the place of a file that is to be written, through at most `links` links. -/
def walkToWrite (t : FileTree) (links : Nat) (l : Location) (slash : Bool) (names : List Text) :
    Except FileError Location :=
  match t.followToWrite l slash names, links with
  | .error e, _ => .error e
  | .ok (.arrived l), _ => .ok l
  | .ok (.link ..), 0 => .error .tooManyLinks
  | .ok (.link l target rest), n + 1 =>
    if target.isEmpty then .error .notFound
    else
      t.walkToWrite n (origin l target) (if rest.isEmpty then Path.endsInSlash target else slash)
        (Path.names target ++ rest)

/-- Why a path is refused before it is walked. -/
def checkPath (p : Path) : Except FileError Unit :=
  if p.contains '\x00' then .error .invalidName
  else if p.isEmpty then .error .notFound
  else if maxPath < Text.byteLength p then .error .nameTooLong
  else .ok ()

/-- The place that a path leads to, through links. -/
def resolve (t : FileTree) (p : Path) : Except FileError Location :=
  (checkPath p).bind fun _ => t.walk maxLinks (origin t.working p) (steps p)

/-- Whether a path leads to a directory. -/
def isDirectory (t : FileTree) (p : Path) : Bool :=
  match t.resolve p with
  | .ok l => t.lookup l == some .directory
  | .error _ => false

/-- The text of a file. -/
def readText (t : FileTree) (p : Path) : Except FileError Text :=
  (t.resolve p).bind fun l =>
    match t.lookup l with
    | some (.file (some s)) => .ok s
    | some (.file none) => .error .notText
    | _ => .error .isDirectory

/-- The names in a directory, each with whether it is a regular file. A link is none. -/
def list (t : FileTree) (p : Path) : Except FileError (List (Text × Bool)) :=
  (t.resolve p).bind fun l =>
    match t.lookup l with
    | some .directory =>
      .ok ((t.children l).map fun (name, e) => (name, match e with | .file _ => true | _ => false))
    | _ => .error .notDirectory

/-- Makes one directory in a directory that is there. -/
def makeDirectory (t : FileTree) (p : Path) : Except FileError FileTree :=
  (checkPath p).bind fun _ =>
    match (Path.names p).getLast? with
    | none => .error .alreadyExists
    | some name =>
      (t.walk maxLinks (origin t.working p) (Path.names p).dropLast).bind fun l =>
        if t.lookup l ≠ some .directory then .error .notDirectory
        else if name = ['.'] ∨ name = ['.', '.'] then .error .alreadyExists
        else if maxName < Text.byteLength name then .error .nameTooLong
        else
          match t.lookup (l ++ [name]) with
          | some _ => .error .alreadyExists
          | none => .ok (t.set (l ++ [name]) .directory)

/-- Makes one directory unless it is there. -/
def ensureDirectory (t : FileTree) (p : Path) : Except FileError Unit × FileTree :=
  match t.makeDirectory p with
  | .ok t' => (.ok (), t')
  | .error e => (if t.isDirectory p then .ok () else .error e, t)

/-- Makes a directory and those above it that are missing. Directories made before an error
stay. -/
def makeDirectories (t : FileTree) (p : Path) : Except FileError Unit × FileTree :=
  if p.isEmpty then (.ok (), t)
  else
    match t.makeDirectory p, _h : Path.parent? p with
    | .error .notFound, some q =>
      match t.makeDirectories q with
      | (.error e, t') => (.error e, t')
      | (.ok _, t') => t'.ensureDirectory p
    | _, _ => t.ensureDirectory p
termination_by p.length
decreasing_by exact Path.length_parent?_lt _h

/-- Writes a text to a file, which is made unless it is there. -/
def writeText (t : FileTree) (p : Path) (s : Text) : Except FileError FileTree :=
  (checkPath p).bind fun _ =>
    (t.walkToWrite maxLinks (origin t.working p) (Path.endsInSlash p) (Path.names p)).bind fun l =>
      .ok (t.set l (.file (some s)))

end FileTree

end Typings
