import MethodSearch.Console.Host
import MethodSearch.Text.Blank

/-!
# A machine with some files

A machine with the common directories, a working directory whose own path nothing names, and some files. A path is a
list of names with slashes between them; empty names and single dots say nothing, and two dots lead up.
-/

namespace MethodSearch.Console

/-! ## Paths -/

/-- What a path can call a file or a directory. -/
structure Name where
  text : String
  ne_empty : text ≠ ""
  ne_dot : text ≠ "."
  ne_dots : text ≠ ".."
  no_slash : '/' ∉ text.toList
  deriving DecidableEq

inductive Step where
  | up
  | down (n : Name)
  deriving DecidableEq

/-- The step that a piece between slashes stands for, if it says anything. -/
def Step.ofPiece? (s : String) : Option Step :=
  if s = ".." then some .up
  else if h : s ≠ "" ∧ s ≠ "." ∧ s ≠ ".." ∧ '/' ∉ s.toList then some (.down ⟨s, h.1, h.2.1, h.2.2.1, h.2.2.2⟩)
  else none

/-- Where something stands: below the root, or below the working directory. -/
structure Place where
  own : Bool
  names : List Name
  deriving DecidableEq

namespace Place

/-- The working directory lies in the directory `tmp`, and nothing lies above the root. -/
def up : Place → Place
  | ⟨true, []⟩ => ⟨false, [⟨"tmp", by decide, by decide, by decide, by decide⟩]⟩
  | ⟨own, names⟩ => ⟨own, names.dropLast⟩

def down (place : Place) (name : Name) : Place :=
  { place with names := place.names ++ [name] }

def move (place : Place) : Step → Place
  | .up => place.up
  | .down name => place.down name

/-- The place of a name in a directory, if the name is not too long for one. -/
def enter (place : Place) (name : Name) : Except FileFault Place :=
  if 255 < name.text.utf8ByteSize then .error .nameTooLong else .ok (place.down name)

/-- A path that leads here. -/
def path (place : Place) : String :=
  (if place.own then "" else "/") ++ "/".intercalate (place.names.map (·.text))

/-- The common directories and the working directory. -/
def isCommon (place : Place) : Bool :=
  if place.own then place.names.isEmpty
  else place.names.map (·.text) ∈
    [[], ["bin"], ["boot"], ["dev"], ["dev", "shm"], ["etc"], ["home"], ["lib"], ["media"], ["mnt"], ["opt"], ["proc"],
      ["root"], ["run"], ["sbin"], ["srv"], ["sys"], ["tmp"], ["usr"], ["usr", "bin"], ["usr", "lib"],
      ["usr", "local"], ["usr", "share"], ["var"], ["var", "lib"], ["var", "log"], ["var", "tmp"]]

def device? (place : Place) : Option Device :=
  match place.own, place.names.map (·.text) with
  | false, ["dev", "null"] => some .null
  | false, ["dev", "full"] => some .full
  | false, ["dev", "stdout"] => some .output
  | false, ["dev", "stderr"] => some .errors
  | _, _ => none

/-- Whether this is a directory for what stands at another place. -/
def isAbove (place other : Place) : Bool :=
  place.own == other.own && place.names.isPrefixOf other.names.dropLast

end Place

namespace Path

/-- The pieces between the slashes, also those that say nothing. -/
def pieces (s : String) : List String :=
  (Text.pieces (· == '/') s.toList).map String.ofList

def steps (pieces : List String) : List Step :=
  pieces.filterMap Step.ofPiece?

def start (s : String) : Place :=
  ⟨s.toList.head? != some '/', []⟩

/-- Where a path leads if there is a directory wherever one is needed. -/
def place (s : String) : Place :=
  (steps (pieces s)).foldl Place.move (start s)

/-- The path without the slashes at its end, if anything is left of it. -/
def bare (s : String) : String :=
  let rest := (s.toList.reverse.dropWhile (· == '/')).reverse
  if rest.isEmpty then s else String.ofList rest

/-- The fault that lies in the text of a path. -/
def fault? (s : String) : Option FileFault :=
  if s.toList.contains '\x00' then some .nulCharacter
  else if s.isEmpty then some .notFound
  else if 4096 ≤ s.utf8ByteSize then some .nameTooLong
  else none

end Path

/-! ## Files -/

structure Files where
  entries : List (String × Content)

inductive Node where
  | directory
  | file
  | device (d : Device)
  | absent
  deriving DecidableEq

namespace Files

def contents (fs : Files) (place : Place) : Option Content :=
  (fs.entries.find? fun e => Path.place e.1 = place).map (·.2)

def isDirectory (fs : Files) (place : Place) : Bool :=
  place.isCommon || fs.entries.any fun e => place.isAbove (Path.place e.1)

/-- The directories are those of the files at the start. -/
def node (fs : Files) (held : Place → Option Content) (place : Place) : Node :=
  if fs.isDirectory place then .directory
  else match place.device? with
    | some d => .device d
    | none => if (held place).isSome then .file else .absent

def walk (fs : Files) (held : Place → Option Content) (place : Place) : List Step → Except FileFault Place
  | [] => .ok place
  | .up :: rest => fs.walk held place.up rest
  | .down name :: rest => do
      let inner ← place.enter name
      match fs.node held inner with
      | .directory => fs.walk held inner rest
      | .file | .device _ => throw .notDirectory
      | .absent => throw .notFound

/-- The directory that a path leads to before its last name, and that name. A path that ends in no name leads to a
directory. -/
def split (fs : Files) (held : Place → Option Content) (path : String) : Except FileFault (Place × Name) := do
  let pieces := Path.pieces path
  match pieces.getLast?.bind Step.ofPiece? with
  | some (.down name) => return (← fs.walk held (Path.start path) (Path.steps pieces.dropLast), name)
  | _ =>
      let _ ← fs.walk held (Path.start path) (Path.steps pieces)
      throw .isDirectory

def opened (fs : Files) (held : Place → Option Content) (path : String) : Except FileFault (Target Place) := do
  if let some f := Path.fault? path then
    throw f
  let (directory, name) ← fs.split held path
  let place ← directory.enter name
  match fs.node held place with
  | .directory => throw .isDirectory
  | .device d => return .device d
  | .file => return .file place
  | .absent => throw .notFound

/-- A slash behind its name makes a directory of what a path leads to. -/
def created (fs : Files) (held : Place → Option Content) (path : String) : Except FileFault (Target Place) := do
  if let some f := Path.fault? path then
    throw f
  let bare := Path.bare path
  let (directory, name) ← fs.split held bare
  if bare != path then
    throw .isDirectory
  let place ← directory.enter name
  match fs.node held place with
  | .directory => throw .isDirectory
  | .device d => return .device d
  | .file | .absent => return .file place

@[reducible]
def machine (fs : Files) : Machine where
  Place := Place
  decidableEq := inferInstance
  start := fs.contents
  opened := fs.opened
  created := fs.created

def read (fs : Files) (path : String) : Except FileFault String :=
  fs.machine.read fs.contents path

/-- Replaces the file at a place, or adds it. -/
def put (fs : Files) (place : Place) (s : String) : Files :=
  if (fs.contents place).isSome then
    ⟨fs.entries.map fun e => if Path.place e.1 = place then (e.1, .text s) else e⟩
  else ⟨fs.entries ++ [(place.path, .text s)]⟩

/-- The text kept under a path as it is written. -/
def textAt? (fs : Files) (path : String) : Option String :=
  match fs.entries.find? (·.1 == path) with
  | some (_, .text s) => some s
  | _ => none

/-- The texts that are not in the files of before. -/
def writtenSince (after before : Files) : List (String × String) :=
  after.entries.filterMap fun (path, content) =>
    match content with
    | .bytes _ => none
    | .text s => if before.textAt? path = some s then none else some (path, s)

end Files

/-- The files with all that was written. -/
def World.files {fs : Files} (w : World fs.machine) : Files :=
  w.writes.foldr (fun (target, s) fs => match target with
    | .file place => fs.put place s
    | .device _ => fs) fs

end MethodSearch.Console
