/-!
# Machines

What a program sees of the files of a machine. A path leads to a file at some place or to a device, and where it leads
is up to the machine. A file holds a text, or bytes that are none.
-/

namespace MethodSearch.Console

inductive FileFault where
  | notFound
  | notDirectory
  | isDirectory
  | nameTooLong
  | nulCharacter
  | noSpace
  /-- The bytes of the file are not UTF-8. -/
  | notText
  /-- A fault of the machine, in its own words. -/
  | other (message : String)
  deriving Repr, DecidableEq

def FileFault.message : FileFault → String
  | .notFound => "No such file or directory (os error 2)"
  | .notDirectory => "Not a directory (os error 20)"
  | .isDirectory => "Is a directory (os error 21)"
  | .nameTooLong => "File name too long (os error 36)"
  | .nulCharacter => "file name contained an unexpected NUL byte"
  | .noSpace => "No space left on device (os error 28)"
  | .notText => "stream did not contain valid UTF-8"
  | .other message => message

inductive Content where
  | text (s : String)
  | bytes (b : ByteArray)

/-- Bytes that are UTF-8 are a text. -/
def Content.ofBytes (b : ByteArray) : Content :=
  match String.fromUTF8? b with
  | some s => .text s
  | none => .bytes b

/-- What takes texts and is no file. -/
inductive Device where
  /-- Forgets it. -/
  | null
  /-- Has no room for it. -/
  | full
  /-- Shows it with what is printed. -/
  | output
  /-- Shows it with the log. -/
  | errors
  deriving Repr, DecidableEq

/-- What a path leads to. -/
inductive Target (Place : Type) where
  | file (place : Place)
  | device (d : Device)
  deriving Repr, DecidableEq

/-- The places where files can be, what they hold at the start, and where a path leads when a file is opened for reading
and when one is created or emptied for writing. Both may fail, and both may depend on what the places hold by then. -/
structure Machine where
  Place : Type
  decidableEq : DecidableEq Place
  start : Place → Option Content
  opened : (Place → Option Content) → String → Except FileFault (Target Place)
  created : (Place → Option Content) → String → Except FileFault (Target Place)

namespace Machine

variable (M : Machine)

instance : DecidableEq M.Place :=
  M.decidableEq

/-- What the places hold, each of them nothing or a file. -/
abbrev Contents : Type :=
  M.Place → Option Content

def put (held : M.Contents) (place : M.Place) (s : String) : M.Contents :=
  fun other => if other = place then some (.text s) else held other

/-- Texts that were written, each with what it went to, the last one first. -/
abbrev Writes : Type :=
  List (Target M.Place × String)

/-- What the places hold after some writes. -/
def after (writes : M.Writes) : M.Contents :=
  writes.foldr (fun (target, s) held => match target with
    | .file place => M.put held place s
    | .device _ => held) M.start

/-- A device has nothing to read. -/
def textAt (held : M.Contents) : Target M.Place → Except FileFault String
  | .device _ => .ok ""
  | .file place => match held place with
    | some (.text s) => .ok s
    | some (.bytes _) => .error .notText
    | none => .error .notFound

def read (held : M.Contents) (path : String) : Except FileFault String :=
  M.opened held path >>= M.textAt held

/-- What a text goes to that is written to a path. A device may have no room for it. -/
def receiver (held : M.Contents) (path : String) : Except FileFault (Target M.Place) := do
  match ← M.created held path with
  | .device .full => throw .noSpace
  | target => return target

end Machine

end MethodSearch.Console
