import MethodSearch.Json.Layout
import MethodSearch.Json.Print
import MethodSearch.Json.Reader

/-!
# Settings

The settings of a search, as a file gives them. A setting that the file leaves out keeps its default.
-/

namespace MethodSearch

open Json

/-- How many workers a search has: as many as the machine suggests, or a fixed number. -/
inductive Threads where
  | automatic
  | fixed (n : Nat)
  deriving Repr, DecidableEq

/-- How many workers there are on a machine that suggests some number. -/
def Threads.count (suggested : Nat) : Threads → Nat
  | .automatic => suggested
  | .fixed n => n

structure Config where
  classesFile : Option String := none
  signaturesFile : Option String := none
  outputFile : Option String := none
  prettyOutput : Bool := true
  parallel : Bool := false
  maxThreads : Threads := .automatic
  strict : Bool := false
  logLevel : String := "warn"
  deriving Repr, DecidableEq

namespace Config

inductive Error where
  | noClassesFile
  | noSignaturesFile
  | noThreads
  deriving Repr, DecidableEq

def Error.message : Error → String
  | .noClassesFile => "Invalid config: classes_file must be set"
  | .noSignaturesFile => "Invalid config: signatures_file must be set"
  | .noThreads => "Invalid config: max_threads must be greater than 0"

/-- Both catalogs are named, and a parallel search has a worker. -/
def validate (c : Config) : Except Error Unit :=
  if c.classesFile.isNone then .error .noClassesFile
  else if c.signaturesFile.isNone then .error .noSignaturesFile
  else if c.parallel && c.maxThreads == .fixed 0 then .error .noThreads
  else .ok ()

def fields : List (LayoutField Config) := [
  ⟨"classes_file", fun c d => do return { c with classesFile := ← d.optional (·.text) }⟩,
  ⟨"signatures_file", fun c d => do return { c with signaturesFile := ← d.optional (·.text) }⟩,
  ⟨"output_file", fun c d => do return { c with outputFile := ← d.optional (·.text) }⟩,
  ⟨"pretty_output", fun c d => do return { c with prettyOutput := ← d.boolean }⟩,
  ⟨"parallel", fun c d => do return { c with parallel := ← d.boolean }⟩,
  ⟨"max_threads", fun c d => do return { c with maxThreads := .fixed (← d.natural UInt64.size) }⟩,
  ⟨"strict", fun c d => do return { c with strict := ← d.boolean }⟩,
  ⟨"log_level", fun c d => do return { c with logLevel := ← d.text }⟩]

/-- The draft is a configuration from the start. -/
def layout : Layout Config Config :=
  ⟨fields, {}, some, some⟩

def parse (text : String) : Except Fault Config :=
  Json.decode layout.read text

inductive Setting where
  | classesFile
  | signaturesFile
  | outputFile
  | prettyOutput
  | parallel
  | maxThreads
  | strict
  | logLevel
  deriving Repr, DecidableEq

namespace Setting

/-- In the order of declaration. -/
def all : List Setting :=
  [.classesFile, .signaturesFile, .outputFile, .prettyOutput, .parallel, .maxThreads, .strict, .logLevel]

/-- The key of a setting in a file. -/
def name : Setting → String
  | .classesFile => "classes_file"
  | .signaturesFile => "signatures_file"
  | .outputFile => "output_file"
  | .prettyOutput => "pretty_output"
  | .parallel => "parallel"
  | .maxThreads => "max_threads"
  | .strict => "strict"
  | .logLevel => "log_level"

/-- What a configuration says of a setting, on a machine that suggests some number of workers. -/
def value (suggested : Nat) (c : Config) : Setting → Value
  | .classesFile => .ofOption .string c.classesFile
  | .signaturesFile => .ofOption .string c.signaturesFile
  | .outputFile => .ofOption .string c.outputFile
  | .prettyOutput => .bool c.prettyOutput
  | .parallel => .bool c.parallel
  | .maxThreads => .ofNat (c.maxThreads.count suggested)
  | .strict => .bool c.strict
  | .logLevel => .string c.logLevel

end Setting

def member (suggested : Nat) (c : Config) (s : Setting) : String × Value :=
  (s.name, s.value suggested c)

def toJson (suggested : Nat) (c : Config) : Value :=
  .object (Setting.all.map (c.member suggested))

end Config

end MethodSearch
