import MethodSearch.Console.Machine
import MethodSearch.Log.Record

/-!
# Hosts

What a command needs of its surroundings: files, a place to print and a log. A world keeps what was done on a machine,
and a failure is a chain of causes, the outermost first.
-/

namespace MethodSearch.Console

class Host (m : Type → Type) where
  readText : String → m (Except FileFault String)
  writeText : String → String → m (Except FileFault Unit)
  print : String → m Unit
  /-- Sets the threshold that holds unless the surroundings say otherwise. -/
  startLog : Log.Threshold → m Unit
  log : Log.Record → m Unit

structure Failure where
  causes : List String
  deriving Repr, DecidableEq

namespace Failure

def message (f : Failure) : String :=
  ": ".intercalate f.causes

def within (context : String) (f : Failure) : Failure :=
  ⟨context :: f.causes⟩

end Failure

/-- Something that was done. -/
inductive Deed (M : Machine) where
  | printed (s : String)
  | logged (r : Log.Record)
  | written (target : Target M.Place) (s : String)

/-- What goes to the error output: a record, or a text that was written there. -/
inductive Notice where
  | record (r : Log.Record)
  | text (s : String)

namespace Deed

variable {M : Machine}

def write? : Deed M → Option (Target M.Place × String)
  | .written target s => some (target, s)
  | _ => none

def output? : Deed M → Option String
  | .printed s | .written (.device .output) s => some s
  | _ => none

def notice? : Deed M → Option Notice
  | .logged r => some (.record r)
  | .written (.device .errors) s => some (.text s)
  | _ => none

end Deed

/-- What was done on a machine. -/
structure World (M : Machine) where
  /-- The last one first. -/
  deeds : List (Deed M) := []
  threshold : Option Log.Threshold := none

namespace World

variable {M : Machine}

def add (w : World M) (d : Deed M) : World M :=
  { w with deeds := d :: w.deeds }

def writes (w : World M) : M.Writes :=
  w.deeds.filterMap Deed.write?

/-- What the places hold by now. -/
def contents (w : World M) : M.Contents :=
  M.after w.writes

def printed (w : World M) : List String :=
  (w.deeds.filterMap Deed.output?).reverse

def notices (w : World M) : List Notice :=
  (w.deeds.filterMap Deed.notice?).reverse

def records (w : World M) : List Log.Record :=
  w.notices.filterMap fun
    | .record r => some r
    | .text _ => none

def readText (path : String) : StateM (World M) (Except FileFault String) := do
  return M.read (← get).contents path

/-- A write that fails leaves the world alone. -/
def writeText (path text : String) : StateM (World M) (Except FileFault Unit) :=
  modifyGet fun w => match M.receiver w.contents path with
    | .ok target => (.ok (), w.add (.written target text))
    | .error f => (.error f, w)

instance : Host (StateM (World M)) where
  readText := readText
  writeText := writeText
  print s := modify (·.add (.printed s))
  startLog t := modify fun w => { w with threshold := some t }
  log r := modify (·.add (.logged r))

end World

end MethodSearch.Console
