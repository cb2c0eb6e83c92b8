import MethodSearch.Console.Action
import MethodSearch.Console.Arguments
import MethodSearch.Report.Print
import MethodSearch.Report.Summary
import MethodSearch.Resolution.Resolve
import MethodSearch.Text.Count

/-!
# The command `resolve`

Resolves the signatures of one catalog against the classes of another, prints a summary and writes a report.
-/

namespace MethodSearch.Console

open Bytecode Text

/-- Options replace settings. A switch turns its setting on, and a compact report turns indentation off. -/
def ResolveOptions.applyTo (o : ResolveOptions) (c : Config) : Config :=
  { c with
    classesFile := o.classes.or c.classesFile
    signaturesFile := o.signatures.or c.signaturesFile
    outputFile := o.output.or c.outputFile
    maxThreads := (o.threads.map .fixed).getD c.maxThreads
    parallel := c.parallel || o.parallel
    strict := c.strict || o.strict
    prettyOutput := c.prettyOutput && !o.compact }

/-- No fixed number of workers is the number zero. -/
def workers : Threads → Nat
  | .automatic => 0
  | .fixed n => n

def strategy (c : Config) : Strategy :=
  if c.parallel then .parallel (workers c.maxThreads) else .sequential

variable {m : Type → Type} [Monad m] [Host m]

def writeReport (manner : Manner) (c : Config) (r : Report) (path : String) : Action m Unit := do
  let written ← ExceptT.lift (Host.writeText path (r.render c.prettyOutput))
  Action.orFail ("Failed to write report to " ++ path) .ofFile written
  Action.log ⟨.debug, .report, "Wrote report to " ++ path⟩
  unless manner.quiet do
    Action.print (manner.mark .green "[+]" ++ " Report saved to: " ++ path ++ "\n")

/-- Names the signatures that were not found, where all of them were to be. -/
def checkComplete (c : Config) (r : Report) : Action m Unit :=
  if c.strict && !r.isComplete then
    Action.fail (counted r.unresolved.length "signature" "signatures" ++ " unresolved: " ++
      ", ".intercalate r.unresolved)
  else pure ()

def runSearch (manner : Manner) (c : Config) (classesPath signaturesPath : String) : Action m Unit := do
  let classes ← loadClasses classesPath
  let signatures ← loadSignatures signaturesPath
  let search := resolve (strategy c) classes signatures
  search.events.forM fun e => Action.log e.record
  let report := Report.build search.map signatures
  unless manner.quiet do
    Action.print (report.summary manner.look)
  match c.outputFile with
  | some path => writeReport manner c report path
  | none => pure ()
  checkComplete c report

def runResolve (manner : Manner) (config : Config) (options : ResolveOptions) : Action m Unit := do
  Action.log ⟨.info, .command, "Executing resolve command"⟩
  let c := options.applyTo config
  match c.validate with
  | .error e => Action.fail e.message
  | .ok () => match c.classesFile, c.signaturesFile with
    | some classesPath, some signaturesPath => runSearch manner c classesPath signaturesPath
    | _, _ => Action.fail "classes and signatures catalogs are required"

end MethodSearch.Console
