import MethodSearch.Text.Style

/-!
# Log records

A record has a level, the part of the program it comes from and a message, and is shown with or without styles. A
threshold lets records through down to a level. It is given by its name, or by how often more was asked for.
-/

namespace MethodSearch.Log

inductive Level where
  | error
  | warn
  | info
  | debug
  | trace
  deriving Repr, DecidableEq

namespace Level

/-- The gravest level has the lowest rank. -/
def rank : Level → Nat
  | .error => 1
  | .warn => 2
  | .info => 3
  | .debug => 4
  | .trace => 5

def name : Level → String
  | .error => "error"
  | .warn => "warn"
  | .info => "info"
  | .debug => "debug"
  | .trace => "trace"

end Level

/-- The part of the program that a record comes from. -/
inductive Source where
  | catalog
  | command
  | report
  | resolver
  deriving Repr, DecidableEq

/-- The path that directives select a source by. -/
def Source.path : Source → String
  | .catalog => "method_locator::catalog"
  | .command => "method_locator::ui::cli::handler"
  | .report => "method_locator::output::json"
  | .resolver => "method_locator::resolver::resolver"

structure Record where
  level : Level
  source : Source
  message : String
  deriving Repr, DecidableEq

def Record.render (r : Record) : String :=
  r.level.name ++ " " ++ r.message

/-- The tag of a level, five characters wide. -/
def Level.tag : Level → String × Text.Style
  | .error => ("ERROR", .strong .red)
  | .warn => ("WARN ", .strong .yellow)
  | .info => ("INFO ", .strong .green)
  | .debug => ("DEBUG", .strong .blue)
  | .trace => ("TRACE", .strong .magenta)

/-- The line of a record, with the path of its source in brackets. -/
def Record.line (coloured : Bool) (r : Record) : String :=
  let (tag, style) := r.level.tag
  style.paint coloured tag ++ " " ++ Text.Style.faint.paint coloured ("[" ++ r.source.path ++ "]") ++ " " ++
    r.message

/-! ## Thresholds -/

/-- The least grave level that passes, or none. -/
inductive Threshold where
  | off
  | upTo (level : Level)
  deriving Repr, DecidableEq

namespace Threshold

def passes (t : Threshold) (level : Level) : Bool :=
  match t with
  | .off => false
  | .upTo most => level.rank ≤ most.rank

def name : Threshold → String
  | .off => "off"
  | .upTo level => level.name

/-- Reads one of the six names in any ASCII case. -/
def ofName? (name : String) : Option Threshold :=
  match name.toLower with
  | "off" => some .off
  | "error" => some (.upTo .error)
  | "warn" => some (.upTo .warn)
  | "info" => some (.upTo .info)
  | "debug" => some (.upTo .debug)
  | "trace" => some (.upTo .trace)
  | _ => none

/-- The threshold of a setting. A warning may be spelt out, and anything unknown means `info`. -/
def ofSetting (name : String) : Threshold :=
  if name.toLower = "warning" then .upTo .warn else (ofName? name).getD (.upTo .info)

/-- The threshold of a number of requests for more. -/
def ofVerbosity : Nat → Threshold
  | 0 => .upTo .warn
  | 1 => .upTo .info
  | 2 => .upTo .debug
  | _ => .upTo .trace

end Threshold

end MethodSearch.Log
