import MethodSearch.Expression.Meaning
import MethodSearch.Log.Record
import MethodSearch.Text.Blank

/-!
# Directives

Directives set a threshold for all sources and others for single ones: of those that a source falls under, the
one with the longest path counts. They are written as items between commas, and behind a slash there may be an
expression that must be found in a message.
-/

namespace MethodSearch.Log

/-- A threshold for the sources whose path starts with a text, or for all of them. -/
structure Directive where
  path : Option String
  threshold : Threshold
  deriving Repr, DecidableEq

namespace Directive

def covers (d : Directive) (source : Source) : Bool :=
  match d.path with
  | some path => path.toList.isPrefixOf source.path.toList
  | none => true

/-- The longer the path, the more a directive has to say. -/
def weight (d : Directive) : Nat :=
  match d.path with
  | some path => path.utf8ByteSize
  | none => 0

/-- Enters a directive in the place of the one with its path, or behind the others. -/
def enter (d : Directive) : List Directive → List Directive
  | [] => [d]
  | e :: rest => if e.path = d.path then d :: rest else e :: enter d rest

/-- Of two directives the weightier, and of equal ones the later. -/
def weightier (best : Option Directive) (d : Directive) : Option Directive :=
  match best with
  | none => some d
  | some b => if b.weight ≤ d.weight then some d else some b

/-- Reads a threshold for everything, a path with its threshold, or a path that lets everything through. An item
that is none of these gives the text at fault. -/
def ofItem (item : String) : Except String Directive :=
  match (Text.pieces (· == '=') item.toList).map String.ofList with
  | [whole] => match Threshold.ofName? whole with
    | some t => .ok ⟨none, t⟩
    | none => .ok ⟨some whole, .upTo .trace⟩
  | [path, setting] =>
      let name := Text.trim setting
      if name.isEmpty then .ok ⟨some path, .upTo .trace⟩
      else match Threshold.ofName? name with
        | some t => .ok ⟨some path, t⟩
        | none => .error name
  | _ => .error item

end Directive

structure Filter where
  directives : List Directive
  /-- What must be found in a message. -/
  expression : Option Expression := none
  /-- Warnings about what was not understood. -/
  warnings : List String := []
  deriving Repr, DecidableEq

namespace Filter

/-- One threshold for everything. -/
def ofThreshold (t : Threshold) : Filter :=
  { directives := [⟨none, t⟩] }

def warning (problem : String) : String :=
  "warning: invalid " ++ problem ++ ", ignoring it"

/-- Enters an item, or warns of it. -/
def addItem (f : Filter) (item : String) : Filter :=
  match Directive.ofItem item with
  | .ok d => { f with directives := d.enter f.directives }
  | .error text => { f with warnings := f.warnings ++ [warning ("logging spec '" ++ text ++ "'")] }

/-- Sets the expression that a text stands for, or warns of it. -/
def setExpression (f : Filter) (text : String) : Filter :=
  match Expression.ofText text with
  | .ok e => { f with expression := some e }
  | .error r => { f with warnings := f.warnings ++ [warning ("regex filter - " ++ r.message text)] }

/-- Enters what a specification says. One with two slashes says nothing. -/
def add (f : Filter) (spec : String) : Filter :=
  match (Text.pieces (· == '/') spec.toList).map String.ofList with
  | [items] => (Text.commaItems items).foldl addItem f
  | [items, text] => ((Text.commaItems items).foldl addItem f).setExpression text
  | _ => { f with warnings := f.warnings ++ [warning ("logging spec '" ++ spec ++ "' (too many '/'s)")] }

def passes (f : Filter) (r : Record) : Bool :=
  match (f.directives.filter (·.covers r.source)).foldl Directive.weightier none with
  | some d => d.threshold.passes r.level && f.expression.all (·.isFoundIn r.message.toList)
  | none => false

end Filter

end MethodSearch.Log
