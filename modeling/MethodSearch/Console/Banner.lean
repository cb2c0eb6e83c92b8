import MethodSearch.Report.Print
import MethodSearch.Text.Count
import MethodSearch.Text.Style

/-!
# The banner

A box around a title, with a subtitle below it and a version in a compartment of its own.
-/

namespace MethodSearch.Console

open Text

structure Banner where
  title : String
  subtitle : Option String := none
  version : Option String := none
  deriving Repr, DecidableEq

namespace Banner

def program : Banner where
  title := "Method Locator"
  subtitle := some "Structural signature matching for class dumps"
  version := some programVersion

/-- The characters between the walls and their margins. -/
def innerWidth : Nat := 56

/-- A horizontal line between two corners. -/
def rule (left right : String) : String :=
  left ++ String.ofList (List.replicate (innerWidth + 2) '─') ++ right

/-- A text in the middle of a row. It is styled with its padding. -/
def row (look : Look) (style : Option Style) (text : String) : String :=
  let padded := centre innerWidth text
  "│ " ++ (match style with
    | some s => look.paint s padded
    | none => padded) ++ " │"

def lines (b : Banner) (look : Look) : List String :=
  [rule "┌" "┐", row look (some (.strong .cyan)) b.title] ++
    (b.subtitle.map fun s => row look none s).toList ++
    (match b.version with
    | some v => [rule "├" "┤", row look (some (.coloured .green)) ("v" ++ v)]
    | none => []) ++
    [rule "└" "┘"]

def render (b : Banner) (look : Look) : String :=
  "\n".intercalate (b.lines look)

end Banner

end MethodSearch.Console
