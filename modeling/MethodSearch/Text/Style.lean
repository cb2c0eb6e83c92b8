/-!
# Terminal styles

A style is a colour, perhaps bold or dimmed. A styled text stands between the escape that starts the style and
the one that resets it; with styling off it is the text itself.
-/

namespace MethodSearch.Text

inductive Colour where
  | red
  | green
  | yellow
  | blue
  | magenta
  | cyan
  deriving Repr, DecidableEq

def Colour.code : Colour → Nat
  | .red => 31
  | .green => 32
  | .yellow => 33
  | .blue => 34
  | .magenta => 35
  | .cyan => 36

structure Style where
  bold : Bool
  dimmed : Bool
  colour : Option Colour
  deriving Repr, DecidableEq

namespace Style

def coloured (c : Colour) : Style := ⟨false, false, some c⟩

def strong (c : Colour) : Style := ⟨true, false, some c⟩

def faint : Style := ⟨false, true, none⟩

/-- The SGR codes, attributes before the colour. -/
def codes (s : Style) : List Nat :=
  (if s.bold then [1] else []) ++ (if s.dimmed then [2] else []) ++ (s.colour.map Colour.code).toList

end Style

/-- The character that opens an escape. -/
def escape : Char := '\x1b'

/-- The escape that ends every style. -/
def reset : List Char := [escape, '[', '0', 'm']

def Style.start (s : Style) : List Char :=
  escape :: '[' :: (";".intercalate (s.codes.map toString)).toList ++ ['m']

/-- Starts the style again after every reset inside the text. -/
def resume (start : List Char) : List Char → List Char
  | '\x1b' :: '[' :: '0' :: 'm' :: rest => reset ++ start ++ resume start rest
  | c :: rest => c :: resume start rest
  | [] => []

/-- The text in a style, or the bare text where styling is off or the style says nothing. -/
def Style.paint (s : Style) (on : Bool) (text : String) : String :=
  if on && !s.codes.isEmpty then String.ofList (s.start ++ resume s.start text.toList ++ reset) else text

structure Look where
  styled : Bool
  shown : Bool
  deriving Repr, DecidableEq

/-- A style shows where it is both asked for and possible. -/
def Look.paint (look : Look) (style : Style) (text : String) : String :=
  style.paint (look.styled && look.shown) text

end MethodSearch.Text
