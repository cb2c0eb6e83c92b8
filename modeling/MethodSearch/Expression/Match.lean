import MethodSearch.Expression.Basic

/-!
# Finding an expression in a text

The places of a text are those before its first character, between two characters and behind the last one. A mark
for each place says whether it was reached: an expression leads from the places of some marks to the places where
a stretch that fits ends.
-/

namespace MethodSearch.Expression

/-- One mark for each place of a text. -/
abbrev Marks := List Bool

namespace Marks

def join (m n : Marks) : Marks :=
  List.zipWith (· || ·) m n

/-- One step to the right, over a character of a set. -/
def advance (s : CharSet) (text : List Char) (m : Marks) : Marks :=
  false :: List.zipWith (fun here c => here && s.contains c) m text

/-- The places with a neighbourhood, from the character before the first one on. -/
def keepFrom (a : Anchor) (before : Option Char) : List Char → Marks → Marks
  | _, [] => []
  | [], here :: _ => [here && a.holds before none]
  | c :: rest, here :: m => (here && a.holds before (some c)) :: keepFrom a (some c) rest m

/-- The same step a number of times. A step that changes nothing is not done again. -/
def times (step : Marks → Marks) : Nat → Marks → Marks
  | 0, m => m
  | k + 1, m => if step m == m then m else times step k (step m)

/-- The same step up to a number of times. -/
def upTo (step : Marks → Marks) : Nat → Marks → Marks
  | 0, m => m
  | k + 1, m =>
      let further := m.join (step m)
      if further == m then m else upTo step k further

end Marks

/-- Where a stretch that fits can end, if it begins at a marked place. As many rounds as there are places reach
whatever can be reached. -/
def reach (text : List Char) : Expression → Marks → Marks
  | .empty, m => m
  | .one s, m => m.advance s text
  | .anchor a, m => Marks.keepFrom a none text m
  | .chain e f, m => reach text f (reach text e m)
  | .either e f, m => (reach text e m).join (reach text f m)
  | .repeated e least most, m =>
      let rounds := match most with
        | none => text.length + 1
        | some most => most - least
      Marks.upTo (reach text e) rounds (Marks.times (reach text e) least m)

def isFoundIn (e : Expression) (text : List Char) : Bool :=
  (reach text e (List.replicate (text.length + 1) true)).any id

end MethodSearch.Expression
