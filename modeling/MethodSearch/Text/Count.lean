/-!
# Numbers and widths

Natural numbers written in a base up to sixteen, read and printed. Reading takes digits alone: no sign and no
separator. A text is brought to a width by blanks, counted in characters, and a text that is longer stays as it is.
-/

namespace MethodSearch.Text

/-- The value of a digit of the given base, in either case. -/
def digit? (base : Nat) (c : Char) : Option Nat :=
  let value? :=
    if '0' ≤ c ∧ c ≤ '9' then some (c.toNat - '0'.toNat)
    else if 'a' ≤ c ∧ c ≤ 'f' then some (c.toNat - 'a'.toNat + 10)
    else if 'A' ≤ c ∧ c ≤ 'F' then some (c.toNat - 'A'.toNat + 10)
    else none
  value?.filter (· < base)

/-- Continues the number `n` with the digits of `s`. -/
def continueNat? (base : Nat) : Nat → List Char → Option Nat
  | n, [] => some n
  | n, c :: rest => match digit? base c with
    | some d => continueNat? base (n * base + d) rest
    | none => none

/-- Reads one or more digits and nothing else. -/
def readNat? (base : Nat) (s : List Char) : Option Nat :=
  if s.isEmpty then none else continueNat? base 0 s

/-- Hexadecimal digits in lower case, at least `width` of them. -/
def hex (width : Nat) (n : Nat) : String :=
  let digits := Nat.toDigits 16 n
  String.ofList (List.replicate (width - digits.length) '0' ++ digits)

def spaces (n : Nat) : String :=
  String.ofList (List.replicate n ' ')

def padRight (width : Nat) (s : String) : String :=
  s ++ spaces (width - s.length)

def padLeft (width : Nat) (s : String) : String :=
  spaces (width - s.length) ++ s

/-- Spaces on both sides, the odd one after the text. -/
def centre (width : Nat) (s : String) : String :=
  let room := width - s.length
  spaces (room / 2) ++ s ++ spaces (room - room / 2)

def counted (n : Nat) (singular plural : String) : String :=
  Nat.repr n ++ " " ++ if n = 1 then singular else plural

end MethodSearch.Text
