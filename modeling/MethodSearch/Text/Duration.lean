import MethodSearch.Text.Count

/-!
# Decimal places and elapsed time

The exact value of a double is rounded to a number of decimal places, a half going to the even neighbour. Elapsed
time is given in whole microseconds below a millisecond, then in milliseconds below a second, then in seconds.
-/

namespace MethodSearch.Text

/-- The quotient rounded to the nearest natural number, a half to the even one. -/
def roundDiv (num den : Nat) : Nat :=
  let q := num / den
  let twice := 2 * (num % den)
  if den < twice ∨ (twice = den ∧ q % 2 = 1) then q + 1 else q

/-- The integer and the decimal places of a number of units of the last place. -/
def placesText (places units : Nat) : String :=
  let digits := (Nat.repr (units % Nat.pow 10 places)).toList
  Nat.repr (units / Nat.pow 10 places) ++
    if places = 0 then "" else "." ++ String.ofList (List.replicate (places - digits.length) '0' ++ digits)

/-- Significand and binary exponent of the magnitude of a finite double. -/
def parts (bits : UInt64) : Nat × Int :=
  let exponent : Nat := (bits.toNat / Nat.pow 2 52) % Nat.pow 2 11
  let fraction : Nat := bits.toNat % Nat.pow 2 52
  if exponent = 0 then (fraction, -1074) else (fraction + Nat.pow 2 52, (exponent : Int) - 1075)

def fixed (places : Nat) (x : Float) : String :=
  if x.isNaN then "NaN"
  else
    let mark := if Nat.pow 2 63 ≤ x.toBits.toNat then "-" else ""
    if x.isInf then mark ++ "inf"
    else
      let (m, q) := parts x.toBits
      mark ++ placesText places (roundDiv (m * Nat.pow 10 places * Nat.pow 2 q.toNat) (Nat.pow 2 (-q).toNat))

/-- A stretch of time. Nanoseconds beyond a second count as seconds. -/
structure Duration where
  seconds : Nat
  nanoseconds : Nat
  deriving Repr, DecidableEq

namespace Duration

/-- The double nearest to the whole seconds plus the double of the rest. -/
def inSeconds (d : Duration) : Float :=
  Float.ofNat (d.seconds + d.nanoseconds / 1000000000) + Float.ofNat (d.nanoseconds % 1000000000) / 1e9

def microseconds (d : Duration) : Nat :=
  d.seconds * 1000000 + d.nanoseconds / 1000

def render (d : Duration) : String :=
  let s := d.inSeconds
  if s < 0.001 then Nat.repr d.microseconds ++ "µs"
  else if s < 1.0 then fixed 2 (s * 1000.0) ++ "ms"
  else fixed 2 s ++ "s"

end Duration

end MethodSearch.Text
