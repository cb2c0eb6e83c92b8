/-!
# Faults and numerals

A text that does not yield the value asked for ends too early, is not JSON, or is JSON of another shape. A numeral is
a number as it is written: a sign, an integer, decimal places and a power of ten. Whether it is a natural number of 64
bits, and whether a double can hold it, is asked of the numeral.
-/

namespace MethodSearch.Json

inductive Fault where
  /-- The text ends inside the value. -/
  | truncated
  /-- The text is not JSON, nests too deeply, or goes on after the value. -/
  | malformed
  /-- The text is JSON so far, and not what was asked for. -/
  | misshapen
  deriving Repr, DecidableEq

structure Numeral where
  negative : Bool
  whole : Nat
  fraction : List (Fin 10)
  exponent : Option Int
  deriving Repr, DecidableEq

namespace Numeral

def ofNat (n : Nat) : Numeral :=
  ⟨false, n, [], none⟩

/-- Natural numbers have 64 bits and are written without sign, places or power. -/
def natural? (n : Numeral) : Option Nat :=
  if !n.negative && n.fraction.isEmpty && n.exponent.isNone && n.whole < UInt64.size then some n.whole else none

/-- Adds digits to a significand as long as it keeps within 64 bits, and counts those left out. -/
def absorb : Nat → List (Fin 10) → Nat × Nat
  | s, [] => (s, 0)
  | s, d :: ds => if s * 10 + d.val < UInt64.size then absorb (s * 10 + d.val) ds else (s, ds.length + 1)

/-- The decimal digits, the first one first. -/
def digitsOf (n : Nat) : List (Fin 10) :=
  (Nat.toDigits 10 n).map fun c => Fin.ofNat 10 (c.toNat - '0'.toNat)

/-- The significand of 64 bits and the power of ten it is scaled by, without the written exponent. -/
def scaled (n : Numeral) : Nat × Int :=
  let (s, dropped) := absorb 0 (digitsOf n.whole)
  let (s', cut) := absorb s n.fraction
  (s', (dropped : Int) - ((n.fraction.length - cut : Nat) : Int))

/-- A written exponent beyond this is not added up. -/
def maxExponent : Int :=
  2147483647

/-- Whether the double of the significand times the double of the power of ten is finite. -/
def finiteProduct (significand : Nat) (power : Int) : Bool :=
  if significand = 0 ∨ power < 0 then true
  else if 308 < power then false
  else !(Float.ofNat significand * Float.ofScientific 1 false power.toNat).isInf

/-- Whether a double can hold the number. -/
def inRange (n : Numeral) : Bool :=
  if n.natural?.isSome then true
  else
    let (significand, power) := n.scaled
    match n.exponent with
    | none => finiteProduct significand power
    | some e =>
        if maxExponent < e then significand = 0
        else if e < -maxExponent then true
        else finiteProduct significand (power + e)

def digitChar (d : Fin 10) : Char :=
  Char.ofNat ('0'.toNat + d.val)

def chars (n : Numeral) : List Char :=
  (if n.negative then ['-'] else []) ++ Nat.toDigits 10 n.whole ++
    (if n.fraction.isEmpty then [] else '.' :: n.fraction.map digitChar) ++
    (match n.exponent with
    | none => []
    | some (.ofNat e) => 'e' :: Nat.toDigits 10 e
    | some (.negSucc e) => 'e' :: '-' :: Nat.toDigits 10 (e + 1))

/-! ## Reading -/

def digit? (c : Char) : Option (Fin 10) :=
  if '0' ≤ c ∧ c ≤ '9' then some (Fin.ofNat 10 (c.toNat - '0'.toNat)) else none

/-- The digits at the front, and what follows them. -/
def takeDigits : List Char → List (Fin 10) × List Char
  | [] => ([], [])
  | c :: rest => match digit? c with
    | some d => let (ds, after) := takeDigits rest; (d :: ds, after)
    | none => ([], c :: rest)

def value (ds : List (Fin 10)) : Nat :=
  ds.foldl (fun n d => n * 10 + d.val) 0

def readDigits (s : List Char) : Except Fault (List (Fin 10) × List Char) :=
  match s with
  | [] => .error .truncated
  | s => match takeDigits s with
    | ([], _) => .error .malformed
    | found => .ok found

/-- The integer of a numeral. A zero stands alone. -/
def readWhole (s : List Char) : Except Fault (Nat × List Char) := do
  let (ds, after) ← readDigits s
  match ds with
  | d :: _ :: _ => if d = 0 then .error .malformed else .ok (value ds, after)
  | _ => .ok (value ds, after)

def readFraction : List Char → Except Fault (List (Fin 10) × List Char)
  | '.' :: rest => readDigits rest
  | s => .ok ([], s)

def readSign : List Char → Bool × List Char
  | '-' :: rest => (true, rest)
  | '+' :: rest => (false, rest)
  | s => (false, s)

def readExponent : List Char → Except Fault (Option Int × List Char)
  | c :: rest =>
      if c = 'e' ∨ c = 'E' then do
        let (negative, s) := readSign rest
        let (ds, after) ← readDigits s
        .ok (some (if negative then -(value ds : Int) else value ds), after)
      else .ok (none, c :: rest)
  | [] => .ok (none, [])

def read (s : List Char) : Except Fault (Numeral × List Char) := do
  let (negative, s) := match s with
    | '-' :: rest => (true, rest)
    | s => (false, s)
  let (whole, s) ← readWhole s
  let (fraction, s) ← readFraction s
  let (exponent, s) ← readExponent s
  .ok (⟨negative, whole, fraction, exponent⟩, s)

/-! ## What is left -/

theorem takeDigits_length (s : List Char) : (takeDigits s).2.length ≤ s.length := by
  induction s with
  | nil => simp [takeDigits]
  | cons c rest ih =>
      simp only [takeDigits]
      split <;> simp only [List.length_cons] <;> omega

theorem readDigits_length {s rest : List Char} {ds : List (Fin 10)} (h : readDigits s = .ok (ds, rest)) :
    rest.length ≤ s.length := by
  have hl := takeDigits_length s
  unfold readDigits at h
  split at h
  · simp at h
  · split at h
    · simp at h
    · next heq _ =>
        simp only [Except.ok.injEq] at h
        rw [h] at hl
        exact hl

theorem readWhole_length {s rest : List Char} {n : Nat} (h : readWhole s = .ok (n, rest)) :
    rest.length ≤ s.length := by
  unfold readWhole at h
  cases hd : readDigits s with
  | error f => simp [hd, bind, Except.bind] at h
  | ok found =>
      obtain ⟨ds, after⟩ := found
      have hl := readDigits_length hd
      simp only [hd, bind, Except.bind] at h
      split at h
      · split at h <;> simp_all
      · simp_all

theorem readFraction_length {s rest : List Char} {ds : List (Fin 10)} (h : readFraction s = .ok (ds, rest)) :
    rest.length ≤ s.length := by
  unfold readFraction at h
  split at h
  · have := readDigits_length h
    simp only [List.length_cons]; omega
  · simp_all

theorem readSign_length (s : List Char) : (readSign s).2.length ≤ s.length := by
  unfold readSign
  split <;> simp

theorem readExponent_length {s rest : List Char} {e : Option Int} (h : readExponent s = .ok (e, rest)) :
    rest.length ≤ s.length := by
  unfold readExponent at h
  split at h
  · next c tail =>
      split at h
      · have hs := readSign_length tail
        cases hd : readDigits (readSign tail).2 with
        | error f => simp [hd, bind, Except.bind] at h
        | ok found =>
            obtain ⟨ds, after⟩ := found
            have hl := readDigits_length hd
            simp only [hd, bind, Except.bind, Except.ok.injEq, Prod.mk.injEq] at h
            simp only [List.length_cons, ← h.2]; omega
      · simp_all
  · simp_all

theorem read_length {s rest : List Char} {n : Numeral} (h : read s = .ok (n, rest)) :
    rest.length ≤ s.length := by
  unfold read at h
  generalize hsign : (match s with
    | '-' :: rest => (true, rest)
    | s => (false, s)) = signed at h
  have h₀ : signed.2.length ≤ s.length := by
    rw [← hsign]
    split <;> simp
  obtain ⟨negative, s₁⟩ := signed
  cases hw : readWhole s₁ with
  | error f => simp [hw, bind, Except.bind] at h
  | ok found =>
      obtain ⟨whole, s₂⟩ := found
      have h₁ := readWhole_length hw
      cases hf : readFraction s₂ with
      | error f => simp [hw, hf, bind, Except.bind] at h
      | ok found =>
          obtain ⟨fraction, s₃⟩ := found
          have h₂ := readFraction_length hf
          cases he : readExponent s₃ with
          | error f => simp [hw, hf, he, bind, Except.bind] at h
          | ok found =>
              obtain ⟨exponent, s₄⟩ := found
              have h₃ := readExponent_length he
              simp only [hw, hf, he, bind, Except.bind, Except.ok.injEq, Prod.mk.injEq] at h
              rw [← h.2]
              simp only at h₀; omega

end Numeral

end MethodSearch.Json
