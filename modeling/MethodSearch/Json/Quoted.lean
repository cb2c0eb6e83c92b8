import MethodSearch.Json.Numeral
import MethodSearch.Text.Count

/-!
# Quoted strings

Characters between quotation marks. A backslash starts an escape; two escaped halves of a surrogate pair are one
character. A reader that wants the characters refuses a half that stands alone, one that only looks for the
closing mark does not.
-/

namespace MethodSearch.Json.Quoted

/-- Escapes quotation marks, backslashes and control characters. -/
def escaped (c : Char) : List Char :=
  if c = '"' then ['\\', '"']
  else if c = '\\' then ['\\', '\\']
  else if c = '\x08' then ['\\', 'b']
  else if c = '\x0c' then ['\\', 'f']
  else if c = '\n' then ['\\', 'n']
  else if c = '\r' then ['\\', 'r']
  else if c = '\t' then ['\\', 't']
  else if c.toNat < 0x20 then '\\' :: 'u' :: (Text.hex 4 c.toNat).toList
  else [c]

def chars (s : String) : List Char :=
  '"' :: s.toList.flatMap escaped ++ ['"']

/-! ## Reading -/

/-- What is found behind an opening mark. -/
inductive Outcome where
  /-- The closing mark is there. What was read may still be no string. -/
  | closed (read : Except Fault String) (rest : List Char)
  /-- It is not there: the fault for a reader of the characters, and for one that skims them. -/
  | unclosed (read skim : Fault)

/-- The character of an escape of one letter. -/
def plainEscape? : Char → Option Char
  | '"' => some '"'
  | '\\' => some '\\'
  | '/' => some '/'
  | 'b' => some '\x08'
  | 'f' => some '\x0c'
  | 'n' => some '\n'
  | 'r' => some '\r'
  | 't' => some '\t'
  | _ => none

def isLead (n : Nat) : Bool :=
  0xD800 ≤ n && n ≤ 0xDBFF

def isTrail (n : Nat) : Bool :=
  0xDC00 ≤ n && n ≤ 0xDFFF

def joined (lead trail : Nat) : Char :=
  Char.ofNat ((lead - 0xD800) * 0x400 + (trail - 0xDC00) + 0x10000)

def fourBytesLeft (s : List Char) : Bool :=
  4 ≤ (String.ofList (s.take 4)).utf8ByteSize

/-- What has been read so far: the characters, last one first, and a lead that waits for its trail. -/
structure Progress where
  chars : Except Fault (List Char)
  lead : Option Nat

namespace Progress

def start : Progress :=
  ⟨.ok [], none⟩

/-- The first fault stays. -/
def fail (p : Progress) (f : Fault) : Progress :=
  ⟨p.chars.bind fun _ => .error f, none⟩

/-- A character that is not half of a pair. -/
def push (p : Progress) (c : Char) : Progress :=
  if p.lead.isSome then p.fail .malformed else ⟨p.chars.map (c :: ·), none⟩

/-- A character given by its number. -/
def pushUnit (p : Progress) (n : Nat) : Progress :=
  match p.lead with
  | some lead => if isTrail n then ⟨p.chars.map (joined lead n :: ·), none⟩ else p.fail .malformed
  | none =>
      if isTrail n then p.fail .malformed
      else if isLead n then ⟨p.chars, some n⟩
      else ⟨p.chars.map (Char.ofNat n :: ·), none⟩

def close (p : Progress) (rest : List Char) : Outcome :=
  let p := if p.lead.isSome then p.fail .malformed else p
  .closed (p.chars.map fun cs => String.ofList cs.reverse) rest

/-- The text goes wrong for both readers. -/
def stop (p : Progress) (f : Fault) : Outcome :=
  match p.chars with
  | .ok _ => .unclosed f f
  | .error earlier => .unclosed earlier f

end Progress

def read (p : Progress) : List Char → Outcome
  | [] => p.stop .truncated
  | c :: rest =>
      if c = '"' then p.close rest
      else if c = '\\' then
        match rest with
        | [] => p.stop .truncated
        | 'u' :: s =>
            if fourBytesLeft s then
              match s with
              | h₁ :: h₂ :: h₃ :: h₄ :: after =>
                  match Text.readNat? 16 [h₁, h₂, h₃, h₄] with
                  | some n => read (p.pushUnit n) after
                  | none => p.stop .malformed
              | _ => p.stop .malformed
            else p.stop .truncated
        | e :: s =>
            match plainEscape? e with
            | some found => read (p.push found) s
            | none => if p.lead.isSome then (p.fail .malformed).stop .malformed else p.stop .malformed
      else if c.toNat < 0x20 then (if p.lead.isSome then p.fail .malformed else p).stop .malformed
      else read (p.push c) rest

theorem Progress.close_rest {p : Progress} {s rest : List Char} {found : Except Fault String}
    (h : p.close s = .closed found rest) : rest = s := by
  simp only [Progress.close, Outcome.closed.injEq] at h
  exact h.2.symm

theorem Progress.stop_ne_closed {p : Progress} {f : Fault} {found : Except Fault String}
    {rest : List Char} : p.stop f ≠ .closed found rest := by
  unfold Progress.stop
  split <;> simp

theorem read_length {p : Progress} {s rest : List Char} {found : Except Fault String}
    (h : read p s = .closed found rest) : rest.length < s.length := by
  fun_induction read p s with
  | case2 => simp [Progress.close_rest h]
  | case4 _ _ _ _ _ _ _ _ _ _ ih => have := ih h; simp only [List.length_cons]; omega
  | case8 _ _ _ _ _ _ _ ih => have := ih h; simp only [List.length_cons]; omega
  | case12 _ _ _ _ _ _ ih => have := ih h; simp only [List.length_cons]; omega
  | _ => exact absurd h Progress.stop_ne_closed

end MethodSearch.Json.Quoted
