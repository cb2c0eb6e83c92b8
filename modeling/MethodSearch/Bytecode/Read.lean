import MethodSearch.Bytecode.JavaType
import MethodSearch.Bytecode.Opcode
import MethodSearch.Json.Reader

/-!
# Reading types

Descriptors of types and of methods are read from the front. In JSON a type is written as the string of its descriptor,
a primitive by its keyword.
-/

namespace MethodSearch.Bytecode

namespace JavaType

/-- The characters before the first semicolon and those after it. -/
def readName : List Char → Option (List Char × List Char)
  | [] => none
  | c :: rest =>
      if c = ';' then some ([], rest) else (readName rest).map fun (name, after) => (c :: name, after)

/-- Reads one field type off the front. A failure keeps the text that is left where it happens. -/
def readField : List Char → Except (List Char) (JavaType × List Char)
  | [] => .error []
  | c :: rest =>
      match Primitive.ofLetter? c with
      | some base => .ok (.primitive base, rest)
      | none =>
          if c = '[' then
            match readField rest with
            | .ok (element, after) => .ok (.array element, after)
            | .error left => .error left
          else if c = 'L' then
            match readName rest with
            | some (n :: name, after) => .ok (.object (String.ofList (n :: name)), after)
            | _ => .error (c :: rest)
          else .error (c :: rest)

/-- Reads a whole field type, or `V`. Text after a complete type faults the whole descriptor. -/
def readChars (s : List Char) : Except (List Char) JavaType :=
  if s = ['V'] then .ok .void
  else match readField s with
    | .error left => .error left
    | .ok (t, []) => .ok t
    | .ok (_, _ :: _) => .error s

def parse (text : String) : Except Error JavaType :=
  (readChars text.toList).mapError fun left => .invalidDescriptor (String.ofList left)

theorem readName_length {s name after : List Char} (h : readName s = some (name, after)) :
    after.length < s.length := by
  fun_induction readName s generalizing name with
  | case1 => cases h
  | case2 rest =>
      cases h
      exact Nat.lt_succ_self _
  | case3 c rest hc ih =>
      obtain ⟨⟨name', left⟩, hrest, hname⟩ := Option.map_eq_some_iff.mp h
      cases hname
      exact Nat.lt_succ_of_lt (ih hrest)

/-- What is left of a text is shorter, which lets parameters be read one after the other. -/
theorem readField_length {s : List Char} {t : JavaType} {after : List Char} (h : readField s = .ok (t, after)) :
    after.length < s.length := by
  fun_induction readField s generalizing t with
  | case1 => cases h
  | case2 c rest base hbase =>
      cases h
      exact Nat.lt_succ_self _
  | case3 rest element left hleft hbase ih =>
      cases h
      exact Nat.lt_succ_of_lt (ih hleft)
  | case5 rest n name left hname =>
      cases h
      exact Nat.lt_succ_of_lt (readName_length hname)
  | _ => cases h

end JavaType

namespace MethodType

/-- Reads field types up to the closing bracket, and gives what follows it. -/
def readParameters (s : List Char) : Option (List JavaType × List Char) :=
  match s with
  | ')' :: rest => some ([], rest)
  | s =>
      match h : JavaType.readField s with
      | .error _ => none
      | .ok (t, after) =>
          have := JavaType.readField_length h
          (readParameters after).map fun (ts, rest) => (t :: ts, rest)
termination_by s.length

def readChars? : List Char → Option MethodType
  | '(' :: rest => do
      let (parameters, after) ← readParameters rest
      match JavaType.readChars after with
      | .ok result => some ⟨parameters, result⟩
      | .error _ => none
  | _ => none

/-- Reads a method descriptor. Every fault is laid on the whole text. -/
def parse (text : String) : Except Error MethodType :=
  match readChars? text.toList with
  | some m => .ok m
  | none => .error (.invalidDescriptor text)

end MethodType

open Json

/-- A descriptor that is none is a string of the wrong shape. -/
def JavaType.ofDocument (d : Document) : Except Fault JavaType := do
  (JavaType.parse (← d.text)).mapError fun _ => .misshapen

def Primitive.ofDocument (d : Document) : Except Fault Primitive :=
  d.named Primitive.ofKeyword?

end MethodSearch.Bytecode
