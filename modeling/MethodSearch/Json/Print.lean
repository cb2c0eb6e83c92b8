import MethodSearch.Json.Document
import MethodSearch.Json.Quoted

/-!
# Writing JSON

A value is written compactly, or over several lines with two spaces for each level. Empty containers take one
line.
-/

namespace MethodSearch.Json.Value

mutual

def chars : Value → List Char
  | .null => ['n', 'u', 'l', 'l']
  | .bool true => ['t', 'r', 'u', 'e']
  | .bool false => ['f', 'a', 'l', 's', 'e']
  | .number n => n.chars
  | .string s => Quoted.chars s
  | .array items => '[' :: itemChars items ++ [']']
  | .object members => '{' :: memberChars members ++ ['}']

def itemChars : List Value → List Char
  | [] => []
  | [v] => v.chars
  | v :: vs => v.chars ++ ',' :: itemChars vs

def memberChars : List (String × Value) → List Char
  | [] => []
  | [(k, v)] => Quoted.chars k ++ ':' :: v.chars
  | (k, v) :: ms => Quoted.chars k ++ ':' :: v.chars ++ ',' :: memberChars ms

end

def compact (v : Value) : String :=
  String.ofList v.chars

def newLine (level : Nat) : List Char :=
  '\n' :: List.replicate (2 * level) ' '

mutual

/-- The characters of the indented text of a value that stands at some level. -/
def indentedChars (level : Nat) : Value → List Char
  | .null => ['n', 'u', 'l', 'l']
  | .bool true => ['t', 'r', 'u', 'e']
  | .bool false => ['f', 'a', 'l', 's', 'e']
  | .number n => n.chars
  | .string s => Quoted.chars s
  | .array [] => ['[', ']']
  | .array (v :: vs) => '[' :: indentedItems (level + 1) (v :: vs) ++ newLine level ++ [']']
  | .object [] => ['{', '}']
  | .object (m :: ms) => '{' :: indentedMembers (level + 1) (m :: ms) ++ newLine level ++ ['}']

def indentedItems (level : Nat) : List Value → List Char
  | [] => []
  | [v] => newLine level ++ indentedChars level v
  | v :: vs => newLine level ++ indentedChars level v ++ ',' :: indentedItems level vs

def indentedMembers (level : Nat) : List (String × Value) → List Char
  | [] => []
  | [(k, v)] => newLine level ++ Quoted.chars k ++ ':' :: ' ' :: indentedChars level v
  | (k, v) :: ms =>
      newLine level ++ Quoted.chars k ++ ':' :: ' ' :: indentedChars level v ++ ',' :: indentedMembers level ms

end

def indented (v : Value) : String :=
  String.ofList (v.indentedChars 0)

end MethodSearch.Json.Value
