import MethodSearch.Bytecode.Opcode

/-!
# Opcode patterns

A pattern is a list of opcodes that a body holds one after another, markers aside. Its text is a list of tokens
between blanks and commas: mnemonics, decimal numbers and hexadecimal numbers.
-/

namespace MethodSearch

open Bytecode

structure Pattern where
  opcodes : List Opcode
  deriving Repr, DecidableEq

namespace Pattern

def render (p : Pattern) : String :=
  " ".intercalate (p.opcodes.map Opcode.render)

inductive Error where
  | invalidToken (token : String)
  | outOfRange (value : Nat)
  deriving Repr, DecidableEq

def Error.message : Error → String
  | .invalidToken token => "Invalid opcode token: " ++ token
  | .outOfRange value => "Opcode out of range: " ++ Nat.repr value

def isSeparator (c : Char) : Bool :=
  Text.isBlank c || c == ','

/-- What is read as a number: decimal digits alone, or hexadecimal ones behind their mark and perhaps a plus. -/
inductive Numeral where
  | decimal (digits : List Char)
  | hexadecimal (digits : List Char)

def Numeral.ofToken? : List Char → Option Numeral
  | '0' :: 'x' :: '+' :: digits => some (.hexadecimal digits)
  | '0' :: 'X' :: '+' :: digits => some (.hexadecimal digits)
  | '0' :: 'x' :: digits => some (.hexadecimal digits)
  | '0' :: 'X' :: digits => some (.hexadecimal digits)
  | token => if token.all Char.isDigit then some (.decimal token) else none

/-- The value, if it has at most 32 bits. -/
def Numeral.value? : Numeral → Option Nat
  | .decimal digits => (Text.readNat? 10 digits).filter (· < UInt32.size)
  | .hexadecimal digits => (Text.readNat? 16 digits).filter (· < UInt32.size)

def readToken (token : List Char) : Except Error Opcode :=
  match Numeral.ofToken? token with
  | some n =>
      match n.value? with
      | none => .error (.invalidToken (String.ofList token))
      | some v => if v < 256 then .ok (UInt8.ofNat v) else .error (.outOfRange v)
  | none =>
      match Opcode.ofMnemonic? (String.ofList token) with
      | some code => .ok code
      | none => .error (.invalidToken (String.ofList token))

/-- Reads the tokens in order. The first one that is no opcode is at fault. -/
def parse (text : String) : Except Error Pattern :=
  ((Text.words isSeparator text.toList).mapM readToken).map Pattern.mk

end Pattern

end MethodSearch
