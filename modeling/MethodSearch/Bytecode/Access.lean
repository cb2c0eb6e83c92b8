import MethodSearch.Bytecode.Opcode
import MethodSearch.Text.Blank

/-!
# Access flags

A mask of sixteen bits, twelve of which have a name. A keyword names a flag in any ASCII case, with or without
`ACC_` before it. Bits without a name are kept.
-/

namespace MethodSearch.Bytecode

inductive Flag where
  | isPublic
  | isPrivate
  | isProtected
  | isStatic
  | isFinal
  | isSynchronized
  | isBridge
  | isVarargs
  | isNative
  | isAbstract
  | isStrict
  | isSynthetic
  deriving Repr, DecidableEq

namespace Flag

/-- The flags in the order of their bits. -/
def all : List Flag :=
  [.isPublic, .isPrivate, .isProtected, .isStatic, .isFinal, .isSynchronized, .isBridge, .isVarargs,
    .isNative, .isAbstract, .isStrict, .isSynthetic]

def mask : Flag → UInt16
  | .isPublic => 0x0001
  | .isPrivate => 0x0002
  | .isProtected => 0x0004
  | .isStatic => 0x0008
  | .isFinal => 0x0010
  | .isSynchronized => 0x0020
  | .isBridge => 0x0040
  | .isVarargs => 0x0080
  | .isNative => 0x0100
  | .isAbstract => 0x0400
  | .isStrict => 0x0800
  | .isSynthetic => 0x1000

def name : Flag → String
  | .isPublic => "PUBLIC"
  | .isPrivate => "PRIVATE"
  | .isProtected => "PROTECTED"
  | .isStatic => "STATIC"
  | .isFinal => "FINAL"
  | .isSynchronized => "SYNCHRONIZED"
  | .isBridge => "BRIDGE"
  | .isVarargs => "VARARGS"
  | .isNative => "NATIVE"
  | .isAbstract => "ABSTRACT"
  | .isStrict => "STRICT"
  | .isSynthetic => "SYNTHETIC"

def keyword (f : Flag) : String :=
  f.name.toLower

/-- Two flags have a second name. -/
def alias? : String → Option Flag
  | "STRICTFP" => some .isStrict
  | "VARARG" => some .isVarargs
  | _ => none

/-- The flag of an upper-case name. -/
def ofName? (name : String) : Option Flag :=
  (alias? name).or (all.find? (·.name == name))

/-- Drops one `ACC_` from the front. -/
def dropMark : List Char → List Char
  | 'A' :: 'C' :: 'C' :: '_' :: rest => rest
  | name => name

def ofKeyword? (keyword : String) : Option Flag :=
  ofName? (String.ofList (dropMark (Text.trim keyword).toUpper.toList))

end Flag

/-! ## Masks -/

structure Access where
  bits : UInt16
  deriving Repr, DecidableEq

namespace Access

def empty : Access :=
  ⟨0⟩

def union (a b : Access) : Access :=
  ⟨a.bits ||| b.bits⟩

def has (a : Access) (f : Flag) : Bool :=
  a.bits &&& f.mask != 0

/-- The named flags of a mask, in the order of their bits. -/
def flags (a : Access) : List Flag :=
  Flag.all.filter a.has

def keywords (a : Access) : List String :=
  a.flags.map Flag.keyword

def ofKeyword (keyword : String) : Except Error Access :=
  match Flag.ofKeyword? keyword with
  | some f => .ok ⟨f.mask⟩
  | none => .error (.unknownAccessFlag keyword)

/-- The union of the flags named. The first keyword that names none is at fault. -/
def ofKeywords (keywords : List String) : Except Error Access :=
  keywords.foldlM (fun a k => (ofKeyword k).map a.union) empty

/-- The keywords with spaces between them, or `package-private` where no bit is set. -/
def render (a : Access) : String :=
  if a.bits = 0 then "package-private" else " ".intercalate a.keywords

end Access

end MethodSearch.Bytecode
