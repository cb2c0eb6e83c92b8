import MethodSearch.Expression.Match
import MethodSearch.Expression.Reader

/-!
# What phrases mean

A phrase becomes an expression under the flags that hold where it stands. Classes and boundaries that need to know
the letters of all scripts are not available, so they mean something only where the flags say that ASCII is meant.
-/

namespace MethodSearch.Expression

/-- The flags that have a meaning for a phrase. -/
structure Flags where
  ignoreCase : Bool := false
  multiLine : Bool := false
  dotAll : Bool := false
  crlf : Bool := false
  unicode : Bool := true

def Flags.change (f : Flags) (change : FlagChange) : Flags where
  ignoreCase := change.apply .ignoreCase f.ignoreCase
  multiLine := change.apply .multiLine f.multiLine
  dotAll := change.apply .dotAll f.dotAll
  crlf := change.apply .crlf f.crlf
  unicode := change.apply .unicode f.unicode

/-- The character of a letter. Where bytes are meant, those beyond ASCII are no text. -/
def Letter.scalar (f : Flags) (l : Letter) : Except Fault Char :=
  if !f.unicode && l.isByte && 0x80 ≤ l.char.toNat then .error ⟨.notUtf8, l.span, none⟩ else .ok l.char

/-- A letter in a class. Where bytes are meant it is of ASCII. -/
def Letter.member (f : Flags) (l : Letter) : Except Fault Char := do
  let c ← l.scalar f
  if !f.unicode && 0x80 ≤ c.toNat then throw ⟨.unicodeRefused, l.span, none⟩
  return c

/-- Letters in both cases, as far as ASCII is meant. -/
def foldCase (f : Flags) (span : Span) (s : CharSet) : Except Fault CharSet :=
  if !f.ignoreCase then .ok s
  else if f.unicode then .error ⟨.caseUnavailable, span, none⟩
  else .ok (.anyCase s)

def negate (negated : Bool) (s : CharSet) : CharSet :=
  if negated then .complement s else s

/-- Where bytes are meant, a set has to be of ASCII. -/
def checkText (f : Flags) (span : Span) (s : CharSet) : Except Fault CharSet :=
  if !f.unicode && !s.isAscii then .error ⟨.notUtf8, span, none⟩ else .ok s

def namedSet (f : Flags) (span : Span) (c : LetterClass) (negated : Bool) : Except Fault CharSet :=
  if f.unicode then .error ⟨.letterClassUnavailable, span, none⟩
  else checkText f span (negate negated c.set)

def propertySet (f : Flags) (span : Span) : Except Fault CharSet :=
  .error ⟨if f.unicode then .propertyUnknown else .unicodeRefused, span, none⟩

def ClassOperation.apply (op : ClassOperation) (s t : CharSet) : CharSet :=
  match op with
  | .common => .common s t
  | .difference => .common s (.complement t)
  | .symmetricDifference => .union (.common s (.complement t)) (.common t (.complement s))

/-- The set of a class that stands in brackets at some place. -/
def ClassPhrase.set (f : Flags) (bracket : Span) : ClassPhrase → Except Fault CharSet
  | .nothing => .ok .none
  | .letter l => do return .single (← l.member f)
  | .range first last => do return .range (← first.member f) (← last.member f)
  | .ascii s negated => .ok (negate negated s)
  | .named span c negated => namedSet f span c negated
  | .property span => propertySet f span
  | .nested span inside negated => do
      let s ← inside.set f span
      return negate negated (← foldCase f span s)
  | .union a b => do return .union (← a.set f bracket) (← b.set f bracket)
  | .combined op a b => do
      let s ← foldCase f bracket (← a.set f bracket)
      let t ← foldCase f bracket (← b.set f bracket)
      return op.apply s t

/-! ## Phrases -/

/-- Why a text is no expression that can be searched for. -/
inductive Refusal where
  | fault (f : Fault)
  /-- A boundary needs to know the letters of all scripts. -/
  | boundary
  | tooLarge
  deriving Repr, DecidableEq

def Refusal.message (text : String) : Refusal → String
  | .fault f => f.message text
  | .boundary => "error building NFA"
  | .tooLarge => "Compiled regex exceeds size limit of 10485760 bytes."

def Flags.lineStart (f : Flags) : Anchor :=
  if !f.multiLine then .textStart else if f.crlf then .lineStartCrlf else .lineStart

def Flags.lineEnd (f : Flags) : Anchor :=
  if !f.multiLine then .textEnd else if f.crlf then .lineEndCrlf else .lineEnd

def Flags.dot (f : Flags) : CharSet :=
  if f.dotAll then .all
  else if f.crlf then .complement (.ofRanges [('\n', '\n'), ('\r', '\r')])
  else .complement (.single '\n')

/-- An expression, whether it has a boundary that needs all scripts, and the flags for what comes behind it. -/
structure Meant where
  expression : Expression
  needsScripts : Bool := false
  flags : Flags

def Meant.set (f : Flags) (s : CharSet) : Meant :=
  { expression := .one s, flags := f }

def Meant.anchor (f : Flags) (a : Anchor) : Meant :=
  { expression := .anchor a, flags := f }

/-- What a phrase means. Flags that a group sets hold inside it. -/
def Phrase.meaning (f : Flags) : Phrase → Except Fault Meant
  | .empty => .ok { expression := .empty, flags := f }
  | .flags change => .ok { expression := .empty, flags := f.change change }
  | .letter l => do
      let c ← l.scalar f
      return .set f (← foldCase f l.span (.single c))
  | .dot span => do return .set f (← checkText f span f.dot)
  | .lineStart => .ok (.anchor f f.lineStart)
  | .lineEnd => .ok (.anchor f f.lineEnd)
  | .textStart => .ok (.anchor f .textStart)
  | .textEnd => .ok (.anchor f .textEnd)
  | .word a => .ok { Meant.anchor f a with needsScripts := f.unicode }
  | .named span c negated => do return .set f (← namedSet f span c negated)
  | .property span => do return .set f (← propertySet f span)
  | .bracketed span inside negated => do
      let s ← inside.set f span
      return .set f (← checkText f span (negate negated (← foldCase f span s)))
  | .repetition _ p least most => do
      let m ← p.meaning f
      return { m with expression := .repeated m.expression least most }
  | .group _ change p => do
      let m ← p.meaning (f.change change)
      return { m with flags := f }
  | .chain p q => do
      let m ← p.meaning f
      let n ← q.meaning m.flags
      return ⟨.chain m.expression n.expression, m.needsScripts || n.needsScripts, n.flags⟩
  | .either p q => do
      let m ← p.meaning f
      let n ← q.meaning m.flags
      return ⟨.either m.expression n.expression, m.needsScripts || n.needsScripts, n.flags⟩

def maxSteps : Nat := 327680

def ofText (text : String) : Except Refusal Expression := do
  let p ← (Phrase.ofText text).mapError .fault
  let m ← (p.meaning {}).mapError .fault
  if m.needsScripts then throw .boundary
  if maxSteps < m.expression.steps then throw .tooLarge
  return m.expression

end MethodSearch.Expression
