import MethodSearch.Catalog.Parse
import MethodSearch.Proofs.Bytecode.Keywords

/-!
# What the parts of an entry stand for

Access, opcodes and instructions stand for something unless they name what is not known. The first unknown name is what
their conversion reports.
-/

namespace MethodSearch.Catalog

open Bytecode

namespace AccessEntry

def keywords : AccessEntry → List String
  | .mask _ => []
  | .names keywords => keywords

/-- A mask stands for itself, and keywords for the union of their flags. -/
inductive Denotes : AccessEntry → Access → Prop
  | mask (bits : UInt16) : Denotes (.mask bits) ⟨bits⟩
  | names {keywords : List String} : (∀ k ∈ keywords, Flag.ofKeyword? k ≠ none) →
      Denotes (.names keywords) (.ofFlags (keywords.filterMap Flag.ofKeyword?))

theorem convert_eq_ok_iff (a : AccessEntry) (mask : Access) : a.convert = .ok mask ↔ a.Denotes mask := by
  cases a with
  | mask bits =>
      constructor
      · rintro ⟨⟩
        exact .mask bits
      · rintro ⟨⟩
        rfl
  | names keywords =>
      rw [convert, Access.ofKeywords_eq_ok_iff]
      constructor
      · rintro ⟨hknown, rfl⟩
        exact .names hknown
      · rintro (_ | hknown)
        exact ⟨hknown, rfl⟩

theorem convert_eq_error_iff (a : AccessEntry) (e : Bytecode.Error) :
    a.convert = .error e ↔
      ∃ k, a.keywords.IsFirst (fun k => Flag.ofKeyword? k = none) k ∧ .unknownAccessFlag k = e := by
  cases a with
  | mask bits =>
      constructor
      · nofun
      · rintro ⟨k, ⟨⟩, -⟩
  | names keywords => exact Access.ofKeywords_eq_error_iff

theorem exists_convert_eq_ok_iff (a : AccessEntry) :
    (∃ mask, a.convert = .ok mask) ↔ ∀ k ∈ a.keywords, Flag.ofKeyword? k ≠ none := by
  cases a with
  | mask bits => exact iff_of_true ⟨_, rfl⟩ nofun
  | names keywords =>
      constructor
      · rintro ⟨mask, h⟩
        exact (Access.ofKeywords_eq_ok_iff.mp h).1
      · exact fun hknown => ⟨_, Access.ofKeywords_eq_ok_iff.mpr ⟨hknown, rfl⟩⟩

end AccessEntry

namespace OpcodeEntry

variable {o : OpcodeEntry} {byte : Opcode}

def mnemonic? : OpcodeEntry → Option String
  | .code _ => none
  | .mnemonic name => some name

inductive Denotes : OpcodeEntry → Opcode → Prop
  | code (byte : Opcode) : Denotes (.code byte) byte
  | mnemonic {name : String} {byte : Opcode} : Opcode.ofMnemonic? name = some byte → Denotes (.mnemonic name) byte

theorem convert_eq_ok_iff : o.convert = .ok byte ↔ o.Denotes byte := by
  cases o with
  | code b =>
      constructor
      · rintro ⟨⟩
        exact .code byte
      · rintro ⟨⟩
        rfl
  | mnemonic name =>
      rw [convert]
      constructor
      · intro h
        split at h
        · next hname =>
            cases h
            exact .mnemonic hname
        · cases h
      · rintro (_ | hname)
        rw [hname]

theorem convert_eq_error_iff (o : OpcodeEntry) (e : Pattern.Error) :
    o.convert = .error e ↔
      ∃ name, o.mnemonic? = some name ∧ Opcode.ofMnemonic? name = none ∧ .invalidToken name = e := by
  cases o with
  | code b => simp [convert, mnemonic?]
  | mnemonic name => cases h : Opcode.ofMnemonic? name <;> simp [convert, mnemonic?, h]

end OpcodeEntry

namespace InstructionEntry

variable {i : InstructionEntry} {j : Instruction}

def mnemonic? : InstructionEntry → Option String
  | .mnemonic name => some name
  | _ => none

inductive Denotes : InstructionEntry → Instruction → Prop
  | code (byte : Opcode) : Denotes (.code byte) (.op byte)
  | mnemonic {name : String} {byte : Opcode} : Opcode.ofMnemonic? name = some byte → Denotes (.mnemonic name) (.op byte)
  | label (id : UInt32) : Denotes (.label id) (.label id)
  | line (number : UInt32) : Denotes (.line number) (.line number)
  | frame : Denotes .frame .frame

theorem convert_eq_ok_iff : i.convert = .ok j ↔ i.Denotes j := by
  constructor
  · intro h
    cases i with
    | code byte =>
        cases h
        exact .code byte
    | mnemonic name =>
        rw [convert] at h
        split at h
        · next hname =>
            cases h
            exact .mnemonic hname
        · cases h
    | label id =>
        cases h
        exact .label id
    | line number =>
        cases h
        exact .line number
    | frame =>
        cases h
        exact .frame
  · intro h
    cases h with
    | mnemonic hname => rw [convert, hname]
    | _ => rfl

theorem convert_eq_error_iff (i : InstructionEntry) (e : Bytecode.Error) :
    i.convert = .error e ↔
      ∃ name, i.mnemonic? = some name ∧ Opcode.ofMnemonic? name = none ∧ .unknownOpcode name = e := by
  cases i with
  | mnemonic name => cases h : Opcode.ofMnemonic? name <;> simp [convert, mnemonic?, h]
  | _ => simp [convert, mnemonic?]

end InstructionEntry

/-! ## Parts that may not be there -/

/-- What is not there is left open, and anything else is fixed to what it stands for. -/
inductive PartDenotes {α β : Type} (R : α → β → Prop) : Option α → Constraint β → Prop
  | missing : PartDenotes R none .any
  | given {a : α} {b : β} : R a b → PartDenotes R (some a) (.exactly b)

variable {α β ε : Type} {f : α → Except ε β} {R : α → β → Prop} {part : Option α} {c : Constraint β} {e : ε}

theorem PartDenotes.isAny_eq (h : PartDenotes R part c) : c.isAny = part.isNone := by
  cases h <;> rfl

theorem convertPart_eq_ok_iff (hR : ∀ a b, f a = .ok b ↔ R a b) :
    convertPart f part = .ok c ↔ PartDenotes R part c := by
  cases part with
  | none =>
      constructor
      · rintro ⟨⟩
        exact .missing
      · rintro ⟨⟩
        rfl
  | some a =>
      rw [convertPart, Except.map_eq_ok_iff]
      constructor
      · rintro ⟨b, hb, rfl⟩
        exact .given ((hR a b).mp hb)
      · rintro (_ | hb)
        exact ⟨_, (hR a _).mpr hb, rfl⟩

theorem convertPart_eq_error_iff : convertPart f part = .error e ↔ ∃ a, part = some a ∧ f a = .error e := by
  cases part with
  | none => simp [convertPart]
  | some a => simp [convertPart, Except.map_eq_error_iff]

theorem exists_convertPart_eq_ok_iff : (∃ c, convertPart f part = .ok c) ↔ ∀ a, part = some a → ∃ b, f a = .ok b := by
  cases part with
  | none => simp [convertPart]
  | some a => simp [convertPart, Except.map_eq_ok_iff]

/-- The items of a part. What is not there has none. -/
def itemsOf {ι : Type} (items : α → List ι) (part : Option α) : List ι :=
  (part.map items).getD []

variable {ι : Type} {items : α → List ι} {p : ι → Prop} {F : ι → ε → Prop}

/-- A part whose first item of some kind makes the fault. -/
theorem convertPart_eq_error_iff_items (h : ∀ a e, f a = .error e ↔ ∃ i, (items a).IsFirst p i ∧ F i e) :
    convertPart f part = .error e ↔ ∃ i, (itemsOf items part).IsFirst p i ∧ F i e := by
  cases part with
  | none =>
      constructor
      · nofun
      · rintro ⟨i, ⟨⟩, -⟩
  | some a => rw [convertPart, Except.map_eq_error_iff, h, itemsOf, Option.map_some, Option.getD_some]

theorem exists_convertPart_eq_ok_iff_items (h : ∀ a e, f a = .error e ↔ ∃ i, (items a).IsFirst p i ∧ F i e)
    (hF : ∀ i, p i → ∃ e, F i e) : (∃ c, convertPart f part = .ok c) ↔ ∀ i ∈ itemsOf items part, ¬p i := by
  have hfails : (∃ e, convertPart f part = .error e) ↔ ∃ i ∈ itemsOf items part, p i := by
    simp only [convertPart_eq_error_iff_items h, ← List.exists_isFirst_iff]
    constructor
    · rintro ⟨e, i, hi, -⟩
      exact ⟨i, hi⟩
    · rintro ⟨i, hi⟩
      obtain ⟨e, he⟩ := hF i hi.holds
      exact ⟨e, i, hi, he⟩
  rw [← not_iff_not, Except.not_exists_eq_ok_iff, hfails]
  simp only [not_forall, exists_prop, not_not]

end MethodSearch.Catalog
