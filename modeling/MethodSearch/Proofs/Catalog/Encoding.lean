import MethodSearch.Proofs.Bytecode.Descriptors
import MethodSearch.Proofs.Catalog.RoundTrip
import MethodSearch.Proofs.Text.Pieces

/-!
# Catalogs of classes and signatures

Classes and signatures written down as a catalog, with access as a mask and opcodes as numbers. The catalog is converted
back into the same classes and signatures as long as their types have descriptors.
-/

namespace MethodSearch

open Bytecode

/-- The types that the signature asks for have descriptors. -/
structure Signature.WellFormed (s : Signature) : Prop where
  returns : ∀ t, s.returns = .exactly t → t.WellFormed
  parameters : ∀ ts, s.parameters = .exactly ts → ∀ t ∈ ts, t.WellFormed

namespace Catalog

def InstructionEntry.ofInstruction : Instruction → InstructionEntry
  | .op byte => .code byte
  | .label id => .label id
  | .line number => .line number
  | .frame => .frame

def MethodEntry.ofMethod (m : Method) : MethodEntry where
  name := m.name
  descriptor := m.descriptor
  access := some (.mask m.access.bits)
  instructions := m.body.map .ofInstruction

def ClassEntry.ofClass (c : JavaClass) : ClassEntry :=
  ⟨c.name, c.methods.map .ofMethod⟩

def ClassCatalog.ofClasses (classes : List JavaClass) : ClassCatalog :=
  ⟨classes.map .ofClass⟩

/-- Open parts are left out. -/
def SignatureEntry.ofSignature (s : Signature) : SignatureEntry where
  name := s.name
  returns := s.returns.value?.map JavaType.render
  accessors := s.accessors.value?.map fun a => .mask a.bits
  parameters := s.parameters.value?.map (·.map JavaType.render)
  opcodes := s.opcodes.value?.map fun p => p.opcodes.map .code

def SignatureCatalog.ofSignatures (signatures : List Signature) : SignatureCatalog :=
  ⟨signatures.map .ofSignature⟩

theorem InstructionEntry.convert_ofInstruction (i : Instruction) : (ofInstruction i).convert = .ok i := by
  cases i <;> rfl

theorem InstructionEntry.mapM_convert (body : List Instruction) : (body.map ofInstruction).mapM convert = .ok body :=
  Text.mapM_map fun i _ => convert_ofInstruction i

theorem MethodEntry.convert_ofMethod {m : Method} (h : m.type.WellFormed) (owner : String) :
    (ofMethod m).convert owner = .ok m := by
  have hparts : (ofMethod m).convertParts = .ok m := by
    rw [convertParts]
    simp only [ofMethod, AccessEntry.convert, InstructionEntry.mapM_convert, Method.ofDescriptor, Method.descriptor,
      MethodType.parse_render h]
    rfl
  rw [convert, hparts]
  rfl

theorem ClassEntry.convert_ofClass {c : JavaClass} (h : ∀ m ∈ c.methods, m.type.WellFormed) :
    (ofClass c).convert = .ok c := by
  have hmethods : (c.methods.map MethodEntry.ofMethod).mapM (·.convert c.name) = .ok c.methods := by
    exact Text.mapM_map fun m hm => MethodEntry.convert_ofMethod (h m hm) c.name
  rw [convert, ofClass, hmethods]
  rfl

theorem ClassCatalog.convert_ofClasses {classes : List JavaClass}
    (h : ∀ c ∈ classes, ∀ m ∈ c.methods, m.type.WellFormed) : (ofClasses classes).convert = .ok classes :=
  Text.mapM_map fun c hc => ClassEntry.convert_ofClass (h c hc)

/-- A part that was left out is open, and another one is converted back. -/
theorem convertPart_value? {α β ε : Type} {f : β → Except ε α} {write : α → β} {c : Constraint α}
    (h : ∀ a, c = .exactly a → f (write a) = .ok a) : convertPart f (c.value?.map write) = .ok c := by
  cases c with
  | any => rfl
  | exactly a =>
      show (f (write a)).map _ = _
      rw [h a rfl]
      rfl

theorem SignatureEntry.convert_ofSignature {s : Signature} (h : s.WellFormed) : (ofSignature s).convert = .ok s := by
  have hreturns : convertPart JavaType.parse (ofSignature s).returns = .ok s.returns :=
    convertPart_value? fun t ht => JavaType.parse_render (h.returns t ht)
  have haccessors : convertPart AccessEntry.convert (ofSignature s).accessors = .ok s.accessors :=
    convertPart_value? fun a _ => rfl
  have hparameters : convertPart (·.mapM JavaType.parse) (ofSignature s).parameters = .ok s.parameters :=
    convertPart_value? fun ts hts => JavaType.mapM_parse (h.parameters ts hts)
  have hopcodes : convertPart (fun es => (es.mapM OpcodeEntry.convert).map Pattern.mk) (ofSignature s).opcodes =
      .ok s.opcodes := by
    refine convertPart_value? fun p _ => ?_
    have hcodes : (p.opcodes.map OpcodeEntry.code).mapM OpcodeEntry.convert = .ok p.opcodes :=
      Text.mapM_map fun _ _ => rfl
    rw [hcodes]
    rfl
  rw [convert, hreturns, haccessors, hparameters, hopcodes]
  rfl

/-- Names that hold more than blanks and differ from each other pass the check. -/
theorem convertSignatures_ofSignatures {signatures : List Signature} {seen : List String}
    (hnames : (signatures.map (·.name)).Nodup) (hseen : ∀ s ∈ signatures, s.name ∉ seen)
    (hblank : ∀ s ∈ signatures, ∃ c ∈ s.name.toList, Text.isBlank c = false)
    (hformed : ∀ s ∈ signatures, s.WellFormed) :
    convertSignatures seen (signatures.map .ofSignature) = (.ok signatures, signatures.flatMap warnings) := by
  induction signatures generalizing seen with
  | nil => rfl
  | cons s signatures ih =>
      rw [List.map_cons, List.nodup_cons] at hnames
      rw [List.forall_mem_cons] at hseen hblank hformed
      have hcheck : (SignatureEntry.ofSignature s).check seen = .ok () := by
        show (if (Text.trim s.name).isEmpty then _ else if s.name ∈ seen then _ else _) = _
        rw [Text.trim_isEmpty_of_not_blank hblank.1, if_neg Bool.false_ne_true, if_neg hseen.1]
      have hrest : convertSignatures (s.name :: seen) (signatures.map .ofSignature) =
          (.ok signatures, signatures.flatMap warnings) := by
        refine ih hnames.2 ?_ hblank.2 hformed.2
        intro t ht hmem
        rcases List.mem_cons.mp hmem with he | hmem
        · exact hnames.1 (he ▸ List.mem_map_of_mem ht)
        · exact hseen.2 t ht hmem
      have hconvert : (((SignatureEntry.ofSignature s).check seen).bind fun _ =>
          (SignatureEntry.ofSignature s).convert) = .ok s := by
        rw [hcheck]
        exact SignatureEntry.convert_ofSignature hformed.1
      rw [List.map_cons, convertSignatures, hconvert]
      simp only [SignatureEntry.ofSignature] at hrest ⊢
      rw [hrest, List.flatMap_cons]
      rfl

/-! ## Whole catalogs -/

theorem parseClasses_ofClasses {classes : List JavaClass}
    (h : ∀ c ∈ classes, ∀ m ∈ c.methods, m.type.WellFormed) :
    parseClasses (ClassCatalog.ofClasses classes).render = .ok classes := by
  rw [parseClasses, ClassCatalog.parse_render]
  show (ClassCatalog.ofClasses classes).convert.mapError _ = _
  rw [ClassCatalog.convert_ofClasses h]
  rfl

theorem parseSignatures_ofSignatures {signatures : List Signature} (hnames : (signatures.map (·.name)).Nodup)
    (hblank : ∀ s ∈ signatures, ∃ c ∈ s.name.toList, Text.isBlank c = false)
    (hformed : ∀ s ∈ signatures, s.WellFormed) :
    parseSignatures (SignatureCatalog.ofSignatures signatures).render =
      (.ok signatures, signatures.flatMap warnings) := by
  have hconvert : (SignatureCatalog.ofSignatures signatures).convert =
      (.ok signatures, signatures.flatMap warnings) :=
    convertSignatures_ofSignatures hnames (fun _ _ => List.not_mem_nil) hblank hformed
  rw [parseSignatures, SignatureCatalog.parse_render]
  simp only [hconvert]
  rfl

/-- Classes are read back from the text of their catalog if the types of their methods have descriptors. So are
signatures, if theirs have and no name is blank or stands twice, with the warnings that are due to them. -/
theorem catalogs_lose_nothing :
    (∀ classes : List JavaClass, (∀ c ∈ classes, ∀ m ∈ c.methods, m.type.WellFormed) →
        parseClasses (ClassCatalog.ofClasses classes).render = .ok classes) ∧
      (∀ signatures : List Signature, (signatures.map (·.name)).Nodup →
        (∀ s ∈ signatures, ∃ c ∈ s.name.toList, Text.isBlank c = false) →
        (∀ s ∈ signatures, s.WellFormed) →
        parseSignatures (SignatureCatalog.ofSignatures signatures).render =
          (.ok signatures, signatures.flatMap warnings)) :=
  ⟨fun _ h => parseClasses_ofClasses h,
    fun _ hnames hblank hformed => parseSignatures_ofSignatures hnames hblank hformed⟩

/-- A class whose method has flags without a name, an opcode without a mnemonic and every kind of marker. -/
def oddClass : JavaClass :=
  ⟨"\"a\\b", [⟨"m", .void, [.array (.object "b/C"), .primitive .long], ⟨0xe001⟩,
    [.label 0, .line 4294967295, .op 254, .frame]⟩]⟩

/-- Signatures with a void parameter, with an empty pattern and empty parameters, and without constraints. -/
def oddSignatures : List Signature :=
  [⟨" s", .exactly (.array (.primitive .int)), .exactly ⟨0⟩, .exactly [.void], .exactly ⟨[254, 0]⟩⟩,
    ⟨"s", .exactly .void, .any, .exactly [], .exactly ⟨[]⟩⟩, .unconstrained "s "]

theorem catalogs_lose_nothing_odd :
    (∀ c ∈ [oddClass], ∀ m ∈ c.methods, m.type.WellFormed) ∧
      (oddSignatures.map (·.name)).Nodup ∧
      (∀ s ∈ oddSignatures, ∃ c ∈ s.name.toList, Text.isBlank c = false) ∧
      (∀ s ∈ oddSignatures, s.WellFormed) ∧
      parseClasses (ClassCatalog.ofClasses [oddClass]).render = .ok [oddClass] ∧
      parseSignatures (SignatureCatalog.ofSignatures oddSignatures).render =
        (.ok oddSignatures, [.emptyPattern "s", .noConstraints "s "]) := by
  have hclass : ∀ c ∈ [oddClass], ∀ m ∈ c.methods, m.type.WellFormed := by decide
  have hnames : (oddSignatures.map (·.name)).Nodup := by decide
  have hletter : ∀ s ∈ oddSignatures, 's' ∈ s.name.toList := by decide
  have hblank : ∀ s ∈ oddSignatures, ∃ c ∈ s.name.toList, Text.isBlank c = false :=
    fun s hs => ⟨'s', hletter s hs, by decide⟩
  have hformed : ∀ s ∈ oddSignatures, s.WellFormed := by
    simp only [oddSignatures, List.forall_mem_cons]
    refine ⟨⟨?_, ?_⟩, ⟨?_, ?_⟩, ⟨nofun, nofun⟩, nofun⟩
    all_goals
      rintro _ ⟨⟩
      decide
  have hwarnings : oddSignatures.flatMap warnings = [.emptyPattern "s", .noConstraints "s "] := by decide
  obtain ⟨hclasses, hsignatures⟩ := catalogs_lose_nothing
  exact ⟨hclass, hnames, hblank, hformed, hclasses _ hclass,
    hwarnings ▸ hsignatures _ hnames hblank hformed⟩

end Catalog

end MethodSearch
