import MethodSearch.Catalog.Parse
import MethodSearch.Proofs.Bytecode.Grammar
import MethodSearch.Proofs.Catalog.Meaning
import MethodSearch.Proofs.Catalog.RoundTrip

/-!
# Catalogs of classes

A catalog is converted as a whole or not at all. It is converted if every method names only flags and mnemonics that
exist and has a descriptor, and then class for class, method for method and instruction for instruction.
-/

namespace MethodSearch.Catalog

open Bytecode

namespace MethodEntry

variable {m : MethodEntry} {n : Method} {owner : String} {source : Bytecode.Error} {e : ConversionError}

def keywords (m : MethodEntry) : List String :=
  itemsOf AccessEntry.keywords m.access

def mnemonics (m : MethodEntry) : List String :=
  m.instructions.filterMap InstructionEntry.mnemonic?

def KeywordsKnown (m : MethodEntry) : Prop :=
  ∀ k ∈ m.keywords, Flag.ofKeyword? k ≠ none

def MnemonicsKnown (m : MethodEntry) : Prop :=
  ∀ name ∈ m.mnemonics, Opcode.ofMnemonic? name ≠ none

def HasDescriptor (m : MethodEntry) : Prop :=
  ∃ t : MethodType, t.WellFormed ∧ t.render = m.descriptor

structure Valid (m : MethodEntry) : Prop where
  keywords : m.KeywordsKnown
  mnemonics : m.MnemonicsKnown
  descriptor : m.HasDescriptor

/-- What is wrong with a method: the access counts before the body, and the descriptor counts last. -/
inductive Faults (m : MethodEntry) : Bytecode.Error → Prop
  | keyword {k : String} : m.keywords.IsFirst (fun k => Flag.ofKeyword? k = none) k → Faults m (.unknownAccessFlag k)
  | mnemonic {name : String} : m.KeywordsKnown →
      m.mnemonics.IsFirst (fun name => Opcode.ofMnemonic? name = none) name → Faults m (.unknownOpcode name)
  | descriptor : m.KeywordsKnown → m.MnemonicsKnown → ¬m.HasDescriptor → Faults m (.invalidDescriptor m.descriptor)

structure Denotes (m : MethodEntry) (n : Method) : Prop where
  name : n.name = m.name
  descriptor : n.descriptor = m.descriptor
  type : n.type.WellFormed
  access : m.access.elim (n.access = .empty) (·.Denotes n.access)
  body : List.Forall₂ InstructionEntry.Denotes m.instructions n.body

def convertAccess (m : MethodEntry) : Except Bytecode.Error Access :=
  match m.access with
  | some a => a.convert
  | none => .ok .empty

theorem convertParts_eq (m : MethodEntry) :
    m.convertParts = m.convertAccess >>= fun access => m.instructions.mapM InstructionEntry.convert >>= fun body =>
      (MethodType.parse m.descriptor).map fun t => ⟨m.name, t.result, t.parameters, access, body⟩ := by
  have hlast (access : Access) (body : List Instruction) :
      (Method.ofDescriptor m.name m.descriptor access >>= fun n => pure { n with body := body }) =
        (MethodType.parse m.descriptor).map fun t => ⟨m.name, t.result, t.parameters, access, body⟩ := by
    rw [Method.ofDescriptor]
    cases MethodType.parse m.descriptor <;> rfl
  rw [convertParts, convertAccess]
  cases m.access with
  | none => simp only [hlast]
  | some a => simp only [hlast]

theorem convertAccess_eq_ok_iff {access : Access} :
    m.convertAccess = .ok access ↔ m.access.elim (access = .empty) (·.Denotes access) := by
  rw [convertAccess]
  cases m.access with
  | none => exact ⟨fun h => (Except.ok.inj h).symm, fun h => congrArg _ h.symm⟩
  | some a => exact a.convert_eq_ok_iff access

theorem convertAccess_eq_error_iff :
    m.convertAccess = .error source ↔
      ∃ k, m.keywords.IsFirst (fun k => Flag.ofKeyword? k = none) k ∧ .unknownAccessFlag k = source := by
  rw [convertAccess, keywords]
  cases m.access with
  | none =>
      constructor
      · nofun
      · rintro ⟨k, ⟨⟩, -⟩
  | some a => exact a.convert_eq_error_iff source

theorem exists_convertAccess_eq_ok_iff : (∃ access, m.convertAccess = .ok access) ↔ m.KeywordsKnown := by
  rw [convertAccess, KeywordsKnown, keywords]
  cases m.access with
  | none => exact iff_of_true ⟨_, rfl⟩ nofun
  | some a => exact a.exists_convert_eq_ok_iff

theorem exists_mapM_instructions_eq_ok_iff :
    (∃ body, m.instructions.mapM InstructionEntry.convert = .ok body) ↔ m.MnemonicsKnown :=
  Except.exists_mapM_eq_ok_iff_part InstructionEntry.convert_eq_error_iff

theorem mapM_instructions_eq_ok_iff {body : List Instruction} :
    m.instructions.mapM InstructionEntry.convert = .ok body ↔
      List.Forall₂ InstructionEntry.Denotes m.instructions body := by
  simp only [Except.mapM_eq_ok_iff, InstructionEntry.convert_eq_ok_iff]

theorem convertParts_eq_ok_iff : m.convertParts = .ok n ↔ m.Denotes n := by
  simp only [convertParts_eq, Except.bind_eq_ok_iff, Except.map_eq_ok_iff, convertAccess_eq_ok_iff,
    mapM_instructions_eq_ok_iff, MethodType.parse_eq_ok_iff]
  constructor
  · rintro ⟨access, haccess, body, hbody, t, ⟨hformed, hrender⟩, rfl⟩
    exact ⟨rfl, hrender, hformed, haccess, hbody⟩
  · rintro ⟨hname, hdescriptor, hformed, haccess, hbody⟩
    exact ⟨n.access, haccess, n.body, hbody, n.type, ⟨hformed, hdescriptor⟩, by rw [← hname]; rfl⟩

theorem convertParts_eq_error_iff : m.convertParts = .error source ↔ m.Faults source := by
  simp only [convertParts_eq, Except.bind_eq_error_iff, Except.map_eq_error_iff, convertAccess_eq_error_iff,
    Except.mapM_eq_error_iff_part InstructionEntry.convert_eq_error_iff, MethodType.parse_eq_error_iff]
  constructor
  · rintro (⟨k, hk, rfl⟩ | ⟨access, haccess, ⟨name, hname, rfl⟩ | ⟨body, hbody, hnone, rfl⟩⟩)
    · exact .keyword hk
    · exact .mnemonic (exists_convertAccess_eq_ok_iff.mp ⟨access, haccess⟩) hname
    · refine .descriptor (exists_convertAccess_eq_ok_iff.mp ⟨access, haccess⟩)
        (exists_mapM_instructions_eq_ok_iff.mp ⟨body, hbody⟩) ?_
      rintro ⟨t, ht, hrender⟩
      exact hnone t ht hrender
  · rintro (hk | ⟨hkeywords, hname⟩ | ⟨hkeywords, hmnemonics, hnone⟩)
    · exact .inl ⟨_, hk, rfl⟩
    · obtain ⟨access, haccess⟩ := exists_convertAccess_eq_ok_iff.mpr hkeywords
      exact .inr ⟨access, haccess, .inl ⟨_, hname, rfl⟩⟩
    · obtain ⟨access, haccess⟩ := exists_convertAccess_eq_ok_iff.mpr hkeywords
      obtain ⟨body, hbody⟩ := exists_mapM_instructions_eq_ok_iff.mpr hmnemonics
      exact .inr ⟨access, haccess, .inr ⟨body, hbody, fun t ht hrender => hnone ⟨t, ht, hrender⟩, rfl⟩⟩

theorem exists_convertParts_eq_ok_iff : (∃ n, m.convertParts = .ok n) ↔ m.Valid := by
  simp only [convertParts_eq, Except.bind_eq_ok_iff, Except.map_eq_ok_iff, MethodType.parse_eq_ok_iff]
  constructor
  · rintro ⟨n, access, haccess, body, hbody, t, ht, -⟩
    exact ⟨exists_convertAccess_eq_ok_iff.mp ⟨access, haccess⟩, exists_mapM_instructions_eq_ok_iff.mp ⟨body, hbody⟩,
      t, ht⟩
  · rintro ⟨hkeywords, hmnemonics, t, ht⟩
    obtain ⟨access, haccess⟩ := exists_convertAccess_eq_ok_iff.mpr hkeywords
    obtain ⟨body, hbody⟩ := exists_mapM_instructions_eq_ok_iff.mpr hmnemonics
    exact ⟨_, access, haccess, body, hbody, t, ht, rfl⟩

theorem convert_eq_ok_iff : m.convert owner = .ok n ↔ m.Denotes n := by
  rw [convert, Except.mapError_eq_ok_iff, convertParts_eq_ok_iff]

theorem convert_eq_error_iff :
    m.convert owner = .error e ↔
      ∃ source, m.Faults source ∧ .classData (owner ++ "." ++ m.name ++ m.descriptor) source = e := by
  simp only [convert, Except.mapError_eq_error_iff, convertParts_eq_error_iff]

theorem exists_convert_eq_ok_iff : (∃ n, m.convert owner = .ok n) ↔ m.Valid := by
  simp only [convert, Except.mapError_eq_ok_iff, exists_convertParts_eq_ok_iff]

end MethodEntry

/-! ## Classes -/

namespace ClassEntry

variable {c : ClassEntry} {d : JavaClass} {e : ConversionError}

def Valid (c : ClassEntry) : Prop :=
  ∀ m ∈ c.methods, m.Valid

structure Denotes (c : ClassEntry) (d : JavaClass) : Prop where
  name : d.name = c.name
  methods : List.Forall₂ MethodEntry.Denotes c.methods d.methods

theorem convert_eq (c : ClassEntry) :
    c.convert = (c.methods.mapM (MethodEntry.convert c.name)).map fun methods => ⟨c.name, methods⟩ := by
  rw [convert]
  cases c.methods.mapM (MethodEntry.convert c.name) <;> rfl

theorem convert_eq_ok_iff : c.convert = .ok d ↔ c.Denotes d := by
  simp only [convert_eq, Except.map_eq_ok_iff, Except.mapM_eq_ok_iff, MethodEntry.convert_eq_ok_iff]
  constructor
  · rintro ⟨methods, hmethods, rfl⟩
    exact ⟨rfl, hmethods⟩
  · rintro ⟨hname, hmethods⟩
    exact ⟨d.methods, hmethods, by rw [← hname]⟩

theorem convert_eq_error_iff :
    c.convert = .error e ↔
      ∃ m source, c.methods.IsFirst (fun m => ¬m.Valid) m ∧ m.Faults source ∧
        .classData (c.name ++ "." ++ m.name ++ m.descriptor) source = e := by
  simp only [convert_eq, Except.map_eq_error_iff, Except.mapM_eq_error_iff, MethodEntry.exists_convert_eq_ok_iff,
    MethodEntry.convert_eq_error_iff, exists_and_left]

theorem exists_convert_eq_ok_iff : (∃ d, c.convert = .ok d) ↔ c.Valid := by
  have hmethods : (∃ methods, c.methods.mapM (MethodEntry.convert c.name) = .ok methods) ↔ c.Valid := by
    simp only [Except.exists_mapM_eq_ok_iff, MethodEntry.exists_convert_eq_ok_iff, Valid]
  rw [← hmethods]
  simp only [convert_eq, Except.map_eq_ok_iff]
  constructor
  · rintro ⟨d, methods, h, -⟩
    exact ⟨methods, h⟩
  · rintro ⟨methods, h⟩
    exact ⟨_, methods, h, rfl⟩

end ClassEntry

/-! ## Catalogs -/

variable {text : String} {entries : List ClassEntry}

theorem parseClasses_eq (h : ClassCatalog.parse text = .ok ⟨entries⟩) :
    parseClasses text = (entries.mapM ClassEntry.convert).mapError .conversion := by
  rw [parseClasses, h]
  rfl

/-- The classes of a catalog that is read as JSON. They are there if and only if every method is valid, and each of them
is what its entry stands for. Otherwise there are none of them, and the fault is that of the first method that is not
valid in the first class that has one. -/
theorem parseClasses_converts (text : String) (entries : List ClassEntry)
    (h : ClassCatalog.parse text = .ok ⟨entries⟩) :
    ((∃ classes, parseClasses text = .ok classes) ↔ ∀ c ∈ entries, ∀ m ∈ c.methods, m.Valid) ∧
      (∀ classes, parseClasses text = .ok classes ↔ List.Forall₂ ClassEntry.Denotes entries classes) ∧
      ∀ e, parseClasses text = .error e ↔
        ∃ c m source, entries.IsFirst (fun c => ¬c.Valid) c ∧ c.methods.IsFirst (fun m => ¬m.Valid) m ∧
          m.Faults source ∧
          e = .conversion (.classData (c.name ++ "." ++ m.name ++ m.descriptor) source) := by
  rw [parseClasses_eq h]
  refine ⟨?_, fun classes => ?_, fun e => ?_⟩
  · simp only [Except.mapError_eq_ok_iff, Except.exists_mapM_eq_ok_iff, ClassEntry.exists_convert_eq_ok_iff,
      ClassEntry.Valid]
  · simp only [Except.mapError_eq_ok_iff, Except.mapM_eq_ok_iff, ClassEntry.convert_eq_ok_iff]
  · simp only [Except.mapError_eq_error_iff, Except.mapM_eq_error_iff, ClassEntry.exists_convert_eq_ok_iff,
      ClassEntry.convert_eq_error_iff]
    constructor
    · rintro ⟨_, ⟨c, hc, m, source, hm, hsource, rfl⟩, rfl⟩
      exact ⟨c, m, source, hc, hm, hsource, rfl⟩
    · rintro ⟨c, m, source, hc, hm, hsource, rfl⟩
      exact ⟨_, ⟨c, hc, m, source, hm, hsource, rfl⟩, rfl⟩

/-- A method with keywords, a mnemonic, a number and a marker. -/
def soundEntry : MethodEntry :=
  ⟨"m", "([La;)I", some (.names ["public", "ACC_Static"]), [.label 0, .mnemonic "iconst_0", .code 172]⟩

/-- A method with an unknown keyword, an unknown mnemonic and no descriptor. -/
def spoiledEntry : MethodEntry :=
  ⟨"n", "(I", some (.names ["final", "loud", "louder"]), [.mnemonic "nope"]⟩

theorem parseClasses_converts_spoiled :
    (∃ classes, parseClasses (ClassCatalog.render ⟨[⟨"a", [soundEntry]⟩]⟩) = .ok classes) ∧
      parseClasses (ClassCatalog.render ⟨[⟨"a", [soundEntry]⟩, ⟨"b", [soundEntry, spoiledEntry]⟩]⟩) =
        .error (.conversion (.classData "b.n(I" (.unknownAccessFlag "loud"))) := by
  have hsound : soundEntry.Valid := by
    refine ⟨?_, ?_, ⟨[.array (.object "a")], .primitive .int⟩, by decide, rfl⟩
    · rw [MethodEntry.KeywordsKnown]
      decide +kernel
    · rw [MethodEntry.MnemonicsKnown]
      decide +kernel
  have hfirst : spoiledEntry.keywords.IsFirst (fun k => Flag.ofKeyword? k = none) "loud" :=
    .behind (by decide +kernel) (.here (by decide +kernel))
  have hspoiled : ¬spoiledEntry.Valid := fun h => h.keywords _ hfirst.mem hfirst.holds
  obtain ⟨haccepted, -, -⟩ := parseClasses_converts _ _ (ClassCatalog.parse_render ⟨[⟨"a", [soundEntry]⟩]⟩)
  obtain ⟨-, -, hrefused⟩ := parseClasses_converts _ _
    (ClassCatalog.parse_render ⟨[⟨"a", [soundEntry]⟩, ⟨"b", [soundEntry, spoiledEntry]⟩]⟩)
  refine ⟨haccepted.mpr ?_, (hrefused _).mpr ⟨⟨"b", [soundEntry, spoiledEntry]⟩, spoiledEntry, _, ?_, ?_,
    .keyword hfirst, rfl⟩⟩
  · simpa using hsound
  · have hvalid : ClassEntry.Valid ⟨"a", [soundEntry]⟩ := by simpa [ClassEntry.Valid] using hsound
    have hinvalid : ¬ClassEntry.Valid ⟨"b", [soundEntry, spoiledEntry]⟩ := by simp [ClassEntry.Valid, hspoiled]
    exact .behind (not_not_intro hvalid) (.here hinvalid)
  · exact .behind (not_not_intro hsound) (.here hspoiled)

end MethodSearch.Catalog
