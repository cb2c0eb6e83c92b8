import MethodSearch.Catalog.Parse
import MethodSearch.Proofs.Catalog.Meaning
import MethodSearch.Proofs.Catalog.RoundTrip

/-!
# Catalogs of signatures

A catalog is converted if its names are not blank and differ from each other, and every part that is there is read. The
first entry that breaks this is reported, and the entries before it are warned about as if they stood alone.
-/

namespace MethodSearch.Catalog

open Bytecode

namespace SignatureEntry

variable {s : SignatureEntry} {t : Signature} {seen : List String} {e : ConversionError}

def keywords (s : SignatureEntry) : List String :=
  itemsOf AccessEntry.keywords s.accessors

def mnemonics (s : SignatureEntry) : List String :=
  itemsOf (·.filterMap OpcodeEntry.mnemonic?) s.opcodes

def IsType (text : String) : Prop :=
  ∃ t, JavaType.parse text = .ok t

def ReturnsRead (s : SignatureEntry) : Prop :=
  ∀ text, s.returns = some text → IsType text

def KeywordsKnown (s : SignatureEntry) : Prop :=
  ∀ k ∈ s.keywords, Flag.ofKeyword? k ≠ none

def ParametersRead (s : SignatureEntry) : Prop :=
  ∀ text ∈ itemsOf id s.parameters, IsType text

def MnemonicsKnown (s : SignatureEntry) : Prop :=
  ∀ name ∈ s.mnemonics, Opcode.ofMnemonic? name ≠ none

structure Converts (s : SignatureEntry) : Prop where
  returns : s.ReturnsRead
  accessors : s.KeywordsKnown
  parameters : s.ParametersRead
  opcodes : s.MnemonicsKnown

/-- What is wrong with the parts of an entry, in the order in which they are read. -/
inductive Faults (s : SignatureEntry) : ConversionError → Prop
  | returns {text : String} {source : Bytecode.Error} : s.returns = some text → JavaType.parse text = .error source →
      Faults s (.classData ("signature " ++ s.name) source)
  | accessors {k : String} : s.ReturnsRead → s.keywords.IsFirst (fun k => Flag.ofKeyword? k = none) k →
      Faults s (.classData ("signature " ++ s.name) (.unknownAccessFlag k))
  | parameters {text : String} {source : Bytecode.Error} : s.ReturnsRead → s.KeywordsKnown →
      (itemsOf id s.parameters).IsFirst (fun text => ¬IsType text) text → JavaType.parse text = .error source →
      Faults s (.classData ("signature " ++ s.name) source)
  | opcodes {name : String} : s.ReturnsRead → s.KeywordsKnown → s.ParametersRead →
      s.mnemonics.IsFirst (fun name => Opcode.ofMnemonic? name = none) name →
      Faults s (.pattern ("signature " ++ s.name) (.invalidToken name))

def IsNamed (s : SignatureEntry) : Prop :=
  ∃ c ∈ s.name.toList, Text.isBlank c = false

/-- What is wrong with an entry behind others with these names. -/
inductive Offends (seen : List String) (s : SignatureEntry) : ConversionError → Prop
  | blank : ¬s.IsNamed → Offends seen s .emptySignatureName
  | duplicate : s.IsNamed → s.name ∈ seen → Offends seen s (.duplicateSignature s.name)
  | part {e : ConversionError} : s.IsNamed → s.name ∉ seen → s.Faults e → Offends seen s e

structure Denotes (s : SignatureEntry) (t : Signature) : Prop where
  name : t.name = s.name
  returns : PartDenotes (fun text type => JavaType.parse text = .ok type) s.returns t.returns
  accessors : PartDenotes AccessEntry.Denotes s.accessors t.accessors
  parameters : PartDenotes (List.Forall₂ fun text type => JavaType.parse text = .ok type) s.parameters t.parameters
  opcodes : PartDenotes (fun codes p => List.Forall₂ OpcodeEntry.Denotes codes p.opcodes) s.opcodes t.opcodes

/-- What is said about an entry that any method fits. -/
def warning? (s : SignatureEntry) : Option Warning :=
  if s.opcodes = some [] then some (.emptyPattern s.name)
  else if s.returns = none ∧ s.accessors = none ∧ s.parameters = none ∧ s.opcodes = none then
    some (.noConstraints s.name)
  else none

def readOpcodes (codes : List OpcodeEntry) : Except Pattern.Error Pattern :=
  (codes.mapM OpcodeEntry.convert).map Pattern.mk

theorem readOpcodes_eq_ok_iff (codes : List OpcodeEntry) (p : Pattern) :
    readOpcodes codes = .ok p ↔ List.Forall₂ OpcodeEntry.Denotes codes p.opcodes := by
  simp only [readOpcodes, Except.map_eq_ok_iff, Except.mapM_eq_ok_iff, OpcodeEntry.convert_eq_ok_iff]
  constructor
  · rintro ⟨opcodes, h, rfl⟩
    exact h
  · exact fun h => ⟨p.opcodes, h, rfl⟩

theorem readOpcodes_eq_error_iff (codes : List OpcodeEntry) (e : Pattern.Error) :
    readOpcodes codes = .error e ↔
      ∃ name, (codes.filterMap OpcodeEntry.mnemonic?).IsFirst (fun name => Opcode.ofMnemonic? name = none) name ∧
        .invalidToken name = e := by
  rw [readOpcodes, Except.map_eq_error_iff, Except.mapM_eq_error_iff_part OpcodeEntry.convert_eq_error_iff]

theorem readTypes_eq_error_iff (texts : List String) (e : Bytecode.Error) :
    texts.mapM JavaType.parse = .error e ↔
      ∃ text, (id texts).IsFirst (fun text => ¬IsType text) text ∧ JavaType.parse text = .error e :=
  Except.mapM_eq_error_iff

theorem exists_convertReturns_eq_ok_iff : (∃ c, convertPart JavaType.parse s.returns = .ok c) ↔ s.ReturnsRead :=
  exists_convertPart_eq_ok_iff

theorem exists_convertAccessors_eq_ok_iff :
    (∃ c, convertPart AccessEntry.convert s.accessors = .ok c) ↔ s.KeywordsKnown :=
  exists_convertPart_eq_ok_iff_items AccessEntry.convert_eq_error_iff fun _ _ => ⟨_, rfl⟩

theorem exists_convertParameters_eq_ok_iff :
    (∃ c, convertPart (List.mapM JavaType.parse) s.parameters = .ok c) ↔ s.ParametersRead := by
  rw [exists_convertPart_eq_ok_iff_items readTypes_eq_error_iff fun _ h => Except.not_exists_eq_ok_iff.mp h]
  simp only [ParametersRead, not_not]

theorem exists_convertOpcodes_eq_ok_iff : (∃ c, convertPart readOpcodes s.opcodes = .ok c) ↔ s.MnemonicsKnown :=
  exists_convertPart_eq_ok_iff_items readOpcodes_eq_error_iff fun _ _ => ⟨_, rfl⟩

/-! ## The whole entry -/

theorem convert_eq (s : SignatureEntry) :
    s.convert =
      (convertPart JavaType.parse s.returns).mapError (.classData s.context) >>= fun returns =>
      (convertPart AccessEntry.convert s.accessors).mapError (.classData s.context) >>= fun accessors =>
      (convertPart (List.mapM JavaType.parse) s.parameters).mapError (.classData s.context) >>= fun parameters =>
      ((convertPart readOpcodes s.opcodes).mapError (.pattern s.context)).map fun opcodes =>
        ⟨s.name, returns, accessors, parameters, opcodes⟩ :=
  rfl

theorem convert_eq_ok_iff : s.convert = .ok t ↔ s.Denotes t := by
  simp only [convert_eq, Except.bind_eq_ok_iff, Except.map_eq_ok_iff, Except.mapError_eq_ok_iff,
    convertPart_eq_ok_iff AccessEntry.convert_eq_ok_iff, convertPart_eq_ok_iff readOpcodes_eq_ok_iff,
    convertPart_eq_ok_iff fun _ _ => Except.mapM_eq_ok_iff (f := JavaType.parse),
    convertPart_eq_ok_iff (f := JavaType.parse) fun _ _ => Iff.rfl]
  constructor
  · rintro ⟨returns, hreturns, accessors, haccessors, parameters, hparameters, opcodes, hopcodes, rfl⟩
    exact ⟨rfl, hreturns, haccessors, hparameters, hopcodes⟩
  · rintro ⟨hname, hreturns, haccessors, hparameters, hopcodes⟩
    exact ⟨_, hreturns, _, haccessors, _, hparameters, _, hopcodes, by rw [← hname]⟩

theorem convert_eq_error_iff : s.convert = .error e ↔ s.Faults e := by
  simp only [convert_eq, Except.bind_eq_error_iff, Except.map_eq_error_iff, Except.mapError_eq_ok_iff,
    Except.mapError_eq_error_iff, convertPart_eq_error_iff_items AccessEntry.convert_eq_error_iff,
    convertPart_eq_error_iff_items readTypes_eq_error_iff, convertPart_eq_error_iff_items readOpcodes_eq_error_iff,
    convertPart_eq_error_iff (f := JavaType.parse)]
  constructor
  · rintro (⟨source, ⟨text, htext, hsource⟩, rfl⟩ | ⟨returns, hreturns, h⟩)
    · exact .returns htext hsource
    have hreturns := exists_convertReturns_eq_ok_iff.mp ⟨returns, hreturns⟩
    rcases h with ⟨_, ⟨k, hk, rfl⟩, rfl⟩ | ⟨accessors, haccessors, h⟩
    · exact .accessors hreturns hk
    have haccessors := exists_convertAccessors_eq_ok_iff.mp ⟨accessors, haccessors⟩
    rcases h with ⟨source, ⟨text, htext, hsource⟩, rfl⟩ | ⟨parameters, hparameters, _, ⟨name, hname, rfl⟩, rfl⟩
    · exact .parameters hreturns haccessors htext hsource
    · exact .opcodes hreturns haccessors (exists_convertParameters_eq_ok_iff.mp ⟨parameters, hparameters⟩) hname
  · rintro (⟨htext, hsource⟩ | ⟨hreturns, hk⟩ | ⟨hreturns, haccessors, htext, hsource⟩ |
      ⟨hreturns, haccessors, hparameters, hname⟩)
    · exact .inl ⟨_, ⟨_, htext, hsource⟩, rfl⟩
    all_goals
      obtain ⟨returns, hreturns⟩ := exists_convertReturns_eq_ok_iff.mpr hreturns
      refine .inr ⟨returns, hreturns, ?_⟩
    · exact .inl ⟨_, ⟨_, hk, rfl⟩, rfl⟩
    all_goals
      obtain ⟨accessors, haccessors⟩ := exists_convertAccessors_eq_ok_iff.mpr haccessors
      refine .inr ⟨accessors, haccessors, ?_⟩
    · exact .inl ⟨_, ⟨_, htext, hsource⟩, rfl⟩
    · obtain ⟨parameters, hparameters⟩ := exists_convertParameters_eq_ok_iff.mpr hparameters
      exact .inr ⟨parameters, hparameters, _, ⟨_, hname, rfl⟩, rfl⟩

theorem exists_denotes_iff : (∃ t, s.Denotes t) ↔ s.Converts := by
  simp only [← convert_eq_ok_iff, convert_eq, Except.bind_eq_ok_iff, Except.map_eq_ok_iff, Except.mapError_eq_ok_iff]
  constructor
  · rintro ⟨t, returns, hreturns, accessors, haccessors, parameters, hparameters, opcodes, hopcodes, -⟩
    exact ⟨exists_convertReturns_eq_ok_iff.mp ⟨returns, hreturns⟩,
      exists_convertAccessors_eq_ok_iff.mp ⟨accessors, haccessors⟩,
      exists_convertParameters_eq_ok_iff.mp ⟨parameters, hparameters⟩,
      exists_convertOpcodes_eq_ok_iff.mp ⟨opcodes, hopcodes⟩⟩
  · rintro ⟨hreturns, haccessors, hparameters, hopcodes⟩
    obtain ⟨returns, hreturns⟩ := exists_convertReturns_eq_ok_iff.mpr hreturns
    obtain ⟨accessors, haccessors⟩ := exists_convertAccessors_eq_ok_iff.mpr haccessors
    obtain ⟨parameters, hparameters⟩ := exists_convertParameters_eq_ok_iff.mpr hparameters
    obtain ⟨opcodes, hopcodes⟩ := exists_convertOpcodes_eq_ok_iff.mpr hopcodes
    exact ⟨_, returns, hreturns, accessors, haccessors, parameters, hparameters, opcodes, hopcodes, rfl⟩

/-- The reading of one entry of a catalog. -/
def read (seen : List String) (s : SignatureEntry) : Except ConversionError Signature :=
  (s.check seen).bind fun _ => s.convert

theorem read_of_blank (h : ¬s.IsNamed) : s.read seen = .error .emptySignatureName := by
  rw [read, check, if_pos (Text.trim_isEmpty_iff.mpr h)]
  rfl

theorem read_of_duplicate (h : s.IsNamed) (hseen : s.name ∈ seen) :
    s.read seen = .error (.duplicateSignature s.name) := by
  rw [read, check, if_neg fun htrim => Text.trim_isEmpty_iff.mp htrim h, if_pos hseen]
  rfl

theorem read_of_new (h : s.IsNamed) (hseen : s.name ∉ seen) : s.read seen = s.convert := by
  rw [read, check, if_neg fun htrim => Text.trim_isEmpty_iff.mp htrim h, if_neg hseen]
  rfl

theorem read_eq_ok_iff : s.read seen = .ok t ↔ s.IsNamed ∧ s.name ∉ seen ∧ s.Denotes t := by
  by_cases hnamed : s.IsNamed
  · by_cases hseen : s.name ∈ seen
    · simp [read_of_duplicate hnamed hseen, hseen]
    · simp [read_of_new hnamed hseen, hnamed, hseen, convert_eq_ok_iff]
  · simp [read_of_blank hnamed, hnamed]

theorem read_eq_error_iff : s.read seen = .error e ↔ s.Offends seen e := by
  constructor
  · intro h
    by_cases hnamed : s.IsNamed
    · by_cases hseen : s.name ∈ seen
      · cases (read_of_duplicate hnamed hseen).symm.trans h
        exact .duplicate hnamed hseen
      · rw [read_of_new hnamed hseen] at h
        exact .part hnamed hseen (convert_eq_error_iff.mp h)
    · cases (read_of_blank hnamed).symm.trans h
      exact .blank hnamed
  · rintro (hnamed | ⟨hnamed, hseen⟩ | ⟨hnamed, hseen, hfaults⟩)
    · exact read_of_blank hnamed
    · exact read_of_duplicate hnamed hseen
    · rw [read_of_new hnamed hseen]
      exact convert_eq_error_iff.mpr hfaults

theorem Denotes.opcodes_eq_empty_iff (h : s.Denotes t) : t.opcodes = .exactly ⟨[]⟩ ↔ s.opcodes = some [] := by
  obtain ⟨-, -, -, -, hopcodes⟩ := h
  generalize s.opcodes = part, t.opcodes = opcodes at hopcodes ⊢
  cases hopcodes with
  | missing => simp
  | @given codes p hcodes =>
      rw [Constraint.exactly.injEq, Pattern.mk.injEq, Option.some.injEq, ← List.length_eq_zero_iff,
        ← List.length_eq_zero_iff, hcodes.length_eq]

theorem Denotes.isUnconstrained_iff (h : s.Denotes t) :
    t.isUnconstrained = true ↔
      s.returns = none ∧ s.accessors = none ∧ s.parameters = none ∧ s.opcodes = none := by
  obtain ⟨-, hreturns, haccessors, hparameters, hopcodes⟩ := h
  simp [Signature.isUnconstrained, hreturns.isAny_eq, haccessors.isAny_eq, hparameters.isAny_eq, hopcodes.isAny_eq,
    and_assoc]

theorem Denotes.warnings_eq (h : s.Denotes t) : warnings t = s.warning?.toList := by
  rw [warnings, warning?]
  by_cases hempty : s.opcodes = some []
  · have hconstrained : ¬t.isUnconstrained = true := by
      rw [h.isUnconstrained_iff, hempty]
      simp
    rw [if_pos (h.opcodes_eq_empty_iff.mpr hempty), if_pos hempty, if_neg hconstrained, h.name]
    rfl
  · rw [if_neg (mt h.opcodes_eq_empty_iff.mp hempty), if_neg hempty]
    by_cases hopen : s.returns = none ∧ s.accessors = none ∧ s.parameters = none ∧ s.opcodes = none
    · rw [if_pos (h.isUnconstrained_iff.mpr hopen), if_pos hopen, h.name]
      rfl
    · rw [if_neg (mt h.isUnconstrained_iff.mp hopen), if_neg hopen]
      rfl

theorem Offends.congr {seen' : List String} (hseen : ∀ name, name ∈ seen ↔ name ∈ seen') (h : s.Offends seen e) :
    s.Offends seen' e := by
  cases h with
  | blank hnamed => exact .blank hnamed
  | duplicate hnamed hmem => exact .duplicate hnamed ((hseen _).mp hmem)
  | part hnamed hnew hfaults => exact .part hnamed (mt (hseen _).mpr hnew) hfaults

end SignatureEntry

/-! ## Entries one after another -/

section Run

variable {s : SignatureEntry} {t : Signature} {seen : List String} {e : ConversionError} {entries : List SignatureEntry}
  {signatures : List Signature} {ws : List Warning}

structure AcceptedBehind (seen : List String) (entries : List SignatureEntry) : Prop where
  named : ∀ s ∈ entries, s.IsNamed
  fresh : ∀ s ∈ entries, s.name ∉ seen
  distinct : (entries.map (·.name)).Nodup
  converts : ∀ s ∈ entries, s.Converts

theorem acceptedBehind_cons_iff :
    AcceptedBehind seen (s :: entries) ↔
      (s.IsNamed ∧ s.name ∉ seen ∧ s.Converts) ∧ AcceptedBehind (s.name :: seen) entries := by
  constructor
  · rintro ⟨hnamed, hfresh, hdistinct, hconverts⟩
    rw [List.forall_mem_cons] at hnamed hfresh hconverts
    rw [List.map_cons, List.nodup_cons] at hdistinct
    refine ⟨⟨hnamed.1, hfresh.1, hconverts.1⟩, hnamed.2, fun u hu => ?_, hdistinct.2, hconverts.2⟩
    rw [List.mem_cons, not_or]
    exact ⟨fun hname => hdistinct.1 (hname ▸ List.mem_map_of_mem hu), hfresh.2 u hu⟩
  · rintro ⟨⟨hnamed, hnew, hconverts⟩, hrest⟩
    refine ⟨List.forall_mem_cons.mpr ⟨hnamed, hrest.named⟩, List.forall_mem_cons.mpr ⟨hnew, fun u hu hmem => ?_⟩,
      List.nodup_cons.mpr ⟨?_, hrest.distinct⟩, List.forall_mem_cons.mpr ⟨hconverts, hrest.converts⟩⟩
    · exact hrest.fresh u hu (List.mem_cons_of_mem _ hmem)
    · intro hmem
      obtain ⟨u, hu, hname⟩ := List.mem_map.mp hmem
      exact hrest.fresh u hu (hname ▸ List.mem_cons_self)

theorem acceptedBehind_nil : AcceptedBehind seen [] :=
  ⟨nofun, nofun, .nil, nofun⟩

theorem filterMap_warning?_cons (h : s.Denotes t) :
    (s :: entries).filterMap SignatureEntry.warning? =
      warnings t ++ entries.filterMap SignatureEntry.warning? := by
  rw [h.warnings_eq, List.filterMap_cons]
  cases s.warning? <;> rfl

theorem convertSignatures_cons_of_ok {result : Except ConversionError (List Signature)} (h : s.read seen = .ok t)
    (hrest : convertSignatures (s.name :: seen) entries = (result, ws)) :
    convertSignatures seen (s :: entries) = (result.map (t :: ·), warnings t ++ ws) := by
  rw [SignatureEntry.read] at h
  rw [convertSignatures, h, hrest]

theorem convertSignatures_cons_of_error (h : s.read seen = .error e) :
    convertSignatures seen (s :: entries) = (.error e, []) := by
  rw [SignatureEntry.read] at h
  rw [convertSignatures, h]

theorem convertSignatures_eq_ok_iff :
    convertSignatures seen entries = (.ok signatures, ws) ↔
      AcceptedBehind seen entries ∧ List.Forall₂ SignatureEntry.Denotes entries signatures ∧
        ws = entries.filterMap SignatureEntry.warning? := by
  induction entries generalizing seen signatures ws with
  | nil =>
      constructor
      · rintro ⟨⟩
        exact ⟨acceptedBehind_nil, .nil, rfl⟩
      · rintro ⟨-, ⟨⟩, rfl⟩
        rfl
  | cons s entries ih =>
      constructor
      · intro h
        cases hread : s.read seen with
        | error e => cases (convertSignatures_cons_of_error hread).symm.trans h
        | ok t =>
            obtain ⟨hnamed, hnew, hdenotes⟩ := SignatureEntry.read_eq_ok_iff.mp hread
            rcases hrest : convertSignatures (s.name :: seen) entries with ⟨result, ws'⟩
            rw [convertSignatures_cons_of_ok hread hrest, Prod.mk.injEq, Except.map_eq_ok_iff] at h
            obtain ⟨⟨rest, rfl, rfl⟩, rfl⟩ := h
            obtain ⟨haccepted, hall, rfl⟩ := ih.mp hrest
            have hconverts := SignatureEntry.exists_denotes_iff.mp ⟨t, hdenotes⟩
            exact ⟨acceptedBehind_cons_iff.mpr ⟨⟨hnamed, hnew, hconverts⟩, haccepted⟩, .cons hdenotes hall,
              (filterMap_warning?_cons hdenotes).symm⟩
      · rintro ⟨haccepted, hall, rfl⟩
        obtain ⟨⟨hnamed, hnew, -⟩, haccepted⟩ := acceptedBehind_cons_iff.mp haccepted
        obtain ⟨t, rest, hdenotes, hrest, rfl⟩ := List.forall₂_cons_left_iff.mp hall
        rw [filterMap_warning?_cons hdenotes]
        exact convertSignatures_cons_of_ok (SignatureEntry.read_eq_ok_iff.mpr ⟨hnamed, hnew, hdenotes⟩)
          (ih.mpr ⟨haccepted, hrest, rfl⟩)

/-- The entries behind the fault are not looked at, and the entries before it are warned about. -/
theorem convertSignatures_eq_error_iff :
    convertSignatures seen entries = (.error e, ws) ↔
      ∃ front s back, entries = front ++ s :: back ∧ AcceptedBehind seen front ∧
        s.Offends (front.map (·.name) ++ seen) e ∧ ws = front.filterMap SignatureEntry.warning? := by
  induction entries generalizing seen ws with
  | nil =>
      constructor
      · nofun
      · rintro ⟨front, s, back, h, -⟩
        simp at h
  | cons s entries ih =>
      -- The names are collected last one first, but only which ones were seen matters.
      have hbehind {front : List SignatureEntry} (name : String) :
          name ∈ front.map (·.name) ++ s.name :: seen ↔ name ∈ (s :: front).map (·.name) ++ seen := by
        simp only [List.map_cons, List.mem_append, List.mem_cons]
        tauto
      constructor
      · intro h
        cases hread : s.read seen with
        | error e' =>
            cases (convertSignatures_cons_of_error hread).symm.trans h
            exact ⟨[], s, entries, rfl, acceptedBehind_nil, SignatureEntry.read_eq_error_iff.mp hread, rfl⟩
        | ok t =>
            obtain ⟨hnamed, hnew, hdenotes⟩ := SignatureEntry.read_eq_ok_iff.mp hread
            rcases hrest : convertSignatures (s.name :: seen) entries with ⟨result, ws'⟩
            rw [convertSignatures_cons_of_ok hread hrest, Prod.mk.injEq, Except.map_eq_error_iff] at h
            obtain ⟨rfl, rfl⟩ := h
            obtain ⟨front, u, back, rfl, haccepted, hoffends, rfl⟩ := ih.mp hrest
            have hconverts := SignatureEntry.exists_denotes_iff.mp ⟨t, hdenotes⟩
            exact ⟨s :: front, u, back, rfl, acceptedBehind_cons_iff.mpr ⟨⟨hnamed, hnew, hconverts⟩, haccepted⟩,
              hoffends.congr hbehind, (filterMap_warning?_cons hdenotes).symm⟩
      · rintro ⟨front, u, back, heq, haccepted, hoffends, rfl⟩
        cases front with
        | nil =>
            cases heq
            exact convertSignatures_cons_of_error (SignatureEntry.read_eq_error_iff.mpr hoffends)
        | cons s' front =>
            cases heq
            obtain ⟨⟨hnamed, hnew, hconverts⟩, haccepted⟩ := acceptedBehind_cons_iff.mp haccepted
            obtain ⟨t, hdenotes⟩ := SignatureEntry.exists_denotes_iff.mpr hconverts
            rw [filterMap_warning?_cons hdenotes]
            exact convertSignatures_cons_of_ok (SignatureEntry.read_eq_ok_iff.mpr ⟨hnamed, hnew, hdenotes⟩)
              (ih.mpr ⟨front, u, back, rfl, haccepted, hoffends.congr fun name => (hbehind name).symm, rfl⟩)

end Run

/-! ## Catalogs -/

/-- The entries are named differently, and all of them are converted. -/
structure Accepted (entries : List SignatureEntry) : Prop where
  named : ∀ s ∈ entries, s.IsNamed
  distinct : (entries.map (·.name)).Nodup
  converts : ∀ s ∈ entries, s.Converts

theorem acceptedBehind_nil_iff {entries : List SignatureEntry} : AcceptedBehind [] entries ↔ Accepted entries :=
  ⟨fun h => ⟨h.named, h.distinct, h.converts⟩, fun h => ⟨h.named, nofun, h.distinct, h.converts⟩⟩

theorem exists_forall₂_denotes_iff {entries : List SignatureEntry} :
    (∃ signatures, List.Forall₂ SignatureEntry.Denotes entries signatures) ↔ ∀ s ∈ entries, s.Converts := by
  have hrun (signatures : List Signature) :
      List.Forall₂ SignatureEntry.Denotes entries signatures ↔
        entries.mapM SignatureEntry.convert = .ok signatures := by
    simp only [Except.mapM_eq_ok_iff, SignatureEntry.convert_eq_ok_iff]
  simp only [hrun, Except.exists_mapM_eq_ok_iff, SignatureEntry.convert_eq_ok_iff, SignatureEntry.exists_denotes_iff]

/-- The signatures of a catalog that is read as JSON. They are there if and only if the entries are accepted, and each
of them is what its entry stands for. Otherwise the fault is that of the first entry which is not accepted behind those
before it. Either way, the entries up to there are warned about. -/
theorem parseSignatures_converts (text : String) (entries : List SignatureEntry)
    (h : SignatureCatalog.parse text = .ok ⟨entries⟩) :
    ((∃ signatures ws, parseSignatures text = (.ok signatures, ws)) ↔ Accepted entries) ∧
      (∀ signatures ws, parseSignatures text = (.ok signatures, ws) ↔
        Accepted entries ∧ List.Forall₂ SignatureEntry.Denotes entries signatures ∧
          ws = entries.filterMap SignatureEntry.warning?) ∧
      ∀ e ws, parseSignatures text = (.error e, ws) ↔
        ∃ front s back fault, entries = front ++ s :: back ∧ Accepted front ∧
          s.Offends (front.map (·.name)) fault ∧ e = .conversion fault ∧
          ws = front.filterMap SignatureEntry.warning? := by
  have hparse : parseSignatures text =
      ((convertSignatures [] entries).1.mapError .conversion, (convertSignatures [] entries).2) := by
    rw [parseSignatures, h]
    rfl
  have hok (signatures : List Signature) (ws : List Warning) :
      parseSignatures text = (.ok signatures, ws) ↔
        Accepted entries ∧ List.Forall₂ SignatureEntry.Denotes entries signatures ∧
          ws = entries.filterMap SignatureEntry.warning? := by
    rw [← acceptedBehind_nil_iff, ← convertSignatures_eq_ok_iff, hparse, Prod.mk.injEq, Except.mapError_eq_ok_iff,
      Prod.ext_iff]
  refine ⟨?_, hok, fun e ws => ?_⟩
  · simp only [hok]
    constructor
    · rintro ⟨signatures, ws, haccepted, -⟩
      exact haccepted
    · intro haccepted
      obtain ⟨signatures, hall⟩ := exists_forall₂_denotes_iff.mpr haccepted.converts
      exact ⟨signatures, _, haccepted, hall, rfl⟩
  · rw [hparse, Prod.mk.injEq, Except.mapError_eq_error_iff]
    constructor
    · rintro ⟨⟨fault, hfault, rfl⟩, hws⟩
      obtain ⟨front, s, back, rfl, haccepted, hoffends, hwarned⟩ :=
        convertSignatures_eq_error_iff.mp (Prod.ext hfault hws)
      rw [List.append_nil] at hoffends
      exact ⟨front, s, back, fault, rfl, acceptedBehind_nil_iff.mp haccepted, hoffends, rfl, hwarned⟩
    · rintro ⟨front, s, back, fault, heq, haccepted, hoffends, rfl, rfl⟩
      rw [← List.append_nil (front.map _)] at hoffends
      have hrun := convertSignatures_eq_error_iff.mpr
        ⟨front, s, back, heq, acceptedBehind_nil_iff.mpr haccepted, hoffends, rfl⟩
      rw [hrun]
      exact ⟨⟨fault, rfl, rfl⟩, rfl⟩

/-- Two entries that any method fits. -/
def openEntries : List SignatureEntry :=
  [⟨"any", none, none, none, none⟩, ⟨"empty", some "I", none, some [], some []⟩]

/-- An entry with an unknown keyword and a parameter that is no type. -/
def brokenEntry : SignatureEntry :=
  ⟨"broken", none, some (.names ["public", "loud"]), some ["Q"], none⟩

theorem parseSignatures_converts_broken :
    (∃ signatures ws, parseSignatures (SignatureCatalog.render ⟨openEntries⟩) = (.ok signatures, ws)) ∧
      parseSignatures (SignatureCatalog.render ⟨openEntries ++ [brokenEntry]⟩) =
        (.error (.conversion (.classData "signature broken" (.unknownAccessFlag "loud"))),
          [.noConstraints "any", .emptyPattern "empty"]) := by
  have haccepted : Accepted openEntries := by
    refine ⟨?_, by decide, ?_⟩
    all_goals simp only [openEntries, List.forall_mem_cons]
    · exact ⟨⟨'a', by decide +kernel, rfl⟩, ⟨'e', by decide +kernel, rfl⟩, nofun⟩
    · refine ⟨⟨nofun, nofun, nofun, nofun⟩, ⟨?_, nofun, nofun, nofun⟩, nofun⟩
      rintro _ ⟨⟩
      exact ⟨.primitive .int, rfl⟩
  have hbroken : brokenEntry.Faults (.classData "signature broken" (.unknownAccessFlag "loud")) :=
    .accessors nofun (.behind (by decide +kernel) (.here (by decide +kernel)))
  obtain ⟨hopen, -, -⟩ := parseSignatures_converts _ _ (SignatureCatalog.parse_render ⟨openEntries⟩)
  obtain ⟨-, -, hrefused⟩ := parseSignatures_converts _ _
    (SignatureCatalog.parse_render ⟨openEntries ++ [brokenEntry]⟩)
  refine ⟨hopen.mpr haccepted, (hrefused _ _).mpr ⟨openEntries, brokenEntry, [], _, rfl, haccepted,
    .part ?_ ?_ hbroken, rfl, rfl⟩⟩
  · exact ⟨'b', by decide +kernel, rfl⟩
  · decide

end MethodSearch.Catalog
