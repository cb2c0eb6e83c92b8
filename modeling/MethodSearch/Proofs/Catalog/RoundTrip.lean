import MethodSearch.Catalog.Parse
import MethodSearch.Catalog.Print
import MethodSearch.Proofs.Json.Document

/-!
# Catalogs read back

A catalog that is written and read again is the same catalog, entry for entry. Entries of several shapes are told apart
by their values alone: no two shapes are written alike.
-/

namespace MethodSearch.Catalog

open Json

variable {depth : Nat}

namespace AccessEntry

theorem ofValue?_toJson (a : AccessEntry) : ofValue? a.toJson = some a := by
  cases a with
  | mask bits =>
      rw [toJson, ofValue?, Value.natural?_ofNat bits.toNat_lt (by decide)]
      simp
  | names keywords =>
      rw [toJson, ofValue?, Value.strings?_ofList]
      rfl

theorem value_toJson (a : AccessEntry) (hdepth : depth < Document.maxDepth) :
    (Document.ofValue a.toJson).value depth = .ok a.toJson := by
  cases a with
  | mask bits => exact Document.value_ofNat (Nat.lt_trans bits.toNat_lt (by decide)) depth
  | names keywords =>
      refine Document.value_array hdepth fun v hv => ?_
      obtain ⟨keyword, -, rfl⟩ := List.mem_map.mp hv
      exact Document.value_string keyword (depth + 1)

theorem anyOf_toJson (a : AccessEntry) (hdepth : depth < Document.maxDepth) :
    (Document.ofValue a.toJson).anyOf depth ofValue? = .ok a :=
  Document.anyOf_ofValue (a.value_toJson hdepth) a.ofValue?_toJson

theorem toJson_ne_null (a : AccessEntry) : a.toJson ≠ .null := by
  cases a <;> nofun

end AccessEntry

namespace OpcodeEntry

theorem ofValue?_toJson (o : OpcodeEntry) : ofValue? o.toJson = some o := by
  cases o with
  | code byte =>
      rw [toJson, ofValue?, Value.natural?_ofNat byte.toNat_lt (by decide)]
      simp
  | mnemonic name => rfl

theorem value_toJson (o : OpcodeEntry) (depth : Nat) : (Document.ofValue o.toJson).value depth = .ok o.toJson := by
  cases o with
  | code byte => exact Document.value_ofNat (Nat.lt_trans byte.toNat_lt (by decide)) depth
  | mnemonic name => exact Document.value_string name depth

theorem anyOf_toJson (o : OpcodeEntry) (depth : Nat) : (Document.ofValue o.toJson).anyOf depth ofValue? = .ok o :=
  Document.anyOf_ofValue (o.value_toJson depth) o.ofValue?_toJson

end OpcodeEntry

namespace InstructionEntry

theorem word?_ofNat (n : UInt32) : word? (.ofNat n.toNat) = some n := by
  rw [word?, Value.natural?_ofNat n.toNat_lt (by decide)]
  simp

theorem ofValue?_toJson (i : InstructionEntry) : ofValue? i.toJson = some i := by
  cases i with
  | code byte =>
      rw [toJson, ofValue?, Value.natural?_ofNat byte.toNat_lt (by decide)]
      simp
  | mnemonic name => rfl
  | label id => simp [toJson, ofValue?, Value.natural?, Value.string?, marker?, once?, Kind.ofValue?, word?_ofNat]
  | line number => simp [toJson, ofValue?, Value.natural?, Value.string?, marker?, once?, Kind.ofValue?, word?_ofNat]
  | frame => rfl

theorem value_toJson (i : InstructionEntry) (hdepth : depth < Document.maxDepth) :
    (Document.ofValue i.toJson).value depth = .ok i.toJson := by
  have hword (n : UInt32) := Document.value_ofNat (Nat.lt_trans n.toNat_lt (by decide)) (depth + 1)
  cases i with
  | code byte => exact Document.value_ofNat (Nat.lt_trans byte.toNat_lt (by decide)) depth
  | mnemonic name => exact Document.value_string name depth
  | label id => exact Document.value_object hdepth (by simp [Document.value_string, hword])
  | line number => exact Document.value_object hdepth (by simp [Document.value_string, hword])
  | frame => exact Document.value_object hdepth (by simp [Document.value_string])

theorem anyOf_toJson (i : InstructionEntry) (hdepth : depth < Document.maxDepth) :
    (Document.ofValue i.toJson).anyOf depth ofValue? = .ok i :=
  Document.anyOf_ofValue (i.value_toJson hdepth) i.ofValue?_toJson

end InstructionEntry

/-! ## Records -/

theorem MethodDraft.read_toJson (m : MethodEntry) : MethodDraft.layout.read (.ofValue m.toJson) = .ok m := by
  have haccess : (Document.ofValue (.ofOption AccessEntry.toJson m.access)).optional
      (·.anyOf 5 AccessEntry.ofValue?) = .ok m.access :=
    Document.optional_ofOption AccessEntry.toJson_ne_null fun a _ => a.anyOf_toJson (by decide)
  have hinstructions : (Document.ofValue (.ofList InstructionEntry.toJson m.instructions)).list
      (·.anyOf 6 InstructionEntry.ofValue?) = .ok m.instructions :=
    Document.list_ofList fun i _ => i.anyOf_toJson (by decide)
  refine Layout.read_record (s := ⟨some m.name, some m.descriptor, m.access, m.instructions⟩) (by decide) rfl ?_ rfl
  simp only [layout, fields, List.map_cons, List.map_nil, Layout.storeItems, haccess, hinstructions]
  rfl

theorem ClassDraft.read_toJson (c : ClassEntry) : ClassDraft.layout.read (.ofValue c.toJson) = .ok c := by
  have hmethods : (Document.ofValue (.ofList MethodEntry.toJson c.methods)).list MethodDraft.layout.read =
      .ok c.methods := Document.list_ofList fun m _ => MethodDraft.read_toJson m
  refine Layout.read_record (s := ⟨some c.name, c.methods⟩) (by decide) rfl ?_ rfl
  simp only [layout, fields, List.map_cons, List.map_nil, Layout.storeItems, hmethods]
  rfl

theorem ClassCatalog.read_toJson (c : ClassCatalog) : layout.read (.ofValue c.toJson) = .ok c := by
  have hclasses : (Document.ofValue (.ofList ClassEntry.toJson c.classes)).list ClassDraft.layout.read =
      .ok c.classes := Document.list_ofList fun e _ => ClassDraft.read_toJson e
  refine Layout.read_record (s := some c.classes) (by decide) rfl ?_ rfl
  simp only [layout, List.map_cons, List.map_nil, Layout.storeItems, hclasses]
  rfl

theorem SignatureDraft.read_toJson (s : SignatureEntry) : SignatureDraft.layout.read (.ofValue s.toJson) = .ok s := by
  have hreturns : (Document.ofValue (.ofOption .string s.returns)).optional (·.text) = .ok s.returns :=
    Document.optional_ofOption (fun _ => nofun) fun _ _ => rfl
  have haccessors : (Document.ofValue (.ofOption AccessEntry.toJson s.accessors)).optional
      (·.anyOf 3 AccessEntry.ofValue?) = .ok s.accessors :=
    Document.optional_ofOption AccessEntry.toJson_ne_null fun a _ => a.anyOf_toJson (by decide)
  have hparameters : (Document.ofValue (.ofOption (.ofList .string) s.parameters)).optional (·.list (·.text)) =
      .ok s.parameters :=
    Document.optional_ofOption (fun _ => nofun) fun _ _ => Document.list_ofList fun _ _ => rfl
  have hopcodes : (Document.ofValue (.ofOption (.ofList OpcodeEntry.toJson) s.opcodes)).optional
      (·.list (·.anyOf 4 OpcodeEntry.ofValue?)) = .ok s.opcodes :=
    Document.optional_ofOption (fun _ => nofun) fun _ _ => Document.list_ofList fun o _ => o.anyOf_toJson 4
  refine Layout.read_record (s := ⟨some s.name, s.returns, s.accessors, s.parameters, s.opcodes⟩) (by decide) rfl ?_
    rfl
  simp only [layout, fields, List.map_cons, List.map_nil, Layout.storeItems, hreturns, haccessors, hparameters,
    hopcodes]
  rfl

theorem SignatureCatalog.read_toJson (s : SignatureCatalog) : layout.read (.ofValue s.toJson) = .ok s := by
  have hsignatures : (Document.ofValue (.ofList SignatureEntry.toJson s.signatures)).list SignatureDraft.layout.read =
      .ok s.signatures := Document.list_ofList fun e _ => SignatureDraft.read_toJson e
  refine Layout.read_record (s := some s.signatures) (by decide) rfl ?_ rfl
  simp only [layout, List.map_cons, List.map_nil, Layout.storeItems, hsignatures]
  rfl

/-! ## Texts -/

theorem ClassCatalog.parse_render (c : ClassCatalog) : parse c.render = .ok c := by
  rw [render, parse, decode_compact, read_toJson]

theorem SignatureCatalog.parse_render (s : SignatureCatalog) : parse s.render = .ok s := by
  rw [render, parse, decode_compact, read_toJson]

/-- The text of the catalog that a text is read as. -/
def ClassCatalog.rewrite (text : String) : Except Fault String :=
  (parse text).map render

def SignatureCatalog.rewrite (text : String) : Except Fault String :=
  (parse text).map render

theorem ClassCatalog.rewrite_eq_ok_iff {text written : String} :
    rewrite text = .ok written ↔ ∃ c, parse text = .ok c ∧ c.render = written := by
  rw [rewrite]
  cases parse text with
  | error fault => simp [Except.map]
  | ok c => simp [Except.map]

theorem SignatureCatalog.rewrite_eq_ok_iff {text written : String} :
    rewrite text = .ok written ↔ ∃ s, parse text = .ok s ∧ s.render = written := by
  rw [rewrite]
  cases parse text with
  | error fault => simp [Except.map]
  | ok s => simp [Except.map]

/-- Every catalog is read back from its text. A text that is read as a catalog may be written again: the new text is
rewritten to itself, and stands for the same classes, or the same signatures and warnings, or the same fault. -/
theorem catalogs_read_back :
    (∀ c : ClassCatalog, ClassCatalog.parse c.render = .ok c) ∧
      (∀ s : SignatureCatalog, SignatureCatalog.parse s.render = .ok s) ∧
      (∀ text written, ClassCatalog.rewrite text = .ok written →
        ClassCatalog.rewrite written = .ok written ∧ parseClasses written = parseClasses text) ∧
      (∀ text written, SignatureCatalog.rewrite text = .ok written →
        SignatureCatalog.rewrite written = .ok written ∧ parseSignatures written = parseSignatures text) := by
  refine ⟨ClassCatalog.parse_render, SignatureCatalog.parse_render, ?_, ?_⟩
  · intro text written h
    obtain ⟨c, hc, rfl⟩ := ClassCatalog.rewrite_eq_ok_iff.mp h
    refine ⟨ClassCatalog.rewrite_eq_ok_iff.mpr ⟨c, c.parse_render, rfl⟩, ?_⟩
    rw [parseClasses, parseClasses, c.parse_render, hc]
  · intro text written h
    obtain ⟨s, hs, rfl⟩ := SignatureCatalog.rewrite_eq_ok_iff.mp h
    refine ⟨SignatureCatalog.rewrite_eq_ok_iff.mpr ⟨s, s.parse_render, rfl⟩, ?_⟩
    rw [parseSignatures, parseSignatures, s.parse_render, hs]

/-- A catalog of classes with keys out of order, keys that nobody asked for and a marker as an array. -/
def looseClasses : Value :=
  .object [("more", .object [("more", .null)]), ("classes", .array [.object [
    ("methods", .array [.object [
      ("instructions", .array [.array [.string "label", .ofNat 3], .string "nop", .ofNat 42]),
      ("descriptor", .string "()V"), ("name", .string "m")]]),
    ("name", .string "a\n"), ("more", .array [])]])]

/-- A catalog of signatures in which a name repeats. -/
def looseSignatures : Value :=
  .object [("signatures", .array [
    .object [("opcodes", .array []), ("name", .string "s"), ("accessors", .ofNat 7)],
    .object [("name", .string "s"), ("returns", .null)]])]

theorem catalogs_read_back_loose :
    (∃ written, ClassCatalog.rewrite looseClasses.compact = .ok written ∧
        ClassCatalog.rewrite written = .ok written ∧
        parseClasses written = parseClasses looseClasses.compact) ∧
      ∃ written, SignatureCatalog.rewrite looseSignatures.compact = .ok written ∧
        SignatureCatalog.rewrite written = .ok written ∧
        parseSignatures written = parseSignatures looseSignatures.compact ∧
        parseSignatures looseSignatures.compact =
          (.error (.conversion (.duplicateSignature "s")), [.emptyPattern "s"]) := by
  obtain ⟨-, -, hclasses, hsignatures⟩ := catalogs_read_back
  have hc : ClassCatalog.parse looseClasses.compact =
      .ok ⟨[⟨"a\n", [⟨"m", "()V", none, [.label 3, .mnemonic "nop", .code 42]⟩]⟩]⟩ :=
    decode_compact ClassCatalog.layout.read looseClasses
  have hs : SignatureCatalog.parse looseSignatures.compact =
      .ok ⟨[⟨"s", none, some (.mask 7), none, some []⟩, ⟨"s", none, none, none, none⟩]⟩ :=
    decode_compact SignatureCatalog.layout.read looseSignatures
  have hwritten := ClassCatalog.rewrite_eq_ok_iff.mpr ⟨_, hc, rfl⟩
  have hwritten' := SignatureCatalog.rewrite_eq_ok_iff.mpr ⟨_, hs, rfl⟩
  refine ⟨⟨_, hwritten, hclasses _ _ hwritten⟩, _, hwritten', (hsignatures _ _ hwritten').1,
    (hsignatures _ _ hwritten').2, ?_⟩
  rw [parseSignatures, hs]
  rfl

end MethodSearch.Catalog
