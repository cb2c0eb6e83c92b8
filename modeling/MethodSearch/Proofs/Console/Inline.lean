import MethodSearch.Console.Lookup
import MethodSearch.Proofs.Catalog.Signatures
import MethodSearch.Proofs.Pattern.Grammar
import MethodSearch.Proofs.Resolution.OneClass
import MethodSearch.Proofs.Text.Pieces

/-!
# Signatures given in parts

The parts of a signature entry may be given one by one, its lists written with commas and its opcodes with spaces. They
are then read as in the entry: the constraints are the same, and so is the method found and the fault reported.
-/

namespace MethodSearch

open Bytecode Text

namespace Pattern

/-- A byte written as a decimal number. -/
theorem isToken_decimal (code : Opcode) : IsToken (Nat.repr code.toNat).toList code := by
  have hdigits : (Nat.repr code.toNat).toList = Nat.toDigits 10 code.toNat := String.toList_ofList
  have hseparator : ∀ c ∈ Nat.toDigits 10 code.toNat, isSeparator c = false := by
    intro c hc
    obtain ⟨d, hd, rfl⟩ := exists_digit_of_mem_toDigits (by decide) hc
    exact (digitChar_no_separator d (by omega)).1
  have hblank : ∀ c ∈ Nat.toDigits 10 code.toNat, isBlank c = false := by
    intro c hc
    exact isBlank_of_isSeparator (hseparator c hc)
  have hnumeral : IsNumeral 10 (Nat.toDigits 10 code.toNat) code.toNat :=
    (readNat?_eq_some_iff (by decide)).mp (readNat?_toDigits (by decide) (by decide) code.toNat)
  rw [hdigits]
  refine ⟨Nat.toDigits_ne_nil, hseparator, ?_⟩
  have hread := (readToken_eq_ok_iff hblank).mpr (.number (.inl (.decimal hnumeral)) (Nat.le_of_lt_succ code.toNat_lt))
  rwa [UInt8.ofNat_toNat] at hread

end Pattern

namespace Catalog

/-- A text that stands between spaces as it is and is not taken for a number. -/
structure IsWord (name : String) : Prop where
  ne_empty : name ≠ ""
  no_comma : ',' ∉ name.toList
  no_blank : ∀ c ∈ name.toList, isBlank c = false
  not_decimal : ¬∀ c ∈ name.toList, c.isDigit = true
  not_hexadecimal : ∀ x, x = 'x' ∨ x = 'X' → ¬['0', x] <+: name.toList

theorem IsWord.no_separator {name : String} (h : IsWord name) : ∀ c ∈ name.toList, Pattern.isSeparator c = false := by
  intro c hc
  rw [Pattern.isSeparator, h.no_blank c hc, Bool.false_or, beq_eq_false_iff_ne]
  rintro rfl
  exact h.no_comma hc

theorem IsWord.isItem {name : String} (h : IsWord name) : IsItem name :=
  ⟨h.ne_empty, h.no_comma, trimmed_of_no_blank h.no_blank⟩

theorem isWord_of_head {name : String} (h : name.toList.any Pattern.isSeparator = false)
    (hhead : name.toList.head?.any (!·.isDigit) = true) : IsWord name := by
  obtain ⟨c, hc, hdigit⟩ := (Option.any_eq_true _ _).mp hhead
  obtain ⟨cs, hname⟩ := List.head?_eq_some_iff.mp hc
  have hseparator : ∀ c ∈ name.toList, Pattern.isSeparator c = false := by simpa using h
  refine ⟨?_, ?_, ?_, ?_, ?_⟩
  · rintro rfl
    cases hname
  · intro hcomma
    cases hseparator ',' hcomma
  · exact fun c hc => Pattern.isBlank_of_isSeparator (hseparator c hc)
  · intro hall
    rw [hname] at hall
    rw [hall c List.mem_cons_self] at hdigit
    cases hdigit
  · rintro x - ⟨rest, hrest⟩
    rw [hname] at hrest
    cases hrest
    cases hdigit

theorem IsWord.ofToken? {name : String} (h : IsWord name) : Pattern.Numeral.ofToken? name.toList = none := by
  have hhex := h.not_hexadecimal
  have hdecimal := h.not_decimal
  generalize name.toList = token at hhex hdecimal
  rw [Pattern.Numeral.ofToken?.eq_def]
  split
  case h_5 => rw [if_neg (by rwa [List.all_eq_true])]
  all_goals
    exact absurd ⟨_, rfl⟩ (hhex _ (by simp))

namespace OpcodeEntry

variable {o : OpcodeEntry} {codes : List OpcodeEntry}

/-- The word for an opcode is its number in decimal, or its mnemonic. -/
def text : OpcodeEntry → String
  | .code byte => Nat.repr byte.toNat
  | .mnemonic name => name

theorem text_isToken (h : ∀ name, o.mnemonic? = some name → IsWord name) :
    o.text.toList ≠ [] ∧ ∀ c ∈ o.text.toList, Pattern.isSeparator c = false := by
  cases o with
  | code byte =>
      have htoken := Pattern.isToken_decimal byte
      exact ⟨htoken.ne_nil, htoken.no_separator⟩
  | mnemonic name =>
      have hword := h name rfl
      exact ⟨by simpa [text] using hword.ne_empty, hword.no_separator⟩

theorem readToken_text (h : ∀ name, o.mnemonic? = some name → IsWord name) :
    Pattern.readToken o.text.toList = o.convert := by
  cases o with
  | code byte => exact (Pattern.isToken_decimal byte).read
  | mnemonic name =>
      have hnone := (h name rfl).ofToken?
      cases hname : Opcode.ofMnemonic? name <;> simp [text, Pattern.readToken, convert, hnone, hname]

theorem parse_texts (h : ∀ o ∈ codes, ∀ name, o.mnemonic? = some name → IsWord name) :
    Pattern.parse (" ".intercalate (codes.map text)) = SignatureEntry.readOpcodes codes := by
  have hwords : words Pattern.isSeparator (" ".intercalate (codes.map text)).toList =
      codes.map (String.toList ∘ text) := by
    rw [String.toList_intercalate, List.map_map]
    apply words_intercalate
    · intro token htoken
      obtain ⟨o, ho, rfl⟩ := List.mem_map.mp htoken
      exact text_isToken (h o ho)
    · rfl
  have hread : codes.mapM (Pattern.readToken ∘ String.toList ∘ text) = codes.mapM convert :=
    Except.mapM_congr fun o ho => readToken_text (h o ho)
  rw [Pattern.parse, hwords, List.mapM_map, hread, SignatureEntry.readOpcodes]

end OpcodeEntry

/-! ## Entries given in parts -/

/-- The access of an entry is a list, and the texts of its lists can stand in a list written with commas or spaces. -/
structure SignatureEntry.Inlinable (s : SignatureEntry) : Prop where
  no_mask : ∀ bits, s.accessors ≠ some (.mask bits)
  keywords : ∀ k ∈ s.keywords, IsItem k
  parameters : ∀ text ∈ itemsOf id s.parameters, IsItem text
  mnemonics : ∀ name ∈ s.mnemonics, IsWord name

theorem convertPart_map {α β γ ε : Type} {f : α → Except ε γ} {read : β → Except ε γ} {write : α → β}
    {part : Option α} (h : ∀ a, part = some a → read (write a) = f a) :
    convertPart read (part.map write) = convertPart f part := by
  cases part with
  | none => rfl
  | some a => rw [Option.map_some, convertPart, convertPart, h a rfl]

end Catalog

namespace Signature

def named (name : String) (s : Signature) : Signature :=
  { s with name := name }

theorem compare_named (name : String) (s : Signature) (m : Method) : (s.named name).compare m = s.compare m :=
  rfl

/-- The method found does not hang on the name, nor does the number of trials. -/
theorem lookup_go_named (c : JavaClass) (name : String) (s : Signature) (ms : List Method) :
    (lookup.go c (s.named name) ms).1 = (lookup.go c s ms).1 ∧
      (lookup.go c (s.named name) ms).2.length = (lookup.go c s ms).2.length := by
  induction ms with
  | nil => exact ⟨rfl, rfl⟩
  | cons m ms ih =>
      have hsame := compare_named name s m
      cases h : s.compare m with
      | ok scan =>
          rw [lookup_go_accepted h, lookup_go_accepted (hsame.trans h)]
          exact ⟨rfl, rfl⟩
      | error reason =>
          rw [lookup_go_rejected h, lookup_go_rejected (hsame.trans h), List.length_cons, List.length_cons, ih.2]
          exact ⟨ih.1, rfl⟩

end Signature

namespace Console

open Catalog

/-- The fault of a part, as that of an entry. -/
def PartError.within (context : String) : PartError → ConversionError
  | .classData source => .classData context source
  | .pattern source => .pattern context source

theorem PartError.within_injective (context : String) : Function.Injective (PartError.within context) := by
  intro e e' h
  cases e <;> cases e' <;> cases h <;> rfl

namespace LookupOptions

variable {o : LookupOptions} {s : SignatureEntry} {t u : Signature}

/-- The options give the parts of an entry. What the entry leaves out is left out. -/
structure Spells (o : LookupOptions) (s : SignatureEntry) : Prop where
  returns : o.returns = s.returns
  access : o.access = s.accessors.map fun a => ",".intercalate a.keywords
  params : o.params = s.parameters.map fun texts => ",".intercalate texts
  pattern : o.pattern = s.opcodes.map fun codes => " ".intercalate (codes.map OpcodeEntry.text)

theorem Spells.access_eq (ho : o.Spells s) (hs : s.Inlinable) :
    convertPart (fun text => Access.ofKeywords (commaItems text)) o.access =
      convertPart AccessEntry.convert s.accessors := by
  rw [ho.access]
  apply convertPart_map
  intro a ha
  cases a with
  | mask bits => exact absurd ha (hs.no_mask bits)
  | names keywords =>
      have hitems : ∀ k ∈ keywords, IsItem k := by
        simpa [SignatureEntry.keywords, ha, itemsOf, AccessEntry.keywords] using hs.keywords
      rw [AccessEntry.keywords, commaItems_intercalate hitems, AccessEntry.convert]

theorem Spells.params_eq (ho : o.Spells s) (hs : s.Inlinable) :
    convertPart (fun text => (commaItems text).mapM JavaType.parse) o.params =
      convertPart (List.mapM JavaType.parse) s.parameters := by
  rw [ho.params]
  apply convertPart_map
  intro texts htexts
  have hitems : ∀ text ∈ texts, IsItem text := by simpa [htexts, itemsOf] using hs.parameters
  rw [commaItems_intercalate hitems]

theorem Spells.pattern_eq (ho : o.Spells s) (hs : s.Inlinable) :
    convertPart Pattern.parse o.pattern = convertPart SignatureEntry.readOpcodes s.opcodes := by
  rw [ho.pattern]
  apply convertPart_map
  intro codes hcodes
  have hwords := hs.mnemonics
  rw [SignatureEntry.mnemonics, hcodes] at hwords
  exact OpcodeEntry.parse_texts fun o ho name hname => hwords name (List.mem_filterMap.mpr ⟨o, ho, hname⟩)

/-! ## The whole signature -/

theorem inlineSignature_eq (o : LookupOptions) :
    o.inlineSignature =
      (convertPart JavaType.parse o.returns).mapError .classData >>= fun returns =>
      (convertPart (fun text => Access.ofKeywords (commaItems text)) o.access).mapError .classData >>= fun accessors =>
      (convertPart (fun text => (commaItems text).mapM JavaType.parse) o.params).mapError .classData >>=
        fun parameters =>
      ((convertPart Pattern.parse o.pattern).mapError .pattern).map fun opcodes =>
        ⟨"inline", returns, accessors, parameters, opcodes⟩ :=
  rfl

/-- Entry and parts are read alike, up to the name and the context of a fault. -/
theorem Spells.convert_eq (ho : o.Spells s) (hs : s.Inlinable) :
    s.convert = (o.inlineSignature.map (Signature.named s.name)).mapError (PartError.within s.context) := by
  rw [SignatureEntry.convert_eq, inlineSignature_eq, ho.returns, ho.access_eq hs, ho.params_eq hs, ho.pattern_eq hs]
  cases convertPart JavaType.parse s.returns with
  | error e => rfl
  | ok returns =>
    cases convertPart AccessEntry.convert s.accessors with
    | error e => rfl
    | ok accessors =>
      cases convertPart (List.mapM JavaType.parse) s.parameters with
      | error e => rfl
      | ok parameters => cases convertPart SignatureEntry.readOpcodes s.opcodes <;> rfl

theorem Spells.convert_eq_ok_iff (ho : o.Spells s) (hs : s.Inlinable) :
    s.convert = .ok u ↔ ∃ t, o.inlineSignature = .ok t ∧ t.named s.name = u := by
  rw [ho.convert_eq hs, Except.mapError_eq_ok_iff, Except.map_eq_ok_iff]

theorem Spells.convert_eq_error_iff (ho : o.Spells s) (hs : s.Inlinable) {e : PartError} :
    s.convert = .error (e.within s.context) ↔ o.inlineSignature = .error e := by
  rw [ho.convert_eq hs, Except.mapError_eq_error_iff]
  constructor
  · rintro ⟨source, hsource, hsame⟩
    rw [Except.map_eq_error_iff] at hsource
    rwa [← PartError.within_injective s.context hsame]
  · exact fun h => ⟨e, Except.map_eq_error_iff.mpr h, rfl⟩

/-- What an entry says can as well be said in parts. One is read if the other is. The constraints are then the same, so
that the lookup in any class comes to the same method after as many trials. Otherwise the same fault is reported. -/
theorem inlineSignature_agrees (ho : o.Spells s) (hs : s.Inlinable) :
    ((∃ t, o.inlineSignature = .ok t) ↔ ∃ u, s.convert = .ok u) ∧
      (∀ t u, o.inlineSignature = .ok t → s.convert = .ok u →
        t.returns = u.returns ∧ t.accessors = u.accessors ∧ t.parameters = u.parameters ∧ t.opcodes = u.opcodes ∧
          ∀ c, (lookup c t).1 = (lookup c u).1 ∧ (lookup c t).2.length = (lookup c u).2.length) ∧
      ∀ e, o.inlineSignature = .error e ↔ s.convert = .error (e.within s.context) := by
  refine ⟨?_, ?_, fun e => (ho.convert_eq_error_iff hs).symm⟩
  · simp [ho.convert_eq_ok_iff hs]
  · intro t u ht hu
    obtain ⟨t', ht', rfl⟩ := (ho.convert_eq_ok_iff hs).mp hu
    obtain rfl : t = t' := Except.ok.inj (ht.symm.trans ht')
    refine ⟨rfl, rfl, rfl, rfl, fun c => ?_⟩
    have hsame := Signature.lookup_go_named c s.name t c.methods
    exact ⟨hsame.1.symm, hsame.2.symm⟩

def adderEntry : SignatureEntry :=
  ⟨"add", some "I", some (.names ["public", "ACC_STATIC"]), some ["I", "I"],
    some [.mnemonic "ILOAD_0", .code 27, .mnemonic "iadd"]⟩

def adderParts : LookupOptions :=
  ⟨"app.jar", "Adder", none, none, some "I", some "public,ACC_STATIC", some "I,I", some "ILOAD_0 27 iadd"⟩

theorem adderEntry_inlinable : adderEntry.Inlinable := by
  have hwords : ∀ text ∈ ["ILOAD_0", "iadd"] ++ ["public", "ACC_STATIC"] ++ ["I", "I"], IsWord text := by
    have hchars : ∀ text ∈ ["ILOAD_0", "iadd"] ++ ["public", "ACC_STATIC"] ++ ["I", "I"],
        text.toList.any Pattern.isSeparator = false ∧ text.toList.head?.any (!·.isDigit) = true := by
      decide +kernel
    exact fun text htext => isWord_of_head (hchars text htext).1 (hchars text htext).2
  refine ⟨nofun, ?_, ?_, ?_⟩
  · exact fun k hk => (hwords k (List.mem_append_left _ (List.mem_append_right _ hk))).isItem
  · exact fun text htext => (hwords text (List.mem_append_right _ htext)).isItem
  · exact fun name hname => hwords name (List.mem_append_left _ (List.mem_append_left _ hname))

/-- The entry and its parts are both read, and the lookup does not tell them apart. -/
theorem inlineSignature_agrees_adder :
    ∃ t u, adderParts.inlineSignature = .ok t ∧ adderEntry.convert = .ok u ∧
      u.opcodes = .exactly ⟨[26, 27, 96]⟩ ∧ ∀ c, (lookup c t).1 = (lookup c u).1 := by
  have hspells : adderParts.Spells adderEntry := by constructor <;> decide +kernel
  have hread : adderParts.inlineSignature =
      .ok ⟨"inline", .exactly (.primitive .int), .exactly ⟨9⟩, .exactly [.primitive .int, .primitive .int],
        .exactly ⟨[26, 27, 96]⟩⟩ := by
    decide +kernel
  obtain ⟨hboth, hsame, -⟩ := inlineSignature_agrees hspells adderEntry_inlinable
  obtain ⟨u, hu⟩ := hboth.mp ⟨_, hread⟩
  obtain ⟨-, -, -, hopcodes, hlookup⟩ := hsame _ u hread hu
  exact ⟨_, u, hread, hu, hopcodes.symm, fun c => (hlookup c).1⟩

end LookupOptions

end Console

end MethodSearch
