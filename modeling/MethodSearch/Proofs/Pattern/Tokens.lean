import MethodSearch.Pattern.Basic
import MethodSearch.Proofs.Text.Digits
import MethodSearch.Proofs.Text.Pieces

/-!
# Patterns read back

The text of a pattern is read as the same pattern: every opcode is written as one token, which is read as that opcode.
-/

namespace MethodSearch

open Bytecode

namespace Text

/-- The bytes of a text as numbers. -/
def bytes (s : String) : List Nat :=
  s.toByteArray.data.toList.map (·.toNat)

theorem bytes_eq_flatMap (s : String) :
    bytes s = s.toList.flatMap fun c => (String.utf8EncodeChar c).map (·.toNat) := by
  have h : s.toByteArray = (s.toList.flatMap String.utf8EncodeChar).toByteArray := by
    rw [← List.utf8Encode, ← String.toByteArray_ofList, String.ofList_toList]
  rw [bytes, h, List.data_toByteArray, List.map_flatMap]

theorem utf8EncodeChar_of_ascii {c : Char} (h : ∀ b ∈ (String.utf8EncodeChar c).map (·.toNat), b < 128) :
    (String.utf8EncodeChar c).map (·.toNat) = [c.toNat] := by
  dsimp only [String.utf8EncodeChar] at h ⊢
  split at h
  · next hv =>
      rw [if_pos hv, List.map_singleton, UInt8.toNat_ofNat', Nat.mod_eq_of_lt (Nat.lt_of_le_of_lt hv (by decide))]
      rfl
  · -- The first byte of a longer encoding is no ASCII.
    split at h
    · have := h _ List.mem_cons_self
      simp at this
      omega
    · split at h
      · have := h _ List.mem_cons_self
        simp at this
        omega
      · have := h _ List.mem_cons_self
        simp at this
        omega

theorem bytes_of_ascii {s : String} (h : ∀ b ∈ bytes s, b < 128) : bytes s = s.toList.map (·.toNat) := by
  rw [bytes_eq_flatMap] at h ⊢
  rw [List.map_eq_flatMap]
  simp only [List.flatMap_def]
  congr 1
  apply List.map_congr_left
  intro c hc
  exact utf8EncodeChar_of_ascii fun b hb => h b (List.mem_flatMap.mpr ⟨c, hc, hb⟩)

end Text

/-- No number of the list is among the bits that are set, nor among those before it. -/
def distinctFrom (seen : Nat) : List Nat → Bool
  | [] => true
  | k :: ks => !seen.testBit k && distinctFrom (seen ||| 1 <<< k) ks

theorem distinctFrom_sound {seen : Nat} {ks : List Nat} (h : distinctFrom seen ks = true) :
    ks.Nodup ∧ ∀ k ∈ ks, seen.testBit k = false := by
  induction ks generalizing seen with
  | nil => exact ⟨.nil, nofun⟩
  | cons k ks ih =>
      rw [distinctFrom, Bool.and_eq_true, Bool.not_eq_true'] at h
      obtain ⟨hnodup, hunset⟩ := ih h.2
      simp only [Nat.testBit_or, Bool.or_eq_false_iff] at hunset
      refine ⟨List.nodup_cons.mpr ⟨fun hk => ?_, hnodup⟩, List.forall_mem_cons.mpr ⟨h.1, fun j hj => (hunset j hj).1⟩⟩
      have hbit := (hunset k hk).2
      simp at hbit

/-! ## Mnemonics -/

namespace Bytecode.Opcode

variable {code : Opcode} {name : String} {c : Char}

/-- The bytes of a name as one number, modulo a prime. -/
def fingerprint (name : String) : Nat :=
  (Text.bytes name).foldl (fun n b => n * 256 + b) 0 % 3539

-- Comparing the names with each other takes the kernel much longer than one pass over their fingerprints.
theorem fingerprints_distinct : distinctFrom 0 (mnemonics.map fingerprint) = true := by decide +kernel

theorem mnemonics_nodup : mnemonics.Nodup :=
  List.Pairwise.of_map fingerprint (fun _ _ h he => h (congrArg fingerprint he))
    (distinctFrom_sound fingerprints_distinct).1

/-- The numbers of the capitals. -/
def isCapital (n : Nat) : Bool :=
  Nat.ble 65 n && Nat.ble n 90

/-- The numbers of the capitals, the digits and the underscore. -/
def isNameChar (n : Nat) : Bool :=
  isCapital n || Nat.ble 48 n && Nat.ble n 57 || Nat.beq n 95

/-- A capital and further characters of names. -/
def isSpelled : List Nat → Bool
  | [] => false
  | n :: ns => isCapital n && ns.all isNameChar

theorem mnemonics_spelled : ∀ name ∈ mnemonics, isSpelled (Text.bytes name) = true := by decide +kernel

theorem isCapital_bounds {n : Nat} (h : isCapital n = true) : 65 ≤ n ∧ n ≤ 90 := by
  simpa [isCapital] using h

theorem isNameChar_bounds {n : Nat} (h : isNameChar n = true) : 48 ≤ n ∧ n ≤ 95 := by
  simp [isNameChar, isCapital] at h
  omega

theorem isNameChar_of_isSpelled {ns : List Nat} (h : isSpelled ns = true) : ∀ n ∈ ns, isNameChar n = true := by
  cases ns with
  | nil => cases h
  | cons n ns =>
      rw [isSpelled, Bool.and_eq_true, List.all_eq_true] at h
      refine List.forall_mem_cons.mpr ⟨?_, h.2⟩
      rw [isNameChar, h.1, Bool.true_or, Bool.true_or]

/-- The bytes of a mnemonic are its characters. -/
theorem mnemonic?_spelled (h : code.mnemonic? = some name) : isSpelled (name.toList.map (·.toNat)) = true := by
  have hspelled := mnemonics_spelled name (List.mem_of_getElem? h)
  rw [← Text.bytes_of_ascii]
  · exact hspelled
  · intro b hb
    have := isNameChar_bounds (isNameChar_of_isSpelled hspelled b hb)
    omega

theorem mnemonic?_chars (h : code.mnemonic? = some name) : ∀ c ∈ name.toList, isNameChar c.toNat = true :=
  fun _ hc => isNameChar_of_isSpelled (mnemonic?_spelled h) _ (List.mem_map_of_mem hc)

theorem toUpper_of_isNameChar (h : isNameChar c.toNat = true) : c.toUpper = c := by
  have hrange := isNameChar_bounds h
  have hlower : ¬(c.val ≥ 'a'.val ∧ c.val ≤ 'z'.val) := by
    rintro ⟨hlow, -⟩
    have hle : 97 ≤ c.toNat := UInt32.le_iff_toNat_le.mp hlow
    omega
  delta Char.toUpper
  exact dif_neg hlower

theorem isBlank_of_isNameChar (h : isNameChar c.toNat = true) : Text.isBlank c = false := by
  have hrange := isNameChar_bounds h
  simp only [Text.isBlank, Bool.or_eq_false_iff, Bool.and_eq_false_iff, decide_eq_false_iff_not, beq_eq_false_iff_ne]
  omega

theorem isSeparator_of_isNameChar (h : isNameChar c.toNat = true) : Pattern.isSeparator c = false := by
  have hrange := isNameChar_bounds h
  have hcomma : c ≠ ',' := by
    rintro rfl
    exact absurd hrange (by decide)
  rw [Pattern.isSeparator, isBlank_of_isNameChar h, Bool.false_or, beq_eq_false_iff_ne]
  exact hcomma

/-- A mnemonic is no number, as it begins with a capital. -/
theorem ofToken?_of_isSpelled {s : List Char} (h : isSpelled (s.map (·.toNat)) = true) :
    Pattern.Numeral.ofToken? s = none := by
  cases s with
  | nil => cases h
  | cons c cs =>
      rw [List.map_cons, isSpelled, Bool.and_eq_true] at h
      have hcapital := isCapital_bounds h.1
      have hzero : c ≠ '0' := by
        rintro rfl
        exact absurd hcapital (by decide)
      have hdigit : c.isDigit = false := by
        rw [Char.isDigit, Bool.and_eq_false_iff]
        refine .inr (decide_eq_false fun hle => ?_)
        have : c.toNat ≤ 57 := UInt32.le_iff_toNat_le.mp hle
        omega
      simp [Pattern.Numeral.ofToken?, hzero, hdigit]

theorem ofMnemonic?_of_mnemonic? (h : code.mnemonic? = some name) : ofMnemonic? name = some code := by
  have hchars := mnemonic?_chars h
  have htrim : Text.trim name = name := by
    rw [Text.trim, Text.trimChars_of_no_blank fun c hc => isBlank_of_isNameChar (hchars c hc), String.ofList_toList]
  have hupper : name.toUpper = name := by
    apply String.toList_inj.mp
    rw [String.toUpper, String.toList_map, List.map_congr_left fun c hc => toUpper_of_isNameChar (hchars c hc),
      List.map_id']
  obtain ⟨hlt, hget⟩ := List.getElem?_eq_some_iff.mp h
  have hidx : mnemonics.idxOf? name = some code.toNat := by
    refine List.idxOf?_eq_some_iff.mpr ⟨hlt, hget, fun j hj he => ?_⟩
    have heq : j = code.toNat := (List.getElem_inj mnemonics_nodup).mp (he.trans hget.symm)
    omega
  rw [ofMnemonic?, htrim, hupper, hidx, Option.map_some, UInt8.ofNat_toNat]

end Bytecode.Opcode

/-! ## Tokens -/

namespace Pattern

/-- The text of an opcode is one token, which is read as the opcode. -/
structure IsToken (token : List Char) (code : Opcode) : Prop where
  ne_nil : token ≠ []
  no_separator : ∀ c ∈ token, isSeparator c = false
  read : readToken token = .ok code

theorem isToken_mnemonic {code : Opcode} {name : String} (h : code.mnemonic? = some name) :
    IsToken name.toList code := by
  have hspelled := Opcode.mnemonic?_spelled h
  refine ⟨?_, fun c hc => Opcode.isSeparator_of_isNameChar (Opcode.mnemonic?_chars h c hc), ?_⟩
  · intro hnil
    rw [hnil] at hspelled
    cases hspelled
  · rw [readToken, Opcode.ofToken?_of_isSpelled hspelled, String.ofList_toList, Opcode.ofMnemonic?_of_mnemonic? h]

theorem digitChar_no_separator : ∀ d < 16, isSeparator d.digitChar = false ∧ d.digitChar ≠ '+' := by decide

/-- A byte without a mnemonic is written as a hexadecimal number. -/
theorem isToken_hex (code : Opcode) : IsToken ("0x" ++ Text.hex 2 code.toNat).toList code := by
  have hdigits : ∀ c ∈ (Text.hex 2 code.toNat).toList, isSeparator c = false ∧ c ≠ '+' := by
    intro c hc
    obtain ⟨d, hd, rfl⟩ := Text.exists_digit_of_mem_hex hc
    exact digitChar_no_separator d hd
  have htoken : ("0x" ++ Text.hex 2 code.toNat).toList = '0' :: 'x' :: (Text.hex 2 code.toNat).toList := by
    rw [String.toList_append]
    rfl
  have hnumeral : Numeral.ofToken? ('0' :: 'x' :: (Text.hex 2 code.toNat).toList) =
      some (.hexadecimal (Text.hex 2 code.toNat).toList) := by
    cases hchars : (Text.hex 2 code.toNat).toList with
    | nil => rfl
    | cons c chars =>
        rw [hchars] at hdigits
        have hplus : c ≠ '+' := (hdigits c List.mem_cons_self).2
        simp [Numeral.ofToken?, hplus]
  have hlt : code.toNat < 256 := code.toNat_lt
  have hvalue : Numeral.value? (.hexadecimal (Text.hex 2 code.toNat).toList) = some code.toNat := by
    rw [Numeral.value?, Text.readNat?_hex, Option.filter_some, if_pos]
    exact decide_eq_true (Nat.lt_trans hlt (by decide))
  rw [htoken]
  refine ⟨nofun, ?_, ?_⟩
  · rw [List.forall_mem_cons, List.forall_mem_cons]
    exact ⟨rfl, rfl, fun c hc => (hdigits c hc).1⟩
  · rw [readToken, hnumeral]
    simp only [hvalue, hlt, if_true, UInt8.ofNat_toNat]

theorem isToken_render (code : Opcode) : IsToken code.render.toList code := by
  rw [Opcode.render]
  cases h : code.mnemonic? with
  | none => exact isToken_hex code
  | some name => exact isToken_mnemonic h

theorem render_toList (p : Pattern) :
    p.render.toList = [' '].intercalate (p.opcodes.map fun code => code.render.toList) := by
  rw [render, String.toList_intercalate, List.map_map]
  rfl

theorem mapM_readToken (codes : List Opcode) :
    (codes.map fun code => code.render.toList).mapM readToken = .ok codes :=
  Text.mapM_map fun code _ => (isToken_render code).read

/-- The text of a pattern is read as the pattern. -/
theorem parse_render (p : Pattern) : parse p.render = .ok p := by
  have hwords : Text.words isSeparator p.render.toList = p.opcodes.map fun code => code.render.toList := by
    rw [render_toList]
    refine Text.words_intercalate ?_ rfl
    intro token htoken
    obtain ⟨code, -, rfl⟩ := List.mem_map.mp htoken
    exact ⟨(isToken_render code).ne_nil, (isToken_render code).no_separator⟩
  rw [parse, hwords, mapM_readToken]
  rfl

end Pattern

end MethodSearch
