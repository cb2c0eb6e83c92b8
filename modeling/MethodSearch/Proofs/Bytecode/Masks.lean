import Mathlib.Data.Nat.Bitwise
import MethodSearch.Proofs.Bytecode.FlagNames
import MethodSearch.Proofs.Bytecode.Keywords

/-!
# Masks bit by bit

Each flag has a bit of its own. A list of keywords is read as the mask that has the bits of the flags they denote, and
the keywords of a mask are read as the mask without the bits that have no name.
-/

namespace MethodSearch.Bytecode

variable {i : Nat} {f : Flag} {flags : List Flag} {a b : Access} {keywords others : List String}

/-- The place of a flag's bit. -/
def Flag.place : Flag → Nat
  | .isPublic => 0
  | .isPrivate => 1
  | .isProtected => 2
  | .isStatic => 3
  | .isFinal => 4
  | .isSynchronized => 5
  | .isBridge => 6
  | .isVarargs => 7
  | .isNative => 8
  | .isAbstract => 10
  | .isStrict => 11
  | .isSynthetic => 12

theorem Flag.mask_toNat (f : Flag) : f.mask.toNat = 2 ^ f.place := by
  cases f <;> rfl

namespace Access

/-- The bit at a place is set. -/
def Sets (a : Access) (i : Nat) : Prop :=
  a.bits.toNat.testBit i = true

/-- Without the bits that have no name. -/
def named (a : Access) : Access :=
  ⟨a.bits &&& 0x1DFF⟩

theorem ext_sets (h : ∀ i, a.Sets i ↔ b.Sets i) : a = b := by
  have hbits : a.bits.toNat = b.bits.toNat :=
    Nat.eq_of_testBit_eq fun i => Bool.eq_iff_iff.mpr (h i)
  cases a
  cases b
  simpa [UInt16.toNat_inj] using hbits

@[simp] theorem not_sets_empty : ¬Sets empty i := by
  simp [Sets, empty]

@[simp] theorem sets_union : (a.union b).Sets i ↔ a.Sets i ∨ b.Sets i := by
  simp [Sets, union]

@[simp] theorem sets_mask : Sets ⟨f.mask⟩ i ↔ f.place = i := by
  simp [Sets, f.mask_toNat, Nat.testBit_two_pow]

theorem has_iff : a.has f = true ↔ a.Sets f.place := by
  have hzero : a.bits &&& f.mask = 0 ↔ a.bits.toNat &&& f.mask.toNat = 0 := by
    rw [← UInt16.toNat_and, ← UInt16.toNat_inj]
    rfl
  rw [has, bne_iff_ne, ne_eq, hzero, f.mask_toNat, Nat.and_two_pow, Sets]
  cases a.bits.toNat.testBit f.place <;> simp

/-! ## Flags of a mask -/

theorem mem_flags : f ∈ a.flags ↔ a.Sets f.place := by
  simp [flags, Flag.mem_all, has_iff]

theorem sets_foldl (flags : List Flag) (a : Access) :
    (flags.foldl (fun a f => a.union ⟨f.mask⟩) a).Sets i ↔ a.Sets i ∨ ∃ f ∈ flags, f.place = i := by
  induction flags generalizing a with
  | nil => simp
  | cons f flags ih => simp [ih, or_assoc]

theorem sets_ofFlags : (ofFlags flags).Sets i ↔ ∃ f ∈ flags, f.place = i := by
  simp [ofFlags, sets_foldl]

theorem ofFlags_all : ofFlags Flag.all = ⟨0x1DFF⟩ := by
  decide

theorem sets_named : a.named.Sets i ↔ a.Sets i ∧ ∃ f : Flag, f.place = i := by
  have hall : Sets ⟨0x1DFF⟩ i ↔ ∃ f : Flag, f.place = i := by
    simp [← ofFlags_all, sets_ofFlags, Flag.mem_all]
  rw [← hall]
  simp [Sets, named]

theorem ofFlags_flags (a : Access) : ofFlags a.flags = a.named := by
  apply ext_sets
  intro i
  rw [sets_ofFlags, sets_named]
  constructor
  · rintro ⟨f, hf, rfl⟩
    exact ⟨mem_flags.mp hf, f, rfl⟩
  · rintro ⟨hi, f, rfl⟩
    exact ⟨f, mem_flags.mpr hi, rfl⟩

/-! ## Keywords -/

theorem exists_ofKeywords_eq_ok_iff :
    (∃ a, ofKeywords keywords = .ok a) ↔ ∀ k ∈ keywords, ∃ f, Flag.Denotes k f := by
  simp [ofKeywords_eq_ok_iff, Flag.ofKeyword?_eq_none_iff]

theorem sets_of_ofKeywords (h : ofKeywords keywords = .ok a) :
    a.Sets i ↔ ∃ k ∈ keywords, ∃ f, Flag.Denotes k f ∧ f.place = i := by
  obtain ⟨-, rfl⟩ := ofKeywords_eq_ok_iff.mp h
  simp only [sets_ofFlags, List.mem_filterMap, Flag.ofKeyword?_eq_some_iff]
  constructor
  · rintro ⟨f, ⟨k, hk, hf⟩, hi⟩
    exact ⟨k, hk, f, hf, hi⟩
  · rintro ⟨k, hk, f, hf, hi⟩
    exact ⟨f, ⟨k, hk, hf⟩, hi⟩

/-- Every keyword of one list denotes the same as some keyword of the other. -/
def Repeats (keywords others : List String) : Prop :=
  ∀ k ∈ keywords, ∃ k' ∈ others, ∀ f, Flag.Denotes k f ↔ Flag.Denotes k' f

theorem Repeats.denoted (h : Repeats keywords others) (hothers : ∀ k ∈ others, ∃ f, Flag.Denotes k f) :
    ∀ k ∈ keywords, ∃ f, Flag.Denotes k f := by
  intro k hk
  obtain ⟨k', hk', hsame⟩ := h k hk
  obtain ⟨f, hf⟩ := hothers k' hk'
  exact ⟨f, (hsame f).mpr hf⟩

theorem Repeats.exists_denotes (h : Repeats keywords others)
    (hk : ∃ k ∈ keywords, ∃ f, Flag.Denotes k f ∧ f.place = i) :
    ∃ k ∈ others, ∃ f, Flag.Denotes k f ∧ f.place = i := by
  obtain ⟨k, hk, f, hf, hi⟩ := hk
  obtain ⟨k', hk', hsame⟩ := h k hk
  exact ⟨k', hk', f, (hsame f).mp hf, hi⟩

theorem Repeats.ofKeywords (h : Repeats keywords others) (h' : Repeats others keywords)
    (ha : ofKeywords keywords = .ok a) : ofKeywords others = .ok a := by
  obtain ⟨b, hb⟩ := exists_ofKeywords_eq_ok_iff.mpr (h'.denoted (exists_ofKeywords_eq_ok_iff.mp ⟨a, ha⟩))
  have hab : a = b := by
    apply ext_sets
    intro i
    rw [sets_of_ofKeywords ha, sets_of_ofKeywords hb]
    exact ⟨h.exists_denotes, h'.exists_denotes⟩
  rw [hab, hb]

theorem ofKeywords_keywords (a : Access) : ofKeywords a.keywords = .ok a.named := by
  have hread : Flag.ofKeyword? ∘ Flag.keyword = some := funext Flag.ofKeyword?_keyword
  rw [ofKeywords_eq_ok_iff, keywords, List.filterMap_map, hread, List.filterMap_some, ofFlags_flags]
  refine ⟨?_, rfl⟩
  intro k hk
  obtain ⟨f, -, rfl⟩ := List.mem_map.mp hk
  simp [Flag.ofKeyword?_keyword]

theorem any_space_keyword : ∀ f ∈ Flag.all, (f.name.toList.map Char.toLower).any (· == ' ') = false := by
  decide +kernel

theorem keywords_ne_nil (h : a.named.bits ≠ 0) : a.keywords ≠ [] := by
  intro hnil
  have hflags : a.flags = [] := List.map_eq_nil_iff.mp hnil
  have hnamed := ofFlags_flags a
  rw [hflags] at hnamed
  exact h (congrArg bits hnamed.symm)

theorem pieces_render (h : a.named.bits ≠ 0) :
    (Text.pieces (· == ' ') a.render.toList).map String.ofList = a.keywords := by
  have hbits : a.bits ≠ 0 := by
    intro hzero
    simp [named, hzero] at h
  have hspaces : ∀ p ∈ a.keywords.map String.toList, ∀ c ∈ p, (c == ' ') = false := by
    intro p hp
    obtain ⟨k, hk, rfl⟩ := List.mem_map.mp hp
    obtain ⟨f, -, rfl⟩ := List.mem_map.mp hk
    rw [Flag.keyword_toList]
    simpa only [List.any_eq_false, Bool.not_eq_true] using any_space_keyword f (Flag.mem_all f)
  rw [render, if_neg hbits, String.toList_intercalate, show " ".toList = [' '] from rfl,
    Text.pieces_intercalate (by simpa using keywords_ne_nil h) hspaces rfl, List.map_map]
  simp [Function.comp_def]

/-- A list of keywords is accepted if every one of them denotes a flag. Its mask has just the bits of the flags denoted,
so that two lists which denote the same are read alike. Otherwise the first keyword that denotes none is reported as it
is written. The keywords of a mask are read as the mask without its nameless bits, and stand in its text with spaces
between them unless there are none. -/
theorem ofKeywords_reads :
    (∀ keywords, (∃ a, ofKeywords keywords = .ok a) ↔ ∀ k ∈ keywords, ∃ f, Flag.Denotes k f) ∧
      (∀ keywords a, ofKeywords keywords = .ok a →
        ∀ i, a.Sets i ↔ ∃ k ∈ keywords, ∃ f, Flag.Denotes k f ∧ f.place = i) ∧
      (∀ keywords others, Repeats keywords others → Repeats others keywords →
        ∀ a, ofKeywords keywords = .ok a ↔ ofKeywords others = .ok a) ∧
      (∀ keywords e, ofKeywords keywords = .error e ↔
        ∃ k, keywords.IsFirst (fun k => ¬∃ f, Flag.Denotes k f) k ∧ .unknownAccessFlag k = e) ∧
      (∀ a : Access, ofKeywords a.keywords = .ok a.named) ∧
      ∀ a : Access, a.named.bits ≠ 0 → (Text.pieces (· == ' ') a.render.toList).map String.ofList = a.keywords := by
  refine ⟨fun _ => exists_ofKeywords_eq_ok_iff, fun _ _ h _ => sets_of_ofKeywords h, ?_, ?_, ofKeywords_keywords,
    fun _ => pieces_render⟩
  · intro keywords others h h' a
    exact ⟨h.ofKeywords h', h'.ofKeywords h⟩
  · intro keywords e
    rw [ofKeywords_eq_error_iff]
    simp only [Flag.ofKeyword?_eq_none_iff]

/-- Two lists that denote the same two flags, and a mask with a nameless bit. -/
theorem ofKeywords_reads_mixed :
    ofKeywords [" acc_Public", "strictFP", "PUBLIC"] = .ok ⟨0x0801⟩ ∧
      (Sets ⟨0x0801⟩ 11 ↔ ∃ k ∈ [" acc_Public", "strictFP", "PUBLIC"], ∃ f, Flag.Denotes k f ∧ f.place = 11) ∧
      Repeats [" acc_Public", "strictFP", "PUBLIC"] ["Acc_Strict\t", "public"] ∧
      Repeats ["Acc_Strict\t", "public"] [" acc_Public", "strictFP", "PUBLIC"] ∧
      ofKeywords ["Acc_Strict\t", "public"] = .ok ⟨0x0801⟩ ∧
      named ⟨0x2801⟩ = ⟨0x0801⟩ ∧ ofKeywords (Access.keywords ⟨0x2801⟩) = .ok ⟨0x0801⟩ ∧
      (Text.pieces (· == ' ') (render ⟨0x2801⟩).toList).map String.ofList = Access.keywords ⟨0x2801⟩ := by
  obtain ⟨-, hbits, hrepeats, -, hback, htext⟩ := ofKeywords_reads
  have hread : ofKeywords [" acc_Public", "strictFP", "PUBLIC"] = .ok ⟨0x0801⟩ := by decide +kernel
  have hpublic {f : Flag} : Flag.Denotes " acc_Public" f ↔ Flag.Denotes "public" f :=
    Flag.denotes_congr (by decide +kernel)
  have hstrict {f : Flag} : Flag.Denotes "strictFP" f ↔ Flag.Denotes "Acc_Strict\t" f :=
    Flag.denotes_congr (by decide +kernel)
  have hcapitals {f : Flag} : Flag.Denotes "PUBLIC" f ↔ Flag.Denotes "public" f :=
    Flag.denotes_congr (by decide +kernel)
  have hfirst : Repeats [" acc_Public", "strictFP", "PUBLIC"] ["Acc_Strict\t", "public"] := by
    simp [Repeats, hpublic, hstrict, hcapitals]
  have hsecond : Repeats ["Acc_Strict\t", "public"] [" acc_Public", "strictFP", "PUBLIC"] := by
    simp [Repeats, hpublic, hstrict, hcapitals]
  refine ⟨hread, hbits _ _ hread 11, hfirst, hsecond, ?_, by decide, hback ⟨0x2801⟩, htext ⟨0x2801⟩ (by decide)⟩
  exact (hrepeats _ _ hfirst hsecond _).mp hread

end Access

end MethodSearch.Bytecode
