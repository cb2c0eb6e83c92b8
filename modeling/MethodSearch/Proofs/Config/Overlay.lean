import Mathlib.Data.List.Nodup
import MethodSearch.Config
import MethodSearch.Proofs.Json.Indented
import MethodSearch.Proofs.Json.Members

/-!
# Settings over the defaults

A file that gives some of the settings is read as these over the defaults, in whatever order and layout it gives them
and whatever else it holds: what one field stores depends on no other.
-/

namespace MethodSearch.Config

open Json

variable {suggested : Nat} {c : Config} {chosen : Setting → Bool} {s : Setting} {names : List String}
  {ms foreign : List (String × Value)}

/-- The chosen settings of one configuration, and the others of another. -/
def overlay (chosen : Setting → Bool) (c d : Config) : Config :=
  let source (s : Setting) : Config := if chosen s then c else d
  { classesFile := (source .classesFile).classesFile
    signaturesFile := (source .signaturesFile).signaturesFile
    outputFile := (source .outputFile).outputFile
    prettyOutput := (source .prettyOutput).prettyOutput
    parallel := (source .parallel).parallel
    maxThreads := (source .maxThreads).maxThreads
    strict := (source .strict).strict
    logLevel := (source .logLevel).logLevel }

/-- The same configuration on a machine that suggests some number of workers. -/
def counted (suggested : Nat) (c : Config) : Config :=
  { c with maxThreads := .fixed (c.maxThreads.count suggested) }

/-- The settings with these names, over the defaults. -/
def draft (suggested : Nat) (c : Config) (names : List String) : Config :=
  overlay (fun s => names.contains s.name) (c.counted suggested) {}

namespace Setting

theorem mem_all (s : Setting) : s ∈ all := by
  cases s <;> decide

theorem nodup_names : (all.map name).Nodup := by
  decide

theorem name_injective : Function.Injective name := fun s t =>
  List.inj_on_of_nodup_map nodup_names s.mem_all t.mem_all

theorem isSome_field?_iff (key : String) : (layout.field? key).isSome = true ↔ ∃ s : Setting, s.name = key := by
  have hnames : layout.fields.map (·.name) = all.map name := rfl
  calc (layout.field? key).isSome = true
    _ ↔ key ∈ layout.fields.map (·.name) := by simp [Layout.field?]
    _ ↔ ∃ s : Setting, s.name = key := by simp [hnames, mem_all]

end Setting

theorem draft_cons (suggested : Nat) (c : Config) (s : Setting) (names : List String) :
    draft suggested c (s.name :: names) =
      overlay (fun t => t == s || names.contains t.name) (c.counted suggested) {} := by
  refine congrArg (overlay · _ _) (funext fun t => ?_)
  rw [List.contains_cons, Bool.eq_iff_iff]
  simp [Setting.name_injective.eq_iff]

/-- A field takes its setting from what is written and leaves the others. -/
theorem store_value (h : c.maxThreads.count suggested < UInt64.size) {f : LayoutField Config}
    (hf : layout.field? s.name = some f) :
    f.store (draft suggested c names) (.ofValue (s.value suggested c)) = .ok (draft suggested c (s.name :: names)) := by
  have hpath (o : Option String) : (Document.ofValue (.ofOption .string o)).optional (·.text) = .ok o :=
    Document.optional_ofOption (fun _ => nofun) fun _ _ => rfl
  have hthreads := Document.natural_ofNat h (Nat.le_refl _)
  rw [draft_cons]
  cases s with
  | classesFile | signaturesFile | outputFile =>
      cases hf
      simp only [Setting.value, hpath]
      rfl
  | maxThreads =>
      cases hf
      simp only [Setting.value, hthreads]
      rfl
  | prettyOutput | parallel | strict | logLevel =>
      cases hf
      rfl

/-! ## Objects -/

section Objects

variable (hforeign : ∀ m ∈ foreign, ∀ s : Setting, m.1 ≠ s.name)
  (hms : ms.Perm ((Setting.all.filter chosen).map (c.member suggested) ++ foreign))

include hforeign in
theorem field?_foreign : ∀ m ∈ foreign, layout.field? m.1 = none := by
  intro m hm
  rw [← Option.not_isSome_iff_eq_none, Setting.isSome_field?_iff]
  rintro ⟨s, hs⟩
  exact hforeign m hm s hs.symm

include hforeign hms

theorem fieldNames_perm_chosen : (layout.fieldNames ms).Perm ((Setting.all.filter chosen).map Setting.name) := by
  have hknown : ∀ m ∈ (Setting.all.filter chosen).map (c.member suggested), (layout.field? m.1).isSome = true :=
    List.forall_mem_map.mpr fun s _ => (Setting.isSome_field?_iff _).mpr ⟨s, rfl⟩
  have hnames := layout.fieldNames_perm hms
  rwa [Layout.fieldNames_append, Layout.fieldNames_of_known hknown,
    Layout.fieldNames_of_unknown (field?_foreign hforeign), List.append_nil, List.map_map] at hnames

theorem storesNames_draft (h : c.maxThreads.count suggested < UInt64.size) :
    layout.StoresNames (draft suggested c) ms := by
  intro m hm f hf names
  rcases List.mem_append.mp (hms.mem_iff.mp hm) with hgiven | hother
  · obtain ⟨s, -, rfl⟩ := List.mem_map.mp hgiven
    exact store_value h hf
  · rw [field?_foreign hforeign m hother] at hf
    cases hf

theorem read_overlay (h : c.maxThreads.count suggested < UInt64.size) :
    layout.read (.ofValue (.object ms)) = .ok (overlay chosen (c.counted suggested) {}) := by
  have hnames := fieldNames_perm_chosen hforeign hms
  have hnodup : (layout.fieldNames ms).Nodup :=
    hnames.nodup_iff.mpr ((List.filter_sublist.map _).nodup Setting.nodup_names)
  have hchosen (s : Setting) : (layout.fieldNames ms).reverse.contains s.name = chosen s := by
    rw [Bool.eq_iff_iff, List.contains_iff_mem, List.mem_reverse, hnames.mem_iff]
    simp [Setting.name_injective.eq_iff, Setting.mem_all]
  have hdraft : draft suggested c (layout.fieldNames ms).reverse = overlay chosen (c.counted suggested) {} :=
    congrArg (overlay · _ _) (funext hchosen)
  exact Layout.read_draft (storesNames_draft hforeign hms h) hnodup rfl (congrArg some hdraft)

end Objects

theorem parse_compact (h : c.maxThreads.count suggested < UInt64.size) :
    parse (c.toJson suggested).compact = .ok (c.counted suggested) := by
  have hall : (Setting.all.map (c.member suggested)).Perm
      ((Setting.all.filter fun _ => true).map (c.member suggested) ++ []) := .of_eq (List.append_nil _).symm
  exact (decode_compact _ _).trans (read_overlay (fun _ hm => absurd hm List.not_mem_nil) hall h)

theorem counted_of_fixed {n : Nat} (hn : c.maxThreads = .fixed n) : c.counted suggested = c := by
  rw [counted, hn, Threads.count, ← hn]

/-- Where an object gives some settings of a configuration, in any order and among any other members, every text of it
is read as these settings over the defaults. The text of all settings is read as the configuration itself; where the
number of workers was left to the machine, it is the number that the machine suggested. -/
theorem parse_overlay (h : c.maxThreads.count suggested < UInt64.size) :
    (∀ (chosen : Setting → Bool) (foreign ms : List (String × Value)) (cs : List Char),
      (∀ m ∈ foreign, ∀ s : Setting, m.1 ≠ s.name) →
      ms.Perm ((Setting.all.filter chosen).map (c.member suggested) ++ foreign) →
      Written (.object ms) cs →
      parse (String.ofList cs) = .ok (overlay chosen (c.counted suggested) {})) ∧
      parse (c.toJson suggested).compact = .ok (c.counted suggested) ∧
      ∀ n, c.maxThreads = .fixed n → parse (c.toJson suggested).compact = .ok c := by
  refine ⟨?_, parse_compact h, ?_⟩
  · intro chosen foreign ms cs hforeign hms hcs
    exact (decode_written _ hcs).trans (read_overlay hforeign hms h)
  · intro n hn
    rw [parse_compact h, counted_of_fixed hn]

/-- Marks and a line break in a path, and as many workers as can be written. -/
def strictConfig : Config :=
  ⟨some "\"c\n", none, some "r", false, true, .fixed (UInt64.size - 1), true, "debug"⟩

/-- Members with other keys, the names of settings inside of one. -/
def strayMembers : List (String × Value) :=
  [("more", .object [("strict", .array [.null, .number ⟨true, 1, [], some (.ofNat 999)⟩]), ("strict", .object [])]),
    ("Parallel", .string "\x7d\x00")]

/-- A path, a path that is not set and a number. -/
def isPicked (s : Setting) : Bool :=
  s ∈ [.classesFile, .signaturesFile, .maxThreads]

/-- The picked settings out of order, with the other members between them. -/
def scatteredMembers : List (String × Value) :=
  [("classes_file", .string "\"c\n"), ("Parallel", .string "\x7d\x00"),
    ("more", .object [("strict", .array [.null, .number ⟨true, 1, [], some (.ofNat 999)⟩]), ("strict", .object [])]),
    ("max_threads", .ofNat (UInt64.size - 1)), ("signatures_file", .null)]

theorem parse_overlay_scattered :
    strictConfig.maxThreads.count 8 < UInt64.size ∧
      (∀ m ∈ strayMembers, ∀ s : Setting, m.1 ≠ s.name) ∧
      scatteredMembers.Perm ((Setting.all.filter isPicked).map (strictConfig.member 8) ++ strayMembers) ∧
      parse (Value.object scatteredMembers).indented =
        .ok { classesFile := some "\"c\n", maxThreads := .fixed (UInt64.size - 1) } ∧
      parse (strictConfig.toJson 8).compact = .ok strictConfig := by
  have hthreads : strictConfig.maxThreads.count 8 < UInt64.size := by decide
  have hkeys : ∀ key ∈ strayMembers.map (·.1), key ∉ Setting.all.map Setting.name := by decide
  have hstray (m : String × Value) (hm : m ∈ strayMembers) (s : Setting) : m.1 ≠ s.name := fun he =>
    hkeys m.1 (List.mem_map_of_mem hm) (he ▸ List.mem_map_of_mem s.mem_all)
  -- Behind the first member the others stand the other way round.
  have hperm : scatteredMembers.Perm ((Setting.all.filter isPicked).map (strictConfig.member 8) ++ strayMembers) :=
    (List.reverse_perm (_ :: _ :: strayMembers)).cons _
  obtain ⟨hparse, -, hfixed⟩ := parse_overlay hthreads
  exact ⟨hthreads, hstray, hperm, hparse _ _ _ _ hstray hperm (written_indentedChars _ 0), hfixed _ rfl⟩

end MethodSearch.Config
