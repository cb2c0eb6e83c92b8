import MethodSearch.Proofs.Resolution.SideBySide
import MethodSearch.Proofs.Signature.Alike

/-!
# What a search does not look at

Markers do not decide which method is found, and neither do the names of classes and methods or what stands behind the
shape of a type.
-/

namespace MethodSearch

open Bytecode

variable {classes classes' : List JavaClass} {signatures signatures' : List Signature}

/-- The class with the markers of all its bodies dropped. -/
def Bytecode.JavaClass.withoutMarkers (c : JavaClass) : JavaClass :=
  { c with methods := c.methods.map Method.withoutMarkers }

/-- The location of the same opcodes once the markers are dropped. -/
def Location.withoutMarkers (l : Location) : Location :=
  ⟨l.owner.withoutMarkers, l.method.withoutMarkers, l.scan.ranked l.method.body⟩

theorem placedTrials_withoutMarkers (classes : List JavaClass) (signatures : List Signature) :
    EnterAlike (fun l l' => l.withoutMarkers = l') (placedTrials classes signatures)
      (placedTrials (classes.map JavaClass.withoutMarkers) signatures) := by
  have hmethods (c c' : JavaClass) (hc : c.withoutMarkers = c') :
      List.Forall₂ (fun m m' => m.withoutMarkers = m') c.methods c'.methods := by
    rw [← hc]
    exact List.forall₂_map_right_iff.mpr (List.forall₂_same.mpr fun _ _ => rfl)
  have hclasses : List.Forall₂ (fun c c' => c.withoutMarkers = c') classes (classes.map JavaClass.withoutMarkers) :=
    List.forall₂_map_right_iff.mpr (List.forall₂_same.mpr fun _ _ => rfl)
  have hsignatures : List.Forall₂ (fun s s' => s = s') signatures signatures := List.forall₂_same.mpr fun _ _ => rfl
  refine placedTrials_forall₂
    (fun t t' => Option.Rel (SameName fun l l' => l.withoutMarkers = l') (Trial.entry? t) (Trial.entry? t'))
    hmethods ?_ hclasses hsignatures
  rintro c _ m _ s _ rfl rfl rfl
  exact entry?_rel_of_compare rfl (s.compare_withoutMarkers m) fun _ => rfl

/-- Without the markers, a search finds the same names in the same order at the same places, and leaves the same names
over. The windows go to the ranks of their ends, and patterns are counted as before. -/
theorem resolve_withoutMarkers (strategy : Strategy) (classes : List JavaClass) (signatures : List Signature) :
    let map := (resolve strategy classes signatures).map
    let bare := (resolve strategy (classes.map JavaClass.withoutMarkers) signatures).map
    (∃ found, Placed classes signatures map found ∧
        Placed (classes.map JavaClass.withoutMarkers) signatures bare
          (found.map fun (p, name, l) => (p, name, l.withoutMarkers))) ∧
      bare.unresolved signatures = map.unresolved signatures ∧
      ∀ body opcodes, occurrences (withoutMarkers body) opcodes = occurrences body opcodes := by
  obtain ⟨⟨found, found', hfound, hfound', hpairs⟩, hnames⟩ :=
    resolve_forall₂ strategy (placedTrials_withoutMarkers classes signatures) rfl
  refine ⟨⟨found, hfound, ?_⟩, hnames, occurrences_withoutMarkers⟩
  have hmap : (found.map fun (p, name, l) => (p, name, l.withoutMarkers)) = found' := by
    rw [← List.forall₂_eq_eq_eq, List.forall₂_map_left_iff]
    refine hpairs.imp ?_
    rintro ⟨p, name, l⟩ ⟨_, _, _⟩ ⟨rfl, rfl, rfl⟩
    rfl
  rw [hmap]
  exact hfound'

/-! ## Names and shapes -/

theorem placedTrials_alike (hc : List.Forall₂ JavaClass.Alike classes classes')
    (hs : List.Forall₂ Signature.Alike signatures signatures') :
    List.Forall₂
      (fun x y => x.1 = y.1 ∧ x.2.signature.Alike y.2.signature ∧ x.2.method.Alike y.2.method)
      (placedTrials classes signatures) (placedTrials classes' signatures') :=
  placedTrials_forall₂ (fun t t' => t.signature.Alike t'.signature ∧ t.method.Alike t'.method) (fun _ _ hcc => hcc)
    (fun _ _ _ _ _ _ _ hmm hss => ⟨hss, hmm⟩) hc hs

theorem entry?_rel_of_alike {t t' : Trial} (hs : t.signature.Alike t'.signature) (hm : t.method.Alike t'.method) :
    Option.Rel (SameName fun l l' => l.scan = l'.scan) t.entry? t'.entry? := by
  have hcompare : t'.signature.compare t'.method = (t.signature.compare t.method).map id := by
    rw [hs.compare_eq hm]
    cases t'.signature.compare t'.method <;> rfl
  exact entry?_rel_of_compare hs.name hcompare fun _ => rfl

/-- Classes and methods may be renamed and types exchanged for types of their shape, on both sides and at each
occurrence by itself: each comparison has the same outcome, and the search finds the same names in the same order at
the same places with the same scans, and leaves the same names over. -/
theorem resolve_alike (strategy : Strategy) (hc : List.Forall₂ JavaClass.Alike classes classes')
    (hs : List.Forall₂ Signature.Alike signatures signatures') :
    let map := (resolve strategy classes signatures).map
    let map' := (resolve strategy classes' signatures').map
    (∀ p t, TrialAt classes signatures p t → ∃ t', TrialAt classes' signatures' p t' ∧
        t.signature.compare t.method = t'.signature.compare t'.method) ∧
      (∃ found found', Placed classes signatures map found ∧ Placed classes' signatures' map' found' ∧
        List.Forall₂ (fun x y => x.1 = y.1 ∧ x.2.1 = y.2.1 ∧ x.2.2.scan = y.2.2.scan) found found') ∧
      map'.unresolved signatures' = map.unresolved signatures := by
  have htrials := placedTrials_alike hc hs
  refine ⟨?_, ?_⟩
  · intro p t ht
    obtain ⟨⟨_, t'⟩, hmem, rfl, hss, hmm⟩ := exists_mem_of_forall₂ htrials (mem_placedTrials.mpr ht)
    exact ⟨t', mem_placedTrials.mp hmem, hss.compare_eq hmm⟩
  · have hentries : EnterAlike (fun l l' => l.scan = l'.scan) (placedTrials classes signatures)
        (placedTrials classes' signatures') :=
      htrials.imp fun _ _ hxy => ⟨hxy.1, entry?_rel_of_alike hxy.2.1 hxy.2.2⟩
    have hnames : signatures.map (·.name) = signatures'.map (·.name) := by
      rw [← List.forall₂_eq_eq_eq]
      exact List.rel_map (fun _ _ hss => hss.name) hs
    exact resolve_forall₂ strategy hentries hnames

/-- A class under the names of its source. -/
def boxClass : JavaClass :=
  ⟨"app/Box",
    [⟨"label", .object "java/lang/String", [.array (.primitive .int)], ⟨1⟩, [.line 3, .op 42, .op 180, .op 176]⟩,
      ⟨"size", .primitive .int, [], ⟨1⟩, [.op 3, .op 172]⟩]⟩

/-- The same class after an obfuscator went over it. -/
def renamedBoxClass : JavaClass :=
  ⟨"a",
    [⟨"a", .object "b", [.array (.array (.object "c"))], ⟨1⟩, [.line 3, .op 42, .op 180, .op 176]⟩,
      ⟨"a", .primitive .int, [], ⟨1⟩, [.op 3, .op 172]⟩]⟩

/-- Signatures of a getter and of a method that is not there. -/
def boxSignatures (result : String) (element : JavaType) : List Signature :=
  [⟨"label", .exactly (.object result), .any, .exactly [.array element], .exactly ⟨[42, 180]⟩⟩,
    ⟨"missing", .exactly .void, .any, .any, .any⟩]

theorem renamedBoxClass_alike : boxClass.Alike renamedBoxClass :=
  .cons ⟨.object _ _, .cons (.array _ _) .nil, rfl, rfl⟩ (.cons ⟨.primitive _, .nil, rfl, rfl⟩ .nil)

theorem boxSignatures_alike (result result' : String) (element element' : JavaType) :
    List.Forall₂ Signature.Alike (boxSignatures result element) (boxSignatures result' element') :=
  .cons ⟨rfl, .exactly (.object _ _), rfl, .exactly (.cons (.array _ _) .nil), rfl⟩
    (.cons ⟨rfl, .exactly .void, rfl, .any, rfl⟩ .nil)

theorem resolve_renamedBoxClass :
    let signatures := boxSignatures "java/lang/Object" (.primitive .byte)
    let signatures' := boxSignatures "x" (.array (.object "y"))
    List.Forall₂ JavaClass.Alike [boxClass] [renamedBoxClass] ∧
      List.Forall₂ Signature.Alike signatures signatures' ∧
      (∃ found found', Placed [boxClass] signatures (resolve .sequential [boxClass] signatures).map found ∧
        Placed [renamedBoxClass] signatures' (resolve .sequential [renamedBoxClass] signatures').map found' ∧
        List.Forall₂ (fun x y => x.1 = y.1 ∧ x.2.1 = y.2.1 ∧ x.2.2.scan = y.2.2.scan) found found') ∧
      (resolve .sequential [renamedBoxClass] signatures').map.unresolved signatures' = ["missing"] := by
  intro signatures signatures'
  have hc : List.Forall₂ JavaClass.Alike [boxClass] [renamedBoxClass] := .cons renamedBoxClass_alike .nil
  have hs : List.Forall₂ Signature.Alike signatures signatures' := boxSignatures_alike ..
  have hmissing : (resolve .sequential [boxClass] signatures).map.unresolved signatures = ["missing"] := by decide
  obtain ⟨-, hfound, hnames⟩ := resolve_alike .sequential hc hs
  exact ⟨hc, hs, hfound, hnames.trans hmissing⟩

end MethodSearch
