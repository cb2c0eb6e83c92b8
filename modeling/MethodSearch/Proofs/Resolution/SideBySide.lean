import Mathlib.Data.List.Forall2
import MethodSearch.Proofs.Resolution.Schedules
import MethodSearch.Proofs.Resolution.Trail

/-!
# Two searches side by side

Where the trials of two searches correspond place by place, with the same names and with outcomes that correspond, so do
their entries: they stand at the same places, in the same order.
-/

namespace MethodSearch

open Bytecode

variable {classes classes' : List JavaClass} {signatures signatures' : List Signature}

/-- The entries of a map, each with the place of its first success. -/
structure Placed (classes : List JavaClass) (signatures : List Signature) (map : LocationMap)
    (found : List (Place × String × Location)) : Prop where
  entries : map.entries = found.map (·.2)
  first : ∀ x ∈ found, FirstSuccess classes signatures x.1 x.2.1 x.2.2

theorem placed_discoveries (strategy : Strategy) (classes : List JavaClass) (signatures : List Signature) :
    Placed classes signatures (resolve strategy classes signatures).map (discoveries classes signatures) := by
  rw [resolve_map]
  exact ⟨searchInOrder_entries_eq_discoveries, fun _ hx => mem_discoveries.mp hx⟩

section Lists

variable {α β : Type} {R : α → β → Prop}

theorem zipIdx_forall₂ {as : List α} {bs : List β} (h : List.Forall₂ R as bs) (n : Nat) :
    List.Forall₂ (fun x y => R x.1 y.1 ∧ x.2 = y.2) (as.zipIdx n) (bs.zipIdx n) := by
  induction h generalizing n with
  | nil => exact .nil
  | cons hab _ ih => exact .cons ⟨hab, rfl⟩ (ih (n + 1))

theorem firsts_forall₂ {name : α → String} {name' : β → String} (hname : ∀ a b, R a b → name a = name' b)
    {as : List α} {bs : List β} (h : List.Forall₂ R as bs) :
    List.Forall₂ R (firsts name as) (firsts name' bs) := by
  induction h with
  | nil => exact .nil
  | @cons a b as bs hab _ ih =>
      refine .cons hab (List.rel_filter ?_ ih)
      intro c d hcd
      simp only [hname a b hab, hname c d hcd]

theorem exists_mem_of_forall₂ {as : List α} {bs : List β} (h : List.Forall₂ R as bs) {a : α} (ha : a ∈ as) :
    ∃ b ∈ bs, R a b := by
  induction h with
  | nil => cases ha
  | @cons c d as bs hcd _ ih =>
      rcases List.mem_cons.mp ha with rfl | ha
      · exact ⟨d, List.mem_cons_self, hcd⟩
      · obtain ⟨b, hb, hab⟩ := ih ha
        exact ⟨b, List.mem_cons_of_mem _ hb, hab⟩

theorem optionRel_map {γ δ : Type} {S : γ → δ → Prop} {f : α → γ} {g : β → δ} {a : Option α} {b : Option β}
    (h : Option.Rel R a b) (hfg : ∀ x y, R x y → S (f x) (g y)) : Option.Rel S (a.map f) (b.map g) := by
  cases h with
  | none => exact .none
  | some hxy => exact .some (hfg _ _ hxy)

end Lists

/-! ## Trials side by side -/

section Trials

variable {OfClass : JavaClass → JavaClass → Prop} {OfMethod : Method → Method → Prop}
  {OfSignature : Signature → Signature → Prop}

theorem placedTrials_forall₂ (OfTrial : Trial → Trial → Prop)
    (hmethods : ∀ c c', OfClass c c' → List.Forall₂ OfMethod c.methods c'.methods)
    (htrial : ∀ c c' m m' s s', OfClass c c' → OfMethod m m' → OfSignature s s' →
      OfTrial ⟨c, m, s⟩ ⟨c', m', s'⟩)
    (hc : List.Forall₂ OfClass classes classes') (hs : List.Forall₂ OfSignature signatures signatures') :
    List.Forall₂ (fun x y => x.1 = y.1 ∧ OfTrial x.2 y.2) (placedTrials classes signatures)
      (placedTrials classes' signatures') := by
  -- The three levels of the trials are gone through in turn.
  refine List.rel_flatMap (zipIdx_forall₂ hc 0) ?_
  rintro ⟨c, i⟩ ⟨c', _⟩ ⟨hcc, rfl⟩
  refine List.rel_flatMap (zipIdx_forall₂ (hmethods c c' hcc) 0) ?_
  rintro ⟨m, j⟩ ⟨m', _⟩ ⟨hmm, rfl⟩
  refine List.rel_map ?_ (zipIdx_forall₂ hs 0)
  rintro ⟨s, k⟩ ⟨s', _⟩ ⟨hss, rfl⟩
  exact ⟨rfl, htrial c c' m m' s s' hcc hmm hss⟩

variable {OfLocation : Location → Location → Prop}

/-- Both entries have one name, and their locations correspond. -/
def SameName (OfLocation : Location → Location → Prop) (e e' : String × Location) : Prop :=
  e.1 = e'.1 ∧ OfLocation e.2 e'.2

/-- Trials at the same places enter corresponding locations under the same names, or nothing. -/
def EnterAlike (OfLocation : Location → Location → Prop) (ps ps' : List (Place × Trial)) : Prop :=
  List.Forall₂ (fun x y => x.1 = y.1 ∧ Option.Rel (SameName OfLocation) (Trial.entry? x.2) (Trial.entry? y.2)) ps ps'

/-- Trials of one name enter corresponding locations where their outcomes are the same but for the scan. -/
theorem entry?_rel_of_compare {t t' : Trial} {f : Scan → Scan} (hname : t.signature.name = t'.signature.name)
    (hcompare : t'.signature.compare t'.method = (t.signature.compare t.method).map f)
    (hlocation : ∀ scan, OfLocation ⟨t.owner, t.method, scan⟩ ⟨t'.owner, t'.method, f scan⟩) :
    Option.Rel (SameName OfLocation) t.entry? t'.entry? := by
  rw [Trial.entry?, Trial.entry?, hcompare]
  cases t.signature.compare t.method with
  | error reason => exact .none
  | ok scan => exact .some ⟨hname, hlocation scan⟩

theorem successes_forall₂
    (h : EnterAlike OfLocation (placedTrials classes signatures) (placedTrials classes' signatures')) :
    List.Forall₂ (fun x y => x.1 = y.1 ∧ SameName OfLocation x.2 y.2) (successes classes signatures)
      (successes classes' signatures') := by
  refine List.rel_filterMap ?_ h
  rintro ⟨p, t⟩ ⟨_, t'⟩ ⟨rfl, hentry⟩
  exact optionRel_map hentry fun _ _ hsame => ⟨rfl, hsame⟩

theorem discoveries_forall₂
    (h : EnterAlike OfLocation (placedTrials classes signatures) (placedTrials classes' signatures')) :
    List.Forall₂ (fun x y => x.1 = y.1 ∧ SameName OfLocation x.2 y.2) (discoveries classes signatures)
      (discoveries classes' signatures') :=
  firsts_forall₂ (fun _ _ hxy => hxy.2.1) (successes_forall₂ h)

theorem Placed.names_eq {map : LocationMap} {found : List (Place × String × Location)}
    (h : Placed classes signatures map found) : map.names = found.map (·.2.1) := by
  rw [LocationMap.names, h.entries, List.map_map]
  rfl

theorem LocationMap.unresolved_congr {m m' : LocationMap} (hm : m.names = m'.names)
    (hs : signatures.map (·.name) = signatures'.map (·.name)) :
    m.unresolved signatures = m'.unresolved signatures' := by
  rw [unresolved, unresolved, hs]
  refine List.filter_congr fun name _ => ?_
  rw [Bool.not_inj_iff, Bool.eq_iff_iff, contains_iff, contains_iff, hm]

theorem resolve_forall₂ (strategy : Strategy)
    (h : EnterAlike OfLocation (placedTrials classes signatures) (placedTrials classes' signatures'))
    (hs : signatures.map (·.name) = signatures'.map (·.name)) :
    let map := (resolve strategy classes signatures).map
    let map' := (resolve strategy classes' signatures').map
    (∃ found found', Placed classes signatures map found ∧ Placed classes' signatures' map' found' ∧
        List.Forall₂ (fun x y => x.1 = y.1 ∧ SameName OfLocation x.2 y.2) found found') ∧
      map'.unresolved signatures' = map.unresolved signatures := by
  intro map map'
  have hfound := placed_discoveries strategy classes signatures
  have hfound' := placed_discoveries strategy classes' signatures'
  have hpairs := discoveries_forall₂ h
  have hnames : map.names = map'.names := by
    rw [hfound.names_eq, hfound'.names_eq, ← List.forall₂_eq_eq_eq]
    exact List.rel_map (fun _ _ hxy => hxy.2.1) hpairs
  exact ⟨⟨_, _, hfound, hfound', hpairs⟩, (LocationMap.unresolved_congr hnames hs).symm⟩

end Trials

end MethodSearch
