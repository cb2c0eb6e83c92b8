import Mathlib.Data.List.Forall2

/-!
# Readings that fail

A reading in steps fails where its first step fails. A list that is read item by item is read as a list of the same
length, or fails at the first item that is not read.
-/

/-- Of the items with a property, the list holds this one first. -/
inductive List.IsFirst {α : Type} (p : α → Prop) (a : α) : List α → Prop
  | here {as : List α} : p a → IsFirst p a (a :: as)
  | behind {b : α} {as : List α} : ¬p b → IsFirst p a as → IsFirst p a (b :: as)

namespace List

variable {α β : Type} {p q : α → Prop} {a b : α} {as : List α}

theorem IsFirst.mem (h : IsFirst p a as) : a ∈ as := by
  induction h with
  | here _ => exact mem_cons_self
  | behind _ _ ih => exact mem_cons_of_mem _ ih

theorem IsFirst.holds (h : IsFirst p a as) : p a := by
  induction h with
  | here ha => exact ha
  | behind _ _ ih => exact ih

theorem isFirst_cons_of_pos (hb : p b) : IsFirst p a (b :: as) ↔ a = b := by
  constructor
  · rintro (_ | ⟨hnot, -⟩)
    · rfl
    · exact absurd hb hnot
  · rintro rfl
    exact .here hb

theorem isFirst_cons_of_neg (hb : ¬p b) : IsFirst p a (b :: as) ↔ IsFirst p a as := by
  constructor
  · rintro (ha | ⟨-, h⟩)
    · exact absurd ha hb
    · exact h
  · exact .behind hb

theorem isFirst_congr (h : ∀ a, p a ↔ q a) : IsFirst p a as ↔ IsFirst q a as := by
  rw [show p = q from funext fun a => propext (h a)]

/-- The first item of a kind is the first of a narrower kind that it belongs to. -/
theorem IsFirst.narrow (h : IsFirst p a as) (ha : q a) (hqp : ∀ b ∈ as, q b → p b) : IsFirst q a as := by
  induction h with
  | here _ => exact .here ha
  | behind hb _ ih =>
      rw [forall_mem_cons] at hqp
      exact .behind (fun hq => hb (hqp.1 hq)) (ih hqp.2)

theorem IsFirst.unique (h : IsFirst p a as) (h' : IsFirst p b as) : a = b := by
  induction h with
  | here ha =>
      rcases h' with _ | ⟨hnot, -⟩
      · rfl
      · exact absurd ha hnot
  | behind hnot _ ih =>
      rcases h' with hb | ⟨-, h'⟩
      · exact absurd hb hnot
      · exact ih h'

theorem exists_isFirst_iff : (∃ a, IsFirst p a as) ↔ ∃ a ∈ as, p a := by
  constructor
  · rintro ⟨a, h⟩
    exact ⟨a, h.mem, h.holds⟩
  · rintro ⟨b, hb, hp⟩
    induction as with
    | nil => cases hb
    | cons c as ih =>
        by_cases hc : p c
        · exact ⟨c, .here hc⟩
        · rcases mem_cons.mp hb with rfl | hb
          · exact absurd hp hc
          · obtain ⟨a, ha⟩ := ih hb
            exact ⟨a, .behind hc ha⟩

/-- The first part with a property, where some items have no such part. -/
theorem isFirst_filterMap_iff {part : α → Option β} {q : β → Prop} {b : β} :
    IsFirst q b (as.filterMap part) ↔
      ∃ a, IsFirst (fun a => ∃ b, part a = some b ∧ q b) a as ∧ part a = some b := by
  induction as with
  | nil =>
      constructor
      · nofun
      · rintro ⟨a, ⟨⟩, -⟩
  | cons c as ih =>
      by_cases hc : ∃ b, part c = some b ∧ q b
      · obtain ⟨d, hd, hq⟩ := hc
        rw [filterMap_cons_some hd, isFirst_cons_of_pos hq]
        constructor
        · rintro rfl
          exact ⟨c, .here ⟨b, hd, hq⟩, hd⟩
        · rintro ⟨a, ha, hb⟩
          obtain rfl := (isFirst_cons_of_pos ⟨d, hd, hq⟩).mp ha
          exact Option.some.inj (hb.symm.trans hd)
      · have hskip : IsFirst q b ((c :: as).filterMap part) ↔ IsFirst q b (as.filterMap part) := by
          cases hd : part c with
          | none => rw [filterMap_cons_none hd]
          | some d => rw [filterMap_cons_some hd, isFirst_cons_of_neg fun hq => hc ⟨d, hd, hq⟩]
        rw [hskip, ih]
        constructor
        · rintro ⟨a, ha, hb⟩
          exact ⟨a, .behind hc ha, hb⟩
        · rintro ⟨a, ha | ⟨-, ha⟩, hb⟩
          · exact absurd ha hc
          · exact ⟨a, ha, hb⟩

/-- Only the items themselves matter. -/
theorem forall₂_congr_of_mem {R S : α → β → Prop} {bs : List β} (h : ∀ a ∈ as, ∀ b, R a b ↔ S a b) :
    Forall₂ R as bs ↔ Forall₂ S as bs := by
  constructor
  · intro hR
    exact ((forall₂_and_left _ _).mpr ⟨fun a ha => h a ha, hR⟩).imp fun a b hab => (hab.1 b).mp hab.2
  · intro hS
    exact ((forall₂_and_left _ _).mpr ⟨fun a ha => h a ha, hS⟩).imp fun a b hab => (hab.1 b).mpr hab.2

end List

namespace Except

variable {ε ε' α β : Type} {x : Except ε α} {a : α} {b : β} {e : ε}

theorem not_exists_eq_ok_iff : (¬∃ a, x = .ok a) ↔ ∃ e, x = .error e := by
  cases x <;> simp

/-! ## Steps -/

theorem bind_eq_ok_iff {f : α → Except ε β} : x >>= f = .ok b ↔ ∃ a, x = .ok a ∧ f a = .ok b := by
  cases x with
  | error e =>
      constructor
      · nofun
      · rintro ⟨a, ⟨⟩, -⟩
  | ok a =>
      constructor
      · exact fun h => ⟨a, rfl, h⟩
      · rintro ⟨a, ⟨⟩, h⟩
        exact h

theorem bind_eq_error_iff {f : α → Except ε β} :
    x >>= f = .error e ↔ x = .error e ∨ ∃ a, x = .ok a ∧ f a = .error e := by
  cases x with
  | error e' =>
      constructor
      · rintro ⟨⟩
        exact .inl rfl
      · rintro (⟨⟨⟩⟩ | ⟨a, ⟨⟩, -⟩)
        rfl
  | ok a =>
      constructor
      · exact fun h => .inr ⟨a, rfl, h⟩
      · rintro (⟨⟨⟩⟩ | ⟨a, ⟨⟩, h⟩)
        exact h

theorem map_eq_ok_iff {f : α → β} : x.map f = .ok b ↔ ∃ a, x = .ok a ∧ f a = b := by
  cases x <;> simp [Except.map]

theorem map_eq_error_iff {f : α → β} : x.map f = .error e ↔ x = .error e := by
  cases x <;> simp [Except.map]

theorem mapError_eq_ok_iff {f : ε → ε'} : x.mapError f = .ok a ↔ x = .ok a := by
  cases x <;> simp [Except.mapError]

theorem mapError_eq_error_iff {f : ε → ε'} {e' : ε'} : x.mapError f = .error e' ↔ ∃ e, x = .error e ∧ f e = e' := by
  cases x <;> simp [Except.mapError]

/-! ## Items -/

variable {f : α → Except ε β} {as : List α} {bs : List β}

theorem mapM_congr {g : α → Except ε β} (h : ∀ a ∈ as, f a = g a) : as.mapM f = as.mapM g := by
  induction as with
  | nil => rfl
  | cons a as ih =>
      rw [List.forall_mem_cons] at h
      rw [List.mapM_cons, List.mapM_cons, h.1, ih h.2]

theorem mapM_eq_ok_iff : as.mapM f = .ok bs ↔ List.Forall₂ (fun a b => f a = .ok b) as bs := by
  induction as generalizing bs with
  | nil =>
      rw [List.mapM_nil, List.forall₂_nil_left_iff]
      constructor
      · rintro ⟨⟩
        rfl
      · rintro rfl
        rfl
  | cons a as ih =>
      rw [List.mapM_cons, bind_eq_ok_iff, List.forall₂_cons_left_iff]
      constructor
      · rintro ⟨b, hb, h⟩
        obtain ⟨bs, hbs, ⟨⟩⟩ := bind_eq_ok_iff.mp h
        exact ⟨b, bs, hb, ih.mp hbs, rfl⟩
      · rintro ⟨b, bs, hb, hbs, rfl⟩
        exact ⟨b, hb, bind_eq_ok_iff.mpr ⟨bs, ih.mpr hbs, rfl⟩⟩

theorem exists_of_mem_mapM (h : as.mapM f = .ok bs) (hb : b ∈ bs) : ∃ a ∈ as, f a = .ok b := by
  rw [mapM_eq_ok_iff] at h
  induction h with
  | nil => cases hb
  | cons ha _ ih =>
      rcases List.mem_cons.mp hb with rfl | hb
      · exact ⟨_, List.mem_cons_self, ha⟩
      · obtain ⟨a, ha, hread⟩ := ih hb
        exact ⟨a, List.mem_cons_of_mem _ ha, hread⟩

/-- The items behind the fault are not looked at. -/
theorem mapM_eq_error_iff :
    as.mapM f = .error e ↔ ∃ a, as.IsFirst (fun a => ¬∃ b, f a = .ok b) a ∧ f a = .error e := by
  induction as with
  | nil =>
      constructor
      · nofun
      · rintro ⟨a, ⟨⟩, -⟩
  | cons a as ih =>
      rw [List.mapM_cons, bind_eq_error_iff]
      cases ha : f a with
      | error e' =>
          have hfault : ¬∃ b, f a = .ok b := by
            rintro ⟨b, hb⟩
            cases ha.symm.trans hb
          constructor
          · rintro (⟨⟨⟩⟩ | ⟨b, ⟨⟩, -⟩)
            exact ⟨a, .here hfault, ha⟩
          · rintro ⟨c, _ | ⟨hread, -⟩, he⟩
            · exact .inl (ha.symm.trans he)
            · exact absurd hfault hread
      | ok b =>
          constructor
          · rintro (⟨⟨⟩⟩ | ⟨_, -, h⟩)
            have hrest : as.mapM f = .error e := by
              rcases bind_eq_error_iff.mp h with h | ⟨bs, -, ⟨⟩⟩
              exact h
            obtain ⟨c, hc, he⟩ := ih.mp hrest
            exact ⟨c, .behind (not_not_intro ⟨b, ha⟩) hc, he⟩
          · rintro ⟨c, hc | ⟨-, hc⟩, he⟩
            · exact absurd ⟨b, ha⟩ hc
            · exact .inr ⟨b, rfl, bind_eq_error_iff.mpr (.inl (ih.mpr ⟨c, hc, he⟩))⟩

theorem exists_mapM_eq_ok_iff : (∃ bs, as.mapM f = .ok bs) ↔ ∀ a ∈ as, ∃ b, f a = .ok b := by
  have hfails : (∃ e, as.mapM f = .error e) ↔ ∃ a ∈ as, ¬∃ b, f a = .ok b := by
    rw [← List.exists_isFirst_iff]
    constructor
    · rintro ⟨e, h⟩
      obtain ⟨a, ha, -⟩ := mapM_eq_error_iff.mp h
      exact ⟨a, ha⟩
    · rintro ⟨a, ha⟩
      obtain ⟨e, he⟩ := not_exists_eq_ok_iff.mp ha.holds
      exact ⟨e, mapM_eq_error_iff.mpr ⟨a, ha, he⟩⟩
  rw [← not_iff_not, not_exists_eq_ok_iff, hfails]
  simp only [not_forall, exists_prop]

variable {γ : Type} {part : α → Option γ} {p : γ → Prop} {fault : γ → ε}

/-- Items that are at fault for a part of theirs, which alone makes the fault. -/
theorem mapM_eq_error_iff_part (h : ∀ a e, f a = .error e ↔ ∃ c, part a = some c ∧ p c ∧ fault c = e) :
    as.mapM f = .error e ↔ ∃ c, (as.filterMap part).IsFirst p c ∧ fault c = e := by
  have hfails (a : α) : (¬∃ b, f a = .ok b) ↔ ∃ c, part a = some c ∧ p c := by
    rw [not_exists_eq_ok_iff]
    simp [h]
  rw [mapM_eq_error_iff]
  constructor
  · rintro ⟨a, ha, hfault⟩
    obtain ⟨c, hc, -, rfl⟩ := (h a e).mp hfault
    exact ⟨c, List.isFirst_filterMap_iff.mpr ⟨a, (List.isFirst_congr hfails).mp ha, hc⟩, rfl⟩
  · rintro ⟨c, hfirst, rfl⟩
    obtain ⟨a, ha, hc⟩ := List.isFirst_filterMap_iff.mp hfirst
    exact ⟨a, (List.isFirst_congr hfails).mpr ha, (h a _).mpr ⟨c, hc, hfirst.holds, rfl⟩⟩

theorem exists_mapM_eq_ok_iff_part (h : ∀ a e, f a = .error e ↔ ∃ c, part a = some c ∧ p c ∧ fault c = e) :
    (∃ bs, as.mapM f = .ok bs) ↔ ∀ c ∈ as.filterMap part, ¬p c := by
  have hfails : (∃ e, as.mapM f = .error e) ↔ ∃ c ∈ as.filterMap part, p c := by
    rw [← List.exists_isFirst_iff]
    simp [mapM_eq_error_iff_part h]
  rw [← not_iff_not, not_exists_eq_ok_iff, hfails]
  simp only [not_forall, exists_prop, not_not]

end Except
