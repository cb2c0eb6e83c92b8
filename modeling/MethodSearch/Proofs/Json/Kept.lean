import MethodSearch.Json.Layout
import MethodSearch.Json.Reader
import MethodSearch.Proofs.Text.FirstFault

/-!
# What readers guarantee

A number that is read is below its bound. What every field of a record keeps of a draft, and a closed draft shows,
holds of every record that is read, in whichever of its forms it is written.
-/

namespace MethodSearch.Json

variable {σ α : Type} {read : Document → Except Fault α} {d : Document} {a : α} {stop : Option Fault}

namespace Document

theorem closed_eq_ok_iff {b : α} : closed stop a = .ok b ↔ stop = none ∧ a = b := by
  cases stop with
  | none => simp [closed]
  | some fault => simp [closed]

theorem lt_of_natural {bound n : Nat} (h : d.natural bound = .ok n) : n < bound := by
  cases d with
  | number m =>
      rw [natural] at h
      split at h
      · next k hk =>
          cases h
          simpa using (Option.filter_eq_some_iff.mp hk).2
      · cases h
  | _ => cases h

theorem exists_read_of_optional {o : Option α} (h : d.optional read = .ok o) (ho : o = some a) :
    ∃ d, read d = .ok a := by
  subst ho
  cases d with
  | null => cases h
  | _ =>
      obtain ⟨b, hb, ⟨⟩⟩ := Except.map_eq_ok_iff.mp h
      exact ⟨_, hb⟩

theorem exists_read_of_list {as : List α} (h : d.list read = .ok as) (ha : a ∈ as) : ∃ d, read d = .ok a := by
  cases d with
  | array items stop =>
      obtain ⟨bs, hbs, h⟩ := Except.bind_eq_ok_iff.mp h
      obtain ⟨-, rfl⟩ := closed_eq_ok_iff.mp h
      obtain ⟨d, -, hd⟩ := Except.exists_of_mem_mapM hbs ha
      exact ⟨d, hd⟩
  | _ => cases h

end Document

theorem exists_read_of_decode {text : String} (h : decode read text = .ok a) : ∃ d, read d = .ok a := by
  obtain ⟨b, hb, h⟩ := Except.bind_eq_ok_iff.mp h
  split at h
  · cases h
    exact ⟨_, hb⟩
  · cases h

/-! ## Records -/

namespace Layout

variable {l : Layout σ α} {fs : List (LayoutField σ)} {I : σ → Prop} {P : α → Prop} {s s' : σ}

/-- What holds of a draft still holds when one of the fields was stored in it. -/
def Kept (I : σ → Prop) (fs : List (LayoutField σ)) : Prop :=
  ∀ f ∈ fs, ∀ s d s', I s → f.store s d = .ok s' → I s'

theorem kept_nil : Kept I [] :=
  nofun

theorem kept_cons_iff {f : LayoutField σ} :
    Kept I (f :: fs) ↔ (∀ s d s', I s → f.store s d = .ok s' → I s') ∧ Kept I fs :=
  List.forall_mem_cons

theorem storeItems_kept (hfs : Kept I fs) {ds : List Document} (hs : I s) (h : storeItems fs s ds stop = .ok s') :
    I s' := by
  induction ds generalizing fs s with
  | nil =>
      have hclosed : Document.closed stop s = .ok s' := by
        cases fs <;> exact h
      obtain ⟨-, rfl⟩ := Document.closed_eq_ok_iff.mp hclosed
      exact hs
  | cons d ds ih =>
      cases fs with
      | nil => cases h
      | cons f fs =>
          obtain ⟨hf, hfs⟩ := kept_cons_iff.mp hfs
          obtain ⟨t, ht, h⟩ := Except.bind_eq_ok_iff.mp h
          exact ih hfs (hf _ _ _ hs ht) h

theorem storeMembers_kept (hfs : Kept I l.fields) {ms : List (Key × Document)} {seen : List String} (hs : I s)
    (h : l.storeMembers seen s ms = .ok s') : I s' := by
  induction ms generalizing seen s with
  | nil =>
      cases h
      exact hs
  | cons m ms ih =>
      obtain ⟨key, d⟩ := m
      cases key with
      | other => cases h
      | text read =>
          obtain ⟨name, -, h⟩ := Except.bind_eq_ok_iff.mp h
          cases hf : l.field? name with
          | none =>
              rw [hf] at h
              obtain ⟨-, -, h⟩ := Except.bind_eq_ok_iff.mp h
              exact ih hs h
          | some f =>
              rw [hf] at h
              dsimp only at h
              split at h
              · cases h
              · obtain ⟨t, ht, h⟩ := Except.bind_eq_ok_iff.mp h
                exact ih (hfs f (List.mem_of_find?_eq_some hf) _ _ _ hs ht) h

theorem finish_eq_ok_iff {o : Option α} : finish o = .ok a ↔ o = some a := by
  cases o <;> simp [finish]

theorem of_read (hfs : Kept I l.fields) (hblank : I l.blank) (hclose : ∀ s a, I s → l.close s = some a → P a)
    (hrow : ∀ s a, I s → l.closeRow s = some a → P a) (h : l.read d = .ok a) : P a := by
  cases d with
  | object ms stop =>
      obtain ⟨s, hs, h⟩ := Except.bind_eq_ok_iff.mp h
      obtain ⟨t, ht, h⟩ := Except.bind_eq_ok_iff.mp h
      obtain ⟨-, rfl⟩ := Document.closed_eq_ok_iff.mp ht
      exact hclose _ _ (storeMembers_kept hfs hblank hs) (finish_eq_ok_iff.mp h)
  | array ds stop =>
      obtain ⟨s, hs, h⟩ := Except.bind_eq_ok_iff.mp h
      exact hrow _ _ (storeItems_kept hfs hblank hs) (finish_eq_ok_iff.mp h)
  | _ => cases h

end Layout

end MethodSearch.Json
