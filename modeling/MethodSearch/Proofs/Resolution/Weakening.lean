import MethodSearch.Proofs.Resolution.Places
import MethodSearch.Proofs.Resolution.Schedules
import MethodSearch.Proofs.Signature.Weaker

/-!
# Searching for a weaker signature

A signature that is exchanged for a weaker one is found where it was or earlier, and the other signatures do not notice.
-/

namespace MethodSearch

open Bytecode

variable {classes : List JavaClass} {signatures : List Signature} {k : Nat} {t u : Signature} {p q : Place}
  {name : String} {l : Location}

theorem exchanged_getElem?_iff (hk : signatures[k]? = some u) (hname : t.name = u.name) (hne : name ≠ u.name)
    {j : Nat} {s : Signature} (hs : s.name = name) :
    (signatures.set k t)[j]? = some s ↔ signatures[j]? = some s := by
  rw [List.getElem?_set]
  by_cases hj : k = j
  · subst hj
    obtain ⟨hlt, -⟩ := List.getElem?_eq_some_iff.mp hk
    rw [if_pos rfl, if_pos hlt, hk]
    constructor
    · rintro ⟨⟩
      exact absurd (hs.symm.trans hname) hne
    · rintro ⟨⟩
      exact absurd hs.symm hne
  · rw [if_neg hj]

theorem succeedsAt_exchanged_iff (hk : signatures[k]? = some u) (hname : t.name = u.name) (hne : name ≠ u.name) :
    SucceedsAt classes (signatures.set k t) p name l ↔ SucceedsAt classes signatures p name l := by
  rw [SucceedsAt, SucceedsAt]
  refine and_congr_right fun _ => and_congr_right fun _ => exists_congr fun s => ?_
  constructor
  · rintro ⟨hs, hn, hscan⟩
    exact ⟨(exchanged_getElem?_iff hk hname hne hn).mp hs, hn, hscan⟩
  · rintro ⟨hs, hn, hscan⟩
    exact ⟨(exchanged_getElem?_iff hk hname hne hn).mpr hs, hn, hscan⟩

theorem firstSuccess_exchanged_iff (hk : signatures[k]? = some u) (hname : t.name = u.name) (hne : name ≠ u.name) :
    FirstSuccess classes (signatures.set k t) p name l ↔ FirstSuccess classes signatures p name l := by
  simp only [FirstSuccess, succeedsAt_exchanged_iff hk hname hne]

/-- Where the signature had a success, the weaker one has one too. -/
theorem SucceedsAt.weaker (hk : signatures[k]? = some u) (hw : t.Weaker u)
    (h : SucceedsAt classes signatures p name l) : ∃ l', SucceedsAt classes (signatures.set k t) p name l' := by
  obtain ⟨hc, hm, s, hs, hn, hscan⟩ := h
  by_cases hj : k = p.signature
  · subst hj
    obtain ⟨hlt, -⟩ := List.getElem?_eq_some_iff.mp hk
    obtain rfl : u = s := Option.some.inj (hk.symm.trans hs)
    obtain ⟨found', hfound', -⟩ := hw.compare hscan
    refine ⟨⟨l.owner, l.method, found'⟩, hc, hm, t, ?_, hw.name.trans hn, hfound'⟩
    rw [List.getElem?_set, if_pos rfl, if_pos hlt]
  · refine ⟨l, hc, hm, s, ?_, hn, hscan⟩
    rw [List.getElem?_set, if_neg hj, hs]

/-- The class and the method are those of the other place or come before them. -/
def Place.UpTo (q p : Place) : Prop :=
  q.owner < p.owner ∨ q.owner = p.owner ∧ q.method ≤ p.method

theorem Place.Before.upTo (h : q.Before p) : q.UpTo p := by
  rw [Place.Before] at h
  rw [Place.UpTo]
  omega

theorem Resolvable.exists_first (h : Resolvable classes signatures name) :
    ∃ p l, FirstSuccess classes signatures p name l := by
  obtain ⟨⟨p, n, l⟩, hx, rfl⟩ := exists_discovery.mpr h
  exact ⟨p, l, mem_discoveries.mp hx⟩

theorem FirstSuccess.upTo {q : Place} {l' : Location} (h : FirstSuccess classes signatures q name l')
    (hp : SucceedsAt classes signatures p name l) : q.UpTo p := by
  rcases h.2 p l hp with rfl | hbefore
  · exact .inr ⟨rfl, Nat.le_refl _⟩
  · exact hbefore.upTo

theorem FirstSuccess.weaker (hk : signatures[k]? = some u) (hw : t.Weaker u)
    (h : FirstSuccess classes signatures p name l) :
    ∃ q l', FirstSuccess classes (signatures.set k t) q name l' ∧ q.UpTo p := by
  obtain ⟨l₁, hsucceeds⟩ := h.1.weaker hk hw
  obtain ⟨q, l', hfirst⟩ := Resolvable.exists_first ⟨p, l₁, hsucceeds⟩
  exact ⟨q, l', hfirst, hfirst.upTo hsucceeds⟩

/-! ## The whole search -/

theorem name_ne_of_nodup (hnames : (signatures.map (·.name)).Nodup) (hk : signatures[k]? = some u) {j : Nat}
    {s : Signature} (hj : signatures[j]? = some s) (hne : j ≠ k) : s.name ≠ u.name := by
  intro he
  have hlt : j < (signatures.map (·.name)).length := by
    rw [List.length_map]
    exact (List.getElem?_eq_some_iff.mp hj).1
  refine hne ((List.getElem?_inj hlt hnames).mp ?_)
  rw [List.getElem?_map, List.getElem?_map, hj, hk, Option.map_some, Option.map_some, he]

theorem resolve_find?_eq_some_iff {strategy : Strategy} :
    (resolve strategy classes signatures).map.find? name = some l ↔ ∃ p, FirstSuccess classes signatures p name l := by
  rw [resolve_map, searchInOrder_find?_eq_some_iff]

theorem resolve_find?_exchanged (strategy : Strategy) (hk : signatures[k]? = some u) (hname : t.name = u.name)
    (hne : name ≠ u.name) :
    (resolve strategy classes (signatures.set k t)).map.find? name =
      (resolve strategy classes signatures).map.find? name := by
  apply Option.ext
  intro l
  simp only [resolve_find?_eq_some_iff, firstSuccess_exchanged_iff hk hname hne]

/-- Where one signature is exchanged for a weaker one, every method that had it has the weaker one, with a window that
ends no later. The other signatures keep their entries or stay without one, and if the signature was found, then the
weaker one is found in the same method or an earlier one. -/
theorem resolve_weaker (strategy : Strategy) (classes : List JavaClass) (hk : signatures[k]? = some u)
    (hw : t.Weaker u) (hnames : (signatures.map (·.name)).Nodup) :
    let before := (resolve strategy classes signatures).map
    let after := (resolve strategy classes (signatures.set k t)).map
    (∀ m found, u.compare m = .ok found → ∃ found', t.compare m = .ok found' ∧
        ∀ v w, found'.window? = some v → found.window? = some w → v.stop ≤ w.stop) ∧
      (∀ j s, signatures[j]? = some s → j ≠ k → after.find? s.name = before.find? s.name ∧
        ∀ p l, FirstSuccess classes (signatures.set k t) p s.name l ↔ FirstSuccess classes signatures p s.name l) ∧
      ∀ l, before.find? u.name = some l → ∃ l', after.find? t.name = some l' ∧
        ∃ p q, FirstSuccess classes signatures p u.name l ∧
          FirstSuccess classes (signatures.set k t) q t.name l' ∧ q.UpTo p := by
  refine ⟨fun m found hu => hw.compare hu, ?_, ?_⟩
  · intro j s hs hj
    have hne := name_ne_of_nodup hnames hk hs hj
    exact ⟨resolve_find?_exchanged strategy hk hw.name hne, fun _ _ => firstSuccess_exchanged_iff hk hw.name hne⟩
  · intro l hl
    obtain ⟨p, hp⟩ := resolve_find?_eq_some_iff.mp hl
    obtain ⟨q, l', hq, hupTo⟩ := hp.weaker hk hw
    rw [hw.name]
    exact ⟨l', resolve_find?_eq_some_iff.mpr ⟨q, hq⟩, p, q, hp, hq, hupTo⟩

/-- A class with a getter and a method that adds to a field, in this order. -/
def counterClass : JavaClass :=
  ⟨"counter", [⟨"get", .primitive .int, [], ⟨1⟩, [.line 7, .op 42, .op 180, .op 172]⟩,
    ⟨"add", .primitive .int, [.primitive .int], ⟨1⟩, [.op 42, .op 180, .frame, .op 27, .op 96, .op 172]⟩]⟩

def adder : Signature :=
  ⟨"adder", .exactly (.primitive .int), .any, .exactly [.primitive .int], .exactly ⟨[180, 27, 96]⟩⟩

/-- Asks for the first opcode of the adder alone, and for no parameters in particular. -/
def reader : Signature :=
  ⟨"adder", .exactly (.primitive .int), .any, .any, .exactly ⟨[180]⟩⟩

def finisher : Signature :=
  ⟨"finisher", .any, .any, .any, .exactly ⟨[96, 172]⟩⟩

theorem reader_weaker_adder : reader.Weaker adder :=
  ⟨rfl, .inr rfl, .inl rfl, .inl rfl, .inr (.inr ⟨⟨[180]⟩, ⟨[180, 27, 96]⟩, rfl, rfl, [], [27, 96], rfl⟩)⟩

theorem resolve_reader_for_adder :
    [adder, finisher][0]? = some adder ∧ reader.Weaker adder ∧ ([adder, finisher].map (·.name)).Nodup ∧
      (resolve .sequential [counterClass] [reader, finisher]).map.find? "finisher" =
        (resolve .sequential [counterClass] [adder, finisher]).map.find? "finisher" ∧
      ∃ l', (resolve .sequential [counterClass] [reader, finisher]).map.find? "adder" = some l' ∧
        ∃ p q l, FirstSuccess [counterClass] [adder, finisher] p "adder" l ∧
          FirstSuccess [counterClass] [reader, finisher] q "adder" l' ∧ q.UpTo p := by
  have hk : [adder, finisher][0]? = some adder := rfl
  have hnames : ([adder, finisher].map (·.name)).Nodup := by decide
  have hfound : (resolve .sequential [counterClass] [adder, finisher]).map.find? "adder" =
      some ⟨counterClass, ⟨"add", .primitive .int, [.primitive .int], ⟨1⟩,
        [.op 42, .op 180, .frame, .op 27, .op 96, .op 172]⟩, .found ⟨1, 5⟩⟩ := by decide
  obtain ⟨-, hothers, hweaker⟩ := resolve_weaker .sequential [counterClass] hk reader_weaker_adder hnames
  obtain ⟨l', hl', p, q, hp, hq, hupTo⟩ := hweaker _ hfound
  exact ⟨hk, reader_weaker_adder, hnames, (hothers 1 finisher rfl (by decide)).1, l', hl', p, q, _, hp, hq, hupTo⟩

end MethodSearch
