import MethodSearch.Json.Layout
import MethodSearch.Proofs.Json.Reader
import MethodSearch.Proofs.Text.Pieces

/-!
# Values read as types

What a value says is read as a type part by part. A record whose fields are all there, in the order of declaration,
is read like the row of their values.
-/

namespace MethodSearch.Json

variable {α : Type} {v : Value} {vs : List Value} {depth : Nat}

namespace Value

theorem natural?_ofNat {n bound : Nat} (h : n < bound) (hbound : bound ≤ UInt64.size) :
    (ofNat n).natural? bound = some n := by
  rw [ofNat, natural?, Numeral.natural?_ofNat (Nat.lt_of_lt_of_le h hbound)]
  simp [h]

theorem strings?_ofList (ss : List String) : (ofList .string ss).strings? = some ss := by
  rw [ofList, strings?]
  exact Text.mapM_map fun _ _ => rfl

end Value

namespace Document

theorem ofItems_eq_map (vs : List Value) : ofItems vs = vs.map ofValue := by
  induction vs with
  | nil => rfl
  | cons v vs ih => rw [ofItems, ih, List.map_cons]

theorem natural_ofNat {n bound : Nat} (h : n < bound) (hbound : bound ≤ UInt64.size) :
    (ofValue (.ofNat n)).natural bound = .ok n := by
  have hread := Value.natural?_ofNat h hbound
  rw [Value.ofNat, Value.natural?] at hread
  rw [Value.ofNat, ofValue, natural, hread]

theorem value_ofNat {n : Nat} (h : n < UInt64.size) (depth : Nat) :
    (ofValue (.ofNat n)).value depth = .ok (.ofNat n) := by
  rw [Value.ofNat, ofValue, value, if_pos (Numeral.inRange_ofNat h)]

theorem value_string (s : String) (depth : Nat) : (ofValue (.string s)).value depth = .ok (.string s) := by
  rw [ofValue, value]
  rfl

theorem value_array (hdepth : depth < maxDepth) (h : ∀ v ∈ vs, (ofValue v).value (depth + 1) = .ok v) :
    (ofValue (.array vs)).value depth = .ok (.array vs) := by
  have hvalues : values (depth + 1) (ofItems vs) = .ok vs := by
    induction vs with
    | nil => rfl
    | cons v vs ih =>
        rw [List.forall_mem_cons] at h
        rw [ofItems, values, h.1, ih h.2]
        rfl
  rw [ofValue, value, if_neg (Nat.not_le_of_lt hdepth), hvalues]
  rfl

theorem value_object {ms : List (String × Value)} (hdepth : depth < maxDepth)
    (h : ∀ m ∈ ms, (ofValue m.2).value (depth + 1) = .ok m.2) :
    (ofValue (.object ms)).value depth = .ok (.object ms) := by
  have hvalues : memberValues (depth + 1) (ofMembers ms) = .ok ms := by
    induction ms with
    | nil => rfl
    | cons m ms ih =>
        rw [List.forall_mem_cons] at h
        rw [ofMembers, memberValues]
        show ((ofValue m.2).value (depth + 1) >>= _) = _
        rw [h.1, ih h.2]
        rfl
  rw [ofValue, value, if_neg (Nat.not_le_of_lt hdepth), hvalues]
  rfl

/-- Of several shapes, the one that was written fits. -/
theorem anyOf_ofValue {f : Value → Option α} {a : α} (hvalue : (ofValue v).value depth = .ok v) (hf : f v = some a) :
    (ofValue v).anyOf depth f = .ok a := by
  simp only [anyOf, hvalue, hf, bind, Except.bind]

variable {read : Document → Except Fault α} {write : α → Value}

theorem optional_of_ne_null {d : Document} (hd : d ≠ .null) : d.optional read = (read d).map some := by
  cases d with
  | null => exact absurd rfl hd
  | _ => rfl

theorem ofValue_ne_null (hv : v ≠ .null) : ofValue v ≠ .null := by
  cases v with
  | null => exact absurd rfl hv
  | _ => nofun

theorem optional_ofOption {o : Option α} (hnull : ∀ a, write a ≠ .null)
    (h : ∀ a, o = some a → read (ofValue (write a)) = .ok a) :
    (ofValue (.ofOption write o)).optional read = .ok o := by
  cases o with
  | none => rfl
  | some a =>
      rw [Value.ofOption, optional_of_ne_null (ofValue_ne_null (hnull a)), h a rfl]
      rfl

theorem list_ofList {as : List α} (h : ∀ a ∈ as, read (ofValue (write a)) = .ok a) :
    (ofValue (.ofList write as)).list read = .ok as := by
  have hitems : (ofItems (as.map write)).mapM read = .ok as := by
    rw [ofItems_eq_map, List.map_map]
    exact Text.mapM_map h
  rw [Value.ofList, ofValue, list, hitems]
  rfl

end Document

/-! ## Records -/

namespace Layout

variable {σ : Type} {l : Layout σ α} {f : LayoutField σ} {fs : List (LayoutField σ)} {s : σ} {ds : List Document}

/-- Members with the names of fields. -/
def members (fs : List (LayoutField σ)) (ds : List Document) : List (Key × Document) :=
  fs.zipWith (fun f d => (.text (.ok f.name), d)) ds

theorem find?_name (hnames : (fs.map (·.name)).Nodup) (hf : f ∈ fs) : fs.find? (·.name == f.name) = some f := by
  induction fs with
  | nil => cases hf
  | cons g fs ih =>
      rw [List.map_cons, List.nodup_cons] at hnames
      rcases List.mem_cons.mp hf with rfl | hf
      · simp
      · have hne : g.name ≠ f.name := fun he => hnames.1 (he ▸ List.mem_map_of_mem hf)
        simpa [hne] using ih hnames.2 hf

theorem storeMembers_known (hf : l.field? f.name = some f) {seen : List String} (hseen : f.name ∉ seen) (d : Document)
    (rest : List (Key × Document)) :
    l.storeMembers seen s ((.text (.ok f.name), d) :: rest) =
      f.store s d >>= fun s => l.storeMembers (f.name :: seen) s rest := by
  simp only [storeMembers, hf, if_neg hseen, bind, Except.bind]

/-- A member is stored as the item at its place would be. -/
theorem storeMembers_members_seen (hfields : ∀ f ∈ fs, l.field? f.name = some f) (hnames : (fs.map (·.name)).Nodup)
    {seen : List String} (hseen : ∀ f ∈ fs, f.name ∉ seen) (hds : ds.length = fs.length) (s : σ) :
    l.storeMembers seen s (members fs ds) = storeItems fs s ds none := by
  induction fs generalizing seen s ds with
  | nil =>
      obtain rfl := List.length_eq_zero_iff.mp hds
      rfl
  | cons f fs ih =>
      rw [List.forall_mem_cons] at hfields hseen
      rw [List.map_cons, List.nodup_cons] at hnames
      cases ds with
      | nil => cases hds
      | cons d ds =>
          rw [members, List.zipWith_cons_cons, storeMembers_known hfields.1 hseen.1, storeItems]
          cases f.store s d with
          | error fault => rfl
          | ok s =>
              -- The name that was just seen is none of those still to come.
              refine ih hfields.2 hnames.2 ?_ (Nat.succ.inj hds) s
              intro g hg hmem
              rcases List.mem_cons.mp hmem with he | hmem
              · exact hnames.1 (he ▸ List.mem_map_of_mem hg)
              · exact hseen.2 g hg hmem

theorem storeMembers_members (hnames : (l.fields.map (·.name)).Nodup) (hds : ds.length = l.fields.length) (s : σ) :
    l.storeMembers [] s (members l.fields ds) = storeItems l.fields s ds none :=
  storeMembers_members_seen (fun _ hf => find?_name hnames hf) hnames (fun _ _ => List.not_mem_nil) hds s

theorem ofMembers_eq_members {ms : List (String × Value)} (hms : ms.map (·.1) = fs.map (·.name)) :
    Document.ofMembers ms = members fs (ms.map fun m => Document.ofValue m.2) := by
  induction ms generalizing fs with
  | nil =>
      rw [List.map_nil, eq_comm, List.map_eq_nil_iff] at hms
      rw [hms]
      rfl
  | cons m ms ih =>
      cases fs with
      | nil => cases hms
      | cons f fs =>
          rw [List.map_cons, List.map_cons, List.cons.injEq] at hms
          rw [Document.ofMembers, hms.1, ih hms.2]
          rfl

/-- A record whose members are its fields. -/
theorem read_record {ms : List (String × Value)} {a : α} (hnames : (l.fields.map (·.name)).Nodup)
    (hms : ms.map (·.1) = l.fields.map (·.name))
    (hstore : storeItems l.fields l.blank (ms.map fun m => Document.ofValue m.2) none = .ok s)
    (hclose : l.close s = some a) : l.read (.ofValue (.object ms)) = .ok a := by
  have hlength : (ms.map fun m => Document.ofValue m.2).length = l.fields.length := by
    simpa using congrArg List.length hms
  rw [Document.ofValue, read, ofMembers_eq_members hms, storeMembers_members hnames hlength, hstore]
  show finish (l.close s) = _
  rw [hclose]
  rfl

end Layout

end MethodSearch.Json
