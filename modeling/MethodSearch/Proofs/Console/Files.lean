import MethodSearch.Console.Files
import MethodSearch.Proofs.Console.Steps
import MethodSearch.Proofs.Text.Pieces

/-!
# The machine with some files

Every place has a path, and the path leads there. Writing to a file changes what stands at its place and nothing else,
so the files with all that was written hold what the machine holds. No write makes a directory, and a path that was
written to leads to the same place afterwards.
-/

namespace MethodSearch.Console

variable {fs : Files} {place place' : Place} {names : List Name} {name : Name} {path : String} {steps : List Step}
  {held held' : Place → Option Content}

theorem Name.no_separator (name : Name) : ∀ c ∈ name.text.toList, (c == '/') = false := by
  intro c hc
  rw [beq_eq_false_iff_ne]
  rintro rfl
  exact name.no_slash hc

theorem Step.ofPiece?_text (name : Name) : Step.ofPiece? name.text = some (.down name) := by
  rw [Step.ofPiece?, if_neg name.ne_dots, dif_pos ⟨name.ne_empty, name.ne_dot, name.ne_dots, name.no_slash⟩]

namespace Path

theorem pieces_intercalate (hne : names ≠ []) :
    pieces ("/".intercalate (names.map (·.text))) = names.map (·.text) := by
  have hchars : ∀ p ∈ (names.map (·.text)).map String.toList, ∀ c ∈ p, (c == '/') = false := by
    simp only [List.mem_map, forall_exists_index, and_imp, forall_apply_eq_imp_iff₂]
    exact fun name _ => name.no_separator
  have hcut : Text.pieces (· == '/') (['/'].intercalate ((names.map (·.text)).map String.toList)) =
      (names.map (·.text)).map String.toList :=
    Text.pieces_intercalate (by simpa using hne) hchars rfl
  have hslash : "/".toList = ['/'] := rfl
  rw [pieces, String.toList_intercalate, hslash, hcut]
  simp [Function.comp_def]

/-- A slash in front of a path makes an empty piece. -/
theorem pieces_slash (s : String) : pieces ("/" ++ s) = "" :: pieces s := by
  rw [pieces, String.toList_append]
  rfl

theorem steps_texts (names : List Name) : Path.steps (names.map (·.text)) = names.map .down := by
  rw [Path.steps, List.filterMap_map]
  simp [Step.ofPiece?_text]

theorem foldl_move_down (names : List Name) (place : Place) :
    (names.map Step.down).foldl Place.move place = ⟨place.own, place.names ++ names⟩ := by
  induction names generalizing place with
  | nil => simp
  | cons name names ih => simp [ih, Place.move, Place.down]

theorem start_own (names : List Name) : start ("/".intercalate (names.map (·.text))) = ⟨true, []⟩ := by
  cases names with
  | nil => rfl
  | cons name names =>
      obtain ⟨c, rest, hname⟩ := List.exists_cons_of_ne_nil (mt String.toList_eq_nil_iff.mp name.ne_empty)
      have hc : c ≠ '/' := by
        rintro rfl
        exact name.no_slash (hname ▸ List.mem_cons_self)
      have hhead : ("/".intercalate ((name :: names).map (·.text))).toList.head? = some c := by
        cases names <;> simp [String.toList_intercalate, hname]
      rw [start, hhead]
      simp [hc]

/-- The path of a place leads there. -/
theorem place_path (place : Place) : Path.place place.path = place := by
  obtain ⟨own, names⟩ := place
  have hsteps : Path.steps (pieces ("/".intercalate (names.map (·.text)))) = names.map .down := by
    by_cases hne : names = []
    · subst hne
      rfl
    · rw [pieces_intercalate hne, steps_texts]
  cases own with
  | true =>
      rw [Place.path, if_pos rfl, String.empty_append, Path.place, start_own, hsteps, foldl_move_down]
      rfl
  | false =>
      have hskip : Path.steps (pieces ("/" ++ "/".intercalate (names.map (·.text)))) = names.map .down := by
        rw [pieces_slash, ← hsteps]
        rfl
      have hstart : start ("/" ++ "/".intercalate (names.map (·.text))) = ⟨false, []⟩ := by
        rw [start, String.toList_append]
        rfl
      rw [Place.path, if_neg Bool.false_ne_true, Path.place, hstart, hskip, foldl_move_down]
      rfl

end Path

namespace Files

/-! ## Writing -/

/-- Writing to a file changes what stands at its place and nothing else. -/
theorem contents_put (fs : Files) (place : Place) (s : String) :
    (fs.put place s).contents = fun other => if other = place then some (.text s) else fs.contents other := by
  funext other
  rw [put]
  split
  · next hthere =>
      have hkeys : (fun e : String × Content => decide (Path.place e.1 = other)) ∘
          (fun e => if Path.place e.1 = place then (e.1, .text s) else e) = fun e => decide (Path.place e.1 = other) := by
        funext e
        rw [Function.comp_apply]
        split <;> rfl
      rw [contents, List.find?_map, hkeys]
      split
      · next hother =>
          subst hother
          rw [contents, Option.isSome_map] at hthere
          obtain ⟨e, he⟩ := Option.isSome_iff_exists.mp hthere
          have hkey := List.find?_some he
          rw [decide_eq_true_iff] at hkey
          rw [he, Option.map_some, Option.map_some, if_pos hkey]
      · next hother =>
          rw [contents]
          cases he : fs.entries.find? fun e => decide (Path.place e.1 = other) with
          | none => rfl
          | some e =>
              have hkey := List.find?_some he
              rw [decide_eq_true_iff] at hkey
              have hdiffers : Path.place e.1 ≠ place := fun h => hother (hkey.symm.trans h)
              rw [Option.map_some, if_neg hdiffers]
  · next hthere =>
      rw [Bool.not_eq_true, Option.isSome_eq_false_iff, Option.isNone_iff_eq_none] at hthere
      rw [contents, List.find?_append, Option.map_or, List.find?_singleton, Path.place_path]
      by_cases hother : other = place
      · subst hother
        rw [contents] at hthere
        rw [hthere, decide_eq_true rfl, if_pos rfl, if_pos rfl]
        rfl
      · rw [decide_eq_false (Ne.symm hother), if_neg Bool.false_ne_true, if_neg hother, Option.map_none,
          Option.or_none, contents]

end Files

/-- The files with all that was written hold what the machine holds. -/
theorem World.contents_files (w : World fs.machine) : w.files.contents = w.contents := by
  rw [World.files, World.contents]
  induction w.writes with
  | nil => rfl
  | cons write writes ih =>
      obtain ⟨target, s⟩ := write
      cases target with
      | file place =>
          rw [List.foldr_cons, Files.contents_put, ih]
          rfl
      | device d => exact ih

namespace Files

/-! ## Walks -/

theorem node_eq_directory_iff : fs.node held place = .directory ↔ fs.isDirectory place = true := by
  rw [node]
  constructor
  · intro h
    split at h
    · assumption
    · split at h
      · cases h
      · split at h <;> cases h
  · exact fun h => if_pos h

/-- Whatever the places hold, a walk leads to the same directory. -/
theorem walk_congr (h : fs.walk held place steps = .ok place') : fs.walk held' place steps = .ok place' := by
  induction steps generalizing place with
  | nil => exact h
  | cons step steps ih =>
      cases step with
      | up => exact ih h
      | down name =>
          obtain ⟨inner, henter, h⟩ := Except.bind_eq_ok_iff.mp h
          refine Except.bind_eq_ok_iff.mpr ⟨inner, henter, ?_⟩
          split at h
          · next hnode =>
              rw [node_eq_directory_iff] at hnode
              rw [node_eq_directory_iff.mpr hnode]
              exact ih h
          all_goals cases h

theorem split_congr (h : fs.split held path = .ok (place, name)) : fs.split held' path = .ok (place, name) := by
  rw [split] at h ⊢
  split at h
  · next hlast =>
      obtain ⟨front, hfront, h⟩ := Except.bind_eq_ok_iff.mp h
      cases h
      exact Except.bind_eq_ok_iff.mpr ⟨_, walk_congr hfront, rfl⟩
  · obtain ⟨_, -, h⟩ := Except.bind_eq_ok_iff.mp h
    cases h

/-- Where a path leads that can be written to: to a file in a directory, or to none there. -/
structure Leads (fs : Files) (held : Place → Option Content) (path : String) (place : Place) : Prop where
  sound : Path.fault? path = none
  found : ∃ directory name, fs.split held path = .ok (directory, name) ∧ directory.enter name = .ok place
  no_directory : fs.isDirectory place = false
  no_device : place.device? = none

theorem leads_of_created (h : fs.created held path = .ok (.file place)) : Leads fs held path place := by
  rw [created] at h
  cases hsound : Path.fault? path with
  | some fault =>
      rw [hsound] at h
      cases h
  | none =>
      rw [hsound] at h
      obtain ⟨⟨directory, name⟩, hsplit, h⟩ := Except.bind_eq_ok_iff.mp h
      by_cases hbare : Path.bare path = path
      · rw [hbare] at hsplit
        simp only [hbare, bne_self_eq_false, Bool.false_eq_true, if_false] at h
        obtain ⟨location, henter, h⟩ := Except.bind_eq_ok_iff.mp h
        have hnode : location = place ∧ fs.isDirectory location = false ∧ location.device? = none := by
          rw [node] at h
          cases hdirectory : fs.isDirectory location with
          | true =>
              rw [if_pos hdirectory] at h
              cases h
          | false =>
              rw [if_neg (by rw [hdirectory]; exact Bool.false_ne_true)] at h
              cases hdevice : location.device? with
              | some d =>
                  rw [hdevice] at h
                  cases h
              | none =>
                  rw [hdevice] at h
                  cases hthere : (held location).isSome <;> simp only [hthere] at h <;> cases h <;>
                    exact ⟨rfl, rfl, rfl⟩
        obtain ⟨rfl, hdirectory, hdevice⟩ := hnode
        exact ⟨hsound, ⟨directory, name, hsplit, henter⟩, hdirectory, hdevice⟩
      · simp only [bne_iff_ne.mpr hbare, if_true] at h
        cases h

/-- A file that was written is found under its path. -/
theorem machine_reopens (fs : Files) : fs.machine.Reopens := by
  intro held path place s h
  obtain ⟨hsound, ⟨directory, name, hsplit, henter⟩, hdirectory, hdevice⟩ := leads_of_created h
  have hput : fs.machine.put held place s place = some (.text s) := if_pos rfl
  show Files.opened fs (fs.machine.put held place s) path = .ok (.file place)
  rw [Files.opened, hsound]
  refine Except.bind_eq_ok_iff.mpr ⟨_, split_congr hsplit, Except.bind_eq_ok_iff.mpr ⟨_, henter, ?_⟩⟩
  have hnode : fs.node (fs.machine.put held place s) place = .file := by
    rw [node, if_neg (by rw [hdirectory]; exact Bool.false_ne_true), hdevice, hput]
    rfl
  rw [hnode]
  rfl

end Files

end MethodSearch.Console
