import MethodSearch.Console.Resolve
import MethodSearch.Proofs.Text.FirstFault

/-!
# Steps over files

What a step on a machine writes and how it ends, whatever else was done. Most steps write nothing, and come to a value
just in case they find one in the files. A text that is written to a file stands there afterwards, and everything else
is as before.
-/

namespace MethodSearch.Console

open Bytecode

/-- A step in the world of a machine. -/
abbrev Act (M : Machine) (α : Type) : Type :=
  Action (StateM (World M)) α

variable {M : Machine} {held : M.Contents} {ws ws' ws'' : M.Writes} {α β ε : Type} {a : Act M α} {k : α → Act M β}
  {P : α → Prop} {Q : α → β → Prop} {x : α} {r : Except Failure β} {f : Failure} {path text : String}
  {fault : FileFault} {target : Target M.Place} {output : Option String} {w : World M}

namespace Machine

/-- A path leads to a file that holds a text, or to a device, which has nothing to read. -/
inductive Reads (M : Machine) (held : M.Contents) (path : String) : String → Prop
  | file {place : M.Place} {text : String} : M.opened held path = .ok (.file place) →
      held place = some (.text text) → Reads M held path text
  | device {d : Device} : M.opened held path = .ok (.device d) → Reads M held path ""

theorem reads_iff : M.Reads held path text ↔ M.read held path = .ok text := by
  constructor
  · rintro (⟨hopened, htext⟩ | hopened)
    · rw [read, hopened]
      show M.textAt held (.file _) = _
      rw [textAt, htext]
    · rw [read, hopened]
      rfl
  · intro h
    obtain ⟨target, hopened, h⟩ := Except.bind_eq_ok_iff.mp h
    cases target with
    | device d =>
        cases h
        exact .device hopened
    | file place =>
        rw [textAt] at h
        split at h
        · next htext =>
            cases h
            exact .file hopened htext
        all_goals cases h

theorem Reads.unique {text' : String} (h : M.Reads held path text) (h' : M.Reads held path text') : text = text' :=
  Except.ok.inj ((reads_iff.mp h).symm.trans (reads_iff.mp h'))

theorem receiver_eq_ok_iff :
    M.receiver held path = .ok target ↔ M.created held path = .ok target ∧ target ≠ .device .full := by
  rw [receiver]
  cases M.created held path with
  | error fault => exact ⟨nofun, nofun⟩
  | ok target' =>
      rw [Except.ok.injEq]
      constructor
      · intro h
        cases target' with
        | file place =>
            cases h
            exact ⟨rfl, nofun⟩
        | device d => cases d <;> cases h <;> exact ⟨rfl, nofun⟩
      · rintro ⟨rfl, hfull⟩
        cases target' with
        | file place => rfl
        | device d =>
            cases d with
            | full => exact absurd rfl hfull
            | _ => rfl

/-- No file can be made where a path leads, or there is no room for one. -/
def Unwritable (M : Machine) (held : M.Contents) (path : String) : Prop :=
  (∃ fault, M.created held path = .error fault) ∨ M.created held path = .ok (.device .full)

theorem unwritable_of_receiver (h : M.receiver held path = .error fault) : M.Unwritable held path := by
  rcases Except.bind_eq_error_iff.mp h with hcreated | ⟨target, hcreated, h⟩
  · exact .inl ⟨fault, hcreated⟩
  · cases target with
    | file place => cases h
    | device d =>
        cases d with
        | full => exact .inr hcreated
        | _ => cases h

/-- What has been written when a text has gone to a path, if to any. -/
def save (M : Machine) (ws : M.Writes) (output : Option String) (text : String) : Except FileFault M.Writes :=
  match output with
  | none => .ok ws
  | some path => (M.receiver (M.after ws) path).map fun target => (target, text) :: ws

theorem exists_receiver_of_save (h : M.save ws output text = .error fault) :
    ∃ path, output = some path ∧ M.receiver (M.after ws) path = .error fault := by
  cases output with
  | none => cases h
  | some path => exact ⟨path, rfl, Except.map_eq_error_iff.mp h⟩

/-- Whatever is written to a file is found under its path. -/
def Reopens (M : Machine) : Prop :=
  ∀ held path place s, M.created held path = .ok (.file place) →
    M.opened (M.put held place s) path = .ok (.file place)

end Machine

/-! ## Worlds -/

namespace World

theorem mem_deeds (h : (target, text) ∈ w.writes) : .written target text ∈ w.deeds := by
  obtain ⟨d, hd, hwrite⟩ := List.mem_filterMap.mp h
  cases d with
  | written target' text' =>
      cases hwrite
      exact hd
  | _ => cases hwrite

theorem mem_printed (h : (.device .output, text) ∈ w.writes) : text ∈ w.printed :=
  List.mem_reverse.mpr (List.mem_filterMap.mpr ⟨_, mem_deeds h, rfl⟩)

theorem mem_notices (h : (.device .errors, text) ∈ w.writes) : .text text ∈ w.notices :=
  List.mem_reverse.mpr (List.mem_filterMap.mpr ⟨_, mem_deeds h, rfl⟩)

theorem run_writeText (w : World M) (path text : String) :
    (writeText path text).run w = match M.receiver w.contents path with
      | .ok target => ((.ok () : Except FileFault Unit), w.add (.written target text))
      | .error fault => (.error fault, w) :=
  rfl

/-- Nothing was written, and the places hold what they held. -/
structure Untouched (w : World M) : Prop where
  writes : w.writes = []
  contents : w.contents = M.start

theorem Untouched.of_writes (h : w.writes = []) : w.Untouched :=
  ⟨h, congrArg M.after h⟩

/-- A text was all that was written. In a file it stands where the path leads, and nothing else has changed there; a
device shows it. -/
inductive Saved (w : World M) (text : String) : Option String → Prop
  | nowhere : w.Untouched → Saved w text none
  | file {path : String} {place : M.Place} : M.created M.start path = .ok (.file place) →
      w.writes = [(.file place, text)] →
      (∀ other, w.contents other = if other = place then some (.text text) else M.start other) →
      (M.Reopens → M.Reads w.contents path text) → Saved w text (some path)
  | device {path : String} {d : Device} : M.created M.start path = .ok (.device d) → d ≠ .full →
      w.writes = [(.device d, text)] → w.contents = M.start → (d = .output → text ∈ w.printed) →
      (d = .errors → .text text ∈ w.notices) → Saved w text (some path)

theorem Saved.of_save (h : M.save [] output text = .ok w.writes) : w.Saved text output := by
  cases output with
  | none => exact .nowhere (.of_writes (Except.ok.inj h).symm)
  | some path =>
      obtain ⟨target, hreceiver, hwrites⟩ := Except.map_eq_ok_iff.mp h
      obtain ⟨hcreated, hfull⟩ := Machine.receiver_eq_ok_iff.mp hreceiver
      have hcontents : w.contents = M.after [(target, text)] := congrArg M.after hwrites.symm
      cases target with
      | file place =>
          refine .file hcreated hwrites.symm (fun other => congrFun hcontents other) fun hreopens => ?_
          rw [hcontents]
          exact .file (hreopens M.start path place text hcreated) (if_pos rfl)
      | device d =>
          refine .device hcreated (fun h => hfull (congrArg Target.device h)) hwrites.symm hcontents ?_ ?_
          · rintro rfl
            exact mem_printed (hwrites ▸ List.mem_singleton_self _)
          · rintro rfl
            exact mem_notices (hwrites ▸ List.mem_singleton_self _)

theorem Saved.of_file {place : M.Place} (h : w.Saved text (some path))
    (hcreated : M.created M.start path = .ok (.file place)) :
    w.writes = [(.file place, text)] ∧
      (∀ other, w.contents other = if other = place then some (.text text) else M.start other) ∧
      (M.Reopens → M.Reads w.contents path text) := by
  cases h with
  | file hcreated' hwrites hcontents hreads =>
      cases hcreated.symm.trans hcreated'
      exact ⟨hwrites, hcontents, hreads⟩
  | device hcreated' => cases hcreated.symm.trans hcreated'

end World

/-! ## Ends -/

/-- Where this has been written, a step comes to a result, and that has been written by then. -/
def Ends (a : Act M α) (ws : M.Writes) (r : Except Failure α) (ws' : M.Writes) : Prop :=
  ∀ w : World M, w.writes = ws → ∃ w', a.run.run w = (r, w') ∧ w'.writes = ws'

namespace Ends

theorem pure (x : α) : Ends (pure x) ws (.ok x) ws :=
  fun w h => ⟨w, rfl, h⟩

theorem throw (f : Failure) : Ends (throw f : Act M α) ws (.error f) ws :=
  fun w h => ⟨w, rfl, h⟩

theorem bind (ha : Ends a ws (.ok x) ws') (hk : Ends (k x) ws' r ws'') : Ends (a >>= k) ws r ws'' := by
  intro w hw
  obtain ⟨w', ha, hws⟩ := ha w hw
  obtain ⟨w'', hk, hws'⟩ := hk w' hws
  refine ⟨w'', ?_, hws'⟩
  rw [Action.run] at ha
  rw [Action.run, ExceptT.run_bind, StateT.run_bind, ha]
  exact hk

theorem bind_error (ha : Ends a ws (.error f) ws') : Ends (a >>= k) ws (.error f) ws' := by
  intro w hw
  obtain ⟨w', ha, hws⟩ := ha w hw
  refine ⟨w', ?_, hws⟩
  rw [Action.run] at ha
  rw [Action.run, ExceptT.run_bind, StateT.run_bind, ha]
  rfl

theorem lift {step : StateM (World M) α}
    (h : ∀ w : World M, w.writes = ws → ∃ w', step.run w = (x, w') ∧ w'.writes = ws') :
    Ends (ExceptT.lift step) ws (.ok x) ws' := by
  intro w hw
  obtain ⟨w', hstep, hws'⟩ := h w hw
  refine ⟨w', ?_, hws'⟩
  rw [Action.run, ExceptT.run_lift, StateT.run_map, hstep]
  rfl

theorem print (s : String) : Ends (Action.print s) ws (.ok ()) ws :=
  lift fun _ h => ⟨_, rfl, h⟩

/-- Whether something is printed first makes no difference. -/
theorem print_unless {k : Unit → Act M β} (quiet : Bool) (s : String) (hk : Ends (k ()) ws r ws') :
    Ends (if quiet = true then k () else Action.print s >>= k) ws r ws' := by
  cases quiet with
  | true => exact hk
  | false => exact (print s).bind hk

theorem print_if {k : Unit → Act M β} (shown : Bool) (s : String) (hk : Ends (k ()) ws r ws') :
    Ends (if shown = true then Action.print s >>= k else k ()) ws r ws' := by
  cases shown with
  | true => exact (print s).bind hk
  | false => exact hk

theorem startLog (t : Log.Threshold) : Ends (ExceptT.lift (Host.startLog t)) ws (.ok ()) ws :=
  lift fun _ h => ⟨_, rfl, h⟩

theorem log (record : Log.Record) : Ends (Action.log record) ws (.ok ()) ws :=
  lift fun _ h => ⟨_, rfl, h⟩

theorem forM_log (record : β → Log.Record) (bs : List β) :
    Ends (bs.forM fun b => Action.log (record b)) ws (.ok ()) ws := by
  induction bs with
  | nil => exact pure ()
  | cons b bs ih => exact (log (record b)).bind ih

theorem writeText (h : M.receiver (M.after ws) path = .ok target) :
    Ends (ExceptT.lift (Host.writeText path text)) ws (.ok (.ok ())) ((target, text) :: ws) := by
  refine lift fun w hw => ⟨w.add (.written target text), ?_, congrArg ((target, text) :: ·) hw⟩
  have hrun := World.run_writeText w path text
  rw [World.contents, hw, h] at hrun
  exact hrun

theorem writeText_error (h : M.receiver (M.after ws) path = .error fault) :
    Ends (ExceptT.lift (Host.writeText path text)) ws (.ok (.error fault)) ws := by
  refine lift fun w hw => ⟨w, ?_, hw⟩
  have hrun := World.run_writeText w path text
  rw [World.contents, hw, h] at hrun
  exact hrun

end Ends

/-! ## Finding values -/

/-- A step writes nothing, and comes to the one value with a property, if there is one. -/
def Finds (a : Act M α) (ws : M.Writes) (P : α → Prop) : Prop :=
  ∃ r, Ends a ws r ws ∧ ∀ x, r = .ok x ↔ P x

namespace Finds

theorem pure (x : α) : Finds (pure x) ws (x = ·) :=
  ⟨.ok x, .pure x, fun y => by rw [Except.ok.injEq]⟩

theorem ends (ha : Finds a ws P) (hx : P x) : Ends a ws (.ok x) ws := by
  obtain ⟨r, ha, hr⟩ := ha
  rw [(hr x).mpr hx] at ha
  exact ha

theorem congr {P' : α → Prop} (ha : Finds a ws P) (h : ∀ x, P x ↔ P' x) : Finds a ws P' := by
  obtain ⟨r, ha, hr⟩ := ha
  exact ⟨r, ha, fun x => (hr x).trans (h x)⟩

theorem bind (ha : Finds a ws P) (hk : ∀ x, Finds (k x) ws (Q x)) :
    Finds (a >>= k) ws fun y => ∃ x, P x ∧ Q x y := by
  obtain ⟨r, ha, hr⟩ := ha
  cases r with
  | error f =>
      refine ⟨.error f, ha.bind_error, fun y => ⟨nofun, ?_⟩⟩
      rintro ⟨x, hx, -⟩
      cases (hr x).mpr hx
  | ok x =>
      obtain ⟨s, hk, hs⟩ := hk x
      refine ⟨s, ha.bind hk, fun y => ⟨fun hy => ⟨x, (hr x).mp rfl, (hs y).mp hy⟩, ?_⟩⟩
      rintro ⟨x', hx', hy⟩
      cases (hr x').mpr hx'
      exact (hs y).mpr hy

theorem preceded {b : Act M β} {y : β} (ha : Finds a ws P) (hb : Ends b ws (.ok y) ws) :
    Finds (b >>= fun _ => a) ws P := by
  obtain ⟨r, ha, hr⟩ := ha
  exact ⟨r, hb.bind ha, hr⟩

theorem orFail (ws : M.Writes) (context : String) (toFailure : ε → Failure) (e : Except ε α) :
    Finds (Action.orFail context toFailure e) ws fun x => e = .ok x := by
  cases e with
  | ok x => exact ⟨.ok x, .pure x, by simp⟩
  | error e => exact ⟨_, .throw _, by simp⟩

theorem readText (ws : M.Writes) (context path : String) :
    Finds (Action.readText context path) ws (M.Reads (M.after ws) path) := by
  have hread : Ends (ExceptT.lift (Host.readText path)) ws (.ok (M.read (M.after ws) path)) ws := by
    refine .lift fun w h => ⟨w, ?_, h⟩
    rw [← h]
    rfl
  obtain ⟨r, h, hr⟩ := orFail ws context Failure.ofFile (M.read (M.after ws) path)
  exact ⟨r, hread.bind h, fun text => (hr text).trans Machine.reads_iff.symm⟩

theorem loadConfig (ws : M.Writes) (path : String) :
    Finds (loadConfig path) ws fun c => ∃ text, M.Reads (M.after ws) path text ∧ Config.parse text = .ok c :=
  (readText ws _ path).bind fun text => orFail ws _ _ (Config.parse text)

theorem loadClasses (ws : M.Writes) (path : String) :
    Finds (loadClasses path) ws fun classes =>
      ∃ text, M.Reads (M.after ws) path text ∧ Catalog.parseClasses text = .ok classes := by
  have hsteps : Finds (Console.loadClasses path) ws fun classes =>
      ∃ text, M.Reads (M.after ws) path text ∧ ∃ parsed, Catalog.parseClasses text = .ok parsed ∧ parsed = classes := by
    refine (readText ws _ path).bind fun text => ?_
    exact (orFail ws _ _ _).bind fun classes => (pure classes).preceded (.log _)
  exact hsteps.congr fun classes => by simp only [exists_eq_right]

theorem loadSignatures (ws : M.Writes) (path : String) :
    Finds (loadSignatures path) ws fun signatures =>
      ∃ text, M.Reads (M.after ws) path text ∧ (Catalog.parseSignatures text).1 = .ok signatures := by
  have hsteps : Finds (Console.loadSignatures path) ws fun signatures => ∃ text, M.Reads (M.after ws) path text ∧
      ∃ parsed, (Catalog.parseSignatures text).1 = .ok parsed ∧ parsed = signatures := by
    refine (readText ws _ path).bind fun text => preceded ?_ (.forM_log _ (Catalog.parseSignatures text).2)
    exact (orFail ws _ _ _).bind fun signatures => (pure signatures).preceded (.log _)
  exact hsteps.congr fun signatures => by simp only [exists_eq_right]

end Finds

/-! ## Manners -/

/-- In every manner a step writes nothing and comes to the same. -/
def Steady {α : Type} (a : Manner → Act M α) (ws : M.Writes) : Prop :=
  ∃ r, ∀ manner, Ends (a manner) ws r ws

namespace Steady

variable {α β : Type} {a : Manner → Act M α} {k : Manner → α → Act M β}

theorem of_ends {a : Act M α} {r : Except Failure α} (h : Ends a ws r ws) :
    Steady (fun _ => a) ws :=
  ⟨r, fun _ => h⟩

theorem of_finds {a : Act M α} {P : α → Prop} (h : Finds a ws P) : Steady (fun _ => a) ws := by
  obtain ⟨r, h, -⟩ := h
  exact of_ends h

theorem fail (message : String) : Steady (fun _ => (Action.fail message : Act M α)) ws :=
  of_ends (.throw _)

theorem fail_bind (message : String) : Steady (fun manner => Action.fail message >>= k manner) ws :=
  ⟨_, fun _ => .bind_error (.throw _)⟩

theorem print (text : Manner → String) : Steady (fun manner => Action.print (text manner)) ws :=
  ⟨_, fun _ => .print _⟩

theorem bind (ha : Steady a ws) (hk : ∀ x, Steady (fun manner => k manner x) ws) :
    Steady (fun manner => a manner >>= k manner) ws := by
  obtain ⟨r, ha⟩ := ha
  cases r with
  | error f => exact ⟨_, fun manner => (ha manner).bind_error⟩
  | ok x =>
      obtain ⟨s, hk⟩ := hk x
      exact ⟨s, fun manner => (ha manner).bind (hk manner)⟩

end Steady

end MethodSearch.Console
