import MethodSearch.Console.Process
import MethodSearch.Proofs.Catalog.Encoding
import MethodSearch.Proofs.Console.Files
import MethodSearch.Proofs.Console.Quiet
import MethodSearch.Proofs.Report.Faithful

/-!
# What commands do to files

Only a search writes, and only the file that its report goes to. It writes nothing before its settings and both catalogs
are in order, and what it has written stays when signatures that were all to be found are missing. How a command ends
does not depend on how much it prints.
-/

namespace MethodSearch.Console

open Bytecode

variable {M : Machine} {ws ws' : M.Writes} {target : Target M.Place} {w : World M} {c : Config}
  {classes : List JavaClass} {signatures : List Signature} {options : ResolveOptions}
  {path classesPath signaturesPath : String} {failure : Option Failure} {fault : FileFault} {i : Invocation}
  {shown : Bool}

theorem ends_writeReport (c : Config) (report : Report) (h : M.receiver (M.after ws) path = .ok target)
    (manner : Manner) :
    Ends (writeReport manner c report path) ws (.ok ()) ((target, report.render c.prettyOutput) :: ws) := by
  refine (Ends.writeText h).bind ((Ends.pure ()).bind ((Ends.log _).bind ?_))
  split
  · exact .pure ()
  · exact .print _

theorem ends_writeReport_error (c : Config) (report : Report) (h : M.receiver (M.after ws) path = .error fault)
    (manner : Manner) :
    Ends (writeReport manner c report path) ws
      (.error ((Failure.ofFile fault).within ("Failed to write report to " ++ path))) ws :=
  (Ends.writeText_error h).bind (Ends.bind_error (.throw _))

/-- What is said of missing signatures where all were to be found: their number, and their names in order. -/
def complaint (strict : Bool) (missing : List String) : Option String :=
  if strict = true ∧ missing ≠ [] then
    some (Nat.repr missing.length ++ (if missing.length = 1 then " signature" else " signatures") ++ " unresolved: " ++
      ", ".intercalate missing)
  else none

/-- The failure that says it. -/
def refusal (strict : Bool) (missing : List String) : Option Failure :=
  (complaint strict missing).map fun text => ⟨[text]⟩

theorem message_refusal (strict : Bool) (missing : List String) :
    (refusal strict missing).map Failure.message = complaint strict missing := by
  rw [refusal, Option.map_map]
  cases complaint strict missing <;> rfl

/-- How a command ends that ends with a failure or well. -/
def answer : Option Failure → Except Failure Unit
  | none => .ok ()
  | some f => .error f

theorem ends_checkComplete (c : Config) (report : Report) :
    Ends (checkComplete c report) ws (answer (refusal c.strict report.unresolved)) ws := by
  have hmissing : (c.strict && !report.isComplete) = true ↔ c.strict = true ∧ report.unresolved ≠ [] := by
    rw [Bool.and_eq_true, Bool.not_eq_true', Report.isComplete, List.isEmpty_eq_false_iff]
  have hcounted (n : Nat) : Text.counted n "signature" "signatures" =
      Nat.repr n ++ if n = 1 then " signature" else " signatures" := by
    rw [Text.counted, String.append_assoc]
    split <;> rfl
  rw [checkComplete, refusal, complaint]
  by_cases h : c.strict = true ∧ report.unresolved ≠ []
  · rw [if_pos (hmissing.mpr h), if_pos h, hcounted]
    exact .throw _
  · rw [if_neg (mt hmissing.mp h), if_neg h]
    exact .pure ()

/-! ## Searching -/

/-- The report on the signatures of one catalog and the classes of another. -/
def reportOn (classes : List JavaClass) (signatures : List Signature) : Report :=
  .build (resolve .sequential classes signatures).map signatures

theorem ends_runSearch (hclasses : Ends (loadClasses classesPath) ws (.ok classes) ws)
    (hsignatures : Ends (loadSignatures signaturesPath) ws (.ok signatures) ws)
    (hsave : M.save ws c.outputFile ((reportOn classes signatures).render c.prettyOutput) = .ok ws')
    (manner : Manner) :
    Ends (runSearch manner c classesPath signaturesPath) ws
      (answer (refusal c.strict (reportOn classes signatures).unresolved)) ws' := by
  refine hclasses.bind (hsignatures.bind ((Ends.forM_log _ _).bind ?_))
  rw [resolve_eq_sequential]
  refine .print_unless _ _ ?_
  split
  · next path hpath =>
      rw [hpath] at hsave
      obtain ⟨target, hreceiver, rfl⟩ := Except.map_eq_ok_iff.mp hsave
      exact (ends_writeReport c _ hreceiver manner).bind (ends_checkComplete c _)
  · next hnowhere =>
      rw [hnowhere] at hsave
      cases hsave
      exact ends_checkComplete c _

theorem ends_runSearch_refused (hclasses : Ends (loadClasses classesPath) ws (.ok classes) ws)
    (hsignatures : Ends (loadSignatures signaturesPath) ws (.ok signatures) ws) (hpath : c.outputFile = some path)
    (hreceiver : M.receiver (M.after ws) path = .error fault) (manner : Manner) :
    Ends (runSearch manner c classesPath signaturesPath) ws
      (.error ((Failure.ofFile fault).within ("Failed to write report to " ++ path))) ws := by
  refine hclasses.bind (hsignatures.bind ((Ends.forM_log _ _).bind ?_))
  rw [resolve_eq_sequential]
  refine .print_unless _ _ ?_
  rw [hpath]
  exact (ends_writeReport_error c _ hreceiver manner).bind_error

/-- A search that is not given both catalogs ends before it searches. -/
theorem ends_runSearch_unloaded (ws : M.Writes) (h : ¬∃ classes signatures,
      (∃ text, M.Reads (M.after ws) classesPath text ∧ Catalog.parseClasses text = .ok classes) ∧
        ∃ text, M.Reads (M.after ws) signaturesPath text ∧ (Catalog.parseSignatures text).1 = .ok signatures) :
    ∃ f, ∀ manner, Ends (runSearch manner c classesPath signaturesPath) ws (.error f) ws := by
  obtain ⟨r, hclasses, hr⟩ := Finds.loadClasses ws classesPath
  obtain ⟨s, hsignatures, hs⟩ := Finds.loadSignatures ws signaturesPath
  cases r with
  | error f => exact ⟨f, fun manner => hclasses.bind_error⟩
  | ok classes =>
      cases s with
      | error f => exact ⟨f, fun manner => hclasses.bind hsignatures.bind_error⟩
      | ok signatures => exact absurd ⟨classes, signatures, (hr classes).mp rfl, (hs signatures).mp rfl⟩ h

/-- What a search needs: valid settings, and two catalogs that are in order. -/
structure Loads (M : Machine) (options : ResolveOptions) (c : Config) (classes : List JavaClass)
    (signatures : List Signature) : Prop where
  valid : (options.applyTo c).validate = .ok ()
  classes : ∃ path, options.classes.or c.classesFile = some path ∧
    ∃ text, M.Reads M.start path text ∧ Catalog.parseClasses text = .ok classes
  signatures : ∃ path, options.signatures.or c.signaturesFile = some path ∧
    ∃ text, M.Reads M.start path text ∧ (Catalog.parseSignatures text).1 = .ok signatures

/-- How a search ends with these options and this configuration, and in what world. -/
inductive Concludes (options : ResolveOptions) (c : Config) : Option Failure → World M → Prop
  | unloaded {f : Failure} {w : World M} : (¬∃ classes signatures, Loads M options c classes signatures) →
      w.Untouched → Concludes options c (some f) w
  | refused {f : Failure} {w : World M} {classes : List JavaClass} {signatures : List Signature} {path : String} :
      Loads M options c classes signatures → options.output.or c.outputFile = some path →
      M.Unwritable M.start path → w.Untouched → Concludes options c (some f) w
  | reported {failure : Option Failure} {w : World M} {classes : List JavaClass} {signatures : List Signature} :
      Loads M options c classes signatures →
      w.Saved ((reportOn classes signatures).render (c.prettyOutput && !options.compact))
        (options.output.or c.outputFile) →
      failure.map Failure.message = complaint (c.strict || options.strict) (reportOn classes signatures).unresolved →
      Concludes options c failure w

theorem Loads.unique {classes' : List JavaClass} {signatures' : List Signature}
    (h : Loads M options c classes signatures) (h' : Loads M options c classes' signatures') :
    classes = classes' ∧ signatures = signatures' := by
  obtain ⟨_, hclassesPath, _, hclassesText, hclasses⟩ := h.classes
  obtain ⟨_, hclassesPath', _, hclassesText', hclasses'⟩ := h'.classes
  obtain ⟨_, hsignaturesPath, _, hsignaturesText, hsignatures⟩ := h.signatures
  obtain ⟨_, hsignaturesPath', _, hsignaturesText', hsignatures'⟩ := h'.signatures
  cases hclassesPath.symm.trans hclassesPath'
  obtain rfl := hclassesText.unique hclassesText'
  cases hsignaturesPath.symm.trans hsignaturesPath'
  obtain rfl := hsignaturesText.unique hsignaturesText'
  exact ⟨Except.ok.inj (hclasses.symm.trans hclasses'), Except.ok.inj (hsignatures.symm.trans hsignatures')⟩

/-- A search that has what it needs and somewhere to put its report ends in one way. -/
theorem Concludes.report (h : Concludes options c failure w) (hloads : Loads M options c classes signatures)
    (hpath : options.output.or c.outputFile = some path) (hcreated : M.created M.start path = .ok target)
    (hfull : target ≠ .device .full) :
    failure.map Failure.message = complaint (c.strict || options.strict) (reportOn classes signatures).unresolved ∧
      w.Saved ((reportOn classes signatures).render (c.prettyOutput && !options.compact)) (some path) := by
  cases h with
  | unloaded hnone => exact absurd ⟨_, _, hloads⟩ hnone
  | refused _ hpath' hunwritable =>
      cases hpath.symm.trans hpath'
      rcases hunwritable with ⟨fault, hrefused⟩ | hrefused
      · cases hcreated.symm.trans hrefused
      · exact absurd (Except.ok.inj (hcreated.symm.trans hrefused)) hfull
  | reported hloads' hsaved hmessage =>
      obtain ⟨rfl, rfl⟩ := hloads.unique hloads'
      rw [hpath] at hsaved
      exact ⟨hmessage, hsaved⟩

/-- Valid settings name both catalogs. -/
theorem exists_paths (h : c.validate = .ok ()) :
    ∃ classesPath signaturesPath, c.classesFile = some classesPath ∧ c.signaturesFile = some signaturesPath := by
  rw [Config.validate] at h
  cases hclasses : c.classesFile with
  | none =>
      rw [hclasses] at h
      cases h
  | some classesPath =>
      cases hsignatures : c.signaturesFile with
      | none =>
          rw [hclasses, hsignatures] at h
          cases h
      | some signaturesPath => exact ⟨classesPath, signaturesPath, rfl, rfl⟩

/-- A search ends in one of three ways, whatever it prints on its way. -/
theorem ends_runResolve (M : Machine) (options : ResolveOptions) (c : Config) :
    ∃ failure ws, (∀ manner, Ends (runResolve manner c options) ([] : M.Writes) (answer failure) ws) ∧
      ∀ w : World M, w.writes = ws → Concludes options c failure w := by
  cases hvalid : (options.applyTo c).validate with
  | error e =>
      refine ⟨some ⟨[e.message]⟩, [], fun manner => (Ends.log _).bind ?_, fun w hw => .unloaded ?_ (.of_writes hw)⟩
      · simp only [hvalid]
        exact .throw _
      · rintro ⟨classes, signatures, hloads⟩
        cases hvalid.symm.trans hloads.valid
  | ok u =>
      obtain ⟨classesPath, signaturesPath, hclassesPath, hsignaturesPath⟩ := exists_paths hvalid
      have hrun {failure : Option Failure} {ws : M.Writes}
          (h : ∀ manner,
            Ends (runSearch manner (options.applyTo c) classesPath signaturesPath) ([] : M.Writes) (answer failure) ws)
          (manner : Manner) : Ends (runResolve manner c options) ([] : M.Writes) (answer failure) ws := by
        refine (Ends.log _).bind ?_
        simp only [hvalid, hclassesPath, hsignaturesPath]
        exact h manner
      by_cases hloads : ∃ classes signatures,
          (∃ text, M.Reads M.start classesPath text ∧ Catalog.parseClasses text = .ok classes) ∧
            ∃ text, M.Reads M.start signaturesPath text ∧ (Catalog.parseSignatures text).1 = .ok signatures
      · obtain ⟨classes, signatures, hclasses, hsignatures⟩ := hloads
        have hloads : Loads M options c classes signatures :=
          ⟨hvalid, ⟨classesPath, hclassesPath, hclasses⟩, ⟨signaturesPath, hsignaturesPath, hsignatures⟩⟩
        have hclasses := (Finds.loadClasses [] classesPath).ends hclasses
        have hsignatures := (Finds.loadSignatures [] signaturesPath).ends hsignatures
        cases hsave : M.save [] (options.applyTo c).outputFile
          ((reportOn classes signatures).render (options.applyTo c).prettyOutput) with
        | error fault =>
            obtain ⟨path, hpath, hreceiver⟩ := Machine.exists_receiver_of_save hsave
            have hends := ends_runSearch_refused hclasses hsignatures hpath hreceiver
            exact ⟨some _, [], hrun hends, fun w hw =>
              .refused hloads hpath (Machine.unwritable_of_receiver hreceiver) (.of_writes hw)⟩
        | ok ws =>
            refine ⟨_, ws, hrun (ends_runSearch hclasses hsignatures hsave), fun w hw => ?_⟩
            exact .reported hloads (.of_save (hsave.trans (congrArg _ hw.symm))) (message_refusal _ _)
      · obtain ⟨f, hf⟩ := ends_runSearch_unloaded [] hloads
        refine ⟨some f, [], hrun hf, fun w hw => .unloaded ?_ (.of_writes hw)⟩
        rintro ⟨classes, signatures, -, ⟨path, hpath, hclasses⟩, ⟨path', hpath', hsignatures⟩⟩
        obtain rfl := Option.some.inj (hclassesPath.symm.trans hpath)
        obtain rfl := Option.some.inj (hsignaturesPath.symm.trans hpath')
        exact hloads ⟨classes, signatures, hclasses, hsignatures⟩

/-! ## The other commands -/

namespace Steady

theorem catalogSignature (ws : M.Writes) (path name : String) : Steady (fun _ => catalogSignature path name) ws := by
  refine bind (of_finds (.loadSignatures ws path)) fun signatures => ?_
  cases signatures.find? (·.name == name) with
  | some s => exact of_ends (.pure s)
  | none => exact fail _

theorem runLookup (ws : M.Writes) (o : LookupOptions) : Steady (fun manner => runLookup manner o) ws := by
  have hreport (c : JavaClass) (s : Signature) : Steady (fun manner => do
      (lookup c s).2.forM fun e => Action.log e.record
      Action.print (lookupLine manner c s (lookup c s).1)) ws :=
    bind (of_ends (.forM_log _ _)) fun _ => print _
  refine bind (of_ends (.log _)) fun _ => ?_
  cases o.check with
  | error message => exact fail_bind message
  | ok u =>
      refine bind (of_finds (.loadClasses ws o.classes)) fun classes => ?_
      cases classes.find? (·.name == o.className) with
      | none => exact fail_bind _
      | some c =>
          refine bind (of_ends (.pure c)) fun c => ?_
          cases o.signatures with
          | none =>
              cases o.inlineSignature with
              | ok s => exact hreport c s
              | error e => exact fail_bind e.message
          | some path =>
              cases o.signature with
              | none =>
                  cases o.inlineSignature with
                  | ok s => exact hreport c s
                  | error e => exact fail_bind e.message
              | some name => exact bind (catalogSignature ws path name) (hreport c)

end Steady

/-! ## Command lines -/

/-- The configuration of a command line: the one in its file, or the default. -/
def ConfigAt (M : Machine) : Option String → Config → Prop
  | none, c => {} = c
  | some path, c => ∃ text, M.Reads M.start path text ∧ Config.parse text = .ok c

/-- What a command line comes to. -/
structure Effect (i : Invocation) (failure : Option Failure) (w : World M) : Prop where
  /-- Only a search writes. -/
  other : (∀ options, i.command ≠ .resolve options) → w.Untouched
  unset : (¬∃ c, ConfigAt M i.config c) → failure ≠ none ∧ w.Untouched
  search : ∀ options, i.command = .resolve options → ∀ c, ConfigAt M i.config c → Concludes options c failure w

theorem finds_config (M : Machine) (config : Option String) :
    Finds (match config with
      | some path => loadConfig path
      | none => pure {}) ([] : M.Writes) (ConfigAt M config) := by
  cases config with
  | none => exact .pure _
  | some path => exact .loadConfig [] path

theorem ends_configured {k : Config → Act M Unit} {config : Option String} {r : Except Failure Unit}
    (h : Ends ((match config with
      | some path => loadConfig path
      | none => pure {}) >>= k) ws r ws') :
    Ends (match config with
      | some path => loadConfig path >>= k
      | none => pure {} >>= k) ws r ws' := by
  cases config <;> exact h

theorem exists_answer (r : Except Failure Unit) : ∃ failure, r = answer failure := by
  cases r with
  | ok u => exact ⟨none, rfl⟩
  | error f => exact ⟨some f, rfl⟩

/-- What a command does once its configuration is there. -/
def Command.perform (command : Command) (c : Config) (manner : Manner) : Act M Unit :=
  match command with
  | .resolve options => runResolve manner c options
  | .lookup options => runLookup manner options
  | .opcodes options => runOpcodes options

theorem ends_perform (M : Machine) (command : Command) (c : Config) :
    ∃ failure ws, (∀ manner, Ends (command.perform c manner) ([] : M.Writes) (answer failure) ws) ∧
      ∀ w : World M, w.writes = ws → ((∀ options, command ≠ .resolve options) → w.Untouched) ∧
        ∀ options, command = .resolve options → Concludes options c failure w := by
  cases command with
  | resolve options =>
      obtain ⟨failure, ws, hends, hconcludes⟩ := ends_runResolve M options c
      refine ⟨failure, ws, hends, fun w hw => ⟨fun h => absurd rfl (h options), ?_⟩⟩
      rintro _ ⟨⟩
      exact hconcludes w hw
  | lookup options =>
      obtain ⟨r, hends⟩ := Steady.runLookup ([] : M.Writes) options
      obtain ⟨failure, rfl⟩ := exists_answer r
      exact ⟨failure, [], hends, fun w hw => ⟨fun _ => .of_writes hw, nofun⟩⟩
  | opcodes options => exact ⟨none, [], fun _ => .print _, fun w hw => ⟨fun _ => .of_writes hw, nofun⟩⟩

/-- What a command line comes to does not depend on what it shows. -/
theorem ends_run (M : Machine) (i : Invocation) :
    ∃ failure ws,
      (∀ shown quiet, Ends ({ i with quiet := quiet }.run shown) ([] : M.Writes) (answer failure) ws) ∧
        ∀ w : World M, w.writes = ws → Effect i failure w := by
  obtain ⟨r, hconfig, hr⟩ := finds_config M i.config
  cases r with
  | error f =>
      have hnone : ¬∃ c, ConfigAt M i.config c := by
        rintro ⟨c, hc⟩
        cases (hr c).mpr hc
      refine ⟨some f, [], fun shown quiet => ends_configured hconfig.bind_error, fun w hw => ?_⟩
      exact ⟨fun _ => .of_writes hw, fun _ => ⟨nofun, .of_writes hw⟩, fun _ _ c hc => absurd ⟨c, hc⟩ hnone⟩
  | ok c =>
      obtain ⟨failure, ws, hends, heffect⟩ := ends_perform M i.command c
      refine ⟨failure, ws, fun shown quiet => ?_, fun w hw => ?_⟩
      · refine ends_configured (hconfig.bind ((Ends.startLog _).bind ?_))
        exact .print_if _ _ (hends _)
      · obtain ⟨hother, hsearch⟩ := heffect w hw
        refine ⟨hother, fun h => absurd ⟨c, (hr c).mp rfl⟩ h, fun options hoptions c' hc' => ?_⟩
        cases (hr c').mpr hc'
        exact hsearch options hoptions

theorem runOn_of_ends (h : Ends (i.run shown) [] (answer failure) ws) :
    (runOn M shown i).failure = failure ∧ (runOn M shown i).world.writes = ws := by
  obtain ⟨w, hrun, hws⟩ := h {} rfl
  rw [runOn, hrun]
  cases failure with
  | none => exact ⟨rfl, hws⟩
  | some f => exact ⟨rfl, hws⟩

/-- Whatever a machine holds and wherever its paths lead, lookups and lists leave all files alone, and so does a search
that fails on its configuration, its settings, its catalogs or the file for its report. Any other search writes at most
once: its report, to where the path for it leads. It fails just in case all signatures were to be found and some were
not, with their number and their names in order. The switch for quiet may be added to any command line and changes
neither the end of a command nor what it writes. -/
theorem runOn_effects (M : Machine) (shown : Bool) (i : Invocation) :
    Effect i (runOn M shown i).failure (runOn M shown i).world ∧
      (∀ classes signatures, (reportOn classes signatures).unresolved = (signatures.map (·.name)).filter fun name =>
        ((resolve .sequential classes signatures).map.find? name).isNone) ∧
      (∀ args, readArguments args = .ok i → i.quiet = false →
        readArguments ("--quiet" :: args) = .ok { i with quiet := true }) ∧
      (runOn M shown { i with quiet := true }).failure = (runOn M shown i).failure ∧
      (runOn M shown { i with quiet := true }).world.writes = (runOn M shown i).world.writes := by
  obtain ⟨failure, ws, hends, heffect⟩ := ends_run M i
  obtain ⟨hfailure, hws⟩ := runOn_of_ends (hends shown i.quiet)
  obtain ⟨hfailure', hws'⟩ := runOn_of_ends (hends shown true)
  rw [hfailure', hws', hfailure, hws]
  refine ⟨heffect _ hws, fun classes signatures => ?_, fun args => readArguments_quiet, rfl, rfl⟩
  show LocationMap.unresolved _ _ = _
  simp only [LocationMap.unresolved, LocationMap.contains_eq_isSome, Option.not_isSome]

/-- A catalog without classes and one with a signature, which is not found. -/
def catalogFiles : Files :=
  ⟨[("c", .text (Catalog.ClassCatalog.ofClasses []).render),
    ("s", .text (Catalog.SignatureCatalog.ofSignatures [.unconstrained "f"]).render)]⟩

/-- The report goes to a file outside the working directory. -/
def strictOptions : ResolveOptions :=
  { classes := some "c", signatures := some "s", output := some "../r", strict := true }

/-- A search in strict mode that can be made, one without its configuration, and a list. -/
theorem runOn_effects_strict :
    (∃ place, catalogFiles.machine.created catalogFiles.contents "../r" = .ok (.file place) ∧
      ∀ other, (runIn true catalogFiles { command := .resolve strictOptions }).world.files.contents other =
        if other = place then some (.text ((reportOn [] [.unconstrained "f"]).render true))
        else catalogFiles.contents other) ∧
      catalogFiles.machine.Reads
        (runOn catalogFiles.machine true { command := .resolve strictOptions }).world.contents "../r"
        ((reportOn [] [.unconstrained "f"]).render true) ∧
      (runOn catalogFiles.machine true { command := .resolve strictOptions }).failure.map Failure.message =
        some "1 signature unresolved: f" ∧
      (runOn catalogFiles.machine true { config := some "x", command := .resolve strictOptions }).failure ≠ none ∧
      (runOn catalogFiles.machine true { command := .opcodes {} }).world.Untouched ∧
      readArguments ["--quiet", "opcodes"] = .ok { quiet := true, command := .opcodes {} } := by
  have hclassesRead : catalogFiles.machine.Reads catalogFiles.contents "c"
      (Catalog.ClassCatalog.ofClasses []).render :=
    Machine.reads_iff.mpr (by decide +kernel)
  have hsignaturesRead : catalogFiles.machine.Reads catalogFiles.contents "s"
      (Catalog.SignatureCatalog.ofSignatures [.unconstrained "f"]).render :=
    Machine.reads_iff.mpr (by decide +kernel)
  have hclasses : Catalog.parseClasses (Catalog.ClassCatalog.ofClasses []).render = .ok [] :=
    Catalog.parseClasses_ofClasses nofun
  have hsignatures : (Catalog.parseSignatures
      (Catalog.SignatureCatalog.ofSignatures [.unconstrained "f"]).render).1 = .ok [.unconstrained "f"] := by
    have hblank : ∀ s ∈ [Signature.unconstrained "f"], ∃ c ∈ s.name.toList, Text.isBlank c = false := by
      rw [List.forall_mem_singleton]
      exact ⟨'f', by decide⟩
    have hformed : ∀ s ∈ [Signature.unconstrained "f"], s.WellFormed := by
      rw [List.forall_mem_singleton]
      exact ⟨nofun, nofun⟩
    rw [Catalog.parseSignatures_ofSignatures (by decide) hblank hformed]
  have hloads : Loads catalogFiles.machine strictOptions {} [] [.unconstrained "f"] :=
    ⟨rfl, ⟨"c", rfl, _, hclassesRead, hclasses⟩, ⟨"s", rfl, _, hsignaturesRead, hsignatures⟩⟩
  have hcreated : catalogFiles.created catalogFiles.contents "../r" =
      .ok (.file ⟨false, [⟨"tmp", by decide, by decide, by decide, by decide⟩,
        ⟨"r", by decide, by decide, by decide, by decide⟩]⟩) := by decide +kernel
  have hunset : ¬∃ c, ConfigAt catalogFiles.machine (some "x") c := by
    rintro ⟨c, text, htext, -⟩
    have hnone : catalogFiles.read "x" = .error .notFound := by decide +kernel
    cases hnone.symm.trans (Machine.reads_iff.mp htext)
  have hmissing : complaint true (reportOn [] [.unconstrained "f"]).unresolved = some "1 signature unresolved: f" := by
    decide +kernel
  have hsearch := runOn_effects catalogFiles.machine true { command := .resolve strictOptions }
  obtain ⟨hmessage, hsaved⟩ := (hsearch.1.search _ rfl {} rfl).report hloads rfl hcreated nofun
  obtain ⟨-, hcontents, hreads⟩ := hsaved.of_file hcreated
  refine ⟨⟨_, hcreated, ?_⟩, hreads catalogFiles.machine_reopens, hmessage.trans hmissing, ?_, ?_, ?_⟩
  · rw [World.contents_files]
    exact hcontents
  · exact ((runOn_effects catalogFiles.machine true
      { config := some "x", command := .resolve strictOptions }).1.unset hunset).1
  · exact (runOn_effects catalogFiles.machine true { command := .opcodes {} }).1.other nofun
  · exact (runOn_effects catalogFiles.machine true { command := .opcodes {} }).2.2.1 ["opcodes"]
      (by decide +kernel) rfl

end MethodSearch.Console
