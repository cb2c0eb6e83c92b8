import MethodSearch.Proofs.Console.Effects
import MethodSearch.Proofs.Resolution.Schedules

/-!
# Settings from two sources

A search takes each setting from its options or from its configuration. It makes no difference which of the two gives a
setting: the options can carry all that the configuration says.
-/

namespace MethodSearch

theorem Threads.count_eq_zero_iff {suggested : Nat} (h : 0 < suggested) (t : Threads) :
    t.count suggested = 0 ↔ t = .fixed 0 := by
  cases t with
  | automatic => exact iff_of_false (Nat.ne_of_gt h) nofun
  | fixed n => simp [count]

namespace Config

variable {suggested : Nat}

/-- The settings that a search reads, with a fixed number of workers. -/
def settled (suggested : Nat) (c : Config) : Config :=
  { c with maxThreads := .fixed (c.maxThreads.count suggested), logLevel := ({} : Config).logLevel }

theorem validate_settled (h : 0 < suggested) (c : Config) : (c.settled suggested).validate = c.validate := by
  have hzero : (Threads.fixed (c.maxThreads.count suggested) == .fixed 0) = (c.maxThreads == .fixed 0) := by
    rw [Bool.eq_iff_iff, beq_iff_eq, beq_iff_eq, Threads.fixed.injEq, Threads.count_eq_zero_iff h]
  simp only [validate, settled, hzero]

theorem validate_eq_error_iff (c : Config) :
    (∃ e, c.validate = .error e) ↔
      c.classesFile = none ∨ c.signaturesFile = none ∨ c.parallel = true ∧ c.maxThreads = .fixed 0 := by
  rw [validate]
  cases c.classesFile with
  | none => simp
  | some classesPath =>
      cases c.signaturesFile with
      | none => simp
      | some signaturesPath => by_cases h : c.parallel = true ∧ c.maxThreads = .fixed 0 <;> simp [h]

end Config

namespace Console

variable {m : Type → Type} [Monad m] [Host m] {suggested : Nat} {c : Config} {options : ResolveOptions}

namespace ResolveOptions

/-- The options together with what they leave to a configuration. -/
def carrying (suggested : Nat) (c : Config) (options : ResolveOptions) : ResolveOptions where
  classes := options.classes.or c.classesFile
  signatures := options.signatures.or c.signaturesFile
  output := options.output.or c.outputFile
  parallel := options.parallel || c.parallel
  threads := some (options.threads.getD (c.maxThreads.count suggested))
  strict := options.strict || c.strict
  compact := options.compact || !c.prettyOutput

theorem count_applyTo (suggested : Nat) (c : Config) (options : ResolveOptions) :
    (options.applyTo c).maxThreads.count suggested = options.threads.getD (c.maxThreads.count suggested) := by
  rw [applyTo]
  cases options.threads <;> rfl

theorem applyTo_carrying (suggested : Nat) (c : Config) (options : ResolveOptions) :
    (options.carrying suggested c).applyTo {} = (options.applyTo c).settled suggested := by
  rw [Config.settled, count_applyTo]
  simp [applyTo, carrying, Bool.or_comm, Bool.and_comm]

end ResolveOptions

/-! ## Searches -/

/-- A search does not show its workers. -/
theorem runSearch_settled (manner : Manner) (suggested : Nat) (c : Config) (classesPath signaturesPath : String) :
    runSearch (m := m) manner (c.settled suggested) classesPath signaturesPath =
      runSearch manner c classesPath signaturesPath := by
  have hsame (classes : List Bytecode.JavaClass) (signatures : List Signature) :
      resolve (strategy (c.settled suggested)) classes signatures = resolve (strategy c) classes signatures := by
    rw [resolve_eq_sequential, resolve_eq_sequential (strategy c)]
  simp only [runSearch, hsame]
  rfl

theorem runResolve_of_invalid {e : Config.Error} (manner : Manner) (h : (options.applyTo c).validate = .error e) :
    runResolve (m := m) manner c options =
      Action.log ⟨.info, .command, "Executing resolve command"⟩ >>= fun _ => Action.fail e.message := by
  simp only [runResolve, h]

theorem runResolve_of_valid {classesPath signaturesPath : String} (manner : Manner)
    (h : (options.applyTo c).validate = .ok ()) (hclasses : (options.applyTo c).classesFile = some classesPath)
    (hsignatures : (options.applyTo c).signaturesFile = some signaturesPath) :
    runResolve (m := m) manner c options =
      Action.log ⟨.info, .command, "Executing resolve command"⟩ >>= fun _ =>
        runSearch manner (options.applyTo c) classesPath signaturesPath := by
  simp only [runResolve, h, hclasses, hsignatures]

theorem runResolve_carrying (h : 0 < suggested) (manner : Manner) (c : Config) (options : ResolveOptions) :
    runResolve (m := m) manner c options = runResolve manner {} (options.carrying suggested c) := by
  have hmerged := ResolveOptions.applyTo_carrying suggested c options
  have hvalidate := Config.validate_settled h (options.applyTo c)
  rw [← hmerged] at hvalidate
  cases hvalid : (options.applyTo c).validate with
  | error e => rw [runResolve_of_invalid manner hvalid, runResolve_of_invalid manner (hvalidate.trans hvalid)]
  | ok u =>
      obtain ⟨classesPath, signaturesPath, hclasses, hsignatures⟩ := exists_paths hvalid
      have hclasses' : ((options.carrying suggested c).applyTo {}).classesFile = some classesPath := by
        rwa [hmerged]
      have hsignatures' : ((options.carrying suggested c).applyTo {}).signaturesFile = some signaturesPath := by
        rwa [hmerged]
      rw [runResolve_of_valid manner hvalid hclasses hsignatures,
        runResolve_of_valid manner (hvalidate.trans hvalid) hclasses' hsignatures', hmerged, runSearch_settled]

/-- The configuration and the options of a search are interchangeable: with what the options leave to it written into
them, the search does the same without it, whatever the world it runs in. Valid settings name both catalogs, so that the
search begins. Settings are refused just in case one of the catalogs is named by neither source, or the search is to be
parallel and the source that counts gives it no worker. -/
theorem runResolve_settings (h : 0 < suggested) (manner : Manner) (c : Config) (options : ResolveOptions) :
    runResolve (m := m) manner c options = runResolve manner {} (options.carrying suggested c) ∧
      ((options.applyTo c).validate = .ok () → ∃ classesPath signaturesPath,
        options.classes.or c.classesFile = some classesPath ∧
        options.signatures.or c.signaturesFile = some signaturesPath ∧
        runResolve (m := m) manner c options =
          Action.log ⟨.info, .command, "Executing resolve command"⟩ >>= fun _ =>
            runSearch manner (options.applyTo c) classesPath signaturesPath) ∧
      ((∃ e, (options.applyTo c).validate = .error e) ↔
        options.classes = none ∧ c.classesFile = none ∨ options.signatures = none ∧ c.signaturesFile = none ∨
          (options.parallel = true ∨ c.parallel = true) ∧
            options.threads.getD (c.maxThreads.count suggested) = 0) := by
  refine ⟨runResolve_carrying h manner c options, ?_, ?_⟩
  · intro hvalid
    obtain ⟨classesPath, signaturesPath, hclasses, hsignatures⟩ := exists_paths hvalid
    exact ⟨classesPath, signaturesPath, hclasses, hsignatures, runResolve_of_valid manner hvalid hclasses hsignatures⟩
  · rw [Config.validate_eq_error_iff, ← Threads.count_eq_zero_iff h, ResolveOptions.count_applyTo]
    simp [ResolveOptions.applyTo, or_comm]

/-- Without a worker for its parallel search, this configuration is refused on its own. -/
def refusedConfig : Config :=
  ⟨some "c", some "s", some "r", false, true, .fixed 0, false, "debug"⟩

/-- Other classes and two workers. -/
def otherOptions : ResolveOptions :=
  { classes := some "d", threads := some 2, strict := true }

/-- With other options the same configuration is searched with, as if all had been given as options. -/
theorem runResolve_settings_refused :
    (∃ e, (({} : ResolveOptions).applyTo refusedConfig).validate = .error e) ∧
      runResolve (m := StateM (World (Files.machine ⟨[]⟩))) ⟨false, ⟨true, true⟩⟩ refusedConfig otherOptions =
        runResolve ⟨false, ⟨true, true⟩⟩ {} ⟨some "d", some "s", some "r", true, some 2, true, true⟩ ∧
      ∃ classesPath signaturesPath, some "d" = some classesPath ∧ some "s" = some signaturesPath ∧
        runResolve (m := StateM (World (Files.machine ⟨[]⟩))) ⟨false, ⟨true, true⟩⟩ refusedConfig otherOptions =
          Action.log ⟨.info, .command, "Executing resolve command"⟩ >>= fun _ =>
            runSearch ⟨false, ⟨true, true⟩⟩ (otherOptions.applyTo refusedConfig) classesPath signaturesPath := by
  have hsettings :=
    runResolve_settings (m := StateM (World (Files.machine ⟨[]⟩))) (Nat.succ_pos 7) ⟨false, ⟨true, true⟩⟩ refusedConfig
  have hrefused := (hsettings {}).2.2.mpr (.inr (.inr ⟨.inr rfl, rfl⟩))
  exact ⟨hrefused, (hsettings otherOptions).1, (hsettings otherOptions).2.1 rfl⟩

end Console

end MethodSearch
