import MethodSearch.Console.Arguments
import MethodSearch.Proofs.Text.FirstFault

/-!
# One switch more

A switch that is not given may be put in front of a command line. The rest of it is read as before, and only the switch
is added to what it says.
-/

namespace MethodSearch.Console

variable {g g' : Given} {spec : OptionSpec} {specs : List OptionSpec} {name : OptionName} {value : String}

namespace Given

/-- What is given when the switch for quiet comes first. -/
def hushed (g : Given) : Given :=
  { g with values := (.quiet, "") :: g.values }

theorem value?_hushed (h : name ≠ .quiet) : g.hushed.value? name = g.value? name := by
  have hdiffers : (OptionName.quiet == name) = false := beq_eq_false_iff_ne.mpr h.symm
  rw [value?, value?, hushed, List.find?_cons_of_neg (by simp [hdiffers])]

theorem has_hushed (h : name ≠ .quiet) : g.hushed.has name = g.has name := by
  rw [has, has, value?_hushed h]

theorem has_quiet_hushed (g : Given) : g.hushed.has .quiet = true :=
  rfl

theorem has_append (g : Given) (name' : OptionName) (value : String) :
    has { g with values := g.values ++ [(name', value)] } name = (g.has name || name' == name) := by
  rw [has, has, value?, value?, List.find?_append, Option.isSome_map, Option.isSome_map, Option.isSome_or]
  congr 1
  rw [List.find?_singleton]
  split <;> simp [*]

theorem invocation_hushed (before after : Given) (command : Command) :
    before.hushed.invocation after command = { before.invocation after command with quiet := true } := by
  have hlevel : OptionName.logLevel ≠ .quiet := nofun
  have hcolour : OptionName.noColour ≠ .quiet := nofun
  have hconfig : OptionName.config ≠ .quiet := nofun
  rw [invocation, value?_hushed hlevel, has_quiet_hushed, has_hushed hcolour, value?_hushed hconfig, Bool.or_true]
  rfl

end Given

/-- A step of reading says the same of what is given with the switch in front, unless it comes upon the switch. -/
def Hushes (step : Given → Except Usage Given) : Prop :=
  ∀ g g', step g = .ok g' → g'.has .quiet = false → g.has .quiet = false ∧ step g.hushed = .ok g'.hushed

namespace Hushes

variable {step step' : Given → Except Usage Given}

theorem ok : Hushes .ok := by
  rintro g _ ⟨⟩ h
  exact ⟨h, rfl⟩

theorem error (usage : Usage) : Hushes fun _ => .error usage := by
  rintro g g' ⟨⟩

theorem bind (h : Hushes step) (h' : Hushes step') : Hushes fun g => step g >>= step' := by
  intro g g' hread hquiet
  obtain ⟨mid, hmid, hread⟩ := Except.bind_eq_ok_iff.mp hread
  obtain ⟨hquiet, hrest⟩ := h' mid g' hread hquiet
  obtain ⟨hquiet, hfirst⟩ := h g mid hmid hquiet
  exact ⟨hquiet, Except.bind_eq_ok_iff.mpr ⟨mid.hushed, hfirst, hrest⟩⟩

theorem add (name : OptionName) (value : String) : Hushes fun g => g.add name value := by
  intro g g' hread hquiet
  beta_reduce at hread ⊢
  rw [Given.add] at hread
  split at hread
  · cases hread
  · next hnew =>
      cases hread
      rw [Given.has_append, Bool.or_eq_false_iff, beq_eq_false_iff_ne] at hquiet
      refine ⟨hquiet.1, ?_⟩
      rw [Given.add, Given.has_hushed hquiet.2, if_neg hnew]
      rfl

theorem take (spec : OptionSpec) (value : String) : Hushes fun g => g.take spec value := by
  refine bind (add spec.name value) ?_
  cases spec.arity with
  | path =>
      cases value.isEmpty with
      | true => exact error _
      | false => exact ok
  | number =>
      cases (readNumber? value).isNone with
      | true => exact error _
      | false => exact ok
  | _ => exact ok

/-- What is waiting does not matter to the switch. -/
theorem settle : Hushes Given.settle := by
  intro g g' hread hquiet
  rw [Given.settle] at hread ⊢
  cases hpending : g.pending with
  | none =>
      rw [hpending] at hread
      cases hread
      refine ⟨hquiet, ?_⟩
      rw [Given.hushed, hpending]
  | some p =>
      obtain ⟨spec, value | value⟩ := p
      · rw [hpending] at hread
        cases hread
      · rw [hpending] at hread
        obtain ⟨hquiet, hread⟩ := take spec value _ _ hread hquiet
        refine ⟨hquiet, ?_⟩
        rw [Given.hushed, hpending]
        exact hread

theorem attached (spec : OptionSpec) (value : String) : Hushes fun g => g.attached spec value :=
  bind settle (take spec value)

theorem await (spec : OptionSpec) : Hushes fun g => g.await spec := by
  refine bind settle ?_
  rintro g _ ⟨⟩ h
  exact ⟨h, rfl⟩

theorem flag (spec : OptionSpec) : Hushes fun g => g.flag spec := by
  refine bind settle ?_
  intro g g' hread hquiet
  beta_reduce at hread ⊢
  split at hread
  · cases hread
  · cases hread
    exact ⟨hquiet, rfl⟩
  · exact add spec.name "" _ _ hread hquiet

theorem readLong (specs : List OptionSpec) (arg : List Char) : Hushes fun g => readLong specs g arg := by
  simp only [Console.readLong]
  cases specs.find? (·.long == String.ofList (arg.takeWhile (· != '='))) with
  | none => exact error _
  | some spec =>
      cases arg.dropWhile (· != '=') with
      | nil =>
          simp only []
          cases spec.arity.takesValue with
          | true => exact await spec
          | false => exact flag spec
      | cons c value =>
          simp only []
          cases spec.arity.takesValue with
          | true => exact attached spec _
          | false => exact error _

theorem letterValue (spec : OptionSpec) (rest : List Char) : Hushes fun g => match rest with
    | [] => g.await spec
    | '=' :: value => g.attached spec (String.ofList value)
    | value => g.attached spec (String.ofList value) := by
  cases rest with
  | nil => exact await spec
  | cons c rest =>
      by_cases hc : c = '='
      · subst hc
        exact attached spec _
      · simp only [hc, List.cons.injEq, false_and, imp_false, not_false_eq_true, implies_true]
        exact attached spec _

theorem readLetters (specs : List OptionSpec) (arg : List Char) : Hushes fun g => readLetters specs g arg := by
  induction arg with
  | nil => exact ok
  | cons c rest ih =>
      simp only [Console.readLetters]
      cases specs.find? (·.letter == some c) with
      | none => exact error _
      | some spec =>
          simp only []
          cases spec.arity.takesValue with
          | true => exact letterValue spec rest
          | false => exact bind (flag spec) ih

end Hushes

/-! ## Whole command lines -/

/-- The arguments before a command are read alike with the switch in front. -/
theorem readCommon_hushed {args : List String} {answer : Option (CommandName × List String)}
    (hread : readCommon specs g args = .ok (g', answer)) (hquiet : g'.has .quiet = false) :
    g.has .quiet = false ∧ readCommon specs g.hushed args = .ok (g'.hushed, answer) := by
  induction args generalizing g with
  | nil =>
      cases hread
      exact ⟨hquiet, rfl⟩
  | cons arg rest ih =>
      have hstep {step : Given → Except Usage Given} (h : Hushes step)
          (hread : (do readCommon specs (← step g) rest) = .ok (g', answer)) :
          g.has .quiet = false ∧ (do readCommon specs (← step g.hushed) rest) = .ok (g'.hushed, answer) := by
        obtain ⟨mid, hmid, hread⟩ := Except.bind_eq_ok_iff.mp hread
        obtain ⟨hquiet, hrest⟩ := ih hread
        obtain ⟨hquiet, hfirst⟩ := h g mid hmid hquiet
        exact ⟨hquiet, Except.bind_eq_ok_iff.mpr ⟨mid.hushed, hfirst, hrest⟩⟩
      have hawaiting : g.hushed.isAwaiting = g.isAwaiting := rfl
      rw [readCommon] at hread ⊢
      rw [hawaiting]
      split at hread
      · cases hread
        exact ⟨hquiet, rfl⟩
      · split at hread
        · cases hread
        · next hhelp =>
            rw [if_neg hhelp]
            split at hread
            · obtain ⟨u, hu, hread⟩ := Except.bind_eq_ok_iff.mp hread
              cases hread
              exact ⟨hquiet, Except.bind_eq_ok_iff.mpr ⟨u, hu, rfl⟩⟩
            · exact hstep (.readLong specs _) hread
            · exact hstep (.readLetters specs _) hread
            · split at hread
              · next hdue =>
                  rw [if_pos hdue]
                  exact ih hread
              · cases hread

/-- The switch for quiet may be put in front of a command line that does not have it. -/
theorem readArguments_quiet {args : List String} {i : Invocation} (hread : readArguments args = .ok i)
    (hquiet : i.quiet = false) : readArguments ("--quiet" :: args) = .ok { i with quiet := true } := by
  obtain ⟨⟨before, answer⟩, hbefore, hread⟩ := Except.bind_eq_ok_iff.mp hread
  cases answer with
  | none =>
      obtain ⟨_, -, hread⟩ := Except.bind_eq_ok_iff.mp hread
      cases hread
  | some answer =>
      obtain ⟨name, rest⟩ := answer
      obtain ⟨given, hgiven, hread⟩ := Except.bind_eq_ok_iff.mp hread
      obtain ⟨after, hafter, hread⟩ := Except.bind_eq_ok_iff.mp hread
      obtain ⟨command, hcommand, hread⟩ := Except.bind_eq_ok_iff.mp hread
      obtain ⟨settled, hsettled, hread⟩ := Except.bind_eq_ok_iff.mp hread
      obtain rfl := Except.ok.inj hread
      obtain ⟨hnot, hnot'⟩ := Bool.or_eq_false_iff.mp hquiet
      obtain ⟨hbeforeQuiet, hsettledHushed⟩ := Hushes.settle before settled hsettled hnot'
      obtain ⟨-, hbeforeHushed⟩ := readCommon_hushed hbefore hbeforeQuiet
      refine Except.bind_eq_ok_iff.mpr ⟨(before.hushed, some (name, rest)), hbeforeHushed, ?_⟩
      refine Except.bind_eq_ok_iff.mpr ⟨given, hgiven, Except.bind_eq_ok_iff.mpr ⟨after, hafter, ?_⟩⟩
      refine Except.bind_eq_ok_iff.mpr ⟨command, hcommand, Except.bind_eq_ok_iff.mpr ⟨_, hsettledHushed, ?_⟩⟩
      rw [Given.invocation_hushed]
      rfl

end MethodSearch.Console
