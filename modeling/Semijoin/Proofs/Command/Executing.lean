import Semijoin.Command.Program
import Semijoin.Proofs.Command.Writing

/-!
# What the program does

The program sees of its system only what it asks for: it reads the files that the command line
names, and finds out by trying that a text cannot be written. In a world it does all the same what
the run of the command line in this world tells, and leaves the world as it is after that run.
-/

namespace Semijoin.Command

section Reading

variable {invocation : Invocation}

/-- A configuration depends on the file that is named and on one variable of the environment. -/
theorem Invocation.configure_congr {file file' : String → Except String String}
    {environment environment' : String → Option String}
    (hfile : ∀ path, invocation.config = some path → file path = file' path)
    (hsentinel : environment Config.environmentKey = environment' Config.environmentKey) :
    invocation.configure file environment = invocation.configure file' environment' := by
  unfold Invocation.configure Config.override
  rw [hsentinel]
  cases hconfig : invocation.config with
  | none => rfl
  | some path => simp only [hfile path hconfig]

/-- Surroundings in which an invocation reads the same as in others: the file of its configuration,
the environment and, if there is a configuration, its input. -/
structure Surroundings.ReadAs (met surroundings : Surroundings) (invocation : Invocation) :
    Prop where
  config : ∀ path, invocation.config = some path → met.file path = surroundings.file path
  sentinel : met.environment Config.environmentKey = surroundings.environment Config.environmentKey
  input : ∀ config,
    invocation.configure surroundings.file surroundings.environment = .ok config →
      met.read invocation.task = surroundings.read invocation.task

variable {met surroundings : Surroundings}

/-- Where the same is read the same is delivered, with the same events. -/
theorem Surroundings.ReadAs.deliver_eq (h : met.ReadAs surroundings invocation) :
    invocation.deliver met = invocation.deliver surroundings := by
  unfold Invocation.deliver
  rw [Invocation.configure_congr h.config h.sentinel]
  cases hconfig : invocation.configure surroundings.file surroundings.environment with
  | error failure => rfl
  | ok config => rw [h.input config hconfig]

end Reading

section Ending

variable {surroundings : Surroundings} {sink : Sink} {text : String}

/-- Where everything can be written nothing is refused. -/
theorem Surroundings.refused?_eq_none (hwrite : ∀ path, surroundings.canWrite path = true)
    (hprint : surroundings.canPrint = true) : surroundings.refused? sink text = none := by
  refine refused?_of_accepts _ ?_
  cases sink with
  | output => exact Bool.or_eq_true_iff.mpr (.inl hprint)
  | file path => exact hwrite path

/-- What some surroundings refuse is refused where nothing can be written. -/
theorem Surroundings.refused?_refusing {met : Surroundings} {reason reason' : String}
    (h : surroundings.refused? sink text = some reason) :
    (met.refusing reason').refused? sink text = some reason' := by
  refine refused?_of_not_accepts _ fun haccepts => ?_
  cases sink with
  | output =>
    have htext : text.isEmpty = true := by simpa [accepts, refusing] using haccepts
    have haccepted : surroundings.accepts .output text = true :=
      Bool.or_eq_true_iff.mpr (.inr htext)
    rw [surroundings.refused?_of_accepts haccepted] at h
    cases h
  | file path => cases haccepts

/-- The text of a stop is printed unless this is refused. -/
theorem Surroundings.printed?_eq (surroundings : Surroundings) (text : String) :
    surroundings.printed? text =
      if (surroundings.refused? .output text).isNone then some (.output, text) else none := by
  unfold printed? refused?
  split <;> rfl

/-- Why what is to be written cannot be, if it cannot. -/
def Surroundings.refusedAt? (surroundings : Surroundings) :
    Option (Sink × String) → Option String
  | none => none
  | some (sink, text) => surroundings.refused? sink text

/-- How a command line ends does not depend on what can be written, except that the one text that is
written may be refused for a reason. -/
structure Ends (words : List String) (surroundings : Surroundings)
    (place : Option (Sink × String)) (ending : Option String → Outcome) : Prop where
  written : (ending none).written = place
  refused : ∀ reason, (ending (some reason)).written = none
  run_eq : ∀ met : Surroundings,
    (∀ invocation, parse words = .ok invocation → met.ReadAs surroundings invocation) →
      run met words = ending (met.refusedAt? place)

/-- Every command line has a way to end. -/
theorem exists_ends (words : List String) (surroundings : Surroundings) :
    ∃ place ending, Ends words surroundings place ending := by
  cases hparse : parse words with
  | error stop =>
    have hrun (met : Surroundings) : run met words = stop.outcome met := by rw [run, hparse]
    have hprinted (text : String) (h : ∀ met, stop.outcome met = ⟨0, [], met.printed? text, []⟩) :
        Ends words surroundings (some (.output, text)) fun refused =>
          ⟨0, [], if refused.isNone then some (.output, text) else none, []⟩ :=
      ⟨rfl, fun _ => rfl, fun met _ => by rw [hrun, h, met.printed?_eq]; rfl⟩
    cases stop with
    | version => exact ⟨_, _, hprinted _ fun _ => rfl⟩
    | help scope => exact ⟨_, _, hprinted _ fun _ => rfl⟩
    | bare =>
      exact ⟨none, fun _ => Stop.bare.outcome surroundings, rfl, fun _ => rfl,
        fun met _ => hrun met⟩
    | misuse reason =>
      exact ⟨none, fun _ => (Stop.misuse reason).outcome surroundings, rfl, fun _ => rfl,
        fun met _ => hrun met⟩
  | ok invocation =>
    have hrun (met : Surroundings)
        (hmet : ∀ other, parse words = .ok other → met.ReadAs surroundings other) :
        run met words = met.outcomeOf (invocation.deliver surroundings) := by
      rw [run, hparse, ← (hmet invocation hparse).deliver_eq]
    cases hresult : (invocation.deliver surroundings).result with
    | error failure =>
      refine ⟨none, fun _ => failure.outcome (invocation.deliver surroundings).events, rfl,
        fun _ => rfl, fun met hmet => ?_⟩
      rw [hrun met hmet, outcomeOf_of_error met hresult]
    | ok delivery =>
      refine ⟨some (delivery.sink, delivery.text),
        fun refused => delivery.outcome refused (invocation.deliver surroundings).events,
        (delivery.outcome_none _).2, fun reason => (delivery.outcome_some reason _).2,
        fun met hmet => ?_⟩
      rw [hrun met hmet, outcomeOf_of_ok met hresult]
      rfl

end Ending

namespace World

/-- A world as a system: what is asked for is told, and a text is written where it is accepted. -/
def system : System (StateM World) where
  file path world := (world.surroundings.file path, world)
  input world := (world.input, world)
  environment name world := (world.environment name, world)
  write sink text world :=
    match world.surroundings.refused? sink text with
    | none => (.ok (), world.write text sink)
    | some reason => (.error reason, world)

variable (world : World)

/-- Reading the file of a configuration changes nothing. -/
theorem run_readConfig (invocation : Invocation) :
    (system.readConfig invocation).run world =
      (invocation.config.elim System.unread world.surroundings.file, world) := by
  unfold System.readConfig
  cases invocation.config <;> rfl

/-- Reading the input of a task changes nothing. -/
theorem run_readInput (task : Task) (needed : Bool) :
    (system.readInput task needed).run world =
      (if needed then world.surroundings.read task else System.unread, world) := by
  unfold System.readInput Surroundings.read
  cases needed with
  | false => rfl
  | true => cases task.input <;> rfl

/-- Looking at the environment changes nothing. -/
theorem run_environment (name : String) :
    (system.environment name).run world = (world.environment name, world) := rfl

/-- The program reads for an invocation what a run reads, and changes nothing by it. -/
theorem exists_run_meet (invocation : Invocation) :
    ∃ met : Surroundings, (system.meet invocation).run world = (met, world) ∧
      met.ReadAs world.surroundings invocation ∧
      (∀ path, met.canWrite path = true) ∧ met.canPrint = true := by
  simp only [System.meet, StateT.run_bind, run_readConfig, run_environment, run_readInput,
    StateT.run_pure]
  have hfile (path : String) (h : invocation.config = some path) :
      invocation.config.elim System.unread world.surroundings.file =
        world.surroundings.file path := by
    rw [h, Option.elim_some]
  have hconfigure := @Invocation.configure_congr invocation
    (fun _ => invocation.config.elim System.unread world.surroundings.file)
    world.surroundings.file (fun _ => world.environment Config.environmentKey)
    world.surroundings.environment hfile rfl
  refine ⟨_, rfl, ⟨fun path h => ?_, rfl, fun config hconfig => ?_⟩, fun _ => rfl, rfl⟩
  · exact (if_pos h).trans (hfile path h)
  · rw [hconfigure, hconfig]
    unfold Surroundings.read
    cases invocation.task.input with
    | none => rfl
    | some path =>
      by_cases h : invocation.config = some path
      · exact (if_pos h).trans (hfile path h)
      · exact if_neg h

/-- The program reads for a command line what its run reads, and changes nothing by it. -/
theorem exists_run_meetWords (words : List String) :
    ∃ met : Surroundings, (system.meetWords words).run world = (met, world) ∧
      (∀ invocation, parse words = .ok invocation → met.ReadAs world.surroundings invocation) ∧
      (∀ path, met.canWrite path = true) ∧ met.canPrint = true := by
  unfold System.meetWords
  cases hparse : parse words with
  | error stop => exact ⟨_, rfl, nofun, fun _ => rfl, rfl⟩
  | ok invocation =>
    obtain ⟨met, hrun, hreads, hcan⟩ := world.exists_run_meet invocation
    refine ⟨met, hrun, fun other hother => ?_, hcan⟩
    cases hother
    exact hreads

/-- What is written in a world is left there, and what is refused is not. -/
theorem run_write (sink : Sink) (text : String) :
    (system.write sink text).run world = match world.surroundings.refused? sink text with
      | none => (.ok (), world.write text sink)
      | some reason => (.error reason, world) := rfl

/-- **The program does what the run tells.** In every world the program ends as the run of its
command line there, and leaves the world that is left after this run. -/
theorem run_execute (words : List String) :
    (system.execute words).run world =
      (run world.surroundings words, world.after (run world.surroundings words)) := by
  obtain ⟨met, hmeet, hreads, hwrite, hprint⟩ := world.exists_run_meetWords words
  obtain ⟨place, ending, hends⟩ := exists_ends words world.surroundings
  have hworld := hends.run_eq world.surroundings fun _ _ => ⟨fun _ _ => rfl, rfl, fun _ _ => rfl⟩
  -- What the program meets refuses nothing, so its first run ends as if all could be written.
  have hmet : run met words = ending none := by
    rw [hends.run_eq met hreads]
    cases place with
    | none => rfl
    | some target => exact congrArg ending (Surroundings.refused?_eq_none hwrite hprint)
  rw [System.execute, StateT.run_bind, hmeet]
  change (system.settle met words).run world = _
  rw [System.settle, hmet, hends.written]
  cases place with
  | none =>
    rw [hworld]
    exact congrArg (ending none, ·) (world.after_of_written_eq_none hends.written).symm
  | some target =>
    obtain ⟨sink, text⟩ := target
    rw [hworld, Surroundings.refusedAt?]
    dsimp only
    rw [StateT.run_bind, run_write]
    cases hrefused : world.surroundings.refused? sink text with
    | none =>
      rw [world.after_of_written_eq_some hends.written]
      rfl
    | some reason =>
      have hsecond : run (met.refusing reason) words = ending (some reason) := by
        rw [hends.run_eq (met.refusing reason) fun invocation h => ?_]
        · exact congrArg ending (Surroundings.refused?_refusing hrefused)
        · obtain ⟨hconfig, hsentinel, hinput⟩ := hreads invocation h
          exact ⟨hconfig, hsentinel, hinput⟩
      rw [world.after_of_written_eq_none (hends.refused reason), ← hsecond]
      rfl

end World

end Semijoin.Command
