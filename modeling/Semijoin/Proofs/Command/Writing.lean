import Mathlib.Logic.Function.Basic
import Semijoin.Command.Run
import Semijoin.Json.Ordered
import Semijoin.Proofs.Document.Expansion
import Semijoin.Proofs.Multisearch.Searches

/-!
# What a run writes

An expansion that fails has a half-expanded document in hand, and a multi-search body that fails has
lines of the searches before the failure. Neither is written anywhere. A run that fails leaves the
files and the standard output as they were, and a compilation that succeeds writes one text in one
place: the one that rewriting the whole input gives. The rewriting is told here without the states
in between, so that there is nothing partial in it.
-/

namespace Semijoin

namespace Json

/-- The document that a text stands for, with every specification in it replaced. -/
def rewritten? (sentinel : String) (text : List Char) : Option Json := do
  let document ← (ofChars text).toOption
  if document.Uncrowded then (document.rewrite? sentinel).map Prod.fst else none

end Json

namespace Multisearch

/-- Lines in pairs, every second one with its document rewritten. -/
def rewritten? (sentinel : String) : List Line → Option (List (List Char))
  | [] => some []
  | [_] => none
  | header :: line :: rest => do
    let document ← Json.rewritten? sentinel line.text
    let others ← rewritten? sentinel rest
    return header.text :: document.chars .compact 0 :: others

end Multisearch

namespace Document

/-- A document has either an expansion that succeeds, and then it is the rewritten one, or no
rewriting. -/
theorem rewrite?_of_expand_result (sentinel : String) {document : Json}
    (hordered : document.IsOrdered) :
    (expand sentinel document).outcome.result.toOption.map
        (fun _ => (expand sentinel document).document) =
      if document.Uncrowded then (document.rewrite? sentinel).map Prod.fst else none := by
  by_cases huncrowded : document.Uncrowded
  · rw [if_pos huncrowded]
    cases hrewrite : document.rewrite? sentinel with
    | none =>
      obtain ⟨fault, hfault⟩ := expand_of_rewrite?_eq_none sentinel hordered huncrowded hrewrite
      rw [hfault]
      rfl
    | some result =>
      obtain ⟨hdocument, hresult⟩ := expand_of_rewrite? sentinel hordered huncrowded hrewrite
      rw [hdocument, hresult]
      rfl
  · rw [if_neg huncrowded]
    obtain ⟨label, place, hfault⟩ := expand_of_crowded sentinel huncrowded
    rw [hfault]
    rfl

end Document

namespace Multisearch

variable (sentinel : String)

/-- The search on a line is written as its rewritten document, if it has one. -/
theorem toOption_expandSearch (line : Line) :
    (expandSearch sentinel line).result.toOption.map Prod.fst =
      (Json.rewritten? sentinel line.text).map fun document => document.chars .compact 0 := by
  rw [result_expandSearch, Json.rewritten?]
  cases hread : Json.ofChars line.text with
  | error fault => rfl
  | ok document =>
    have hexpand :=
      Document.rewrite?_of_expand_result sentinel (Json.isOrdered_of_ofChars hread)
    change _ = Option.map _ (if document.Uncrowded then _ else none)
    rw [← hexpand]
    change Option.map Prod.fst (Except.toOption
      ((Document.expand sentinel document).outcome.result.mapError _ >>= _)) = _
    cases (Document.expand sentinel document).outcome.result <;> rfl

/-- The lines of a body are expanded exactly when every second one is rewritten. -/
theorem toOption_expandLines (lines : List Line) :
    (expandLines sentinel lines).result.toOption.map Body.lines = rewritten? sentinel lines := by
  induction lines using expandLines.induct with
  | case1 => rfl
  | case2 header => rfl
  | case3 header line rest ih =>
    have hsearch := toOption_expandSearch sentinel line
    rw [result_expandLines_cons, rewritten?, ← ih]
    cases hexpand : (expandSearch sentinel line).result with
    | error failure =>
      rw [hexpand] at hsearch
      rw [Option.map_eq_none_iff.mp hsearch.symm]
      rfl
    | ok found =>
      rw [hexpand] at hsearch
      obtain ⟨text, report⟩ := found
      obtain ⟨document, hdocument, rfl⟩ := Option.map_eq_some_iff.mp hsearch.symm
      rw [hdocument]
      cases (expandLines sentinel rest).result <;> rfl

end Multisearch

namespace Command

/-- The text that rewriting a whole input gives in a format. -/
def wholeText? (sentinel text : String) : Format → Option String
  | .multisearch =>
    (Multisearch.rewritten? sentinel (Multisearch.linesOf text.toList)).map fun lines =>
      String.ofList (lines.flatMap fun line => line ++ ['\n'])
  | format =>
    (Json.rewritten? sentinel text.toList).map fun document =>
      String.ofList (document.chars format.layout 0 ++ ['\n'])

/-- Why a task fails on the text of its input: it is no document, or something is wrong with its
joins. -/
inductive Task.Fails (sentinel text : String) : Task → Failure → Prop
  | notDocument {task : Task} {fault : ReadFault}
    (htask : ∀ input out, task ≠ .compile input out .multisearch)
    (hread : Json.read text = .error fault) :
    Fails sentinel text task (.notDocument task.input fault)
  | compile {input out : Option String} {format : Format} {document : Json} {fault : Fault}
    (hformat : format ≠ .multisearch) (hread : Json.read text = .ok document)
    (hexpand : (Document.expand sentinel document).outcome.result = .error fault) :
    Fails sentinel text (.compile input out format) (.faulty fault)
  | multisearch {input out : Option String} {failure : Multisearch.Failure}
    (hexpand : (Multisearch.expand sentinel text).result = .error failure) :
    Fails sentinel text (.compile input out .multisearch) (.multisearch failure)
  | verify {input : Option String} {document : Json} {fault : Fault}
    (hread : Json.read text = .ok document) (hverify : Document.verify document = .error fault) :
    Fails sentinel text (.verify input) (.faulty fault)
  | locate {input : Option String} {json : Bool} {document : Json} {fault : Fault}
    (hread : Json.read text = .ok document)
    (hlocate : Host.locate Label.all document = .error fault) :
    Fails sentinel text (.locate input json) (.faulty fault)

/-- Why an invocation fails before there is anything to write: because of its configuration, of its
input, or of what its task finds there. -/
inductive Invocation.Fails (invocation : Invocation) (surroundings : Surroundings) : Failure → Prop
  | config {failure : Config.Failure}
    (hconfig : invocation.configure surroundings.file surroundings.environment = .error failure) :
    Fails invocation surroundings (.config failure)
  | unreadable {config : Config} {reason : String}
    (hconfig : invocation.configure surroundings.file surroundings.environment = .ok config)
    (hread : surroundings.read invocation.task = .error reason) :
    Fails invocation surroundings (.unreadable invocation.task.input reason)
  | task {config : Config} {text : String} {failure : Failure}
    (hconfig : invocation.configure surroundings.file surroundings.environment = .ok config)
    (hread : surroundings.read invocation.task = .ok text)
    (htask : invocation.task.Fails config.sentinel text failure) :
    Fails invocation surroundings failure

/-- The file that a task writes, if it does not write to the standard output. -/
def Task.output : Task → Option String
  | .compile _ out _ => out
  | .verify _ | .locate _ _ => none

variable {sentinel text : String}

/-- Expanding the document in a text, without the events. -/
theorem result_compileDocument (input : Option String) (out : Sink) (layout : Json.Layout) :
    (compileDocument sentinel input out layout text).result =
      readDocument input text >>= fun document =>
        (Document.expand sentinel document).outcome.result.mapError .faulty >>= fun report =>
          .ok {
            status := some s!"ok rewrote document ({report.text})"
            sink := out
            text := String.ofList
              ((Document.expand sentinel document).document.chars layout 0 ++ ['\n'])
            checked := true } := by
  simp only [compileDocument, Traced.result_bind]
  rfl

/-- Expanding a multi-search body, without the events. -/
theorem result_compileBody (out : Sink) :
    (compileBody sentinel out text).result =
      (Multisearch.expand sentinel text).result.mapError .multisearch >>= fun body =>
        .ok {
          status := some s!"ok rewrote {body.searches} searches ({body.report.text})"
          sink := out
          text := body.text
          checked := true } := by
  simp only [compileBody, Traced.result_bind]
  rfl

/-- A compilation of a document delivers the text of the rewritten one, or nothing. -/
theorem text_compileDocument (input : Option String) (out : Sink) (layout : Json.Layout) :
    (compileDocument sentinel input out layout text).result.toOption.map Delivery.text =
      (Json.rewritten? sentinel text.toList).map fun document =>
        String.ofList (document.chars layout 0 ++ ['\n']) := by
  rw [result_compileDocument, readDocument, Json.rewritten?, Json.read]
  cases hread : Json.ofChars text.toList with
  | error fault => rfl
  | ok document =>
    have hexpand :=
      Document.rewrite?_of_expand_result sentinel (Json.isOrdered_of_ofChars hread)
    change _ = Option.map _ (if document.Uncrowded then _ else none)
    rw [← hexpand]
    change Option.map Delivery.text (Except.toOption
      ((Document.expand sentinel document).outcome.result.mapError _ >>= _)) = _
    cases (Document.expand sentinel document).outcome.result <;> rfl

/-- A compilation of a body delivers the text of the rewritten one, or nothing. -/
theorem text_compileBody (out : Sink) :
    (compileBody sentinel out text).result.toOption.map Delivery.text =
      wholeText? sentinel text .multisearch := by
  rw [result_compileBody, Multisearch.result_expand, wholeText?, ← Multisearch.toOption_expandLines]
  cases (Multisearch.expandLines sentinel (Multisearch.linesOf text.toList)).result <;> rfl

/-- A compilation delivers the whole text, or nothing. -/
theorem text_deliver (sentinel text : String) (input out : Option String) (format : Format) :
    ((Task.compile input out format).deliver sentinel text).result.toOption.map Delivery.text =
      wholeText? sentinel text format := by
  cases format with
  | multisearch => exact text_compileBody _
  | compact => exact text_compileDocument _ _ _
  | pretty => exact text_compileDocument _ _ _

/-- What a task delivers goes to the place that the task names. -/
theorem sink_deliver {task : Task} {delivery : Delivery}
    (h : (task.deliver sentinel text).result = .ok delivery) :
    delivery.sink = .ofOption task.output := by
  cases task with
  | compile input out format =>
    have hdocument {layout : Json.Layout}
        (h : (compileDocument sentinel input (.ofOption out) layout text).result = .ok delivery) :
        delivery.sink = .ofOption out := by
      rw [result_compileDocument] at h
      obtain ⟨document, -, h⟩ := bind_eq_ok h
      obtain ⟨report, -, h⟩ := bind_eq_ok h
      cases h
      rfl
    cases format with
    | compact => exact hdocument h
    | pretty => exact hdocument h
    | multisearch =>
      change (compileBody sentinel (.ofOption out) text).result = .ok delivery at h
      rw [result_compileBody] at h
      obtain ⟨body, -, h⟩ := bind_eq_ok h
      cases h
      rfl
  | verify input =>
    obtain ⟨document, -, h⟩ := bind_eq_ok h
    obtain ⟨report, -, h⟩ := bind_eq_ok h
    cases h
    rfl
  | locate input json =>
    obtain ⟨document, -, h⟩ := bind_eq_ok h
    obtain ⟨hosts, -, h⟩ := bind_eq_ok h
    cases h
    rfl

/-- A step that cannot fail behind one that may fails with the fault of this one, told in other
words. -/
theorem mapError_bind_ok_eq_error_iff {ε α β : Type} {outcome : Except ε α} {f : ε → Failure}
    {g : α → β} {failure : Failure} :
    (outcome.mapError f >>= fun value => .ok (g value)) = .error failure ↔
      ∃ fault, outcome = .error fault ∧ failure = f fault := by
  cases outcome with
  | ok value => simp [Except.mapError, bind, Except.bind]
  | error fault => simp [Except.mapError, bind, Except.bind, eq_comm]

/-- What is done with the document in a text fails when there is no document, or with a fault of the
document. -/
theorem readDocument_bind_eq_error_iff {α β : Type} {input : Option String} {failure : Failure}
    {next : Json → Except Fault α} {g : Json → α → β} :
    (readDocument input text >>= fun document =>
        (next document).mapError .faulty >>= fun value => .ok (g document value)) =
      .error failure ↔
      (∃ fault, Json.read text = .error fault ∧ failure = .notDocument input fault) ∨
      ∃ document fault, Json.read text = .ok document ∧ next document = .error fault ∧
        failure = .faulty fault := by
  rw [readDocument]
  cases hread : Json.read text with
  | ok document =>
    refine mapError_bind_ok_eq_error_iff.trans ⟨?_, ?_⟩
    · rintro ⟨fault, hnext, hfailure⟩
      exact .inr ⟨document, fault, rfl, hnext, hfailure⟩
    · rintro (⟨_, hread, -⟩ | ⟨_, fault, hread, hnext, hfailure⟩)
      · cases hread
      · cases hread
        exact ⟨fault, hnext, hfailure⟩
  | error fault => simp [Except.mapError, bind, Except.bind, eq_comm]

/-- A compilation of a document fails exactly for one of its reasons. -/
theorem compileDocument_eq_error_iff {input out : Option String} {format : Format}
    (hformat : format ≠ .multisearch) {failure : Failure} :
    (compileDocument sentinel input (.ofOption out) format.layout text).result = .error failure ↔
      (Task.compile input out format).Fails sentinel text failure := by
  rw [result_compileDocument, readDocument_bind_eq_error_iff]
  constructor
  · rintro (⟨fault, hread, rfl⟩ | ⟨document, fault, hread, hexpand, rfl⟩)
    · exact .notDocument (fun _ _ heq => by cases heq; exact hformat rfl) hread
    · exact .compile hformat hread hexpand
  · intro h
    cases h with
    | notDocument _ hread => exact .inl ⟨_, hread, rfl⟩
    | compile _ hread hexpand => exact .inr ⟨_, _, hread, hexpand, rfl⟩
    | multisearch _ => exact absurd rfl hformat

/-- A compilation of a body fails exactly where the body does not expand. -/
theorem compileBody_eq_error_iff {input out : Option String} {failure : Failure} :
    (compileBody sentinel (.ofOption out) text).result = .error failure ↔
      (Task.compile input out .multisearch).Fails sentinel text failure := by
  rw [result_compileBody, mapError_bind_ok_eq_error_iff]
  constructor
  · rintro ⟨fault, hexpand, rfl⟩
    exact .multisearch hexpand
  · intro h
    cases h with
    | notDocument htask _ => exact absurd rfl (htask _ _)
    | compile hformat _ _ => exact absurd rfl hformat
    | multisearch hexpand => exact ⟨_, hexpand, rfl⟩

/-- A task fails on a text exactly for one of its reasons. -/
theorem deliver_eq_error_iff {task : Task} {failure : Failure} :
    (task.deliver sentinel text).result = .error failure ↔ task.Fails sentinel text failure := by
  cases task with
  | compile input out format =>
    cases format with
    | compact => exact compileDocument_eq_error_iff (by decide)
    | pretty => exact compileDocument_eq_error_iff (by decide)
    | multisearch => exact compileBody_eq_error_iff
  | verify input =>
    refine readDocument_bind_eq_error_iff.trans ⟨?_, fun h => ?_⟩
    · rintro (⟨fault, hread, rfl⟩ | ⟨document, fault, hread, hverify, rfl⟩)
      · exact .notDocument (fun _ _ heq => by cases heq) hread
      · exact .verify hread hverify
    · cases h with
      | notDocument _ hread => exact .inl ⟨_, hread, rfl⟩
      | verify hread hverify => exact .inr ⟨_, _, hread, hverify, rfl⟩
  | locate input json =>
    refine readDocument_bind_eq_error_iff.trans ⟨?_, fun h => ?_⟩
    · rintro (⟨fault, hread, rfl⟩ | ⟨document, fault, hread, hlocate, rfl⟩)
      · exact .notDocument (fun _ _ heq => by cases heq) hread
      · exact .locate hread hlocate
    · cases h with
      | notDocument _ hread => exact .inl ⟨_, hread, rfl⟩
      | locate hread hlocate => exact .inr ⟨_, _, hread, hlocate, rfl⟩

section Invocation

variable {invocation : Invocation} {surroundings : Surroundings}

/-- Carrying out an invocation, without the events. -/
theorem result_deliver :
    (invocation.deliver surroundings).result =
      (invocation.configure surroundings.file surroundings.environment).mapError .config >>=
        fun config =>
          (invocation.task.perform config.sentinel (surroundings.read invocation.task)).result := by
  simp only [Invocation.deliver, Traced.result_bind]
  rfl

/-- An invocation that delivers something has a configuration and an input, and its task delivers
it. -/
theorem exists_of_deliver_eq_ok {delivery : Delivery}
    (h : (invocation.deliver surroundings).result = .ok delivery) :
    ∃ config text,
      invocation.configure surroundings.file surroundings.environment = .ok config ∧
      surroundings.read invocation.task = .ok text ∧
      (invocation.task.deliver config.sentinel text).result = .ok delivery := by
  rw [result_deliver] at h
  obtain ⟨config, hconfig, h⟩ := bind_eq_ok h
  cases hread : surroundings.read invocation.task with
  | error reason =>
    rw [hread] at h
    cases h
  | ok text =>
    rw [hread] at h
    exact ⟨config, text, eq_ok_of_mapError hconfig, rfl, h⟩

/-- An invocation fails exactly for one of its reasons. -/
theorem invocation_deliver_eq_error_iff {failure : Failure} :
    (invocation.deliver surroundings).result = .error failure ↔
      invocation.Fails surroundings failure := by
  rw [result_deliver]
  constructor
  · intro h
    cases hconfig : invocation.configure surroundings.file surroundings.environment with
    | error reason =>
      rw [hconfig] at h
      cases h
      exact .config hconfig
    | ok config =>
      rw [hconfig] at h
      change (invocation.task.perform config.sentinel (surroundings.read invocation.task)).result =
        _ at h
      cases hread : surroundings.read invocation.task with
      | error reason =>
        rw [hread] at h
        cases h
        exact .unreadable hconfig hread
      | ok text =>
        rw [hread] at h
        exact .task hconfig hread (deliver_eq_error_iff.mp h)
  · intro h
    cases h with
    | config hconfig =>
      rw [hconfig]
      rfl
    | unreadable hconfig hread =>
      rw [hconfig, hread]
      rfl
    | task hconfig hread htask =>
      rw [hconfig, hread]
      exact deliver_eq_error_iff.mpr htask

end Invocation

/-- What a run meets and what it may change: the contents of files, the file that a path leads to,
the standard input and output, the environment, and what can be written. -/
structure World where
  leadsTo : String → String
  content : String → Except String String
  input : Except String String
  output : String
  environment : String → Option String
  canWrite : String → Bool
  canPrint : Bool
  refusal : Sink → String

namespace World

/-- What a run meets. -/
def surroundings (world : World) : Surroundings where
  file path := world.content (world.leadsTo path)
  input := world.input
  environment := world.environment
  canWrite := world.canWrite
  canPrint := world.canPrint
  refusal := world.refusal

/-- The world after a text has been written: a file holds it alone, and the standard output has it
at its end. -/
def write (world : World) (text : String) : Sink → World
  | .output => { world with output := world.output ++ text }
  | .file path =>
    { world with content := Function.update world.content (world.leadsTo path) (.ok text) }

/-- The world after a run. -/
def after (world : World) (outcome : Outcome) : World :=
  match outcome.written with
  | none => world
  | some (sink, text) => world.write text sink

/-- A run that writes nothing leaves the world as it was. -/
theorem after_of_written_eq_none (world : World) {outcome : Outcome}
    (h : outcome.written = none) : world.after outcome = world := by
  rw [after, h]

/-- A run that writes a text leaves the world with this text in its place. -/
theorem after_of_written_eq_some (world : World) {outcome : Outcome} {sink : Sink} {text : String}
    (h : outcome.written = some (sink, text)) : world.after outcome = world.write text sink := by
  rw [after, h]

end World

section Outcome

variable (surroundings : Surroundings) {delivered : Traced Failure Delivery}

/-- What is accepted is not refused. -/
theorem Surroundings.refused?_of_accepts {sink : Sink} {text : String}
    (h : surroundings.accepts sink text = true) : surroundings.refused? sink text = none := by
  rw [refused?, if_pos h]

/-- What is not accepted is refused for a reason. -/
theorem Surroundings.refused?_of_not_accepts {sink : Sink} {text : String}
    (h : ¬ surroundings.accepts sink text = true) :
    surroundings.refused? sink text = some (surroundings.refusal sink) := by
  rw [refused?, if_neg h]

/-- A delivery that is not refused is written. -/
theorem Delivery.outcome_none (delivery : Delivery) (events : List Event) :
    (delivery.outcome none events).code = 0 ∧
      (delivery.outcome none events).written = some (delivery.sink, delivery.text) := by
  obtain ⟨status, sink, text, checked⟩ := delivery
  cases sink <;> exact ⟨rfl, rfl⟩

/-- A delivery that is refused ends the run without anything written. -/
theorem Delivery.outcome_some (delivery : Delivery) (reason : String) (events : List Event) :
    (delivery.outcome (some reason) events).code ≠ 0 ∧
      (delivery.outcome (some reason) events).written = none := by
  obtain ⟨status, sink, text, checked⟩ := delivery
  cases sink with
  | file path => exact ⟨(by decide : (1 : UInt32) ≠ 0), rfl⟩
  | output =>
    cases checked with
    | true => exact ⟨(by decide : (1 : UInt32) ≠ 0), rfl⟩
    | false => exact ⟨(by decide : (101 : UInt32) ≠ 0), rfl⟩

/-- A run whose invocation fails writes nothing. -/
theorem outcomeOf_of_error {failure : Failure} (h : delivered.result = .error failure) :
    surroundings.outcomeOf delivered = failure.outcome delivered.events := by
  rw [Surroundings.outcomeOf, h]

/-- A run whose invocation delivers something ends as the delivery does. -/
theorem outcomeOf_of_ok {delivery : Delivery} (h : delivered.result = .ok delivery) :
    surroundings.outcomeOf delivered =
      delivery.outcome (surroundings.refused? delivery.sink delivery.text) delivered.events := by
  rw [Surroundings.outcomeOf, h]

/-- A run that can write what its invocation delivers writes this alone. -/
theorem outcomeOf_of_accepts {delivery : Delivery} (h : delivered.result = .ok delivery)
    (haccepts : surroundings.accepts delivery.sink delivery.text = true) :
    (surroundings.outcomeOf delivered).code = 0 ∧
      (surroundings.outcomeOf delivered).written = some (delivery.sink, delivery.text) := by
  rw [outcomeOf_of_ok surroundings h, surroundings.refused?_of_accepts haccepts]
  exact delivery.outcome_none _

/-- A run that cannot write what its invocation delivers writes nothing. -/
theorem outcomeOf_of_not_accepts {delivery : Delivery} (h : delivered.result = .ok delivery)
    (haccepts : ¬ surroundings.accepts delivery.sink delivery.text = true) :
    (surroundings.outcomeOf delivered).code ≠ 0 ∧
      (surroundings.outcomeOf delivered).written = none := by
  rw [outcomeOf_of_ok surroundings h, surroundings.refused?_of_not_accepts haccepts]
  exact delivery.outcome_some _ _

/-- A command line that is not carried out writes nothing if its run does not succeed. -/
theorem Stop.written_outcome_eq_none (stop : Stop) (h : (stop.outcome surroundings).code ≠ 0) :
    (stop.outcome surroundings).written = none := by
  cases stop with
  | version | help scope => exact absurd rfl h
  | bare | misuse reason => rfl

/-- A run that does not succeed writes nothing, whatever its command line. -/
theorem written_eq_none_of_code_ne (words : List String) (h : (run surroundings words).code ≠ 0) :
    (run surroundings words).written = none := by
  unfold run at h ⊢
  cases hparse : parse words with
  | error stop =>
    rw [hparse] at h
    exact stop.written_outcome_eq_none surroundings h
  | ok invocation =>
    rw [hparse] at h
    dsimp only at h ⊢
    cases hresult : (invocation.deliver surroundings).result with
    | error failure =>
      rw [outcomeOf_of_error surroundings hresult]
      rfl
    | ok delivery =>
      by_cases haccepts : surroundings.accepts delivery.sink delivery.text = true
      · exact absurd (outcomeOf_of_accepts surroundings hresult haccepts).1 h
      · exact (outcomeOf_of_not_accepts surroundings hresult haccepts).2

variable {surroundings} {invocation : Invocation}

/-- A run succeeds exactly when its invocation delivers something that can be written. -/
theorem code_outcomeOf_eq_zero_iff :
    (surroundings.outcomeOf (invocation.deliver surroundings)).code = 0 ↔
      ∃ delivery, (invocation.deliver surroundings).result = .ok delivery ∧
        surroundings.accepts delivery.sink delivery.text = true := by
  constructor
  · intro h
    cases hresult : (invocation.deliver surroundings).result with
    | error failure =>
      rw [outcomeOf_of_error surroundings hresult] at h
      cases h
    | ok delivery =>
      refine ⟨delivery, rfl, ?_⟩
      by_contra haccepts
      exact (outcomeOf_of_not_accepts surroundings hresult haccepts).1 h
  · rintro ⟨delivery, hresult, haccepts⟩
    exact (outcomeOf_of_accepts surroundings hresult haccepts).1

end Outcome

/-- A text is accepted at the place that an option names if the file can be written or, where none
is named, the standard output can be or there is no text. -/
theorem accepts_ofOption_iff {surroundings : Surroundings} {out : Option String} {text : String} :
    surroundings.accepts (.ofOption out) text = true ↔
      (∀ path, out = some path → surroundings.canWrite path = true) ∧
        (out = none → surroundings.canPrint = true ∨ text = "") := by
  cases out with
  | none => simp [Sink.ofOption, Surroundings.accepts]
  | some path => simp [Sink.ofOption, Surroundings.accepts]

/-- A run succeeds exactly when there is no reason to fail and its place can be written. -/
theorem code_eq_zero_iff {surroundings : Surroundings} {invocation : Invocation} :
    (surroundings.outcomeOf (invocation.deliver surroundings)).code = 0 ↔
      (∀ failure, ¬ invocation.Fails surroundings failure) ∧
        (∀ path, invocation.task.output = some path → surroundings.canWrite path = true) ∧
        (invocation.task.output = none → surroundings.canPrint = true ∨
          ∃ delivery, (invocation.deliver surroundings).result = .ok delivery ∧
            delivery.text = "") := by
  rw [code_outcomeOf_eq_zero_iff]
  constructor
  · rintro ⟨delivery, hresult, haccepts⟩
    obtain ⟨config, text, -, -, hdeliver⟩ := exists_of_deliver_eq_ok hresult
    rw [sink_deliver hdeliver, accepts_ofOption_iff] at haccepts
    refine ⟨fun failure hfails => ?_, haccepts.1, fun hout => ?_⟩
    · rw [invocation_deliver_eq_error_iff.mpr hfails] at hresult
      cases hresult
    · exact (haccepts.2 hout).imp_right fun htext => ⟨delivery, hresult, htext⟩
  · rintro ⟨hfails, hfile, hprint⟩
    cases hresult : (invocation.deliver surroundings).result with
    | error failure => exact absurd (invocation_deliver_eq_error_iff.mp hresult) (hfails failure)
    | ok delivery =>
      obtain ⟨config, text, -, -, hdeliver⟩ := exists_of_deliver_eq_ok hresult
      refine ⟨delivery, rfl, ?_⟩
      rw [sink_deliver hdeliver, accepts_ofOption_iff]
      refine ⟨hfile, fun hout => (hprint hout).imp_right ?_⟩
      rintro ⟨_, hsame, htext⟩
      cases hresult.symm.trans hsame
      exact htext

/-- **What a run writes.** A run that does not succeed changes nothing, whatever its command line,
and a command whose configuration, input or joins are at fault does not succeed. It succeeds exactly
when there is no such reason and the file it is to write can be written or, if it is to write none,
the standard output can be or there is nothing to print. A compilation that succeeds writes one text
in one place, the file that it names or the standard output: what rewriting the whole text of its
input gives, as that text was before the run. -/
theorem run_writes_whole (world : World) (words : List String) :
    ((run world.surroundings words).code ≠ 0 →
      world.after (run world.surroundings words) = world) ∧
    ∀ invocation, parse words = .ok invocation →
      (∀ failure, invocation.Fails world.surroundings failure →
        (run world.surroundings words).code = 1 ∧
          world.after (run world.surroundings words) = world) ∧
      ((run world.surroundings words).code = 0 ↔
        (∀ failure, ¬ invocation.Fails world.surroundings failure) ∧
          (∀ path, invocation.task.output = some path → world.canWrite path = true) ∧
          (invocation.task.output = none → world.canPrint = true ∨
            ∃ delivery, (invocation.deliver world.surroundings).result = .ok delivery ∧
              delivery.text = "")) ∧
      ∀ input out format, invocation.task = .compile input out format →
        (run world.surroundings words).code = 0 →
        ∃ config text whole,
          invocation.configure world.surroundings.file world.environment = .ok config ∧
          world.surroundings.read invocation.task = .ok text ∧
          wholeText? config.sentinel text format = some whole ∧
          (run world.surroundings words).written = some (.ofOption out, whole) ∧
          world.after (run world.surroundings words) = world.write whole (.ofOption out) := by
  have hunchanged (h : (run world.surroundings words).code ≠ 0) :
      world.after (run world.surroundings words) = world :=
    world.after_of_written_eq_none (written_eq_none_of_code_ne _ words h)
  refine ⟨hunchanged, fun invocation hparse => ?_⟩
  have hrun : run world.surroundings words =
      world.surroundings.outcomeOf (invocation.deliver world.surroundings) := by
    rw [run, hparse]
  refine ⟨fun failure hfails => ?_, ?_, fun input out format htask hcode => ?_⟩
  · have hcode : (run world.surroundings words).code = 1 := by
      rw [hrun, outcomeOf_of_error _ (invocation_deliver_eq_error_iff.mpr hfails)]
      rfl
    refine ⟨hcode, hunchanged ?_⟩
    rw [hcode]
    decide
  · rw [hrun]
    exact code_eq_zero_iff
  · rw [hrun] at hcode ⊢
    obtain ⟨delivery, hresult, haccepts⟩ := code_outcomeOf_eq_zero_iff.mp hcode
    obtain ⟨config, text, hconfig, hread, hdeliver⟩ := exists_of_deliver_eq_ok hresult
    have hwritten := (outcomeOf_of_accepts world.surroundings hresult haccepts).2
    rw [htask] at hdeliver
    have hwhole := text_deliver config.sentinel text input out format
    rw [hdeliver] at hwhole
    have hplace : delivery.sink = .ofOption out := sink_deliver hdeliver
    rw [hplace] at hwritten
    exact ⟨config, text, delivery.text, hconfig, hread, hwhole.symm, hwritten,
      world.after_of_written_eq_some hwritten⟩

/-- A world with a single file, which has a host in it. -/
def hostWorld : World where
  leadsTo path := path
  content path :=
    if path = "in.json" then
      .ok (String.ofList ((Document.relationHost [("indices", .string "b"), ("path", .string "id")]
        [("indices", .string "a"), ("path", .string "to_b")]).chars .compact 0))
    else .error "No such file or directory (os error 2)"
  input := .ok ""
  output := ""
  environment _ := none
  canWrite _ := true
  canPrint := true
  refusal _ := "No space left on device (os error 28)"

/-- A compilation may write over its input. When the input is missing, nothing changes. -/
theorem run_hostWorld :
    hostWorld.after (run hostWorld.surroundings ["compile", "in.json", "--out", "in.json"]) =
      hostWorld.write (String.ofList ((Json.array
        [(Join.resolved "to_b" (Endpoint.ofIndex "b" "id").toTarget []).toJson]).chars
          .compact 0 ++ ['\n'])) (.file "in.json") ∧
    hostWorld.after (run hostWorld.surroundings ["compile", "--out", "in.json", "none.json"]) =
      hostWorld := by
  have hparse : parse ["compile", "in.json", "--out", "in.json"] =
      .ok ⟨0, none, .compile (some "in.json") (some "in.json") .compact⟩ := by decide +kernel
  have hcode :
      (run hostWorld.surroundings ["compile", "in.json", "--out", "in.json"]).code = 0 := by
    decide +kernel
  obtain ⟨-, -, hcompile⟩ := (run_writes_whole hostWorld _).2 _ hparse
  obtain ⟨config, text, whole, hconfig, hread, hwhole, -, hafter⟩ := hcompile _ _ _ rfl hcode
  have hparse' : parse ["compile", "--out", "in.json", "none.json"] =
      .ok ⟨0, none, .compile (some "none.json") (some "in.json") .compact⟩ := by decide +kernel
  obtain ⟨hfails, -, -⟩ := (run_writes_whole hostWorld _).2 _ hparse'
  refine ⟨?_, (hfails _ (@Invocation.Fails.unreadable _ _ Config.default _ rfl rfl)).2⟩
  have hdefault : Config.default = config := Except.ok.inj hconfig
  have htext : _ = text := Except.ok.inj hread
  have hexpected : wholeText? config.sentinel text .compact = some (String.ofList ((Json.array
      [(Join.resolved "to_b" (Endpoint.ofIndex "b" "id").toTarget []).toJson]).chars
        .compact 0 ++ ['\n'])) := by
    rw [← hdefault, ← htext]
    decide +kernel
  rw [hexpected] at hwhole
  rw [hafter, ← Option.some.inj hwhole]
  rfl

end Command

end Semijoin
