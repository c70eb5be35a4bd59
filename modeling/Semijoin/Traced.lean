import Semijoin.Event
import Semijoin.Fault
import Semijoin.Outcome

/-!
# Computations that report events

A traced computation may fail. It keeps the events that it reported up to its end or its
failure, in order.
-/

namespace Semijoin

/-- The outcome of a computation and the events it reported, in order. -/
structure Traced (ε α : Type) where
  events : List Event
  result : Except ε α

namespace Traced

variable {ε α β : Type}

/-- A computation that reports nothing. -/
def ofExcept (result : Except ε α) : Traced ε α := ⟨[], result⟩

/-- Reports one event. -/
def report (event : Event) : Traced ε Unit := ⟨[event], .ok ()⟩

/-- Fails. -/
def fail (fault : ε) : Traced ε α := ⟨[], .error fault⟩

/-- Goes on with a result. The events of both parts are kept, and a failure ends the
computation. -/
def andThen (first : Traced ε α) (next : α → Traced ε β) : Traced ε β :=
  match first.result with
  | .ok value => ⟨first.events ++ (next value).events, (next value).result⟩
  | .error fault => ⟨first.events, .error fault⟩

/-- Tells a failure in other words. -/
def mapFault {ε' : Type} (f : ε → ε') (computation : Traced ε α) : Traced ε' α :=
  ⟨computation.events, computation.result.mapError f⟩

instance : Monad (Traced ε) where
  pure value := ⟨[], .ok value⟩
  bind := andThen

@[simp] theorem events_pure (value : α) : (pure value : Traced ε α).events = [] := rfl

@[simp] theorem result_pure (value : α) : (pure value : Traced ε α).result = .ok value := rfl

/-- After a success the events of both parts stand in order. -/
theorem bind_of_ok {first : Traced ε α} {value : α} (h : first.result = .ok value)
    (next : α → Traced ε β) :
    first >>= next = ⟨first.events ++ (next value).events, (next value).result⟩ := by
  simp only [bind, andThen, h]

/-- A failure ends the computation with the events reported up to then. -/
theorem bind_of_error {first : Traced ε α} {fault : ε} (h : first.result = .error fault)
    (next : α → Traced ε β) : first >>= next = ⟨first.events, .error fault⟩ := by
  simp only [bind, andThen, h]

/-- The result of two parts is that of the two results. -/
theorem result_bind (first : Traced ε α) (next : α → Traced ε β) :
    (first >>= next).result = first.result >>= fun value => (next value).result := by
  cases h : first.result with
  | ok value => rw [bind_of_ok h]; rfl
  | error fault => rw [bind_of_error h]; rfl

/-- Two parts that succeed together succeed one by one. -/
theorem bind_eq_ok {first : Traced ε α} {next : α → Traced ε β} {result : β}
    (h : (first >>= next).result = .ok result) :
    ∃ value, first.result = .ok value ∧ (next value).result = .ok result :=
  Semijoin.bind_eq_ok ((result_bind first next).symm.trans h)

/-- Going on with the result itself changes nothing. -/
private theorem bind_pure_self (first : Traced ε α) : first >>= pure = first := by
  cases h : first.result with
  | ok value => rw [bind_of_ok h, events_pure, List.append_nil, result_pure, ← h]
  | error fault => rw [bind_of_error h, ← h]

private theorem pure_bind_eq (value : α) (next : α → Traced ε β) :
    pure value >>= next = next value := by
  rw [bind_of_ok (result_pure value), events_pure, List.nil_append]

private theorem bind_bind_eq {γ : Type} (first : Traced ε α) (second : α → Traced ε β)
    (third : β → Traced ε γ) :
    first >>= second >>= third = first >>= fun value => second value >>= third := by
  cases h : first.result with
  | error fault => rw [bind_of_error h, bind_of_error h, bind_of_error rfl]
  | ok value =>
    rw [bind_of_ok h, bind_of_ok h]
    cases h' : (second value).result with
    | error fault => rw [bind_of_error h', bind_of_error rfl]
    | ok value' => rw [bind_of_ok h', bind_of_ok rfl, List.append_assoc]

instance : LawfulMonad (Traced ε) :=
  LawfulMonad.mk' _ bind_pure_self pure_bind_eq bind_bind_eq

/-- The result of going through a list is that of going through it by results. -/
theorem result_foldlM {σ : Type} (step : σ → α → Traced ε σ) (state : σ) (values : List α) :
    (values.foldlM step state).result =
      values.foldlM (fun state value => (step state value).result) state := by
  induction values generalizing state with
  | nil => rfl
  | cons value rest ih => simp only [List.foldlM_cons, result_bind, ih]

end Traced

/-- A step of the compilation of a specification. -/
abbrev Compilation := Traced Fault

end Semijoin
