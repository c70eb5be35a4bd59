/-!
# Outcomes

An outcome is a value, or a fault that says why there is none.
-/

namespace Semijoin

variable {ε ε' α β : Type}

/-- Outcomes are compared by their values or their faults. -/
instance decEqOutcome [DecidableEq ε] [DecidableEq α] : DecidableEq (Except ε α)
  | .ok a, .ok b => decidable_of_iff (a = b) ⟨congrArg Except.ok, Except.ok.inj⟩
  | .error a, .error b => decidable_of_iff (a = b) ⟨congrArg Except.error, Except.error.inj⟩
  | .ok _, .error _ | .error _, .ok _ => isFalse nofun

/-- Two steps that succeed together succeed one by one. -/
theorem bind_eq_ok {first : Except ε α} {next : α → Except ε β} {result : β}
    (h : first >>= next = .ok result) :
    ∃ value, first = .ok value ∧ next value = .ok result := by
  cases first with
  | error fault => cases h
  | ok value => exact ⟨value, rfl, h⟩

/-- Two steps that fail together fail in the first, or in the second after the first. -/
theorem bind_eq_error {first : Except ε α} {next : α → Except ε β} {fault : ε}
    (h : first >>= next = .error fault) :
    first = .error fault ∨ ∃ value, first = .ok value ∧ next value = .error fault := by
  cases first with
  | error found =>
    cases h
    exact .inl rfl
  | ok value => exact .inr ⟨value, rfl, h⟩

/-- What succeeds with its fault told in other words succeeds. -/
theorem eq_ok_of_mapError {outcome : Except ε α} {f : ε → ε'} {value : α}
    (h : outcome.mapError f = .ok value) : outcome = .ok value := by
  cases outcome with
  | error fault => cases h
  | ok found =>
    cases h
    rfl

/-- What has a value as an option succeeds with it. -/
theorem eq_ok_of_toOption {outcome : Except ε α} {value : α}
    (h : outcome.toOption = some value) : outcome = .ok value := by
  cases outcome with
  | error fault => cases h
  | ok found =>
    cases h
    rfl

/-- Two steps have a value together as an option when they have one one by one. -/
theorem toOption_bind (first : Except ε α) (next : α → Except ε β) :
    (first >>= next).toOption = first.toOption >>= fun value => (next value).toOption := by
  cases first <;> rfl

/-- A check of all elements succeeds exactly when it succeeds for each of them. -/
theorem forM_eq_ok_iff {check : α → Except ε Unit} {values : List α} :
    values.forM check = .ok () ↔ ∀ value ∈ values, check value = .ok () := by
  induction values with
  | nil => exact ⟨fun _ _ hmem => (nomatch hmem), fun _ => rfl⟩
  | cons value rest ih =>
    rw [List.forall_mem_cons, ← ih]
    constructor
    · intro h
      obtain ⟨_, hvalue, hrest⟩ := bind_eq_ok h
      exact ⟨hvalue, hrest⟩
    · rintro ⟨hvalue, hrest⟩
      change check value >>= (fun _ => rest.forM check) = .ok ()
      rw [hvalue]
      exact hrest

/-- Every fault that an outcome may have is of some kind. -/
def FaultsAre (kind : ε → Prop) (outcome : Except ε α) : Prop :=
  ∀ fault, outcome = .error fault → kind fault

namespace FaultsAre

variable {kind : ε → Prop}

/-- A success has no fault. -/
theorem ok (value : α) : FaultsAre kind (.ok value) := fun _ h => by cases h

/-- A plain value has no fault. -/
theorem pure (value : α) : FaultsAre kind (pure value) := ok value

/-- A failure has the fault that it is thrown with. -/
theorem throw {fault : ε} (h : kind fault) : FaultsAre kind (throw fault : Except ε α) := by
  rintro _ ⟨⟩
  exact h

/-- Faults of some kind are faults of every wider kind. -/
theorem mono {kind' : ε → Prop} {outcome : Except ε α} (h : FaultsAre kind outcome)
    (hkind : ∀ fault, kind fault → kind' fault) : FaultsAre kind' outcome :=
  fun fault hfault => hkind fault (h fault hfault)

/-- The faults of two steps are those of the first, and those of the second after the first has
succeeded. -/
theorem bind {first : Except ε α} {next : α → Except ε β} (hfirst : FaultsAre kind first)
    (hnext : ∀ value, first = .ok value → FaultsAre kind (next value)) :
    FaultsAre kind (first >>= next) := by
  cases first with
  | error fault =>
    rintro _ ⟨⟩
    exact hfirst fault rfl
  | ok value => exact hnext value rfl

/-- The faults in going through a list are those at its elements, in states that keep what the first
one has. -/
theorem foldlM {σ : Type} (good : σ → Prop) {step : σ → α → Except ε σ} {values : List α}
    (hstep : ∀ state, good state → ∀ value ∈ values, FaultsAre kind (step state value))
    (hkeep : ∀ state, good state → ∀ value ∈ values, ∀ next, step state value = .ok next →
      good next)
    {state : σ} (hstate : good state) : FaultsAre kind (values.foldlM step state) := by
  induction values generalizing state with
  | nil => exact pure state
  | cons value rest ih =>
    refine bind (hstep state hstate value List.mem_cons_self) fun next hnext => ?_
    refine ih (fun state hstate other hother => ?_) (fun state hstate other hother => ?_) ?_
    · exact hstep state hstate other (List.mem_cons_of_mem _ hother)
    · exact hkeep state hstate other (List.mem_cons_of_mem _ hother)
    · exact hkeep state hstate value List.mem_cons_self next hnext

/-- The faults in checking the elements of a list are those of the checks. -/
theorem forM {check : α → Except ε Unit} {values : List α}
    (h : ∀ value ∈ values, FaultsAre kind (check value)) : FaultsAre kind (values.forM check) := by
  induction values with
  | nil => exact pure ()
  | cons value rest ih =>
    have hrest := ih fun other hother => h other (List.mem_cons_of_mem _ hother)
    exact bind (h value List.mem_cons_self) fun _ _ => hrest

/-- The faults in reading the elements of a list are those of the readings. -/
theorem mapM {read : α → Except ε β} {values : List α}
    (h : ∀ value ∈ values, FaultsAre kind (read value)) : FaultsAre kind (values.mapM read) := by
  induction values with
  | nil => exact pure []
  | cons value rest ih =>
    have hrest := ih fun other hother => h other (List.mem_cons_of_mem _ hother)
    rw [List.mapM_cons]
    exact bind (h value List.mem_cons_self) fun first _ => bind hrest fun others _ => pure _

end FaultsAre

end Semijoin
