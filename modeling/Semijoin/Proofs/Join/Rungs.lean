import Semijoin.Fault

/-!
# The rungs of nested joins

Joins are built one after another, each on a rung that tells how many joins it is the last of. A
limit lets all rungs be climbed or stops at the first one above it.
-/

namespace Semijoin

/-- A join that is to be built: where its relation was written, and how many joins nest there,
itself included. -/
structure Rung where
  origin : Pointer
  level : Nat
  deriving DecidableEq, Repr

namespace Rung

variable {α β : Type} {limit : Nat}

/-- A value that is reached over some rungs, in their order. The first rung above the limit is as
far as it goes. -/
def reach (limit : Nat) (rungs : List Rung) (value : α) : Except Fault α :=
  match rungs.find? fun rung => limit < rung.level with
  | some rung => .error (.malformed .tooDeep rung.origin)
  | none => .ok value

/-- A rung that is not above the limit is passed. -/
theorem reach_cons_of_le {rung : Rung} (h : rung.level ≤ limit) (rest : List Rung) (value : α) :
    reach limit (rung :: rest) value = reach limit rest value := by
  rw [reach, List.find?_cons_of_neg (by simpa using h), reach]

/-- A rung above the limit is not passed. -/
theorem reach_cons_of_lt {rung : Rung} (h : limit < rung.level) (rest : List Rung) (value : α) :
    reach limit (rung :: rest) value = .error (.malformed .tooDeep rung.origin) := by
  rw [reach, List.find?_cons_of_pos (by simpa using h)]

/-- What is reached over some rungs and goes on over others is reached over all of them. -/
theorem reach_bind {first : List Rung} {value : α} {rest : List Rung} {result : β}
    {next : α → Except Fault β} (h : next value = reach limit rest result) :
    (reach limit first value >>= next) = reach limit (first ++ rest) result := by
  induction first with
  | nil => exact h
  | cons rung others ih =>
    rw [List.cons_append]
    rcases Nat.lt_or_ge limit rung.level with hlt | hle
    · rw [reach_cons_of_lt hlt, reach_cons_of_lt hlt]
      rfl
    · rw [reach_cons_of_le hle, reach_cons_of_le hle, ih]

/-- What is made of a value is reached over the same rungs. -/
theorem reach_map (rungs : List Rung) (value : α) (f : α → β) :
    (reach limit rungs value >>= fun value => .ok (f value)) = reach limit rungs (f value) := by
  have h := @reach_bind α β limit rungs value [] (f value) (fun value => .ok (f value)) rfl
  rwa [List.append_nil] at h

variable {rungs : List Rung}

/-- Either no rung is above the limit, or there is a first one that is. -/
theorem find?_eq_none_iff :
    rungs.find? (fun rung => limit < rung.level) = none ↔ ∀ rung ∈ rungs, rung.level ≤ limit := by
  simp

/-- A value is reached when no rung is above the limit. -/
theorem reach_of_forall_le (h : ∀ rung ∈ rungs, rung.level ≤ limit) (value : α) :
    reach limit rungs value = .ok value := by
  rw [reach, find?_eq_none_iff.mpr h]

/-- The first rung above the limit is as far as a value is reached. -/
theorem exists_reach_eq_error (h : ¬ ∀ rung ∈ rungs, rung.level ≤ limit) (value : α) :
    ∃ rung, rungs.find? (fun rung => limit < rung.level) = some rung ∧
      reach limit rungs value = .error (.malformed .tooDeep rung.origin) := by
  obtain ⟨rung, hfound⟩ := Option.ne_none_iff_exists'.mp (mt find?_eq_none_iff.mp h)
  exact ⟨rung, hfound, by rw [reach, hfound]⟩

/-- A value is not reached when a rung is above the limit. -/
theorem forall_le_of_reach_eq_ok {value result : α} (h : reach limit rungs value = .ok result) :
    ∀ rung ∈ rungs, rung.level ≤ limit := by
  refine Decidable.byContradiction fun habove => ?_
  obtain ⟨_, -, herror⟩ := exists_reach_eq_error habove value
  cases herror.symm.trans h

end Rung

end Semijoin
