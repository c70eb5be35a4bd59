import Semijoin.Json.Scan

/-!
# Reading by characters

What a text may hold is told by a `Grammar`: what every character between scalars does, and
what becomes of a scalar in its place. `Grammar.read` takes a text past its characters one by
one and knows the position of each, so the first fault of a text is found where it stands.
-/

namespace Semijoin

/-- What becomes of a character between scalars: reading goes on behind it, or a scalar begins
with it in some place. -/
inductive Move (σ κ : Type) where
  | on (stage : σ)
  | scalar (place : κ)

/-- What a text may hold. `σ` tells what may come next between scalars, `κ` the place that a
scalar has, `ε` how reading fails and `ρ` what has been read in the end. -/
structure Grammar (σ κ ε ρ : Type) where
  /-- A character between scalars that is no blank, and the place in front of it. -/
  meet : σ → Position → Char → Except ε (Move σ κ)
  /-- A scalar that has come to its end, and the place behind it. -/
  take : κ → Position → Except ReadCause Scalar → Except ε σ
  /-- The end of the text. -/
  finish : σ → Position → Except ε ρ
  /-- A scalar that is well formed and has no value. -/
  tolerate : ReadFault → Except ε Unit
  /-- A text that is not well formed. -/
  fault : ReadFault → ε

/-- Between two scalars, or within one. -/
inductive Reading (σ κ : Type) where
  | between (stage : σ)
  | within (place : κ) (scan : Scan)

namespace Grammar

/-- Blanks between scalars. -/
def isBlank (c : Char) : Bool :=
  c == ' ' || c == '\t' || c == '\n' || c == '\r'

variable {σ κ ε ρ : Type} (grammar : Grammar σ κ ε ρ)

/-- Reads a character between scalars. -/
def between (position : Position) (stage : σ) (c : Char) : Except ε (Reading σ κ) :=
  if isBlank c then return .between stage
  else do
    match ← grammar.meet stage position c with
    | .on stage => return .between stage
    | .scalar place =>
      match Scan.begin? c with
      | some scan => return .within place scan
      | none => throw (grammar.fault ⟨.noValue, position.past c 1⟩)

/-- Follows what a character makes of a scalar. -/
def follow (position : Position) (place : κ) (c : Char) : Progress → Except ε (Reading σ κ)
  | .on scan => return .within place scan
  | .last value => do return .between (← grammar.take place (position.past c 1) value)
  | .ended value => do grammar.between position (← grammar.take place position value) c
  | .broken cause bytes => throw (grammar.fault ⟨cause, position.past c bytes⟩)
  | .flawed cause next => do
    grammar.tolerate ⟨cause, position.past c 1⟩
    follow position place c next

/-- Reads a character. -/
def step (position : Position) (reading : Reading σ κ) (c : Char) : Except ε (Reading σ κ) :=
  match reading with
  | .between stage => grammar.between position stage c
  | .within place scan => grammar.follow position place c (scan.step c)

/-- Reads the end of the text. -/
def close (position : Position) (reading : Reading σ κ) : Except ε ρ :=
  match reading with
  | .between stage => grammar.finish stage position
  | .within place scan =>
    match scan.close with
    | .error cause => throw (grammar.fault ⟨cause, position⟩)
    | .ok value => do grammar.finish (← grammar.take place position value) position

/-- Reads what is left of a text. -/
def run (position : Position) (reading : Reading σ κ) : List Char → Except ε ρ
  | [] => grammar.close position reading
  | c :: rest => do
    run (position.past c c.utf8Size) (← grammar.step position reading c) rest

/-- Reads a text. -/
def read (stage : σ) (text : List Char) : Except ε ρ :=
  grammar.run .start (.between stage) text

end Grammar

end Semijoin
