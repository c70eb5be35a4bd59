import Semijoin.Proofs.Document.Location
import Semijoin.Proofs.Specification.Placing
import Semijoin.Document.Expand

/-!
# Rewriting a document from the inside out

The expansion of a document follows pointers into a document that changes under them. The
rewriting told here has no pointers: it is a recursion on the document in which every value is
rewritten after its parts. Main statement: both give the same document.
-/

namespace Semijoin

/-- The clauses of the specification that a value is under a label, if it can be read and
compiled. -/
def Specification.clauses? (sentinel : String) (label : Label) (value : Json) :
    Option (List Json) :=
  ((read label Pointer.root value) >>= fun specification =>
    (specification.compile sentinel).result).toOption

/-- What a value becomes: a value again, or the clauses of the specification that it holds. -/
inductive Image where
  | value (value : Json)
  | clauses (clauses : List Json)

namespace Image

/-- An image as a document or as a member of an object: clauses are an array there. -/
def asValue : Image → Json
  | .value v => v
  | .clauses cs => .array cs

/-- What an image puts into an array: clauses are spliced flat. -/
def asItems : Image → List Json
  | .value v => [v]
  | .clauses cs => cs

end Image

namespace Json

mutual

/-- Rewrites a value. The number of all clauses that specifications in it became stands beside
the image. There is none if a specification cannot be read or compiled after its own parts have
been rewritten. -/
def image? (sentinel : String) : Json → Option (Image × Nat)
  | .array items => do
    let (items, count) ← itemsImage? sentinel items
    return (.value (.array items), count)
  | .object members => do
    let (members, count) ← membersImage? sentinel members
    match hosted? members with
    | some (label, specification) =>
      let clauses ← Specification.clauses? sentinel label specification
      return (.clauses clauses, clauses.length + count)
    | none => return (.value (.object members), count)
  | value => return (.value value, 0)

/-- Rewrites the elements of an array. -/
def itemsImage? (sentinel : String) : List Json → Option (List Json × Nat)
  | [] => return ([], 0)
  | item :: rest => do
    let (first, m) ← image? sentinel item
    let (others, n) ← itemsImage? sentinel rest
    return (first.asItems ++ others, m + n)

/-- Rewrites the members of an object, which keep their keys. -/
def membersImage? (sentinel : String) :
    List (String × Json) → Option (List (String × Json) × Nat)
  | [] => return ([], 0)
  | (key, value) :: rest => do
    let (first, m) ← image? sentinel value
    let (others, n) ← membersImage? sentinel rest
    return ((key, first.asValue) :: others, m + n)

end

/-- A document with every specification replaced by its clauses, and the number of the
clauses. -/
def rewrite? (sentinel : String) (document : Json) : Option (Json × Nat) :=
  (image? sentinel document).map fun (image, count) => (image.asValue, count)

/-- Rewriting the members of an object keeps their keys. -/
theorem keys_membersImage? {sentinel : String} {members members' : List (String × Json)}
    {count : Nat} (h : membersImage? sentinel members = some (members', count)) :
    members'.map Prod.fst = members.map Prod.fst := by
  induction members generalizing members' count with
  | nil =>
    simp only [membersImage?, Option.pure_def, Option.some.injEq, Prod.mk.injEq] at h
    rw [← h.1]
  | cons member rest ih =>
    rw [membersImage?] at h
    simp only [Option.bind_eq_bind, Option.bind_eq_some_iff, Option.pure_def, Option.some.injEq,
      Prod.mk.injEq] at h
    obtain ⟨first, -, others, hothers, rfl, -⟩ := h
    rw [List.map_cons, List.map_cons, ih hothers]

end Json

/-- The clauses of a specification do not depend on where it stands. -/
theorem Specification.clauses?_eq (sentinel : String) (label : Label) (place : Pointer)
    (value : Json) :
    ((read label place value) >>= fun specification =>
      (specification.compile sentinel).result).toOption = clauses? sentinel label value := by
  have hread := read_under place label Pointer.root value
  rw [show place ++ Pointer.root = place from List.append_nil place] at hread
  rw [clauses?, hread]
  cases read label Pointer.root value with
  | error fault => rfl
  | ok specification =>
    change ((specification.under place).compile sentinel).result.toOption =
      (specification.compile sentinel).result.toOption
    rw [compile_under]
    cases (specification.compile sentinel).result <;> rfl

namespace Host

open Json

/-- Replaces a host by its clauses, whose number stands before the document. -/
def step? (sentinel : String) (host : Host) (document : Json) : Option (Nat × Json) :=
  (host.expand sentinel document).result.toOption

/-- Replaces hosts in the given order, and counts their clauses. -/
def run? (sentinel : String) : List Host → Json → Option (Nat × Json)
  | [], document => some (0, document)
  | host :: rest, document => do
    let (m, document) ← host.step? sentinel document
    let (n, document) ← run? sentinel rest document
    return (m + n, document)

variable (sentinel : String)

/-- A host is replaced if its specification has clauses and the clauses can take its place. -/
theorem step?_eq (host : Host) (document : Json) :
    host.step? sentinel document = do
      let value ← host.specificationPlace.resolve? document
      let clauses ← Specification.clauses? sentinel host.label value
      let document ← (host.splice clauses document).toOption
      return (clauses.length, document) := by
  unfold step? expand readIn
  simp only [Traced.result_bind, Traced.ofExcept, toOption_bind]
  cases host.specificationPlace.resolve? document with
  | none => rfl
  | some value =>
    have hclauses := Specification.clauses?_eq sentinel host.label host.specificationPlace value
    rw [toOption_bind] at hclauses
    change _ = Specification.clauses? sentinel host.label value >>= _
    rw [← hclauses, bind_assoc]
    rfl

/-- Hosts may be replaced in two portions. -/
theorem run?_append (first second : List Host) (document : Json) :
    run? sentinel (first ++ second) document = do
      let (m, document) ← run? sentinel first document
      let (n, document) ← run? sentinel second document
      return (m + n, document) := by
  induction first generalizing document with
  | nil =>
    cases hsecond : run? sentinel second document <;> simp [run?, hsecond]
  | cons host rest ih =>
    simp only [List.cons_append, run?, ih, Option.bind_eq_bind, Option.bind_assoc,
      Option.pure_def, Option.bind_some, Nat.add_assoc]

end Host

end Semijoin
