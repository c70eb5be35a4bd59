import Semijoin.Proofs.Document.Rewriting

/-!
# Rewriting some hosts of a document

An expansion that fails has replaced some hosts and left others. The rewriting of a document at
chosen places tells what is then there: a host at a chosen place becomes its clauses, after its
own parts have been rewritten, and everything else is kept around its rewritten parts. Where all
places are chosen, this is the rewriting of the document.
-/

namespace Semijoin.Json

mutual

/-- Rewrites a value at the chosen places in it. The number of all clauses that specifications
became stands beside the image. -/
def imageWhere? (sentinel : String) (chosen : Pointer → Bool) : Json → Option (Image × Nat)
  | .array items => do
    let (items, count) ← itemsImageWhere? sentinel chosen 0 items
    return (.value (.array items), count)
  | .object members => do
    let (members, count) ← membersImageWhere? sentinel chosen members
    match if chosen Pointer.root then hosted? members else none with
    | some (label, specification) =>
      let clauses ← Specification.clauses? sentinel label specification
      return (.clauses clauses, clauses.length + count)
    | none => return (.value (.object members), count)
  | value => return (.value value, 0)

/-- Rewrites the elements of an array, from some position on, at the chosen places. -/
def itemsImageWhere? (sentinel : String) (chosen : Pointer → Bool) :
    (position : Nat) → List Json → Option (List Json × Nat)
  | _, [] => return ([], 0)
  | position, item :: rest => do
    let (first, m) ← imageWhere? sentinel (fun place => chosen (.index position :: place)) item
    let (others, n) ← itemsImageWhere? sentinel chosen (position + 1) rest
    return (first.asItems ++ others, m + n)

/-- Rewrites the members of an object, which keep their keys, at the chosen places. -/
def membersImageWhere? (sentinel : String) (chosen : Pointer → Bool) :
    List (String × Json) → Option (List (String × Json) × Nat)
  | [] => return ([], 0)
  | (key, value) :: rest => do
    let (first, m) ← imageWhere? sentinel (fun place => chosen (.key key :: place)) value
    let (others, n) ← membersImageWhere? sentinel chosen rest
    return ((key, first.asValue) :: others, m + n)

end

/-- A document with every specification at a chosen place replaced by its clauses, and the number
of the clauses. -/
def rewriteWhere? (sentinel : String) (chosen : Pointer → Bool) (document : Json) :
    Option (Json × Nat) :=
  (imageWhere? sentinel chosen document).map fun (image, count) => (image.asValue, count)

variable {sentinel : String}

/-- Rewriting the members of an object at chosen places keeps their keys. -/
theorem keys_membersImageWhere? {chosen : Pointer → Bool} {members members' : List (String × Json)}
    {count : Nat} (h : membersImageWhere? sentinel chosen members = some (members', count)) :
    members'.map Prod.fst = members.map Prod.fst := by
  induction members generalizing members' count with
  | nil =>
    cases h
    rfl
  | cons member rest ih =>
    obtain ⟨key, value⟩ := member
    rw [membersImageWhere?] at h
    obtain ⟨⟨first, m⟩, -, h⟩ := Option.bind_eq_some_iff.mp h
    obtain ⟨⟨others, n⟩, hothers, h⟩ := Option.bind_eq_some_iff.mp h
    cases h
    rw [List.map_cons, List.map_cons, ih hothers]

mutual

/-- Where all places are chosen, a value has its image. -/
theorem imageWhere?_all (value : Json) :
    imageWhere? sentinel (fun _ => true) value = image? sentinel value := by
  cases value with
  | array items => rw [imageWhere?, image?, itemsImageWhere?_all 0 items]
  | object members =>
    rw [imageWhere?, image?]
    exact congrArg (· >>= _) (membersImageWhere?_all members)
  | null | bool _ | number _ | string _ => rfl

/-- Where all places are chosen, the elements of an array have their images. -/
theorem itemsImageWhere?_all (position : Nat) (items : List Json) :
    itemsImageWhere? sentinel (fun _ => true) position items = itemsImage? sentinel items := by
  match items with
  | [] => rfl
  | item :: rest =>
    rw [itemsImageWhere?, itemsImage?, imageWhere?_all item,
      itemsImageWhere?_all (position + 1) rest]

/-- Where all places are chosen, the members of an object have their images. -/
theorem membersImageWhere?_all (members : List (String × Json)) :
    membersImageWhere? sentinel (fun _ => true) members = membersImage? sentinel members := by
  match members with
  | [] => rfl
  | (key, value) :: rest =>
    rw [membersImageWhere?, membersImage?, imageWhere?_all value, membersImageWhere?_all rest]

end

/-- Where all places are chosen, the whole document is rewritten. -/
theorem rewriteWhere?_all (document : Json) :
    document.rewriteWhere? sentinel (fun _ => true) = document.rewrite? sentinel := by
  rw [rewriteWhere?, rewrite?, imageWhere?_all]

end Semijoin.Json
