import Semijoin.Json.Reader

/-!
# Forms of stored specifications

A text holds a stored specification only if its draft has the right form: no member that is
known is there twice, and every part that is used has a value. The parts that the form does not
know are dropped, whatever they are. What is left is a value.

Known members are told by name in an object, or by position in a row, which is an array of them
in the order of the form. A row may end early, but it has nothing besides these members.
-/

namespace Semijoin

/-- What is used of a draft. -/
inductive Form where
  /-- Any value. -/
  | value
  /-- An array. -/
  | list (item : Form)
  /-- An object whose keys are data, with all its entries in the order of the text. -/
  | table (item : Form)
  /-- An object of which some members are known, or a row of these members. -/
  | fields (known : List (String × Form))
  /-- A word, or an object with one member whose key is a word. -/
  | choice (variants : List (String × Form))
  /-- A chain, whose groups hold chains again. -/
  | chain

namespace Form

/-- The form of a pointer. -/
def pointer : Form := .fields [("segments", .list .value)]

/-- The form of a limit. -/
def limit : Form := .choice [("Unset", .value), ("Capped", .value)]

/-- The form of a clause. -/
def clause : Form :=
  .fields [("kind", .choice [("scored", .value), ("filter", .value)]), ("clause", .value)]

/-- The form of an endpoint. -/
def endpoint : Form :=
  .fields [("path", .value), ("indices", .list .value), ("types", .list .value),
    ("orderBy", .value), ("maxTermsPerShard", limit), ("termsEncoding", .value),
    ("queries", .list clause)]

/-- The form of a relation between two endpoints, which stand under a name. -/
def relation (name : String) : Form :=
  .fields [(name, .list endpoint), ("negate", .value), ("origin", pointer)]

/-- The form of a join graph. -/
def graph : Form :=
  .fields [("focus", .value), ("relations", .list (relation "endpoints")),
    ("queries", .table (.list clause))]

/-- The form of a group of chains. -/
def group : Form := .fields [("branches", .list .chain), ("origin", pointer)]

/-- The form of a step. -/
def step : Form := .choice [("relation", relation "relation"), ("group", group)]

/-- A form with its outermost layer laid open. -/
def unfold : Form → Form
  | .chain => .fields [("steps", .list step), ("origin", pointer)]
  | form => form

/-- The members of an object or of a row, by name. -/
def members? (form : Form) : Json → Option (List (String × Json))
  | .object members => some members
  | .array row =>
    match form.unfold with
    | .fields known =>
      if row.length ≤ known.length then some ((known.map Prod.fst).zip row) else none
    | _ => none
  | _ => none

end Form

namespace Draft

mutual

/-- The value of what a form uses of a draft. -/
def conform? (form : Form) : Draft → Option Json
  | .scalar value =>
    match form.unfold with
    | .value | .choice _ => some value.toJson
    | .list _ | .table _ | .fields _ | .chain => none
  | .array items =>
    match form.unfold with
    | .value => (Draft.array items).toJson.toOption
    | .list item => (conformItems? item items).map .array
    | .fields known => (conformRow? (known.map Prod.snd) items).map .array
    | .table _ | .choice _ | .chain => none
  | .object members =>
    match form.unfold with
    | .value => (Draft.object members).toJson.toOption
    | .table item => (conformMembers? (fun _ => some item) members).map .object
    | .fields known => do
      let found ← conformMembers? (fun key => known.lookup key) members
      if (found.map Prod.fst).Nodup then return .object (Json.sortMembers found) else none
    | .choice variants => do
      let found ← conformMembers? (fun key => variants.lookup key) members
      if members.length = 1 ∧ found.length = 1 then return .object found else none
    | .list _ | .chain => none
  | .flawed _ => none

/-- The values of what a form uses of the elements of an array. -/
def conformItems? (form : Form) : List Draft → Option (List Json)
  | [] => some []
  | item :: rest => return (← item.conform? form) :: (← conformItems? form rest)

/-- The values of what the forms use of a row. -/
def conformRow? : List Form → List Draft → Option (List Json)
  | _, [] => some []
  | [], _ :: _ => none
  | form :: forms, item :: rest => return (← item.conform? form) :: (← conformRow? forms rest)

/-- The values of what is used of the members of an object, in the order of the text. A member
without a form is dropped, but its key must have a value. -/
def conformMembers? (formOf : String → Option Form) :
    List (Key × Draft) → Option (List (String × Json))
  | [] => some []
  | (.error _, _) :: _ => none
  | (.ok key, value) :: rest =>
    match formOf key with
    | some form => return (key, ← value.conform? form) :: (← conformMembers? formOf rest)
    | none => conformMembers? formOf rest

end

end Draft

/-- The value of what a form uses of a text. -/
def Form.read? (form : Form) (text : String) : Option Json := do
  let draft ← (Draft.ofChars .lenient text.toList).toOption
  draft.conform? form

end Semijoin
