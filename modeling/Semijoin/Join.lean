import Semijoin.Endpoint
import Semijoin.Traced

/-!
# Joins

A join keeps the documents whose source field has a value collected from the documents
of its target. What is attached to a join restricts the target documents: clauses, and
further joins. A join whose target names no index runs against the sentinel index. It
matches nothing, so whatever is attached to it is dropped, and reported.
-/

namespace Semijoin

mutual

/-- A join from a field of the documents being searched (`FilterJoinNode`). -/
inductive Join where
  | resolved (source : String) (target : Target) (attached : List Attachment)
  | unresolved (source path sentinel : String)

/-- A restriction of the documents of a target. -/
inductive Attachment where
  | clause (clause : Clause) (negate : Bool)
  | join (join : Join) (negate : Bool)

end

namespace Join

/-- The field of the documents being searched (`source_path`). -/
def source : Join → String
  | .resolved source _ _ | .unresolved source _ _ => source

/-- The join matches nothing (`is_unresolved`). -/
def isUnresolved : Join → Bool
  | .resolved .. => false
  | .unresolved .. => true

/-- Nothing is attached to the join. There is no answer where nothing can be attached. -/
def isBare? : Join → Option Bool
  | .resolved _ _ attached => some attached.isEmpty
  | .unresolved .. => none

/-- Builds the join from a field to the target of an endpoint. The clauses written at the
endpoint are not attached. -/
def build (sentinel source : String) (endpoint : Endpoint) : Compilation Join := do
  if endpoint.indices.isEmpty then
    Traced.report (.noTarget source endpoint.path sentinel)
    Traced.report (.joinBuilt source)
    return .unresolved source endpoint.path sentinel
  else
    Traced.report (.joinBuilt source)
    return .resolved source endpoint.toTarget []

end Join

/-- How an attachment is reported when it is dropped. -/
def Attachment.kind : Attachment → Dropped
  | .clause .. => .filter
  | .join .. => .nestedJoin

namespace Join

/-- Attaches a restriction behind those already there. -/
def attach (attachment : Attachment) : Join → Compilation Join
  | .resolved source target attached => return .resolved source target (attached ++ [attachment])
  | .unresolved source path sentinel => do
    Traced.report (.attachmentDropped source attachment.kind)
    return .unresolved source path sentinel

/-- Attaches restrictions in order. -/
def attachAll (attachments : List Attachment) (join : Join) : Compilation Join :=
  attachments.foldlM (fun join attachment => join.attach attachment) join

/-- Attaches the clauses of an index (`attach_filters`). -/
def attachClauses (clauses : List Clause) (join : Join) : Compilation Join :=
  join.attachAll (clauses.map fun clause => .clause clause false)

/-- Attaches joins, each negated or not (`attach_join`). -/
def attachJoins (joins : List (Join × Bool)) (join : Join) : Compilation Join :=
  join.attachAll (joins.map fun (nested, negate) => .join nested negate)

end Join

/-- The query that every document matches. -/
def matchAll : Json := .object [("match_all", .object [])]

/-- A list of texts as a JSON array. -/
def Json.ofTexts (texts : List String) : Json := .array (texts.map .string)

/-- A boolean query with one list of clauses. -/
def Json.boolean (occurrence : String) (clauses : List Json) : Json :=
  .object [("bool", .object [(occurrence, .array clauses)])]

/-- The body of a join: the members that describe its target, and its query, in the order
of their keys. -/
def Target.toJson (target : Target) (query : Json) : Json :=
  .object <|
    [("indices", .ofTexts target.indices)] ++
    (target.maxTerms.cap?.map fun cap =>
      ("maxTermsPerShard", Json.number (.integer cap.toNat))).toList ++
    (target.orderBy.map fun orderBy => ("orderBy", Json.string orderBy)).toList ++
    [("path", .string target.path), ("query", query)] ++
    (target.encoding.map fun encoding => ("termsEncoding", Json.string encoding)).toList ++
    (if target.types.isEmpty then [] else [("types", .ofTexts target.types)])

/-- The clauses that take part in scoring, in order. -/
def Attachment.scored : List Attachment → List Json
  | [] => []
  | .clause (.scored body) _ :: rest => body :: scored rest
  | _ :: rest => scored rest

/-- Some attachment that does not take part in scoring is negated. -/
def Attachment.anyNegated : List Attachment → Bool
  | [] => false
  | .clause (.filter _) true :: _ | .join _ true :: _ => true
  | _ :: rest => anyNegated rest

/-- A query in which scored clauses stand beside one that matches everything, and the other
attachments filter without scoring. There are excluded clauses only if something is
negated. -/
def Join.query (scored required excluded : List Json) (anyNegated : Bool) : Json :=
  let excluded := if anyNegated then [("must_not", Json.array excluded)] else []
  .object [("bool", .object
    [("filter", .object [("bool", .object (("must", .array required) :: excluded))]),
      ("must", .array (matchAll :: scored))])]

/-- A join with its body under the field of the documents being searched. -/
def Join.wrap (source : String) (body : Json) : Json :=
  .object [("filterjoin", .object [(source, body)])]

mutual

/-- The clause that a join compiles to. -/
def Join.toJson : Join → Json
  | .resolved source target attached =>
    Join.wrap source <| target.toJson <|
      Join.query (Attachment.scored attached) (filtersJson false attached)
        (filtersJson true attached) (Attachment.anyNegated attached)
  | .unresolved source path sentinel =>
    Join.wrap source <| .object
      [("indices", .ofTexts [sentinel]), ("path", .string path),
        ("query", .boolean "must_not" [matchAll])]

/-- The attachments that filter without scoring, either the negated ones or the others. -/
def filtersJson (negated : Bool) : List Attachment → List Json
  | [] => []
  | .clause (.filter body) negate :: rest =>
    if negate = negated then body :: filtersJson negated rest else filtersJson negated rest
  | .clause (.scored _) _ :: rest => filtersJson negated rest
  | .join join negate :: rest =>
    if negate = negated then join.toJson :: filtersJson negated rest
    else filtersJson negated rest

end

/-- The clause for a join that is not inside another. A negated one is excluded by a query
of its own. -/
def Join.outerJson (join : Join) (negate : Bool) : Json :=
  if negate then .boolean "must_not" [join.toJson] else join.toJson

/-- The clauses for joins that are not inside others (`RootClauses`). -/
def Join.clauses (joins : List (Join × Bool)) : List Json :=
  joins.map fun (join, negate) => join.outerJson negate

end Semijoin
