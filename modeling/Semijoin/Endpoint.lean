import Semijoin.Clause

/-!
# Endpoints of relations

An endpoint names a field of some indices. The two endpoints of a relation are joined
on the values of their fields.
-/

namespace Semijoin

/-- How many terms each shard contributes to a join. -/
inductive TermsLimit where
  | unset
  | capped (cap : UInt64)
  deriving DecidableEq, Repr

namespace TermsLimit

/-- The limit that an integer of machine size stands for (`from_raw`). All negative ones mean that
there is no limit. -/
def ofInt? (raw : Int) : Option TermsLimit :=
  if 0 ≤ raw then
    if raw < UInt64.size then some (.capped (.ofNat raw.toNat)) else none
  else if raw.natAbs ≤ UInt64.size / 2 then some .unset else none

/-- The number of terms, if it is limited. -/
def cap? : TermsLimit → Option UInt64
  | .unset => none
  | .capped cap => some cap

/-- Reads the limit from the members of an endpoint. -/
def read (members : List (String × Json)) (field : String) (place : Pointer) :
    Except Fault TermsLimit :=
  match Field.find? members field with
  | none => return .unset
  | some (.number (.integer raw)) =>
    match ofInt? raw with
    | some limit => return limit
    | none => throw (.malformed (.notInteger field) (place.key field))
  | some _ => throw (.malformed (.notInteger field) (place.key field))

end TermsLimit

/-- What a join collects its values from, and how. -/
structure Target where
  /-- The field that holds the values. -/
  path : String
  indices : List String
  types : List String
  orderBy : Option String
  maxTerms : TermsLimit
  encoding : Option String
  deriving DecidableEq, Repr

/-- One side of a relation, with the clauses written at it (`RelationEndpoint`). -/
structure Endpoint extends Target where
  queries : List Clause
  deriving DecidableEq, Repr

namespace Endpoint

/-- The index that identifies an endpoint in a join set: the first it names. -/
def index? (endpoint : Endpoint) : Option String := endpoint.indices.head?

/-- An endpoint of one index and nothing but a field. -/
def ofIndex (index path : String) : Endpoint :=
  { path, indices := [index], types := [], orderBy := none, maxTerms := .unset,
    encoding := none, queries := [] }

/-- The fields that an endpoint may have (`ENDPOINT_FIELDS`). -/
def fields : List String :=
  ["path", "indices", "types", "orderBy", "maxTermsPerShard", "termsEncoding", "queries"]

/-- Reads the field of the index whose values are joined. An empty name counts as absent. -/
def readPath (members : List (String × Json)) (place : Pointer) : Except Fault String := do
  match ← Field.text? members "path" place with
  | some path => return path
  | none => throw (.missingField "path" place)

/-- Reads an endpoint. -/
def read (place : Pointer) : Json → Except Fault Endpoint
  | .object members => do
    if let some (field, _) := members.find? (fun (field, _) => !fields.contains field) then
      throw (.unknownField field place)
    let path ← readPath members place
    let indices ← Field.texts members "indices" place
    let types ← Field.texts members "types" place
    let orderBy ← Field.text? members "orderBy" place
    let maxTerms ← TermsLimit.read members "maxTermsPerShard" place
    let encoding ← Field.text? members "termsEncoding" place
    let queries ← Clause.readAll (place.key "queries") ((members.lookup "queries").getD .null)
    return { path, indices, types, orderBy, maxTerms, encoding, queries }
  | _ => throw (.malformed .endpointNotObject place)

end Endpoint

end Semijoin
