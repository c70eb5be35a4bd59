import Semijoin.Json.Draft
import Semijoin.Json.Grammar

/-!
# Reading JSON text

The grammar of documents keeps the containers that are open and what may come next. Nesting is
limited. A part that is well formed and has no value is a fault of a document, whereas a
lenient reading keeps it as a flaw of the draft, and it goes on through any nesting.
-/

namespace Semijoin

/-- What happens to a part that is well formed and has no value: the text is refused, or the
draft keeps the part as a flaw. -/
inductive Rigour where
  | strict
  | lenient
  deriving DecidableEq, Repr

namespace Rigour

/-- Goes on behind a part without a value, if that is allowed. -/
def tolerate (rigour : Rigour) (fault : ReadFault) : Except ReadFault Unit :=
  match rigour with
  | .strict => throw fault
  | .lenient => return

/-- The draft of a part without a value, if that is allowed. -/
def flawed (rigour : Rigour) (fault : ReadFault) : Except ReadFault Draft := do
  rigour.tolerate fault
  return .flawed fault

end Rigour

namespace Reader

/-- A container that waits for the value being read: an array with its elements so far,
last first, or an object with its members so far, last first, and the key of the value. -/
inductive Frame where
  | items (before : List Draft)
  | member (before : List (Draft.Key × Draft)) (key : Draft.Key)

/-- What may come next in the innermost open container. -/
inductive Stage where
  | value
  | firstItem
  | item (before : List Draft)
  | firstKey
  | key (before : List (Draft.Key × Draft))
  | colon (before : List (Draft.Key × Draft)) (key : Draft.Key)
  | afterItem (items : List Draft)
  | afterMember (members : List (Draft.Key × Draft))
  | done (draft : Draft)

/-- The state of the reader: the containers that wait outside the innermost one, innermost
first, and what may come next. -/
structure State where
  outer : List Frame
  stage : Stage

/-- The place of a scalar: a value that the innermost container waits for, or the key of the
next member of an object. -/
inductive Place where
  | value (outer : List Frame)
  | key (outer : List Frame) (before : List (Draft.Key × Draft))

/-- The most containers that may be open at once. -/
def nestingLimit : Nat := 127

/-- Nothing has been read. -/
def start : State := ⟨[], .value⟩

/-- Hands a complete value to the container that waits for it. -/
def deliver (outer : List Frame) (draft : Draft) : State :=
  match outer with
  | [] => ⟨[], .done draft⟩
  | .items before :: outer => ⟨outer, .afterItem (draft :: before)⟩
  | .member before key :: outer => ⟨outer, .afterMember ((key, draft) :: before)⟩

/-- Opens a container in the place of a value. -/
def openIn (rigour : Rigour) (outer : List Frame) (stage : Stage) (behind : Position) :
    Except ReadFault (Move State Place) := do
  if nestingLimit ≤ outer.length then rigour.tolerate ⟨.deepNesting, behind⟩
  return .on ⟨outer, stage⟩

/-- Closes a container. One that lies too deep has no value. -/
def closeIn (rigour : Rigour) (outer : List Frame) (draft : Draft) (behind : Position) :
    Except ReadFault (Move State Place) := do
  if nestingLimit ≤ outer.length then
    return .on (deliver outer (← rigour.flawed ⟨.deepNesting, behind⟩))
  else return .on (deliver outer draft)

/-- Reads the first character of a value. -/
def meetValue (rigour : Rigour) (outer : List Frame) (behind : Position) (c : Char) :
    Except ReadFault (Move State Place) :=
  if c = '[' then openIn rigour outer .firstItem behind
  else if c = '\x7b' then openIn rigour outer .firstKey behind
  else return .scalar (.value outer)

/-- Reads a character between scalars. -/
def meet (rigour : Rigour) (state : State) (position : Position) (c : Char) :
    Except ReadFault (Move State Place) :=
  let outer := state.outer
  let behind := position.past c 1
  let refuse (cause : ReadCause) := throw ⟨cause, behind⟩
  match state.stage with
  | .value => meetValue rigour outer behind c
  | .firstItem =>
    if c = ']' then closeIn rigour outer (.array []) behind
    else meetValue rigour (.items [] :: outer) behind c
  | .item before =>
    if c = ']' then refuse .trailingComma
    else meetValue rigour (.items before :: outer) behind c
  | .firstKey =>
    if c = '"' then return .scalar (.key outer [])
    else if c = '\x7d' then closeIn rigour outer (.object []) behind
    else refuse .unquotedKey
  | .key before =>
    if c = '"' then return .scalar (.key outer before)
    else refuse (if c = '\x7d' then .trailingComma else .unquotedKey)
  | .colon before key =>
    if c = ':' then return .on ⟨.member before key :: outer, .value⟩ else refuse .noColon
  | .afterItem items =>
    if c = ',' then return .on ⟨outer, .item items⟩
    else if c = ']' then closeIn rigour outer (.array items.reverse) behind
    else refuse .noItemEnd
  | .afterMember members =>
    if c = ',' then return .on ⟨outer, .key members⟩
    else if c = '\x7d' then closeIn rigour outer (.object members.reverse) behind
    else refuse .noMemberEnd
  | .done _ => refuse .trailingText

/-- Puts a scalar in its place. -/
def take (rigour : Rigour) (place : Place) (behind : Position)
    (value : Except ReadCause Scalar) : Except ReadFault State :=
  match place, value with
  | .value outer, .ok value => return deliver outer (.scalar value)
  | .value outer, .error cause => return deliver outer (← rigour.flawed ⟨cause, behind⟩)
  | .key outer before, .ok (.string key) => return ⟨outer, .colon before (.ok key)⟩
  | .key _ _, .ok _ => throw ⟨.unquotedKey, behind⟩
  | .key outer before, .error cause => do
    rigour.tolerate ⟨cause, behind⟩
    return ⟨outer, .colon before (.error ⟨cause, behind⟩)⟩

/-- What is missing when the text ends. -/
def finish (state : State) (position : Position) : Except ReadFault Draft :=
  match state.stage with
  | .done draft => return draft
  | .value | .item _ | .key _ => throw ⟨.cutValue, position⟩
  | .firstItem | .afterItem _ => throw ⟨.cutArray, position⟩
  | .firstKey | .colon _ _ | .afterMember _ => throw ⟨.cutObject, position⟩

/-- The grammar of documents. -/
def grammar (rigour : Rigour) : Grammar State Place ReadFault Draft where
  meet := meet rigour
  take := take rigour
  finish := finish
  tolerate := rigour.tolerate
  fault := id

end Reader

/-- What a text holds. -/
def Draft.ofChars (rigour : Rigour) (text : List Char) : Except ReadFault Draft :=
  (Reader.grammar rigour).read Reader.start text

namespace Json

/-- The value that a text stands for. -/
def ofChars (text : List Char) : Except ReadFault Json := do
  (← Draft.ofChars .strict text).toJson

/-- The value that a text stands for. -/
def read (text : String) : Except ReadFault Json :=
  ofChars text.toList

end Json

end Semijoin
