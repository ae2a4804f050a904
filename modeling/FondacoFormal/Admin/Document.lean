import Mathlib.Logic.Function.Basic

/-!
# The configuration document and its edits

The admin API edits one YAML document. A per-resource endpoint parses it into a tree of nodes,
changes one place and writes the tree back; a whole-document endpoint replaces it.
-/

namespace FondacoFormal.Admin

abbrev Document := String

/-! ## YAML nodes -/

/-- The kinds of `yaml.Node`. -/
inductive NodeKind where
  | document
  | sequence
  | mapping
  | scalar
  | alias
  deriving DecidableEq, Repr

/-- `yaml.Node`; `presentation` stands for its tag, style, anchor and comments. -/
inductive Node where
  | mk (kind : NodeKind) (value presentation : String) (content : List Node)

namespace Node

def kind : Node → NodeKind
  | mk kind _ _ _ => kind

def value : Node → String
  | mk _ value _ _ => value

def content : Node → List Node
  | mk _ _ _ content => content

def withContent : Node → List Node → Node
  | mk kind value presentation _, content => mk kind value presentation content

def plain (value : String) : Node :=
  mk .scalar value "" []

end Node

def childOf (key : String) : List Node → Option Node
  | k :: v :: rest => if k.value = key then some v else childOf key rest
  | _ => none

def setChild (key : String) (node : Node) : List Node → List Node
  | k :: v :: rest =>
    if k.value = key then k :: node :: rest else k :: v :: setChild key node rest
  | rest => rest

/-- `childValue`. -/
def childValue (mapping : Node) (key : String) : Option Node :=
  if mapping.kind = .mapping then childOf key mapping.content else none

/-- `mappingField`. -/
def mappingField (node : Node) (field : String) : String :=
  match childValue node field with
  | none => ""
  | some value => value.value

def putChild (key : String) (node : Node) (parent : Node) : Node :=
  parent.withContent (setChild key node parent.content)

/-! ## Surgery -/

abbrev Change := Node → Except String (Node × Bool)

def dropFirst (test : Node → Bool) : List Node → Option (List Node)
  | [] => none
  | item :: rest => if test item then some rest else (dropFirst test rest).map (item :: ·)

/-- `removeSequenceItemIn`. -/
def removeSequenceItemIn (key matchField matchValue : String) : Change :=
  fun parent =>
    match childValue parent key with
    | none => .ok (parent, false)
    | some seq =>
      if seq.kind ≠ .sequence then .ok (parent, false)
      else
        match dropFirst (fun item => mappingField item matchField = matchValue) seq.content with
        | some items => .ok (putChild key (seq.withContent items) parent, true)
        | none => .ok (parent, false)

/-- A change of the root mapping; `documentRoot` finds it in a document node or takes the node. -/
def onRoot (change : Change) : Change :=
  fun doc =>
    let missing := .error "configuration document is not a mapping"
    if doc.kind = .document then
      match doc.content with
      | [] => missing
      | root :: rest =>
        if root.kind ≠ .mapping then missing
        else (change root).map fun (next, flag) => (doc.withContent (next :: rest), flag)
    else if doc.kind ≠ .mapping then missing
    else change doc

/-- `removeSequenceItem`. -/
def removeSequenceItem (key matchField matchValue : String) : Change :=
  onRoot (removeSequenceItemIn key matchField matchValue)

/-! ## Edits -/

inductive Edit where
  /-- `PUT` of the whole document. -/
  | replace (raw : Document)
  /-- `PUT` of one resource. -/
  | put (change : Change)
  /-- `DELETE` of one resource, answered 404 when the change has not found it. -/
  | delete (change : Change)

def deleteFeed (name : String) : Edit :=
  .delete (removeSequenceItem "feeds" "name" name)

/-- The YAML library, `Parse`, the semantic checks, and `Version`, which has no collisions. -/
structure Codec (Config : Type) where
  unmarshal : Document → Except String Node
  marshal : Node → Except String Document
  parse : Document → Except String Config
  validate : Config → Except String Unit
  version : Document → String
  version_injective : Function.Injective version

namespace Codec

variable {Config : Type}

/-- `Parse` followed by the semantic checks. -/
def check (codec : Codec Config) (raw : Document) : Except String Config := do
  let config ← codec.parse raw
  codec.validate config
  return config

/-- The document a change makes of another, and whether the change found its resource. -/
def changed (codec : Codec Config) (change : Change) (raw : Document) :
    Except String (Document × Bool) := do
  let doc ← codec.unmarshal raw
  let (next, flag) ← change doc
  return (← codec.marshal next, flag)

/-- What an edit makes of a document, and whether it will be reported as done. -/
def applied (codec : Codec Config) : Edit → Document → Except String (Document × Bool)
  | .replace raw, _ => .ok (raw, true)
  | .put change, raw => (codec.changed change raw).map fun (next, _) => (next, true)
  | .delete change, raw => codec.changed change raw

end Codec

end FondacoFormal.Admin
