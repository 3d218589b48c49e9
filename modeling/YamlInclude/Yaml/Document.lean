import YamlInclude.Yaml.Event.Grammar
import YamlInclude.Yaml.Token.Stream
import YamlInclude.Yaml.Error

/-! # Documents

The events of a text are cut into documents, in which every alias points at an event, and each
document is read into a value. An error ends the documents.
-/

namespace YamlInclude.Yaml

inductive Node where
  | alias (target : Nat)
  | scalar (tag : Option Tag) (text : String) (plain : Bool)
  | sequenceStart (tag : Option Tag)
  | sequenceEnd
  | mappingStart (tag : Option Tag)
  | mappingEnd
  | void
  deriving DecidableEq, Repr

/-- The events of one document, and the error that cut it off, if one did. -/
structure Document where
  nodes : List (Node × Mark)
  failure : Option Error

/-- A document that is being put together. An anchor has a number, and each number a position. -/
structure Draft where
  nodes : List (Node × Mark)
  names : List (String × Nat)
  positions : List (Nat × Nat)

namespace Draft

def empty : Draft := ⟨[], [], []⟩

def push (d : Draft) (n : Node) (m : Mark) : Draft := { d with nodes := (n, m) :: d.nodes }

/-- Notes that the next event is anchored. An anchor gets the number of names known before it. -/
def anchor (d : Draft) : Option String → Draft
  | none => d
  | some name =>
    let id := d.names.length
    { d with
      names := if d.names.any (·.1 = name) then d.names.map fun e => if e.1 = name then (name, id) else e
        else d.names ++ [(name, id)]
      positions := (id, d.nodes.length) :: d.positions }

/-- The finished document: numbers of anchors become positions. -/
def finish (d : Draft) (failure : Option Error) : Document :=
  let place (n : Node × Mark) : Node × Mark :=
    match n.1 with
    | .alias id => (.alias ((d.positions.lookup id).getD 0), n.2)
    | _ => n
  ⟨(d.nodes.map place).reverse, failure⟩

end Draft

/-- The documents of events, the first of them being `first`. -/
def documentsOf (failure : Option SyntaxError) : List Marked → Draft → Bool → List Document
  | [], d, _ =>
    match failure with
    | some e => [d.finish (some (.syntaxError e))]
    | none => []
  | ⟨e, m⟩ :: rest, d, first =>
    match e with
    | .documentStart => documentsOf failure rest d first
    | .documentEnd => d.finish none :: documentsOf failure rest .empty false
    | .streamEnd => if first then [(d.push .void m).finish none] else []
    | .alias name =>
      match d.names.lookup name with
      | some id => documentsOf failure rest (d.push (.alias id) m) first
      | none => [d.finish (some (.unknownAnchor m))]
    | .scalar p text plain => documentsOf failure rest ((d.anchor p.anchor).push (.scalar p.tag text plain) m) first
    | .sequenceStart p => documentsOf failure rest ((d.anchor p.anchor).push (.sequenceStart p.tag) m) first
    | .sequenceEnd => documentsOf failure rest (d.push .sequenceEnd m) first
    | .mappingStart p => documentsOf failure rest ((d.anchor p.anchor).push (.mappingStart p.tag) m) first
    | .mappingEnd => documentsOf failure rest (d.push .mappingEnd m) first

namespace Document

structure Reading where
  rest : List (Node × Mark)
  jumps : Nat

/-- A reader of what the next event begins, which is found at a path. -/
abbrev Reader (α : Type) := List PathStep → Reading → Except Error (α × Reading)

/-- The tag that makes a node a tagged value, if it has one. -/
def valueTag? : Option Tag → Option String
  | some (.text t) =>
    match t.toList with
    | ['!'] => some "!"
    | '!' :: cs => some (Value.tagOfText (String.ofList cs))
    | _ => none
  | _ => none

def endError (d : Document) : Error := d.failure.getD .noDocument

def peek (d : Document) (r : Reading) : Except Error (Node × Mark) :=
  match r.rest with
  | n :: _ => .ok n
  | [] => .error d.endError

def Reading.skip (r : Reading) : Reading := { r with rest := r.rest.drop 1 }

def readItems (d : Document) (one : Reader Value) (path : List PathStep) :
    Nat → Nat → Reading → Except Error (List Value × Reading)
  | 0, _, _ => .error d.endError
  | fuel + 1, i, r => do
    let (n, _) ← d.peek r
    match n with
    | .sequenceEnd | .void => .ok ([], r.skip)
    | _ =>
      let (v, r) ← one (path ++ [.item i]) r
      let (vs, r) ← readItems d one path fuel (i + 1) r
      .ok (v :: vs, r)

/-- The step from a mapping to the value whose key begins with an event. -/
def keyStep : Node → PathStep
  | .scalar _ text _ => .field text
  | _ => .unknown

/-- The entries of a mapping that begins at `mark`, and its end; `seen` are those before. -/
def readEntries (d : Document) (one : Reader Value) (path : List PathStep) (mark : Mark) :
    Nat → Entries → Reading → Except Error (Entries × Reading)
  | 0, _, _ => .error d.endError
  | fuel + 1, seen, r => do
    let (n, _) ← d.peek r
    match n with
    | .mappingEnd | .void => .ok (seen, r.skip)
    | _ =>
      let (k, r) ← one path r
      match List.find? (fun e => k.same e.1) seen with
      | some e => .error (.value (.duplicateKey e.1) path mark)
      | none =>
        let (v, r) ← one (path ++ [keyStep n]) r
        readEntries d one path mark fuel (seen ++ [(k, v)]) r

/-- Puts a value under a tag, if the tag makes a tagged value. -/
def withTag (tag : Option Tag) (v : Value) : Value :=
  match valueTag? tag with
  | some t => .tagged t v
  | none => v

/-- The value of a scalar; a tag that makes a tagged value does not change its content. -/
def scalarValue (tag : Option Tag) (text : String) (plain : Bool) : Except ScalarFault Value :=
  (Scalar.value (if (valueTag? tag).isSome then none else tag) text plain).map (withTag tag)

/-- The value of a node that is no alias. The nodes inside a collection are read by `inner`, and
there is none when no further collection may open. -/
def readShape (d : Document) (inner : Option (Reader Value)) : Reader Value := fun path r => do
  let (n, m) ← d.peek r
  match n, inner with
  | .scalar tag text plain, _ =>
    match scalarValue tag text plain with
    | .ok v => .ok (v, r.skip)
    | .error f => .error (.value (.unfitting f) path m)
  | .sequenceStart tag, some one =>
    let (vs, r) ← d.readItems one path (d.nodes.length + 1) 0 r.skip
    .ok (withTag tag (.sequence vs), r)
  | .mappingStart tag, some one =>
    let (es, r) ← d.readEntries one path m (d.nodes.length + 1) [] r.skip
    .ok (withTag tag (.mapping es), r)
  | .sequenceStart _, none | .mappingStart _, none => .error (.tooDeep m)
  | _, _ => .ok (.null, r.skip)

/-- Reads a node with `here`, at the place that an alias points at if it is one. -/
def followAlias (d : Document) (here : Reader Value) : Reader Value := fun path r => do
  let (n, _) ← d.peek r
  match n with
  | .alias target =>
    if d.nodes.length * 100 < r.jumps + 1 then .error .tooManyAliases
    else
      let (v, inner) ← here (path ++ [.alias]) ⟨d.nodes.drop target, r.jumps + 1⟩
      .ok (v, ⟨r.rest.drop 1, inner.jumps⟩)
  | _ => here path r

/-- The value of a node that is no alias, with at most `depth` collections inside each other. -/
def readNode (d : Document) : Nat → Reader Value
  | 0 => d.readShape none
  | depth + 1 => d.readShape (some (d.followAlias (d.readNode depth)))

def depthLimit : Nat := 128

def value (d : Document) : Except Error Value := do
  let (v, _) ← d.followAlias (d.readNode depthLimit) [] ⟨d.nodes, 0⟩
  match d.failure with
  | some e => .error e
  | none => .ok v

end Document

def documents (text : String) : List Document :=
  let (tokens, failure) := tokens text.toList
  let (events, failure) := eventsOf tokens failure
  documentsOf failure events .empty true

/-- The values of the documents of a text, in order, up to the first one that has none. -/
def values (text : String) : List (Except Error Value) := (documents text).map Document.value

def valueOf (text : String) : Except Error Value :=
  match documents text with
  | [] => .error .noDocument
  | d :: rest => do
    let v ← d.value
    if rest.isEmpty then .ok v else .error .manyDocuments

end YamlInclude.Yaml
