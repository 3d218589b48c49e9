import YamlInclude.Yaml.Event.Basic

/-! # Events of tokens

A machine with a stack of what is expected next. Each step makes one event.
-/

namespace YamlInclude.Yaml

/-- What is expected next. Collections remember where they were opened. -/
inductive Expect where
  | documentStart (implicit : Bool)
  | documentContent
  | documentEnd
  | blockNode
  | blockEntry (opened : Mark)
  | blockFirstEntry
  | indentlessEntry
  | blockFirstKey
  | blockKey (opened : Mark)
  | blockValue (opened : Mark)
  | flowFirstEntry
  | flowEntry (opened : Mark) (first : Bool)
  | pairKey (opened : Mark)
  | pairValue (opened : Mark)
  | pairEnd (opened : Mark)
  | flowFirstKey
  | flowKey (opened : Mark) (first : Bool)
  | flowValue (opened : Mark)
  | flowNoValue (opened : Mark)

/-- The tokens that are left, the error after them, what is expected now and after it, and tag handles. -/
structure Grammar where
  tokens : List (Located Token)
  failure : Option SyntaxError
  state : Expect
  stack : List Expect
  handles : List (String × List UInt8)

namespace Grammar

def defaultHandles : List (String × List UInt8) :=
  [("!", Utf8.encode "!".toList), ("!!", Utf8.encode "tag:yaml.org,2002:".toList)]

def start (tokens : List (Located Token)) (failure : Option SyntaxError) : Grammar :=
  ⟨tokens, failure, .documentStart true, [], []⟩

/-- The result of a step: one event, or the error that ends the events. `none` means that tokens and
error have run out. -/
abbrev Step := Except (Option SyntaxError) (Marked × Grammar)

def peek (g : Grammar) : Except (Option SyntaxError) (Located Token) :=
  match g.tokens with
  | t :: _ => .ok t
  | [] => .error g.failure

def skip (g : Grammar) : Grammar := { g with tokens := g.tokens.drop 1 }

/-- Expects next what the stack says. -/
def pop (g : Grammar) : Grammar :=
  match g.stack with
  | e :: rest => { g with state := e, stack := rest }
  | [] => { g with state := .documentEnd }

def expect (g : Grammar) (e : Expect) : Grammar := { g with state := e }

def push (g : Grammar) (e : Expect) : Grammar := { g with stack := e :: g.stack }

def fail (p : Problem) (m : Mark) (context : Option (Context × Mark)) : Step :=
  .error (some ⟨p, m, context, 0⟩)

/-- A node that is not written: an empty plain scalar. -/
def emptyScalar (g : Grammar) (m : Mark) : Step := .ok (⟨.scalar .none "" true, m⟩, g)

/-- Anchor and tag in either order, with the mark where they begin and the mark of the tag. -/
structure NodeHead where
  anchor : Option String
  tag : Option (String × List UInt8 × Mark)
  start : Mark

def nodeHead (g : Grammar) : Except (Option SyntaxError) (NodeHead × Grammar) := do
  let t ← g.peek
  match t.value with
  | .anchor a =>
    let g := g.skip
    let u ← g.peek
    match u.value with
    | .tag h s => .ok (⟨some a, some (h, s, u.start), t.start⟩, g.skip)
    | _ => .ok (⟨some a, none, t.start⟩, g)
  | .tag h s =>
    let g := g.skip
    let u ← g.peek
    match u.value with
    | .anchor a => .ok (⟨some a, some (h, s, t.start), t.start⟩, g.skip)
    | _ => .ok (⟨none, some (h, s, t.start), t.start⟩, g)
  | _ => .ok (⟨none, none, t.start⟩, g)

def resolveTag (g : Grammar) (head : NodeHead) : Except (Option SyntaxError) (Option Tag) :=
  match head.tag with
  | none => .ok none
  | some (h, s, m) =>
    if h.isEmpty then .ok (some (.ofOctets s)) else
      match g.handles.lookup h with
      | some target => .ok (some (.ofOctets (target ++ s)))
      | none => .error (some ⟨.undefinedHandle, m, some (.node, head.start), 0⟩)

/-- What follows anchor and tag: block collections only if `block`, and entries without indentation only
if `indentless`. -/
def nodeContent (g : Grammar) (block indentless : Bool) (head : NodeHead) (tag : Option Tag) : Step := do
  let t ← g.peek
  let properties : Properties := ⟨head.anchor, tag⟩
  let sequence (e : Expect) : Step := .ok (⟨.sequenceStart properties, head.start⟩, g.expect e)
  let mapping (e : Expect) : Step := .ok (⟨.mappingStart properties, head.start⟩, g.expect e)
  match t.value with
  | .scalar text plain => .ok (⟨.scalar properties text plain, head.start⟩, g.skip.pop)
  | .flowSequenceStart => sequence .flowFirstEntry
  | .flowMappingStart => mapping .flowFirstKey
  | other =>
    if indentless && other == .blockEntry then sequence .indentlessEntry
    else if block && other == .blockSequenceStart then sequence .blockFirstEntry
    else if block && other == .blockMappingStart then mapping .blockFirstKey
    else if head.anchor.isSome || tag.isSome then
      .ok (⟨.scalar properties "" true, head.start⟩, g.pop)
    else fail .noContent t.start (some (if block then .blockNode else .flowNode, head.start))

/-- A node: an alias, or anchor and tag and what follows them. -/
def node (g : Grammar) (block indentless : Bool) : Step := do
  let t ← g.peek
  match t.value with
  | .alias name => .ok (⟨.alias name, t.start⟩, g.skip.pop)
  | _ =>
    let (head, g) ← g.nodeHead
    let tag ← g.resolveTag head
    g.nodeContent block indentless head tag

def directives : Nat → Grammar → Bool → Except (Option SyntaxError) Grammar
  | 0, g, _ => .ok g
  | fuel + 1, g, versioned => do
    let t ← g.peek
    match t.value with
    | .version major minor =>
      if versioned then .error (some ⟨.duplicateVersion, t.start, none, 0⟩)
      else if major != 1 || (minor != 1 && minor != 2) then
        .error (some ⟨.incompatibleVersion, t.start, none, 0⟩)
      else directives fuel g.skip true
    | .tagDirective h target =>
      if (g.handles.lookup h).isSome then .error (some ⟨.duplicateTagHandle, t.start, none, 0⟩)
      else directives fuel { g.skip with handles := g.handles ++ [(h, target)] } versioned
    | _ => .ok { g with handles := g.handles ++ defaultHandles }

def skipDocumentEnds (g : Grammar) : Grammar :=
  { g with tokens := g.tokens.dropWhile fun t => t.value == .documentEnd }

def documentStart (g : Grammar) (implicit : Bool) : Step := do
  let g := if implicit then g else g.skipDocumentEnds
  let t ← g.peek
  let explicit := match t.value with
    | .version .. | .tagDirective .. | .documentStart => true
    | _ => false
  if t.value == .streamEnd then .ok (⟨.streamEnd, t.start⟩, { g.skip with failure := none })
  else if implicit && !explicit then
    let g := { g with handles := defaultHandles }
    .ok (⟨.documentStart, t.start⟩, (g.push .documentEnd).expect .blockNode)
  else
    let g ← directives (g.tokens.length + 1) g false
    let u ← g.peek
    if u.value == .documentStart then
      .ok (⟨.documentStart, t.start⟩, (g.skip.push .documentEnd).expect .documentContent)
    else fail .noDocumentStart u.start none

def documentContent (g : Grammar) : Step := do
  let t ← g.peek
  match t.value with
  | .version .. | .tagDirective .. | .documentStart | .documentEnd | .streamEnd =>
    g.pop.emptyScalar t.start
  | _ => g.node true false

def documentEnd (g : Grammar) : Step := do
  let t ← g.peek
  let g := if t.value == .documentEnd then g.skip else g
  .ok (⟨.documentEnd, t.start⟩, { g with handles := [], state := .documentStart false })

def blockEntry (g : Grammar) (opened : Mark) : Step := do
  let t ← g.peek
  match t.value with
  | .blockEntry =>
    let g := g.skip
    let u ← g.peek
    if u.value == .blockEntry || u.value == .blockEnd then
      (g.expect (.blockEntry opened)).emptyScalar t.stop
    else (g.push (.blockEntry opened)).node true false
  | .blockEnd => .ok (⟨.sequenceEnd, t.start⟩, g.skip.pop)
  | _ => fail .noDash t.start (some (.blockCollection, opened))

def indentlessEntry (g : Grammar) : Step := do
  let t ← g.peek
  match t.value with
  | .blockEntry =>
    let g := g.skip
    let u ← g.peek
    if u.value == .blockEntry || u.value == .key || u.value == .value || u.value == .blockEnd then
      (g.expect .indentlessEntry).emptyScalar t.stop
    else (g.push .indentlessEntry).node true false
  | _ => .ok (⟨.sequenceEnd, t.start⟩, g.pop)

def blockKey (g : Grammar) (opened : Mark) : Step := do
  let t ← g.peek
  match t.value with
  | .key =>
    let g := g.skip
    let u ← g.peek
    if u.value == .key || u.value == .value || u.value == .blockEnd then
      (g.expect (.blockValue opened)).emptyScalar t.stop
    else (g.push (.blockValue opened)).node true true
  | .blockEnd => .ok (⟨.mappingEnd, t.start⟩, g.skip.pop)
  | _ => fail .noKey t.start (some (.blockMapping, opened))

def blockValue (g : Grammar) (opened : Mark) : Step := do
  let t ← g.peek
  match t.value with
  | .value =>
    let g := g.skip
    let u ← g.peek
    if u.value == .key || u.value == .value || u.value == .blockEnd then
      (g.expect (.blockKey opened)).emptyScalar t.stop
    else (g.push (.blockKey opened)).node true true
  | _ => (g.expect (.blockKey opened)).emptyScalar t.start

def flowEntry (g : Grammar) (opened : Mark) (first : Bool) : Step := do
  let t ← g.peek
  let close (g : Grammar) (t : Located Token) : Step := .ok (⟨.sequenceEnd, t.start⟩, g.skip.pop)
  let entry (g : Grammar) (t : Located Token) : Step :=
    match t.value with
    | .key => .ok (⟨.mappingStart .none, t.start⟩, g.skip.expect (.pairKey opened))
    | .flowSequenceEnd => close g t
    | _ => (g.push (.flowEntry opened false)).node false false
  if t.value == .flowSequenceEnd then close g t
  else if first then entry g t
  else if t.value == .flowEntry then entry g.skip (← g.skip.peek)
  else fail .noSequenceSeparator t.start (some (.flowSequence, opened))

def pairKey (g : Grammar) (opened : Mark) : Step := do
  let t ← g.peek
  match t.value with
  | .value | .flowEntry | .flowSequenceEnd => (g.skip.expect (.pairValue opened)).emptyScalar t.stop
  | _ => (g.push (.pairValue opened)).node false false

def pairValue (g : Grammar) (opened : Mark) : Step := do
  let t ← g.peek
  if t.value == .value then
    let u ← g.skip.peek
    if u.value == .flowEntry || u.value == .flowSequenceEnd then
      (g.skip.expect (.pairEnd opened)).emptyScalar u.start
    else (g.skip.push (.pairEnd opened)).node false false
  else (g.expect (.pairEnd opened)).emptyScalar t.start

def pairEnd (g : Grammar) (opened : Mark) : Step := do
  let t ← g.peek
  .ok (⟨.mappingEnd, t.start⟩, g.expect (.flowEntry opened false))

def flowKey (g : Grammar) (opened : Mark) (first : Bool) : Step := do
  let t ← g.peek
  let close (g : Grammar) (t : Located Token) : Step := .ok (⟨.mappingEnd, t.start⟩, g.skip.pop)
  let entry (g : Grammar) (t : Located Token) : Step :=
    match t.value with
    | .key => do
      let g := g.skip
      let u ← g.peek
      if u.value == .value || u.value == .flowEntry || u.value == .flowMappingEnd then
        (g.expect (.flowValue opened)).emptyScalar u.start
      else (g.push (.flowValue opened)).node false false
    | .flowMappingEnd => close g t
    | _ => (g.push (.flowNoValue opened)).node false false
  if t.value == .flowMappingEnd then close g t
  else if first then entry g t
  else if t.value == .flowEntry then entry g.skip (← g.skip.peek)
  else fail .noMappingSeparator t.start (some (.flowMapping, opened))

def flowValue (g : Grammar) (opened : Mark) : Step := do
  let t ← g.peek
  if t.value == .value then
    let u ← g.skip.peek
    if u.value == .flowEntry || u.value == .flowMappingEnd then
      (g.skip.expect (.flowKey opened false)).emptyScalar u.start
    else (g.skip.push (.flowKey opened false)).node false false
  else (g.expect (.flowKey opened false)).emptyScalar t.start

/-- The token that opened a collection, and the rest. -/
def opening (g : Grammar) : Except (Option SyntaxError) (Mark × Grammar) := do
  let t ← g.peek
  .ok (t.start, g.skip)

def step (g : Grammar) : Step :=
  match g.state with
  | .documentStart implicit => g.documentStart implicit
  | .documentContent => g.documentContent
  | .documentEnd => g.documentEnd
  | .blockNode => g.node true false
  | .blockFirstEntry => do
    let (m, g) ← g.opening
    g.blockEntry m
  | .blockEntry m => g.blockEntry m
  | .indentlessEntry => g.indentlessEntry
  | .blockFirstKey => do
    let (m, g) ← g.opening
    g.blockKey m
  | .blockKey m => g.blockKey m
  | .blockValue m => g.blockValue m
  | .flowFirstEntry => do
    let (m, g) ← g.opening
    g.flowEntry m true
  | .flowEntry m first => g.flowEntry m first
  | .pairKey m => g.pairKey m
  | .pairValue m => g.pairValue m
  | .pairEnd m => g.pairEnd m
  | .flowFirstKey => do
    let (m, g) ← g.opening
    g.flowKey m true
  | .flowKey m first => g.flowKey m first
  | .flowValue m => g.flowValue m
  | .flowNoValue m => do
    let t ← g.peek
    (g.expect (.flowKey m false)).emptyScalar t.start

/-- The events up to the end of the text or the first error; `fuel` bounds their number. -/
def run : Nat → Grammar → List Marked × Option SyntaxError
  | 0, _ => ([], some ⟨.unfinished, .start, none, 0⟩)
  | fuel + 1, g =>
    match g.step with
    | .error e => ([], e)
    | .ok (e, g) =>
      let (rest, failure) := run fuel g
      (e :: rest, failure)

end Grammar

def eventsOf (tokens : List (Located Token)) (failure : Option SyntaxError) :
    List Marked × Option SyntaxError :=
  Grammar.run (4 * tokens.length + 8) (Grammar.start tokens failure)

end YamlInclude.Yaml
