import YamlInclude.Include.Reference
import YamlInclude.Include.Anchor
import YamlInclude.Include.Target
import YamlInclude.Include.Tag
import YamlInclude.Yaml.Document
import YamlInclude.Yaml.Merge

/-! # Loading files

The documents of a text are read one by one. In each, tagged nodes give way to their values and merge
keys are expanded. An include node gives way to what loading its file gives; a file that is already
being loaded is refused, so includes nest no deeper than there are files.
-/

namespace YamlInclude

/-- What a load depends on besides the text. -/
structure Loader where
  source : Source
  tags : TagRegistry TagConstructor
  /-- Whether a missing anchor is an error; otherwise it stands for null. -/
  strictAnchors : Bool
  /-- The directory of references that start with a slash, the working directory if there is none. -/
  rootDir : Option Path
  cwd : Path

namespace Loader

open Yaml

/-- What becomes of a tagged node, whose content it resolves on demand. -/
abbrev OnTag := String → Value → (Unit → Traced Value) → Traced Value

mutual

/-- A value with all tagged nodes replaced, in the order in which they stand. -/
def resolveValue (onTag : OnTag) : Value → Traced Value
  | .sequence vs => do return .sequence (← resolveItems onTag vs)
  | .mapping es => do return .mapping (← resolveEntries onTag es [])
  | .tagged t v => onTag t v fun _ => resolveValue onTag v
  | v => pure v

def resolveItems (onTag : OnTag) : List Value → Traced (List Value)
  | [] => pure []
  | v :: vs => do
    let w ← resolveValue onTag v
    let ws ← resolveItems onTag vs
    return w :: ws

/-- Adds the entries to those resolved before; a key that is there again replaces the value. -/
def resolveEntries (onTag : OnTag) : List (Value × Value) → Entries → Traced Entries
  | [], done => pure done
  | (k, v) :: es, done => do
    let k ← resolveValue onTag k
    let v ← resolveValue onTag v
    resolveEntries onTag es (done.insert k v)

end

def root (l : Loader) : Path := (l.rootDir.getD ⟨"."⟩).absolutize l.cwd

def read (l : Loader) (p : Path) : Traced String :=
  .ofExcept ((l.source.read p).mapError (.read p))

abbrev LoadText := String → LoadState → Traced (List Value)

def single (load : LoadText) (text : String) (s : LoadState) : Traced Value := do
  match ← load text s with
  | [] => return .null
  | [v] => return v
  | vs => .fail (.multipleDocuments vs.length s.file)

/-- The value of an anchored node of a text. -/
def anchored (l : Loader) (load : LoadText) (text anchor : String) (s : LoadState) : Traced Value := do
  if Anchor.isDefined text anchor then
    let unfit := LoadError.anchorNotExtractable anchor s.file
    match ← single load (Anchor.splice text anchor) s with
    | .mapping es =>
      match Entries.swapRemove (.string Anchor.sentinel) es with
      | some (v, _) => return v
      | none => .fail unfit
    | _ => .fail unfit
  else if l.strictAnchors then .fail (.anchorNotFound anchor s.file)
  else
    Traced.note (.missedAnchor anchor s.file)
    return .null

/-- The value of a reference as seen from the file of a state. -/
def follow (l : Loader) (load : LoadText) (raw : String) (s : LoadState) : Traced Value := do
  let r := Reference.parse raw
  let target := Target.resolve r.path s.file l.root l.source.isFile
  let inner ← .ofExcept (s.enter target)
  Traced.note (.followed s.file target r.anchor inner.depth)
  let text ← l.read target
  match r.anchor with
  | none => single load text inner
  | some a => l.anchored load text a inner

def referenceText? : Value → Option String
  | .string s => some s
  | .number n => some (Scalar.numberText n)
  | .bool b => some (toString b)
  | _ => none

/-- The value of a tagged node in a state. -/
def onTag (l : Loader) (load : LoadText) (s : LoadState) : OnTag := fun t v resolved =>
  let name := tagName (Value.tagText t)
  if name = includeTag then
    match referenceText? v with
    | some raw => l.follow load raw s
    | none => .fail (.invalidReference s.file)
  else match l.tags.get? name with
    | none => .fail (.unknownTag name s.file)
    | some construct => construct ⟨name, s.file, t, v, resolved, fun raw => l.follow load raw s⟩

def loadDocument (l : Loader) (load : LoadText) (s : LoadState) (d : Document) : Traced Value := do
  let raw ← .ofExcept (d.value.mapError (.parse s.file))
  let v ← resolveValue (l.onTag load s) raw
  .ofExcept (v.expandMerges.mapError fun f => .parse s.file (.merge f))

/-- The documents of a text, in order, each one loaded before the next one is looked at. -/
def loadEach (one : Document → Traced Value) : List Document → Traced (List Value)
  | [] => pure []
  | d :: ds => do
    let v ← one d
    let vs ← loadEach one ds
    return v :: vs

/-- The documents of a text, with at most `levels` texts inside each other. -/
def loadWithin (l : Loader) : Nat → LoadText
  | 0, _, s => .fail (.nestedTooDeep s.file)
  | levels + 1, text, s => do
    Traced.note (.parsed s)
    loadEach (l.loadDocument (l.loadWithin levels) s) (documents text)

def loadText (l : Loader) : LoadText := l.loadWithin (l.source.extent + 1)

def loadString (l : Loader) (text : String) (path : Path) : Traced (List Value) :=
  l.loadText text (.root (path.absolutize l.cwd))

def loadFile (l : Loader) (path : Path) : Traced (List Value) := do
  let file := path.absolutize l.cwd
  let text ← l.read file
  l.loadText text (.root file)

end Loader

end YamlInclude
