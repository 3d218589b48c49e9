import YamlInclude.Yaml.Error

/-! # Merge keys

The value under the key `<<` is a mapping or a list of mappings, whose entries become entries of the
mapping around it unless it has their keys. Each mapping is expanded once, before its own values.
-/

namespace YamlInclude.Yaml

namespace Merge

def key : Value := .string "<<"

/-- Adds the entries whose keys are not there yet. -/
def addEntries (es added : Entries) : Entries := added.foldl (fun acc e => acc.insertNew e.1 e.2) es

def addItems (es : Entries) : List Value → Except MergeFault Entries
  | [] => .ok es
  | .mapping added :: rest => addItems (addEntries es added) rest
  | .sequence _ :: _ => .error .sequenceElement
  | .tagged _ _ :: _ => .error .tagged
  | _ :: _ => .error .scalarElement

/-- A mapping with its merge key expanded; the last entry takes the place of that key. -/
def mergeEntries (es : Entries) : Except MergeFault Entries :=
  match es.swapRemove key with
  | none => .ok es
  | some (.mapping added, rest) => .ok (addEntries rest added)
  | some (.sequence items, rest) => addItems rest items
  | some (.tagged _ _, _) => .error .tagged
  | some (_, _) => .error .scalar

/-- The results of a list whose last fault is the one that counts. -/
def lastFirst (f : α → Except MergeFault β) : List α → Except MergeFault (List β)
  | [] => .ok []
  | a :: as => do
    let bs ← lastFirst f as
    let b ← f a
    .ok (b :: bs)

/-- Expands the merge keys of the mappings at most `depth` levels down. -/
def expandWithin : Nat → Value → Except MergeFault Value
  | 0, v => .ok v
  | depth + 1, v =>
    match v with
    | .mapping es => do
      let es ← mergeEntries es
      let es ← lastFirst (fun e => (expandWithin depth e.2).map fun w => (e.1, w)) es
      .ok (.mapping es)
    | .sequence vs => do .ok (.sequence (← lastFirst (expandWithin depth) vs))
    | .tagged t v => do .ok (.tagged t (← expandWithin depth v))
    | v => .ok v

end Merge

/-- Expands the merge keys of all mappings in a value that stand outside of keys. -/
def Value.expandMerges (v : Value) : Except MergeFault Value := Merge.expandWithin v.depth v

end YamlInclude.Yaml
