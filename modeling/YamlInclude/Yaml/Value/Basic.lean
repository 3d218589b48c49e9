import YamlInclude.Number.Basic

/-! # YAML values

The data of a document. A mapping is a list of entries in order; the reader lets no key in twice.
-/

namespace YamlInclude.Yaml

inductive Value where
  | null
  | bool (b : Bool)
  | number (n : Number)
  | string (s : String)
  | sequence (items : List Value)
  | mapping (entries : List (Value × Value))
  | tagged (tag : String) (content : Value)

abbrev Entries := List (Value × Value)

namespace Value

mutual

/-- Equality of keys: mappings are compared without order. -/
def same : Value → Value → Bool
  | null, null => true
  | bool a, bool b => a == b
  | number a, number b => a.same b
  | string a, string b => a == b
  | sequence a, sequence b => sameItems a b
  | mapping a, mapping b => a.length == b.length && sameEntries a b
  | tagged s a, tagged t b => s == t && same a b
  | _, _ => false

def sameItems : List Value → List Value → Bool
  | [], [] => true
  | v :: vs, w :: ws => same v w && sameItems vs ws
  | _, _ => false

/-- Whether every entry of the first mapping is in the second one. -/
def sameEntries : List (Value × Value) → List (Value × Value) → Bool
  | [], _ => true
  | (k, v) :: es, b => b.any (fun e => same k e.1 && same v e.2) && sameEntries es b

end

mutual

/-- How deep collections and tags nest. -/
def depth : Value → Nat
  | sequence vs => depthItems vs + 1
  | mapping es => depthEntries es + 1
  | tagged _ v => depth v + 1
  | _ => 0

def depthItems : List Value → Nat
  | [] => 0
  | v :: vs => max (depth v) (depthItems vs)

def depthEntries : List (Value × Value) → Nat
  | [] => 0
  | (k, v) :: es => max (max (depth k) (depth v)) (depthEntries es)

end

/-- The name of a tag as it is written, with its exclamation mark. -/
def tagText (tag : String) : String := "!" ++ tag

/-- The tag name of a text: one exclamation mark at its start goes, unless nothing else is there. -/
def tagOfText (s : String) : String :=
  match s.toList with
  | '!' :: c :: cs => String.ofList (c :: cs)
  | _ => s

end Value

namespace Entries

def get? (k : Value) (es : Entries) : Option Value :=
  (List.find? (fun e => k.same e.1) es).map (·.2)

def contains (k : Value) (es : Entries) : Bool := es.any fun e => k.same e.1

/-- Gives a key its value, in its place if it is there and at the end otherwise. -/
def insert (k v : Value) : Entries → Entries
  | [] => [(k, v)]
  | e :: es => if k.same e.1 then (e.1, v) :: es else e :: insert k v es

/-- Adds an entry at the end unless its key is there. -/
def insertNew (es : Entries) (k v : Value) : Entries := if es.contains k then es else es ++ [(k, v)]

/-- Takes out the entry with a key; the last entry moves into its place. -/
def swapRemove (k : Value) (es : Entries) : Option (Value × Entries) :=
  match es.findIdx? fun e => k.same e.1 with
  | none => none
  | some i =>
    match es[i]?, es.getLast? with
    | some e, some last => some (e.2, if i + 1 = es.length then es.dropLast else es.dropLast.set i last)
    | _, _ => none

end Entries

end YamlInclude.Yaml
