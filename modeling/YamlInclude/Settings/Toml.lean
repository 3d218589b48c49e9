import YamlInclude.Settings.Basic
import YamlInclude.Toml.Document

/-! # Settings in TOML

Unknown fields are passed over. A field of the wrong type is an error at its value, or at its key where
the value was never written out.
-/

namespace YamlInclude.Settings

open Toml (Node)

/-- Offsets of errors. -/
abbrev Decoded (α : Type) := Except Nat α

def readString : Node → Option String
  | .string s => some s
  | _ => none

def readBool : Node → Option Bool
  | .boolean b => some b
  | _ => none

def readNatural : Node → Option Nat
  | .integer n => if 0 ≤ n then some n.toNat else none
  | _ => none

def readPath (n : Node) : Option Path := (readString n).map Path.mk

def readCommand : Node → Option TagCommand
  | .string s => some (.program s)
  | .array items => (items.mapM readString).map .words
  | _ => none

/-- Where the value of an entry is wrong. -/
def placeOf (e : Toml.Key × Option Nat × Node) : Nat := e.2.1.getD e.1.start

def decode (read : Node → Option α) (e : Toml.Key × Option Nat × Node) : Decoded α :=
  match read e.2.2 with
  | some a => .ok a
  | none => .error (placeOf e)

def decodeCommands (e : Toml.Key × Option Nat × Node) : Decoded (List (String × TagCommand)) :=
  match e.2.2 with
  | .table _ es | .inlined _ es =>
    es.foldlM (fun acc e => do return TagRegistry.insertSorted e.1.name (← decode readCommand e) acc) []
  | _ => .error (placeOf e)

def decodeField (s : Settings) (e : Toml.Key × Option Nat × Node) : Decoded Settings :=
  match e.1.name with
  | "space" => do return { s with space := some (← decode readNatural e) }
  | "ignored" => do return { s with ignored := some (← decode readString e) }
  | "disable_dest" => do return { s with disableDest := some (← decode readBool e) }
  | "strict_anchors" => do return { s with strictAnchors := some (← decode readBool e) }
  | "out_dir" => do return { s with outDir := some (← decode readPath e) }
  | "root_dir" => do return { s with rootDir := some (← decode readPath e) }
  | "constructors" => do return { s with commands := ← decodeCommands e }
  | _ => .ok s

def parse (text : String) : Except Toml.Error Settings :=
  let cs := text.toList
  let result : Decoded Settings := do (← Toml.parse cs).foldlM decodeField empty
  result.mapError (Toml.Error.ofOffset cs)

end YamlInclude.Settings
