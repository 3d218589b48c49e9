import YamlInclude.Pattern.CharClass

/-! # Patterns

Regular expressions over the characters of a text. A pattern is matched by sets of positions: each
part leads from the positions where it may start to those where it may end.
-/

namespace YamlInclude

/-- Conditions on a position. -/
inductive Look where
  | textStart | textEnd | lineStart | lineEnd | wideLineStart | wideLineEnd
  | wordBoundary | notWordBoundary | wordStart | wordEnd | wordStartHalf | wordEndHalf
  deriving DecidableEq, Repr

namespace Look

/-- Whether a condition holds between two characters; at the ends of a text one is missing. -/
def holds (isWord : Char → Bool) (before after : Option Char) : Look → Bool
  | textStart => before.isNone
  | textEnd => after.isNone
  | lineStart => before.all (· == '\n')
  | lineEnd => after.all (· == '\n')
  | wideLineStart => before.all fun b => b == '\n' || (b == '\x0d' && after != some '\n')
  | wideLineEnd => after.all fun a => a == '\x0d' || (a == '\n' && before != some '\x0d')
  | wordBoundary => before.any isWord != after.any isWord
  | notWordBoundary => before.any isWord == after.any isWord
  | wordStart => !before.any isWord && after.any isWord
  | wordEnd => before.any isWord && !after.any isWord
  | wordStartHalf => !before.any isWord
  | wordEndHalf => !after.any isWord

end Look

inductive PatternNode where
  | empty
  | chars (c : CharClass)
  | look (ascii : Bool) (l : Look)
  | concat (parts : List PatternNode)
  | alternation (branches : List PatternNode)
  | repetition (least : Nat) (most : Option Nat) (part : PatternNode)
  | group (name : Option (List Char)) (part : PatternNode)

namespace PatternNode

/-- Positions in ascending order, without repetition. -/
abbrev Positions := List Nat

def union : Positions → Positions → Positions
  | ps, qs => qs.foldl (fun acc q => insert q acc) ps
where
  insert (q : Nat) : Positions → Positions
    | [] => [q]
    | p :: ps => if q = p then p :: ps else if q < p then q :: p :: ps else p :: insert q ps

/-- The positions after up to `most` steps. -/
def atMost (step : Positions → Positions) : Nat → Positions → Positions
  | 0, ps => ps
  | n + 1, ps =>
    let next := union ps (step ps)
    if next.length = ps.length then ps else atMost step n next

def exactly (step : Positions → Positions) : Nat → Positions → Positions
  | 0, ps => ps
  | n + 1, ps => if ps.isEmpty then [] else exactly step n (step ps)

mutual

/-- Where a part can end that starts at one of several positions. -/
def ends (text : List Char) : PatternNode → Positions → Positions
  | empty, ps => ps
  | chars c, ps => ps.filterMap fun p => if text[p]?.any c.contains then some (p + 1) else none
  | look ascii l, ps =>
    let isWord := if ascii then CharClass.asciiWord.contains else isWordChar
    ps.filter fun p => l.holds isWord (if p = 0 then none else text[p - 1]?) text[p]?
  | concat parts, ps => endsAll text parts ps
  | alternation branches, ps => endsAny text branches ps
  | repetition least most part, ps =>
    let start := exactly (ends text part) least ps
    let rounds := match most with
      | some m => min (m - least) (text.length + 1)
      | none => text.length + 1
    atMost (ends text part) rounds start
  | group _ part, ps => ends text part ps

def endsAll (text : List Char) : List PatternNode → Positions → Positions
  | [], ps => ps
  | part :: parts, ps => endsAll text parts (ends text part ps)

def endsAny (text : List Char) : List PatternNode → Positions → Positions
  | [], _ => []
  | part :: parts, ps => union (ends text part ps) (endsAny text parts ps)

end

mutual

def groupNames : PatternNode → List (List Char)
  | concat parts | alternation parts => groupNamesOf parts
  | repetition _ _ part => groupNames part
  | group name part => name.toList ++ groupNames part
  | _ => []

def groupNamesOf : List PatternNode → List (List Char)
  | [] => []
  | p :: ps => groupNames p ++ groupNamesOf ps

end

mutual

def depth : PatternNode → Nat
  | concat parts | alternation parts => depthOf parts + 1
  | repetition _ _ part | group _ part => depth part + 1
  | _ => 0

def depthOf : List PatternNode → Nat
  | [] => 0
  | p :: ps => max (depth p) (depthOf ps)

end

mutual

def size : PatternNode → Nat
  | concat parts | alternation parts => sizeOfAll parts + 1
  | repetition least most part => size part * max 1 (most.getD (least + 1)) + 1
  | group _ part => size part + 2
  | _ => 1

def sizeOfAll : List PatternNode → Nat
  | [] => 0
  | p :: ps => size p + sizeOfAll ps

end

end PatternNode

structure Pattern where
  text : String
  node : PatternNode

namespace Pattern

def isMatch (p : Pattern) (s : String) : Bool :=
  let text := s.toList
  !(p.node.ends text (List.range (text.length + 1))).isEmpty

end Pattern

end YamlInclude
