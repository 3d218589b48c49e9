import YamlInclude.Path.Basic

/-! # Normal paths

Dots are folded without a look at any file: `..` takes away the name before it, stays at the start
of a relative path, and goes away at the root.
-/

namespace YamlInclude

namespace Path

/-- One segment after the folded ones, which come last first. -/
def foldSegment (absolute : Bool) (done : List (List Char)) (segment : List Char) : List (List Char) :=
  if isVoid segment then done
  else if segment = ['.', '.'] then
    match done with
    | s :: rest => if s = ['.', '.'] then segment :: done else rest
    | [] => if absolute then [] else [segment]
  else segment :: done

def foldSegments (absolute : Bool) (segments : List (List Char)) : List (List Char) :=
  (segments.foldl (foldSegment absolute) []).reverse

def normalize (p : Path) : Path :=
  match p.isAbsolute, foldSegments p.isAbsolute p.body with
  | false, [] => ofChars ['.']
  | absolute, segments => ofSegments absolute segments

def absolutize (p cwd : Path) : Path := if p.isAbsolute then p.normalize else (cwd.join p).normalize

end Path

end YamlInclude
