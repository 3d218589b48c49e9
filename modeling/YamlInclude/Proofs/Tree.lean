import YamlInclude.FileTree.Walk
import YamlInclude.Proofs.Target

/-! # Well-formed trees

In a tree that stands for a file system every entry has a name that a path can hold, and the names of a
directory are in their order.
-/

namespace YamlInclude

namespace Entry

/-- Whether all directories of an entry hold names of paths in their order. -/
inductive WellFormed : Entry → Prop
  | file (c : Content) (executable : Bool) : WellFormed (.file c executable)
  | link (target : Path) : WellFormed (.link target)
  | directory {es : List (Name × Entry)} (names : ∀ e ∈ es, Path.IsName e.1)
      (ordered : es.Pairwise fun a b => a.1 < b.1) (below : ∀ e ∈ es, e.2.WellFormed) :
      WellFormed (.directory es)

variable {e : Entry} {es : List (Name × Entry)} {n : Name} {l : Location}

theorem mem_of_lookup (h : es.lookup n = some e) : (n, e) ∈ es := by
  obtain ⟨before, after, rfl, -⟩ := List.lookup_eq_some_iff.mp h
  exact List.mem_append_right _ List.mem_cons_self

theorem WellFormed.at? {e' : Entry} (h : e.WellFormed) (hat : e.at? l = some e') : e'.WellFormed := by
  induction l generalizing e with
  | nil =>
    cases hat
    exact h
  | cons n l ih =>
    cases h with
    | file => exact nomatch hat
    | link => exact nomatch hat
    | @directory es _ _ below =>
      obtain ⟨e₁, he₁, hat⟩ := Option.bind_eq_some_iff.mp hat
      exact ih (below _ (mem_of_lookup he₁)) hat

end Entry

namespace FileTree

/-- Whether a tree can stand for a file system. -/
def WellFormed (t : FileTree) : Prop := t.root.WellFormed

variable {t : FileTree} {cwd l : Location} {p : Path} {e : Entry} {followLast : Bool}

theorem find_ok_iff : t.find cwd p = .ok (l, e) ↔ t.walk true cwd p = .ok l ∧ t.at? l = some e := by
  constructor
  · intro h
    obtain ⟨l', hwalk, h⟩ := bind_ok h
    split at h
    next he =>
      cases h
      exact ⟨hwalk, he⟩
    · exact nomatch h
  · rintro ⟨hwalk, he⟩
    simp only [find, hwalk, bind, Except.bind, he]

def contentOf? (t : FileTree) (cwd : Location) (p : Path) : Option Content :=
  match t.find cwd p with
  | .ok (_, .file c _) => some c
  | _ => none

theorem contentOf?_eq_some_iff {c : Content} :
    t.contentOf? cwd p = some c ↔ ∃ l x, t.find cwd p = .ok (l, .file c x) := by
  unfold contentOf?
  cases t.find cwd p with
  | error e => simp
  | ok found =>
    obtain ⟨l, e⟩ := found
    cases e <;> simp

theorem exists_walkFrom (t : FileTree) (followLast : Bool) (links : Nat) :
    ∃ follow, t.walkWithin followLast links = t.walkFrom followLast follow := by
  cases links <;> exact ⟨_, rfl⟩

/-- Whether the text of a path keeps within the limits of walks. -/
structure Walkable (p : Path) : Prop where
  nonempty : p.chars ≠ []
  noNul : p.chars.contains (Char.ofNat 0) = false
  short : byteCount p.chars ≤ maxPath

theorem walk_ok_iff : t.walk followLast cwd p = .ok l ↔
    Walkable p ∧ t.walkWithin followLast maxLinks p.body (if p.isAbsolute then [] else cwd) = .ok l := by
  constructor
  · intro h
    unfold walk at h
    split at h
    · exact nomatch h
    next hempty =>
      split at h
      · exact nomatch h
      next hnul =>
        split at h
        · exact nomatch h
        next hshort =>
          refine ⟨⟨?_, Bool.eq_false_iff.mpr hnul, not_lt.mp hshort⟩, h⟩
          intro hnil
          exact hempty (by rw [hnil]; rfl)
  · rintro ⟨⟨hempty, hnul, hshort⟩, h⟩
    rw [walk, if_neg (by simpa using hempty), hnul, if_neg Bool.false_ne_true, if_neg (not_lt.mpr hshort), h]

end FileTree

end YamlInclude
