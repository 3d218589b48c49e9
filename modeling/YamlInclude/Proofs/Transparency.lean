import YamlInclude.Proofs.Context
import YamlInclude.Proofs.Equality
import YamlInclude.Proofs.Invariant
import YamlInclude.Proofs.Position

/-! # Transparency of includes

An include node gives way to the value of its file, as that file loads on its own. The file around it
then expands merge keys once more, so merge keys that the load of the inner file has left go away.
-/

namespace YamlInclude

open Yaml Traced LoadState

namespace Loader

variable {l : Loader} {a b : Path} {p : List Value.Step} {s : LoadState} {raw text : String}
  {n m : Nat} {v w : Value}

/-- Whether file `a` holds one document with one tagged node, which stands at position `p`, outside of
keys and merge keys, and includes the whole of file `b`. -/
def IncludesAt (l : Loader) (a b : Path) (p : List Value.Step) : Prop :=
  ∃ text v t u raw, l.source.read a = .ok text ∧ values text = [.ok v] ∧
    v.taggedNodes = [(t, u)] ∧ v.At p (.tagged t u) ∧ Value.Step.unmerged p ∧
    includeText? t u = some raw ∧ (Reference.parse raw).anchor = none ∧ l.target raw a = b

theorem follow_whole (hl : l.tags = .empty) (hb : l.source.read b = .ok text)
    (hv : (l.loadWithin m text (.root b)).result = .ok [v]) (hnm : n ≤ m)
    (htarget : l.target raw s.file = b) (hwhole : (Reference.parse raw).anchor = none)
    (hw : (l.follow (l.loadWithin n) raw s).result = .ok w) : w = v := by
  obtain ⟨inner, text', henter, hread, hasked⟩ := follow_ok hw
  rw [htarget] at henter hread
  obtain rfl : text' = text := Except.ok.inj (hread.symm.trans hb)
  rw [hwhole] at hasked
  obtain ⟨vs, hvs, hone⟩ := single_ok hasked
  obtain ⟨-, rfl⟩ := enter_ok_iff.mp henter
  have hvs := (loadWithin_follows hl (s.within_root b) hnm text').eq_of_ok hvs
  rw [hv] at hvs
  obtain rfl := Except.ok.inj hvs
  obtain ⟨h, -⟩ | h := hone
  · cases h
  · exact (List.singleton_inj.mp h).symm

theorem loadFile_of_values {node : Value} (hread : l.source.read (a.absolutize l.cwd) = .ok text)
    (hvalues : values text = [.ok node]) (ha : (l.loadFile a).result = .ok [w]) :
    ∃ r, (resolveValue (l.onTag (l.loadWithin l.source.extent) (.root (a.absolutize l.cwd))) node).result = .ok r ∧
      r.expandMerges = .ok w := by
  obtain ⟨text', hread', hload⟩ := loadFile_ok ha
  obtain rfl : text' = text := Except.ok.inj (hread'.symm.trans hread)
  exact (loadWithin_single_iff hvalues).mp hload

end Loader

/-- At the position of an include node stands the value of the file with its merge keys expanded once
more, which is the value itself exactly if it has no merge keys. -/
theorem include_value_iff {l : Loader} {a b : Path} {p : List Value.Step} {v w : Value}
    (hl : l.tags = .empty) (h : l.IncludesAt (a.absolutize l.cwd) (b.absolutize l.cwd) p)
    (hb : (l.loadFile b).result = .ok [v]) (ha : (l.loadFile a).result = .ok [w]) :
    (∃ x, v.expandMerges = .ok x ∧ w.At p x) ∧ (w.At p v ↔ v.mergeFree = true) := by
  obtain ⟨text, node, t, u, raw, hread, hvalues, hone, hat, hp, hraw, hwhole, htarget⟩ := h
  obtain ⟨textb, hreadb, hloadb⟩ := Loader.loadFile_ok hb
  obtain ⟨r, hresolve, hexpand⟩ := Loader.loadFile_of_values hread hvalues ha
  obtain ⟨_, x, hx, hrat⟩ := Loader.resolveValue_at hat (by rw [hone]; exact Nat.le_refl 1)
    (values_distinctKeys hvalues) hresolve
  rw [Loader.onTag_of_includeText? hraw] at hx
  obtain rfl := Loader.follow_whole (s := .root (a.absolutize l.cwd)) (m := l.source.extent + 1) hl hreadb
    hloadb (Nat.le_succ _) htarget hwhole hx
  obtain ⟨y, hy, hwat⟩ := Merge.expandWithin_at hrat hp (Nat.le_refl _) hexpand
  refine ⟨⟨y, hy, hwat⟩, fun hv => ?_, fun hfree => ?_⟩
  · obtain rfl := hv.unique hwat
    exact Value.expandMerges_eq_self_iff.mp hy
  · obtain rfl := Except.ok.inj (hy.symm.trans (Value.expandMerges_eq_self_iff.mpr hfree))
    exact hwat

def FileSet.pair (a b : String) : FileSet := ⟨[(⟨"/a.yml"⟩, a), (⟨"/b.yml"⟩, b)]⟩

/-- A file whose own merge key was expanded when it was loaded stands in an item as it is. -/
theorem include_value_in_item :
    let l := (FileSet.pair "i: [z, !include b.yml]\n" "<<: {x: p}\ny: q\n").loader true none ⟨"/"⟩
    let v := Value.mapping [(.string "y", .string "q"), (.string "x", .string "p")]
    (l.loadFile ⟨"/b.yml"⟩).result = .ok [v] ∧
      (Value.mapping [(.string "i", .sequence [.string "z", v])]).At [.field (.string "i"), .item 1] v := by
  intro l v
  have hb : (l.loadFile ⟨"/b.yml"⟩).result = .ok [v] := by decide +kernel
  have ha : (l.loadFile ⟨"/a.yml"⟩).result = .ok [.mapping [(.string "i", .sequence [.string "z", v])]] := by
    decide +kernel
  have hat : l.IncludesAt ((⟨"/a.yml"⟩ : Path).absolutize l.cwd) ((⟨"/b.yml"⟩ : Path).absolutize l.cwd)
      [.field (.string "i"), .item 1] := by
    refine ⟨"i: [z, !include b.yml]\n",
      .mapping [(.string "i", .sequence [.string "z", .tagged "include" (.string "b.yml")])],
      "include", .string "b.yml", "b.yml", by decide +kernel, by decide +kernel, rfl, ?_, ?_,
      by decide +kernel, by decide +kernel, by decide +kernel⟩
    · exact .single (.item rfl (.here _))
    · rintro k hk
      obtain rfl : k = .string "i" := by simpa using hk
      decide +kernel
  exact ⟨hb, (include_value_iff rfl hat hb ha).2.mpr (by decide +kernel)⟩

/-- An alias under a merge key brings in a mapping that still has its own merge key, which the file
itself keeps and the file around it expands. -/
theorem include_value_changes :
    let l := (FileSet.pair "i: !include b.yml\n" "base: &b\n  <<: {x: p}\n  y: q\ntop:\n  <<: *b\n").loader
      true none ⟨"/"⟩
    ∃ v w, l.IncludesAt ⟨"/a.yml"⟩ ⟨"/b.yml"⟩ [.field (.string "i")] ∧
      (l.loadFile ⟨"/b.yml"⟩).result = .ok [v] ∧ (l.loadFile ⟨"/a.yml"⟩).result = .ok [w] ∧
      ¬ w.At [.field (.string "i")] v := by
  intro l
  let inner (top : Value) := Value.mapping
    [(.string "base", .mapping [(.string "y", .string "q"), (.string "x", .string "p")]), (.string "top", top)]
  let left := Value.mapping [(.string "<<", .mapping [(.string "x", .string "p")]), (.string "y", .string "q")]
  let merged := Value.mapping [(.string "y", .string "q"), (.string "x", .string "p")]
  refine ⟨inner left, .mapping [(.string "i", inner merged)], ?_, by decide +kernel, by decide +kernel, ?_⟩
  · refine ⟨"i: !include b.yml\n", .mapping [(.string "i", .tagged "include" (.string "b.yml"))],
      "include", .string "b.yml", "b.yml", by decide +kernel, by decide +kernel, rfl, ?_, ?_,
      by decide +kernel, by decide +kernel, by decide +kernel⟩
    · exact .single (.here _)
    · rintro k hk
      obtain rfl : k = .string "i" := by simpa using hk
      decide +kernel
  · intro hat
    have hmerged : (Value.mapping [(.string "i", inner merged)]).At [.field (.string "i")] (inner merged) :=
      .single (.here _)
    exact absurd (hat.unique hmerged) (by decide +kernel)

end YamlInclude
