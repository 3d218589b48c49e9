import YamlInclude.Proofs.Consulted
import YamlInclude.Proofs.Equality
import YamlInclude.Proofs.Merge
import YamlInclude.Proofs.Position

/-! # Texts without tags and merge keys

What has no tagged nodes and no merge keys is loaded as it is read, and a document that cannot be read ends the load.
Nothing but the text itself is looked at.
-/

namespace YamlInclude

open Yaml Traced

/-- Whether a value has no tagged nodes, in keys and values alike, and outside of keys no mapping with a merge key. -/
def Yaml.Value.IsPlain (v : Value) : Prop := v.taggedNodes = [] ∧ v.mergeFree = true

instance (v : Value) : Decidable v.IsPlain := inferInstanceAs (Decidable (_ ∧ _))

namespace Loader

variable {l : Loader} {load : LoadText} {s : LoadState} {d : Document} {v : Value}

theorem loadDocument_of_plain (hd : d.value = .ok v) (hv : v.IsPlain) : l.loadDocument load s d = pure v := by
  rw [loadDocument, hd]
  simp only [Except.mapError, ofExcept_ok, pure_bind]
  rw [resolveValue_eq_pure _ v hv.1 (Document.value_distinctKeys hd), pure_bind,
    Value.expandMerges_eq_self_iff.mpr hv.2]
  rfl

theorem loadDocument_of_error {e : Yaml.Error} (hd : d.value = .error e) :
    l.loadDocument load s d = fail (.parse s.file e) := by
  rw [loadDocument, hd]
  rfl

section Each

variable {one : Document → Traced Value} {before after : List Document} {vs : List Value} {e : LoadError}

theorem loadEach_eq_pure (h : List.Forall₂ (fun d v => one d = pure v) before vs) :
    loadEach one before = pure vs := by
  induction h with
  | nil => rfl
  | cons hv _ ih => rw [loadEach, hv, pure_bind, ih, pure_bind]

theorem loadEach_eq_fail (h : List.Forall₂ (fun d v => one d = pure v) before vs) (hd : one d = fail e) :
    loadEach one (before ++ d :: after) = fail e := by
  induction h with
  | nil => rw [List.nil_append, loadEach, hd, fail_bind]
  | cons hv _ ih => rw [List.cons_append, loadEach, hv, pure_bind, ih, fail_bind]

end Each

theorem forall₂_loadDocument_of_plain {ds : List Document} {vs : List Value} (hvs : ∀ v ∈ vs, v.IsPlain)
    (hds : ds.map Document.value = vs.map .ok) :
    List.Forall₂ (fun d v => l.loadDocument load s d = pure v) ds vs := by
  rw [← List.forall₂_eq_eq_eq, List.forall₂_map_left_iff, List.forall₂_map_right_iff] at hds
  induction hds with
  | nil => exact .nil
  | cons hd _ ih =>
    obtain ⟨hv, hvs⟩ := List.forall_mem_cons.mp hvs
    exact .cons (loadDocument_of_plain hd hv) (ih hvs)

end Loader

/-- A text of plain documents loads as these documents, in their order, and one with a document that cannot be read
after plain ones fails for that document. No text but this one is parsed, whatever the source holds. -/
theorem plain_text_loads_as_read (l : Loader) (text : String) (path : Path) {vs : List Value}
    (hvs : ∀ v ∈ vs, v.IsPlain) :
    let file := path.absolutize l.cwd
    let gives (r : Except LoadError (List Value)) : Prop :=
      ∀ src : Source, (l.withSource src).loadString text path = ⟨[.parsed (.root file)], r⟩
    (values text = vs.map .ok → gives (.ok vs)) ∧
      ∀ e rest, values text = vs.map .ok ++ .error e :: rest → gives (.error (.parse file e)) := by
  intro file gives
  have hload (src : Source) : (l.withSource src).loadString text path = (do
      Traced.note (.parsed (.root file))
      Loader.loadEach ((l.withSource src).loadDocument ((l.withSource src).loadWithin src.extent) (.root file))
        (documents text)) := rfl
  refine ⟨fun hvalues src => ?_, fun e rest hvalues src => ?_⟩
  · rw [hload, Loader.loadEach_eq_pure (Loader.forall₂_loadDocument_of_plain hvs hvalues)]
    rfl
  · obtain ⟨before, tail, hdocs, hbefore, htail⟩ := List.map_eq_append_iff.mp hvalues
    obtain ⟨d, after, rfl, hd, -⟩ := List.map_eq_cons_iff.mp htail
    rw [hload, hdocs, Loader.loadEach_eq_fail (Loader.forall₂_loadDocument_of_plain hvs hbefore)
      (Loader.loadDocument_of_error hd)]
    rfl

/-- Two documents, the first one with a list for a key, are loaded as they are read; a key that comes twice in a third
one is the error of the load. -/
theorem composite_key_loads_as_read :
    let text := "? [a, {b: c}]\n: {d: [x, ~]}\n---\n- z\n"
    let twice := text ++ "---\nk: v\nk: w\n"
    let l := (FileSet.mk []).loader true none ⟨"/"⟩
    let vs := [.mapping [(.sequence [.string "a", .mapping [(.string "b", .string "c")]],
      .mapping [(.string "d", .sequence [.string "x", .null])])], Value.sequence [.string "z"]]
    let e := Yaml.Error.value (.duplicateKey (.string "k")) [] ⟨40, 5, 0⟩
    (∀ v ∈ vs, v.IsPlain) ∧ values text = vs.map .ok ∧ values twice = vs.map .ok ++ [.error e] ∧
      l.loadString text ⟨"a.yml"⟩ = ⟨[.parsed (.root ⟨"/a.yml"⟩)], .ok vs⟩ ∧
      l.loadString twice ⟨"a.yml"⟩ = ⟨[.parsed (.root ⟨"/a.yml"⟩)], .error (.parse ⟨"/a.yml"⟩ e)⟩ := by
  intro text twice l vs e
  have hvs : ∀ v ∈ vs, v.IsPlain := by decide +kernel
  have hfile : (⟨"a.yml"⟩ : Path).absolutize l.cwd = ⟨"/a.yml"⟩ := by decide +kernel
  have htext : values text = vs.map .ok := by decide +kernel
  have htwice : values twice = vs.map .ok ++ [.error e] := by decide +kernel
  have hload := (plain_text_loads_as_read l text ⟨"a.yml"⟩ hvs).1 htext l.source
  have hfails := (plain_text_loads_as_read l twice ⟨"a.yml"⟩ hvs).2 e [] htwice l.source
  rw [hfile] at hload hfails
  exact ⟨hvs, htext, htwice, hload, hfails⟩

end YamlInclude
