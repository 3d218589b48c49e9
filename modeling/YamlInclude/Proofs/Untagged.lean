import YamlInclude.Proofs.Equality
import YamlInclude.Proofs.Expansion

/-! # Full resolution

A load leaves no tagged node anywhere in its documents, in keys neither, if the constructors of the
other tags make none.
-/

namespace YamlInclude

open Yaml Traced

namespace Yaml

namespace Value

theorem untagged_sequence_iff {vs : List Value} :
    (sequence vs).taggedNodes = [] ↔ ∀ v ∈ vs, v.taggedNodes = [] := by
  rw [taggedNodes, taggedInItems_eq_flatMap, List.flatMap_eq_nil_iff]

theorem untagged_mapping_iff {es : List (Value × Value)} :
    (mapping es).taggedNodes = [] ↔ ∀ e ∈ es, e.1.taggedNodes = [] ∧ e.2.taggedNodes = [] := by
  rw [taggedNodes, taggedInEntries_eq_flatMap, List.flatMap_eq_nil_iff]
  simp only [List.append_eq_nil_iff]

end Value

theorem Entries.mem_insert {es : Entries} {k v : Value} {e : Value × Value} (h : e ∈ es.insert k v) :
    e ∈ es ∨ e = (k, v) ∨ ∃ f ∈ es, e = (f.1, v) := by
  induction es with
  | nil => exact Or.inr (Or.inl (List.mem_singleton.mp h))
  | cons f es ih =>
    unfold insert at h
    split at h
    · rcases List.mem_cons.mp h with rfl | h
      · exact Or.inr (Or.inr ⟨f, List.mem_cons_self, rfl⟩)
      · exact Or.inl (List.mem_cons_of_mem _ h)
    · rcases List.mem_cons.mp h with rfl | h
      · exact Or.inl List.mem_cons_self
      · obtain h | h | ⟨g, hg, h⟩ := ih h
        · exact Or.inl (List.mem_cons_of_mem _ h)
        · exact Or.inr (Or.inl h)
        · exact Or.inr (Or.inr ⟨g, List.mem_cons_of_mem _ hg, h⟩)

namespace Merge

variable {es es' added : Entries} {items : List Value} {e : Value × Value} {v w : Value}

theorem mem_addEntries (h : e ∈ addEntries es added) : e ∈ es ∨ e ∈ added := by
  obtain ⟨new, hsub, heq, -⟩ := addEntries_eq es added
  rw [heq] at h
  exact (List.mem_append.mp h).imp_right fun he => hsub.subset he

theorem mem_mergedItems_iff {m : Entries} : m ∈ mergedItems items ↔ .mapping m ∈ items := by
  simp only [mergedItems, List.mem_filterMap]
  constructor
  · rintro ⟨v, hv, h⟩
    split at h <;> cases h
    exact hv
  · exact fun h => ⟨_, h, rfl⟩

theorem mem_addItems (h : addItems es items = .ok es') (he : e ∈ es') :
    e ∈ es ∨ ∃ m ∈ mergedItems items, e ∈ m := by
  induction items generalizing es with
  | nil => exact Or.inl (Except.ok.inj h ▸ he)
  | cons v items ih =>
    cases v with
    | mapping added =>
      obtain he | ⟨m, hm, he⟩ := ih h
      · rcases mem_addEntries he with he | he
        · exact Or.inl he
        · exact Or.inr ⟨added, List.mem_cons_self, he⟩
      · exact Or.inr ⟨m, List.mem_cons_of_mem _ hm, he⟩
    | _ => cases h

theorem mem_mergeEntries (h : mergeEntries es = .ok es') (he : e ∈ es') :
    e ∈ es ∨ ∃ m ∈ mergedBy es, e ∈ m := by
  unfold mergeEntries at h
  cases hr : es.swapRemove key with
  | none =>
    rw [hr] at h
    exact Or.inl (Except.ok.inj h ▸ he)
  | some found =>
    obtain ⟨v, rest⟩ := found
    obtain ⟨k, -, hperm⟩ := Entries.swapRemove_perm hr
    have hrest (hmem : e ∈ rest) : e ∈ es := hperm.mem_iff.mpr (List.mem_cons_of_mem _ hmem)
    rw [mergedBy, get?_of_swapRemove hr]
    rw [hr] at h
    cases v with
    | mapping added =>
      obtain rfl := Except.ok.inj h
      exact (mem_addEntries he).imp hrest fun hadded => ⟨added, List.mem_singleton_self _, hadded⟩
    | sequence items => exact (mem_addItems h he).imp_left hrest
    | _ => cases h

theorem untagged_mergedBy (hes : (Value.mapping es).taggedNodes = []) {m : Entries} (hm : m ∈ mergedBy es) :
    (Value.mapping m).taggedNodes = [] := by
  have hvalue {u : Value} (hu : es.get? key = some u) : u.taggedNodes = [] := by
    obtain ⟨e, he, rfl⟩ := Option.map_eq_some_iff.mp hu
    exact (Value.untagged_mapping_iff.mp hes e (List.mem_of_find?_eq_some he)).2
  unfold mergedBy at hm
  split at hm
  next added hget =>
    obtain rfl := List.mem_singleton.mp hm
    exact hvalue hget
  next items hget => exact Value.untagged_sequence_iff.mp (hvalue hget) _ (mem_mergedItems_iff.mp hm)
  · cases hm

theorem untagged_mergeEntries (hes : (Value.mapping es).taggedNodes = []) (h : mergeEntries es = .ok es') :
    (Value.mapping es').taggedNodes = [] := by
  refine Value.untagged_mapping_iff.mpr fun e he => ?_
  obtain he | ⟨m, hm, he⟩ := mem_mergeEntries h he
  · exact Value.untagged_mapping_iff.mp hes e he
  · exact Value.untagged_mapping_iff.mp (untagged_mergedBy hes hm) e he

/-- Expansion moves and copies entries, and makes no tagged node. -/
theorem untagged_expandWithin {n : Nat} (hv : v.taggedNodes = []) (h : expandWithin n v = .ok w) :
    w.taggedNodes = [] := by
  induction n generalizing v w with
  | zero => exact Except.ok.inj h ▸ hv
  | succ n ih =>
    cases v with
    | mapping es =>
      obtain ⟨es₁, es₂, h₁, h₂, rfl⟩ := expandWithin_mapping_ok_iff.mp h
      have hes₁ := Value.untagged_mapping_iff.mp (untagged_mergeEntries hv h₁)
      refine Value.untagged_mapping_iff.mpr fun f hf => ?_
      obtain ⟨e, he, hkey, hexpand⟩ := Entries.exists_of_mem_right h₂ hf
      exact ⟨hkey ▸ (hes₁ e he).1, ih (hes₁ e he).2 hexpand⟩
    | sequence vs =>
      obtain ⟨ws, hws, rfl⟩ := expandWithin_sequence_ok_iff.mp h
      refine Value.untagged_sequence_iff.mpr fun w hw => ?_
      obtain ⟨v, hmem, hexpand⟩ := Entries.exists_of_mem_right hws hw
      exact ih (Value.untagged_sequence_iff.mp hv v hmem) hexpand
    | tagged t v => cases hv
    | _ => exact Except.ok.inj h ▸ hv

end Merge

end Yaml

theorem untagged_invariant : Loader.Invariant fun v => v.taggedNodes = [] where
  scalar {v} hv := by cases v <;> first | rfl | cases hv
  sequence h := Value.untagged_sequence_iff.mpr h
  empty := rfl
  insert {es k v} hes hk hv := by
    refine Value.untagged_mapping_iff.mpr fun e he => ?_
    obtain he | rfl | ⟨f, hf, rfl⟩ := Entries.mem_insert he
    · exact Value.untagged_mapping_iff.mp hes e he
    · exact ⟨hk, hv⟩
    · exact ⟨(Value.untagged_mapping_iff.mp hes f hf).1, hv⟩
  field h he := (Value.untagged_mapping_iff.mp h _ he).2
  expand h he := Merge.untagged_expandWithin h he

/-- No document of a load has a tagged node, if no constructor makes one out of contents and files that
have none. -/
theorem loaded_untagged {l : Loader} (hl : ∀ e ∈ l.tags.entries, e.2.Keeps fun v => v.taggedNodes = [])
    (p : Path) :
    (∀ ds, (l.loadFile p).result = .ok ds → ∀ d ∈ ds, d.taggedNodes = []) ∧
      ∀ text ds, (l.loadString text p).result = .ok ds → ∀ d ∈ ds, d.taggedNodes = [] := by
  constructor
  · intro ds h
    obtain ⟨text, -, h⟩ := Loader.loadFile_ok h
    exact untagged_invariant.loadWithin hl _ text _ ds h
  · intro text ds h
    exact untagged_invariant.loadWithin hl _ text _ ds h

def twice : TagConstructor := fun c => do
  let v ← c.resolved ()
  return .sequence [v, v]

theorem twice_keeps_untagged : twice.Keeps fun v => v.taggedNodes = [] := by
  intro c hresolved _ w hw
  obtain ⟨v, hv, hw⟩ := result_bind_ok_iff.mp hw
  obtain rfl := Except.ok.inj hw
  exact Value.untagged_sequence_iff.mpr (by simpa using hresolved v hv)

/-- Tagged nodes in a key, in a merged mapping, and in a node that is taken out for one more tagged node. -/
theorem keys_and_merges_untagged :
    let files := FileSet.mk [(⟨"/a.yml"⟩, "? [!include k.yml]\n: !twice {x: !include b.yml *n}\n<<: !include d.yml\n"),
      (⟨"/b.yml"⟩, "m: &n {y: !include k.yml}\n"), (⟨"/d.yml"⟩, "z: !twice q\n"), (⟨"/k.yml"⟩, "k\n")]
    let l := { files.loader true none ⟨"/"⟩ with tags := ⟨[("!twice", twice)]⟩ }
    let m := Value.mapping [(.string "x", .mapping [(.string "y", .string "k")])]
    let d := Value.mapping [(.sequence [.string "k"], .sequence [m, m]),
      (.string "z", .sequence [.string "q", .string "q"])]
    (l.loadFile ⟨"/a.yml"⟩).result = .ok [d] ∧ d.taggedNodes = [] := by
  intro files l m d
  have h : (l.loadFile ⟨"/a.yml"⟩).result = .ok [d] := by decide +kernel
  have hl : ∀ e ∈ l.tags.entries, e.2.Keeps fun v => v.taggedNodes = [] :=
    List.forall_mem_singleton.mpr twice_keeps_untagged
  exact ⟨h, (loaded_untagged hl ⟨"/a.yml"⟩).1 [d] h d (List.mem_singleton_self d)⟩

end YamlInclude
