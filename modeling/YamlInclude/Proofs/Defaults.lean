import YamlInclude.Proofs.Entrywise
import YamlInclude.Proofs.Invariant
import YamlInclude.Proofs.Lookup
import YamlInclude.Proofs.Unchanged
import YamlInclude.Proofs.Untagged

/-! # Merged defaults

A mapping that merges others has its own entries, and under every other key what the first of the merged
mappings has there. The merged mappings may come from other files: they are loaded before they are merged, and a
value that is no mapping is an error of the file that merges it.
-/

namespace YamlInclude

open Yaml Traced

namespace Yaml

namespace Entries

variable {es fs : Entries}

theorem get?_addEntries (es added : Entries) (k : Value) :
    get? k (Merge.addEntries es added) = (es.get? k).or (added.get? k) := by
  induction added generalizing es with
  | nil => exact (Option.or_none).symm
  | cons e added ih =>
    have hcons := get?_append [e] added k
    rw [List.singleton_append] at hcons
    rw [Merge.addEntries, List.foldl_cons, ← Merge.addEntries, ih, get?_insertNew, Option.or_assoc, hcons]

/-- The mapping with mappings merged into it has under each key what the first of them all has there. -/
theorem get?_foldl_addEntries (es : Entries) (ms : List Entries) (k : Value) :
    get? k (ms.foldl Merge.addEntries es) = (es :: ms).findSome? (get? k) := by
  induction ms generalizing es with
  | nil => cases h : es.get? k <;> simp [h]
  | cons m ms ih =>
    rw [List.foldl_cons, ih, List.findSome?_cons, get?_addEntries]
    cases h : es.get? k <;> simp [h, List.findSome?_cons]

/-- Whether a mapping has the keys of the given ones and no other, each key once and with what the first of them
has under it. -/
structure Overlay (ms : List Entries) (out : Entries) : Prop where
  distinct : out.Distinct
  mem : ∀ e ∈ out, ∃ m ∈ ms, e ∈ m
  get? : ∀ k, out.get? k = ms.findSome? (Entries.get? k)

theorem distinct_addEntries (hes : es.Distinct) (added : Entries) : (Merge.addEntries es added).Distinct := by
  induction added generalizing es with
  | nil => exact hes
  | cons e added ih =>
    refine ih ?_
    simp only [insertNew]
    split
    · exact hes
    next hnew =>
      refine List.pairwise_append.mpr ⟨hes, List.pairwise_singleton _ _, fun f hf g hg => ?_⟩
      obtain rfl := List.mem_singleton.mp hg
      exact List.any_eq_false.mp (Bool.eq_false_iff.mpr hnew) f hf |> Bool.eq_false_iff.mpr

theorem overlay_foldl (hes : es.Distinct) (ms : List Entries) :
    Overlay (es :: ms) (ms.foldl Merge.addEntries es) := by
  refine ⟨?_, ?_, get?_foldl_addEntries es ms⟩
  · induction ms generalizing es with
    | nil => exact hes
    | cons m ms ih => exact ih (distinct_addEntries hes m)
  · induction ms generalizing es with
    | nil => exact fun e he => ⟨es, List.mem_singleton_self _, he⟩
    | cons m ms ih =>
      intro e he
      obtain ⟨m', hm', he⟩ := ih (distinct_addEntries hes m) e he
      rcases List.mem_cons.mp hm' with rfl | hm'
      · rcases Merge.mem_addEntries he with he | he
        · exact ⟨es, List.mem_cons_self, he⟩
        · exact ⟨m, List.mem_cons_of_mem _ List.mem_cons_self, he⟩
      · exact ⟨m', List.mem_cons_of_mem _ (List.mem_cons_of_mem _ hm'), he⟩

theorem Overlay.of_perm {ms : List Entries} {out : Entries} (h : Overlay (fs :: ms) out)
    (hs : ∀ e ∈ es, e.1.isScalar = true) (hd : es.Distinct) (hp : es.Perm fs) : Overlay (es :: ms) out where
  distinct := h.distinct
  mem e he := by
    obtain ⟨m, hm, he⟩ := h.mem e he
    rcases List.mem_cons.mp hm with rfl | hm
    · exact ⟨es, List.mem_cons_self, hp.mem_iff.mpr he⟩
    · exact ⟨m, List.mem_cons_of_mem _ hm, he⟩
  get? k := by
    rw [h.get? k, List.findSome?_cons, List.findSome?_cons, get?_perm hs hp hd k]

end Entries

namespace Value

def mapping? : Value → Option Entries
  | mapping es => some es
  | _ => none

/-- The mappings that a merge key brings in by its value: one, or all items of a list. -/
def mappings? : Value → Option (List Entries)
  | mapping es => some [es]
  | sequence vs => vs.mapM mapping?
  | _ => none

end Value

namespace Merge

variable {es rest own : Entries} {v : Value} {ms : List Entries}

theorem addItems_of_mapM {items : List Value} (h : items.mapM Value.mapping? = some ms) :
    addItems es items = .ok (ms.foldl addEntries es) := by
  induction items generalizing es ms with
  | nil =>
    obtain rfl : [] = ms := by simpa using h
    rfl
  | cons v items ih =>
    cases v with
    | mapping added =>
      obtain ⟨ms', hms', rfl⟩ : ∃ ms', items.mapM Value.mapping? = some ms' ∧ added :: ms' = ms := by
        simpa [List.mapM_cons, Value.mapping?, Option.bind_eq_some_iff] using h
      exact ih hms'
    | _ => simp [List.mapM_cons, Value.mapping?] at h

theorem addItems_error_of_mapM {items : List Value} (h : items.mapM Value.mapping? = none) :
    ∃ f, addItems es items = .error f := by
  induction items generalizing es with
  | nil => simp at h
  | cons v items ih =>
    cases v with
    | mapping added =>
      have hrest : items.mapM Value.mapping? = none := by
        cases hitems : items.mapM Value.mapping? with
        | none => rfl
        | some ms => simp [List.mapM_cons, Value.mapping?, hitems] at h
      exact ih hrest
    | _ => exact ⟨_, rfl⟩

theorem mergeEntries_of_mappings? (hr : es.swapRemove key = some (v, rest)) (hv : v.mappings? = some ms) :
    mergeEntries es = .ok (ms.foldl addEntries rest) := by
  unfold mergeEntries
  rw [hr]
  cases v with
  | mapping m =>
    obtain rfl := Option.some.inj hv
    rfl
  | sequence items => exact addItems_of_mapM hv
  | _ => cases hv

theorem mergeEntries_error_of_mappings? (hr : es.swapRemove key = some (v, rest)) (hv : v.mappings? = none) :
    ∃ f, mergeEntries es = .error f := by
  unfold mergeEntries
  rw [hr]
  cases v with
  | mapping m => cases hv
  | sequence items => exact addItems_error_of_mapM hv
  | _ => exact ⟨_, rfl⟩

theorem swapRemove_key {before after : Entries} (hown : ∀ e ∈ before ++ after, key.same e.1 = false) (v : Value) :
    ∃ rest : Entries, Entries.swapRemove key (before ++ (key, v) :: after) = some (v, rest) ∧
      (before ++ after).Perm rest := by
  cases hr : Entries.swapRemove key (before ++ (key, v) :: after) with
  | none =>
    have := Entries.swapRemove_eq_none_iff.mp hr (key, v) (List.mem_append_right _ List.mem_cons_self)
    rw [Value.same_self] at this
    cases this
  | some found =>
    obtain ⟨w, rest⟩ := found
    obtain ⟨k, hk, hperm⟩ := Entries.swapRemove_perm hr
    obtain rfl := key_same_iff.mp hk
    have hmiddle := List.perm_middle.symm.trans hperm
    have hmem : (key, w) ∈ (key, v) :: (before ++ after) := hmiddle.mem_iff.mpr List.mem_cons_self
    rcases List.mem_cons.mp hmem with heq | hmem
    · obtain ⟨-, rfl⟩ := Prod.mk.inj heq
      exact ⟨rest, rfl, hmiddle.cons_inv⟩
    · exact absurd hk (Bool.eq_false_iff.mp (hown _ hmem))

theorem expandMerges_of_mergeEntries {out : Entries} (h : mergeEntries es = .ok out)
    (hout : (Value.mapping out).mergeFree = true) : (Value.mapping es).expandMerges = .ok (.mapping out) := by
  have hfree := Value.mergeFreeEntries_iff.mp hout
  exact expandWithin_mapping_ok_iff.mpr ⟨out, out, h,
    List.forall₂_same.mpr fun e he => ⟨rfl, expandWithin_of_mergeFree (hfree e he).2⟩, rfl⟩

theorem expandMerges_of_mergeEntries_error {f : MergeFault} (h : mergeEntries es = .error f) :
    (Value.mapping es).expandMerges = .error f := by
  rw [Value.expandMerges, Value.depth, expandWithin, h]
  rfl

end Merge

end Yaml

namespace Loader

open Traced

variable {l : Loader} {load : LoadText} {s : LoadState} {n : Nat} {text : String} {node given v r w : Value}
  {before after : Entries}

/-- Whether a node includes a file, or one anchored node of a file, that has a value. -/
def Includes (l : Loader) (load : LoadText) (s : LoadState) (node v : Value) : Prop :=
  ∃ t u raw, node = .tagged t u ∧ includeText? t u = some raw ∧ (l.follow load raw s).result = .ok v

/-- Whether a node stands for a value by an include, or for a list of values by a list of includes. -/
inductive Supplies (l : Loader) (load : LoadText) (s : LoadState) : Value → Value → Prop
  | one {node v : Value} : l.Includes load s node v → Supplies l load s node v
  | list {nodes vs : List Value} : List.Forall₂ (l.Includes load s) nodes vs →
      Supplies l load s (.sequence nodes) (.sequence vs)

theorem Includes.resolve (h : l.Includes load s node v) : (resolveValue (l.onTag load s) node).result = .ok v := by
  obtain ⟨t, u, raw, rfl, hraw, hv⟩ := h
  rw [resolveValue, onTag_of_includeText? hraw]
  exact hv

theorem Includes.untaggedKeys (h : l.Includes load s node v) : node.untaggedKeys = true := by
  obtain ⟨t, u, raw, rfl, -, -⟩ := h
  rfl

theorem Supplies.resolve (h : l.Supplies load s node given) :
    (resolveValue (l.onTag load s) node).result = .ok given := by
  cases h with
  | one h => exact h.resolve
  | list h =>
    exact result_bind_ok_iff.mpr ⟨_, resolveItems_ok_iff.mpr (h.imp fun _ _ => Includes.resolve), rfl⟩

theorem Supplies.untaggedKeys (h : l.Supplies load s node given) : node.untaggedKeys = true := by
  cases h with
  | one h => exact h.untaggedKeys
  | list h =>
    refine Value.untaggedKeysInItems_iff.mpr fun item hitem => ?_
    obtain ⟨v, -, hv⟩ := Entries.exists_of_mem_left h hitem
    exact hv.untaggedKeys

theorem resolveValue_of_supplies (hd : (Value.mapping (before ++ (Merge.key, node) :: after)).DistinctKeys)
    (hown : ∀ e ∈ before ++ after, e.1.isScalar = true ∧ e.2.IsPlain) (hgiven : l.Supplies load s node given) :
    (resolveValue (l.onTag load s) (.mapping (before ++ (Merge.key, node) :: after))).result =
      .ok (.mapping (before ++ (Merge.key, given) :: after)) := by
  have hall {e : Value × Value} (he : e ∈ before ++ (Merge.key, node) :: after) :
      e = (Merge.key, node) ∨ e ∈ before ++ after := by
    simpa [or_left_comm] using he
  have hkeys : (Value.mapping (before ++ (Merge.key, node) :: after)).untaggedKeys = true := by
    refine Value.untaggedKeysInEntries_iff.mpr fun e he => ?_
    obtain rfl | he := hall he
    · exact ⟨rfl, hgiven.untaggedKeys⟩
    · exact ⟨untagged_invariant.scalar (hown e he).1, untaggedKeys_of_untagged e.2 (hown e he).2.1⟩
  have hself {es : Entries} (hes : es ⊆ before ++ after) :
      List.Forall₂ (Entries.ByValue fun v => (resolveValue (l.onTag load s) v).result) es es := by
    refine List.forall₂_same.mpr fun e he => ⟨rfl, resolveValue_of_untagged _ e.2 (hown e (hes he)).2.1 ?_⟩
    have hmem : e ∈ before ++ (Merge.key, node) :: after := by
      have := hes he
      simp only [List.mem_append, List.mem_cons] at this ⊢
      tauto
    exact (Value.distinctInEntries_iff.mp hd.2 e hmem).2
  exact (resolveValue_mapping_ok_iff hkeys hd).mpr ⟨_, rfl, List.rel_append
    (hself (List.subset_append_left _ _)) (.cons ⟨rfl, hgiven.resolve⟩ (hself (List.subset_append_right _ _)))⟩

/-- A text of one document whose merge keys cannot be expanded is an error of its file. -/
theorem loadWithin_of_expandMerges_error {f : MergeFault} (hv : values text = [.ok v])
    (hr : (resolveValue (l.onTag (l.loadWithin n) s) v).result = .ok r) (hf : r.expandMerges = .error f) :
    (l.loadWithin (n + 1) text s).result = .error (.parse s.file (.merge f)) := by
  obtain ⟨d, hdocs, hd⟩ := List.map_eq_singleton_iff.mp hv
  have hdoc : (l.loadDocument (l.loadWithin n) s d).result = .error (.parse s.file (.merge f)) := by
    unfold loadDocument
    rw [hd]
    exact result_bind_error_iff.mpr (.inr ⟨v, rfl, result_bind_error_iff.mpr (.inr ⟨r, hr, by rw [hf]; rfl⟩)⟩)
  rw [loadWithin, hdocs]
  exact result_bind_error_iff.mpr (.inr ⟨(), rfl, result_bind_error_iff.mpr (.inl hdoc)⟩)

/-- Whether a load gives a mapping that has its own entries and, under all other keys, those of the mappings that a
merged value stands for, and fails for the file it is in where that value stands for none. -/
structure FillsIn (file : Path) (own : Entries) (given : Value) (loaded : Except LoadError (List Value)) : Prop where
  filled : ∀ ms, given.mappings? = some ms → (∀ m ∈ ms, (Value.mapping m).mergeFree = true) →
    ∃ out, loaded = .ok [.mapping out] ∧ Entries.Overlay (own :: ms) out
  refused : given.mappings? = none → ∃ f, loaded = .error (.parse file (.merge f))

theorem loadWithin_fillsIn (hv : values text = [.ok (.mapping (before ++ (Merge.key, node) :: after))])
    (hown : ∀ e ∈ before ++ after, e.1.isScalar = true ∧ e.2.IsPlain)
    (hgiven : l.Supplies (l.loadWithin n) s node given) :
    FillsIn s.file (before ++ after) given (l.loadWithin (n + 1) text s).result := by
  have hd := values_distinctKeys hv
  have hr := resolveValue_of_supplies hd hown hgiven
  -- the keys of a text are distinct, so with the one merge key no own key is another
  have hmiddle : (before ++ (Merge.key, node) :: after).Perm ((Merge.key, node) :: (before ++ after)) :=
    List.perm_middle
  have hscalar : ∀ e ∈ (Merge.key, node) :: (before ++ after), e.1.isScalar = true :=
    List.forall_mem_cons.mpr ⟨rfl, fun e he => (hown e he).1⟩
  have hdistinct : Entries.Distinct ((Merge.key, node) :: (before ++ after)) :=
    Entries.distinct_perm (fun e he => hscalar e (hmiddle.mem_iff.mp he)) hmiddle hd.1
  have hkeys : ∀ e ∈ before ++ after, Merge.key.same e.1 = false := fun e he =>
    (Value.same_comm_of_isScalar (hscalar e (List.mem_cons_of_mem _ he))).trans ((List.pairwise_cons.mp hdistinct).1 e he)
  obtain ⟨rest, hrest, hperm⟩ := Merge.swapRemove_key hkeys given
  refine ⟨fun ms hms hfree => ?_, fun hnone => ?_⟩
  · have hmerged := Merge.mergeEntries_of_mappings? hrest hms
    have hrestDistinct := Entries.distinct_perm (fun e he => (hown e he).1) hperm (List.pairwise_cons.mp hdistinct).2
    have hover := (Entries.overlay_foldl hrestDistinct ms).of_perm (fun e he => (hown e he).1)
      (List.pairwise_cons.mp hdistinct).2 hperm
    refine ⟨_, loadWithin_single_iff hv |>.mpr ⟨_, hr, Merge.expandMerges_of_mergeEntries hmerged ?_⟩, hover⟩
    refine Value.mergeFreeEntries_iff.mpr fun e he => ?_
    obtain ⟨m, hm, he⟩ := hover.mem e he
    rcases List.mem_cons.mp hm with rfl | hm
    · exact ⟨hkeys e he, (hown e he).2.2⟩
    · exact Value.mergeFreeEntries_iff.mp (hfree m hm) e he
  · obtain ⟨f, hf⟩ := Merge.mergeEntries_error_of_mappings? hrest hnone
    exact ⟨f, loadWithin_of_expandMerges_error hv hr (Merge.expandMerges_of_mergeEntries_error hf)⟩

end Loader

/-- A document that is a mapping with one merge key, and includes under it, has its own entries and those of the
included mappings, of which the first one with a key counts. Where something that is no mapping is included, the
document is at fault, wherever its text is loaded from. -/
theorem included_defaults_fill_in (l : Loader) (text : String) (before after : Entries) (node : Value)
    (hdoc : values text = [.ok (.mapping (before ++ (Merge.key, node) :: after))])
    (hown : ∀ e ∈ before ++ after, e.1.isScalar = true ∧ e.2.IsPlain) :
    (∀ (n : Nat) (s : LoadState) (given : Value), l.Supplies (l.loadWithin n) s node given →
      Loader.FillsIn s.file (before ++ after) given (l.loadWithin (n + 1) text s).result) ∧
    ∀ (p : Path) (given : Value), l.source.read (p.absolutize l.cwd) = .ok text →
      l.Supplies (l.loadWithin l.source.extent) (.root (p.absolutize l.cwd)) node given →
      Loader.FillsIn (p.absolutize l.cwd) (before ++ after) given (l.loadFile p).result := by
  refine ⟨fun n s given hgiven => Loader.loadWithin_fillsIn hdoc hown hgiven, fun p given hread hgiven => ?_⟩
  have hload : (l.loadFile p).result = (l.loadWithin (l.source.extent + 1) text (.root (p.absolutize l.cwd))).result := by
    rw [Loader.loadFile, result_bind, Loader.read_ok_iff.mpr hread]
    rfl
  rw [hload]
  exact Loader.loadWithin_fillsIn hdoc hown hgiven

/-- A key of two included mappings has the value of the first, an own key its own, and a list among the merged values
is an error of the file that merges it. -/
theorem first_default_counts :
    let files := FileSet.mk [(⟨"/a.yml"⟩, "x: own\n<<: [!include b.yml, !include c.yml *d]\nz: {k: [own]}\n"),
      (⟨"/e.yml"⟩, "<<: [!include b.yml, !include f.yml]\n"), (⟨"/b.yml"⟩, "x: b\ny: b\n"),
      (⟨"/c.yml"⟩, "m: &d {y: d, ~: d}\n"), (⟨"/f.yml"⟩, "[{y: f}]\n")]
    let l := files.loader true none ⟨"/"⟩
    let own := [(.string "x", .string "own"), (.string "z", .mapping [(.string "k", .sequence [.string "own"])])]
    let b := [(.string "x", .string "b"), (.string "y", .string "b")]
    let d := [(.string "y", .string "d"), (.null, .string "d")]
    (∃ out, (l.loadFile ⟨"/a.yml"⟩).result = .ok [.mapping out] ∧ Entries.Overlay [own, b, d] out) ∧
      ∃ f, (l.loadFile ⟨"/e.yml"⟩).result = .error (.parse ⟨"/e.yml"⟩ (.merge f)) := by
  intro files l own b d
  let ref (s : String) := Value.tagged "include" (.string s)
  have hincludes {file : Path} {s : String} {v : Value}
      (h : (l.follow (l.loadWithin l.source.extent) s (.root file)).result = .ok v) :
      l.Includes (l.loadWithin l.source.extent) (.root file) (ref s) v :=
    ⟨"include", .string s, s, rfl, if_pos (by decide +kernel), h⟩
  have hfile : (⟨"/a.yml"⟩ : Path).absolutize l.cwd = ⟨"/a.yml"⟩ ∧
      (⟨"/e.yml"⟩ : Path).absolutize l.cwd = ⟨"/e.yml"⟩ := by decide +kernel
  have ha := (included_defaults_fill_in l "x: own\n<<: [!include b.yml, !include c.yml *d]\nz: {k: [own]}\n"
    (own.take 1) (own.drop 1) (.sequence [ref "b.yml", ref "c.yml *d"]) (by decide +kernel) (by decide +kernel)).2
    ⟨"/a.yml"⟩ (.sequence [.mapping b, .mapping d]) (by decide +kernel)
    (.list (.cons (hincludes (by decide +kernel)) (.cons (hincludes (by decide +kernel)) .nil)))
  have he := (included_defaults_fill_in l "<<: [!include b.yml, !include f.yml]\n" [] []
    (.sequence [ref "b.yml", ref "f.yml"]) (by decide +kernel) (by decide +kernel)).2
    ⟨"/e.yml"⟩ (.sequence [.mapping b, .sequence [.mapping [(.string "y", .string "f")]]]) (by decide +kernel)
    (.list (.cons (hincludes (by decide +kernel)) (.cons (hincludes (by decide +kernel)) .nil)))
  rw [hfile.1] at ha
  rw [hfile.2] at he
  exact ⟨ha.filled [b, d] rfl (by decide +kernel), he.refused rfl⟩

end YamlInclude
