import YamlInclude.Proofs.Context
import YamlInclude.Proofs.Invariant
import YamlInclude.Proofs.Position

/-! # Merge keys that are left

A mapping is expanded once, so a merge key that comes in with what it merges stays. Loaded values have a
merge key exactly where a mapping that is merged has one itself.
-/

namespace YamlInclude

open Yaml Traced

namespace Yaml

namespace Value

mutual

def SingleMerge : Value → Prop
  | sequence vs => SingleMergeInItems vs
  | mapping es => es.countP (fun e => Merge.key.same e.1) ≤ 1 ∧ SingleMergeInEntries es
  | tagged _ v => SingleMerge v
  | _ => True

def SingleMergeInItems : List Value → Prop
  | [] => True
  | v :: vs => SingleMerge v ∧ SingleMergeInItems vs

def SingleMergeInEntries : List (Value × Value) → Prop
  | [] => True
  | (_, v) :: es => SingleMerge v ∧ SingleMergeInEntries es

end

theorem singleMergeInItems_iff {vs : List Value} :
    SingleMergeInItems vs ↔ ∀ v ∈ vs, v.SingleMerge := by
  induction vs with
  | nil => simp [SingleMergeInItems]
  | cons v vs ih => simp [SingleMergeInItems, ih]

theorem singleMergeInEntries_iff {es : List (Value × Value)} :
    SingleMergeInEntries es ↔ ∀ e ∈ es, e.2.SingleMerge := by
  induction es with
  | nil => simp [SingleMergeInEntries]
  | cons e es ih =>
    obtain ⟨k, v⟩ := e
    simp [SingleMergeInEntries, ih]

theorem singleMerge_mapping_iff {es : List (Value × Value)} :
    (mapping es).SingleMerge ↔
      es.countP (fun e => Merge.key.same e.1) ≤ 1 ∧ ∀ e ∈ es, e.2.SingleMerge := by
  rw [SingleMerge, singleMergeInEntries_iff]

end Value

namespace Merge

variable {es es' added : Entries} {items : List Value} {k v : Value}

theorem key_same_iff : key.same k = true ↔ k = key := by
  cases k <;> simp [key, Value.same]
  exact eq_comm

section SingleMerge

open Value

theorem countP_key (es : Entries) :
    es.countP (fun e => key.same e.1) = (es.map Prod.fst).countP key.same := by
  rw [List.countP_map]
  rfl

theorem countP_eq_zero_of_new (h : ∀ e ∈ es, k.same e.1 = false) (hk : key.same k = true) :
    es.countP (fun e => key.same e.1) = 0 := by
  obtain rfl := key_same_iff.mp hk
  exact List.countP_eq_zero.mpr fun e he => by simp [h e he]

theorem singleMerge_append (hes : (mapping es).SingleMerge) (hv : v.SingleMerge)
    (hk : ∀ e ∈ es, k.same e.1 = false) : (mapping (es ++ [(k, v)])).SingleMerge := by
  obtain ⟨hone, hvalues⟩ := singleMerge_mapping_iff.mp hes
  refine singleMerge_mapping_iff.mpr ⟨?_, fun e he => ?_⟩
  · rw [List.countP_append, List.countP_singleton]
    split
    next hkey => rw [countP_eq_zero_of_new hk hkey]
    · exact hone
  · rcases List.mem_append.mp he with he | he
    · exact hvalues e he
    · obtain rfl := List.mem_singleton.mp he
      exact hv

theorem insert_of_contains (h : ∃ e ∈ es, k.same e.1 = true) :
    (es.insert k v).map Prod.fst = es.map Prod.fst ∧ ∀ e ∈ es.insert k v, e ∈ es ∨ e.2 = v := by
  induction es with
  | nil => simp at h
  | cons f es ih =>
    cases hf : k.same f.1 with
    | true =>
      simp only [Entries.insert, hf, if_true, List.map_cons, true_and]
      intro e he
      rcases List.mem_cons.mp he with rfl | he
      · exact Or.inr rfl
      · exact Or.inl (List.mem_cons_of_mem _ he)
    | false =>
      obtain ⟨hkeys, hmem⟩ := ih (by simpa [hf] using h)
      simp only [Entries.insert, hf, Bool.false_eq_true, if_false, List.map_cons, hkeys, true_and]
      intro e he
      rcases List.mem_cons.mp he with rfl | he
      · exact Or.inl List.mem_cons_self
      · exact (hmem e he).imp_left (List.mem_cons_of_mem _)

theorem singleMerge_insert (hes : (mapping es).SingleMerge) (hv : v.SingleMerge) :
    (mapping (es.insert k v)).SingleMerge := by
  by_cases h : ∃ e ∈ es, k.same e.1 = true
  · obtain ⟨hkeys, hmem⟩ := insert_of_contains (v := v) h
    obtain ⟨hone, hvalues⟩ := singleMerge_mapping_iff.mp hes
    refine singleMerge_mapping_iff.mpr ⟨?_, fun e he => ?_⟩
    · rwa [countP_key, hkeys, ← countP_key]
    · obtain he | rfl := hmem e he
      · exact hvalues e he
      · exact hv
  · have hnew : ∀ e ∈ es, k.same e.1 = false := fun e he => by simpa using fun hk => h ⟨e, he, hk⟩
    rw [Entries.insert_of_new hnew]
    exact singleMerge_append hes hv hnew

theorem singleMerge_insertNew (hes : (mapping es).SingleMerge) (hv : v.SingleMerge) :
    (mapping (es.insertNew k v)).SingleMerge := by
  unfold Entries.insertNew
  split
  · exact hes
  next hk => exact singleMerge_append hes hv (by simpa [Entries.contains] using hk)

theorem singleMerge_addEntries (hes : (mapping es).SingleMerge) (hadded : ∀ e ∈ added, e.2.SingleMerge) :
    (mapping (addEntries es added)).SingleMerge := by
  induction added generalizing es with
  | nil => exact hes
  | cons e added ih =>
    exact ih (singleMerge_insertNew hes (hadded e List.mem_cons_self)) fun f hf =>
      hadded f (List.mem_cons_of_mem _ hf)

theorem singleMerge_addItems (hes : (mapping es).SingleMerge) (hitems : ∀ v ∈ items, v.SingleMerge)
    (h : addItems es items = .ok es') : (mapping es').SingleMerge := by
  induction items generalizing es with
  | nil => exact Except.ok.inj h ▸ hes
  | cons v items ih =>
    cases v with
    | mapping added =>
      have hadded := (singleMerge_mapping_iff.mp (hitems _ List.mem_cons_self)).2
      exact ih (singleMerge_addEntries hes hadded) (fun v hv => hitems v (List.mem_cons_of_mem _ hv)) h
    | _ => cases h

theorem singleMerge_of_perm_cons {rest : Entries} (h : es.Perm ((k, v) :: rest))
    (hes : (mapping es).SingleMerge) : v.SingleMerge ∧ (mapping rest).SingleMerge := by
  obtain ⟨hone, hvalues⟩ := singleMerge_mapping_iff.mp hes
  have hmem (e : Value × Value) (he : e ∈ (k, v) :: rest) := hvalues e (h.mem_iff.mpr he)
  refine ⟨hmem _ List.mem_cons_self, singleMerge_mapping_iff.mpr ⟨?_, fun e he =>
    hmem e (List.mem_cons_of_mem _ he)⟩⟩
  rw [h.countP_eq, List.countP_cons] at hone
  omega

theorem singleMerge_mergeEntries (hes : (mapping es).SingleMerge) (h : mergeEntries es = .ok es') :
    (mapping es').SingleMerge := by
  unfold mergeEntries at h
  cases hr : es.swapRemove key with
  | none =>
    rw [hr] at h
    exact Except.ok.inj h ▸ hes
  | some found =>
    obtain ⟨v, rest⟩ := found
    obtain ⟨k, -, hperm⟩ := Entries.swapRemove_perm hr
    obtain ⟨hv, hrest⟩ := singleMerge_of_perm_cons hperm hes
    rw [hr] at h
    cases v with
    | mapping added => exact Except.ok.inj h ▸ singleMerge_addEntries hrest (singleMerge_mapping_iff.mp hv).2
    | sequence items => exact singleMerge_addItems hrest (singleMergeInItems_iff.mp hv) h
    | _ => cases h

theorem singleMerge_expandWithin {n : Nat} {w : Value} (hv : v.SingleMerge) (h : expandWithin n v = .ok w) :
    w.SingleMerge := by
  induction n generalizing v w with
  | zero => exact Except.ok.inj h ▸ hv
  | succ n ih =>
    cases v with
    | mapping es =>
      obtain ⟨es₁, es₂, h₁, h₂, rfl⟩ := expandWithin_mapping_ok_iff.mp h
      obtain ⟨hone, hvalues⟩ := singleMerge_mapping_iff.mp (singleMerge_mergeEntries hv h₁)
      refine singleMerge_mapping_iff.mpr ⟨?_, fun f hf => ?_⟩
      · rwa [countP_key, Entries.ByValue.keys h₂, ← countP_key]
      · obtain ⟨e, he, -, hexpand⟩ := Entries.exists_of_mem_right h₂ hf
        exact ih (hvalues e he) hexpand
    | sequence vs =>
      obtain ⟨ws, hws, rfl⟩ := expandWithin_sequence_ok_iff.mp h
      refine singleMergeInItems_iff.mpr fun w hw => ?_
      obtain ⟨v, hmem, hexpand⟩ := Entries.exists_of_mem_right hws hw
      exact ih (singleMergeInItems_iff.mp hv v hmem) hexpand
    | tagged t v =>
      obtain ⟨u, hu, rfl⟩ := expandWithin_tagged_ok_iff.mp h
      have hu : u.SingleMerge := ih (v := v) hv hu
      exact hu
    | _ => exact Except.ok.inj h ▸ hv

end SingleMerge

/-- The mappings among the items of a merged list. -/
def mergedItems (items : List Value) : List Entries :=
  items.filterMap fun
    | .mapping added => some added
    | _ => none

/-- The mappings that a mapping merges. -/
def mergedBy (es : Entries) : List Entries :=
  match es.get? key with
  | some (.mapping added) => [added]
  | some (.sequence items) => mergedItems items
  | _ => []

/-- Whether expansion comes to a mapping that merges one with a merge key. -/
inductive Stacks : Value → Prop
  | here {es m : Entries} (hm : m ∈ mergedBy es) (hk : m.contains key = true) : Stacks (.mapping es)
  | field {es es' : Entries} {e : Value × Value} (h : mergeEntries es = .ok es') (he : e ∈ es')
      (hs : Stacks e.2) : Stacks (.mapping es)
  | item {vs : List Value} {v : Value} (hv : v ∈ vs) (hs : Stacks v) : Stacks (.sequence vs)
  | content {t : String} {v : Value} (hs : Stacks v) : Stacks (.tagged t v)

theorem stacks_mapping_iff (h : mergeEntries es = .ok es') :
    Stacks (.mapping es) ↔ (∃ m ∈ mergedBy es, m.contains key = true) ∨ ∃ e ∈ es', Stacks e.2 := by
  constructor
  · rintro (⟨hm, hk⟩ | ⟨h', he, hs⟩)
    · exact Or.inl ⟨_, hm, hk⟩
    · obtain rfl := Except.ok.inj (h.symm.trans h')
      exact Or.inr ⟨_, he, hs⟩
  · rintro (⟨m, hm, hk⟩ | ⟨e, he, hs⟩)
    · exact .here hm hk
    · exact .field h he hs

theorem stacks_sequence_iff {vs : List Value} : Stacks (.sequence vs) ↔ ∃ v ∈ vs, Stacks v :=
  ⟨fun | .item hv hs => ⟨_, hv, hs⟩, fun ⟨_, hv, hs⟩ => .item hv hs⟩

theorem stacks_tagged_iff {t : String} {v : Value} : Stacks (.tagged t v) ↔ Stacks v :=
  ⟨fun | .content hs => hs, .content⟩

theorem contains_insertNew (es : Entries) (k v : Value) :
    (es.insertNew k v).contains key = (es.contains key || key.same k) := by
  unfold Entries.insertNew
  cases hk : key.same k with
  | false => split <;> simp [Entries.contains, hk]
  | true =>
    obtain rfl := key_same_iff.mp hk
    split <;> simp_all [Entries.contains]

theorem contains_addEntries (es added : Entries) :
    (addEntries es added).contains key = (es.contains key || added.contains key) := by
  induction added generalizing es with
  | nil => simp [addEntries, Entries.contains]
  | cons e added ih =>
    have hcons : Entries.contains key (e :: added) = (key.same e.1 || Entries.contains key added) := rfl
    rw [addEntries, List.foldl_cons, ← addEntries, ih, contains_insertNew, hcons, Bool.or_assoc]

theorem contains_addItems (h : addItems es items = .ok es') :
    es'.contains key = (es.contains key || (mergedItems items).any fun m => m.contains key) := by
  induction items generalizing es with
  | nil =>
    obtain rfl := Except.ok.inj h
    simp [mergedItems]
  | cons v items ih =>
    cases v with
    | mapping added => 
      rw [ih h, contains_addEntries, Bool.or_assoc]
      rfl
    | _ => cases h

theorem get?_of_swapRemove {k v : Value} {rest : Entries} (h : es.swapRemove k = some (v, rest)) :
    es.get? k = some v := by
  unfold Entries.swapRemove at h
  unfold Entries.get?
  rw [List.find?_eq_bind_findIdx?_getElem?]
  cases hi : es.findIdx? fun e => k.same e.1 with
  | none => simp [hi] at h
  | some i =>
    cases he : es[i]? with
    | none => simp [hi, he] at h
    | some e =>
      cases hlast : es.getLast? with
      | none => simp [hi, he, hlast] at h
      | some last =>
        simp only [hi, he, hlast, Option.some.injEq, Prod.mk.injEq] at h
        simp [he, h.1]

theorem get?_of_swapRemove_eq_none {k : Value} (h : es.swapRemove k = none) : es.get? k = none := by
  have hnone := Entries.swapRemove_eq_none_iff.mp h
  rw [Entries.get?, List.find?_eq_none.mpr fun e he => by simp [hnone e he]]
  rfl

/-- A mapping has a merge key after its merge exactly if a mapping that it merges has one. -/
theorem contains_mergeEntries (hone : es.countP (fun e => key.same e.1) ≤ 1)
    (h : mergeEntries es = .ok es') :
    es'.contains key = (mergedBy es).any fun m => m.contains key := by
  unfold mergeEntries at h
  cases hr : es.swapRemove key with
  | none =>
    rw [hr] at h
    obtain rfl := Except.ok.inj h
    rw [mergedBy, get?_of_swapRemove_eq_none hr]
    simpa [Entries.contains] using Entries.swapRemove_eq_none_iff.mp hr
  | some found =>
    obtain ⟨v, rest⟩ := found
    rw [mergedBy, get?_of_swapRemove hr]
    have hrest : rest.contains key = false := by
      obtain ⟨k, hk, hperm⟩ := Entries.swapRemove_perm hr
      simp only [hperm.countP_eq, List.countP_cons, hk, if_true] at hone
      have hzero : rest.countP (fun e => key.same e.1) = 0 := by omega
      simpa [Entries.contains] using List.countP_eq_zero.mp hzero
    rw [hr] at h
    cases v with
    | mapping added =>
      obtain rfl := Except.ok.inj h
      simp [contains_addEntries, hrest]
    | sequence items => simp [contains_addItems h, hrest]
    | _ => cases h

theorem mergeFree_mapping_iff :
    (Value.mapping es).mergeFree = true ↔ es.contains key = false ∧ ∀ e ∈ es, e.2.mergeFree = true := by
  rw [Value.mergeFree, Value.mergeFreeEntries_iff, Entries.contains, List.any_eq_false]
  simp only [Bool.not_eq_true, forall_and]

theorem contains_key_of_byValue {f : Value → Except MergeFault Value}
    (h : List.Forall₂ (Entries.ByValue f) es es') : es'.contains key = es.contains key := by
  have hany (fs : Entries) : fs.contains key = (fs.map Prod.fst).any key.same := by
    rw [List.any_map]
    rfl
  rw [hany, hany, Entries.ByValue.keys h]

theorem mergeFree_iff_of_depth_eq_zero (hd : v.depth = 0) : v.mergeFree = true ↔ ¬ Stacks v := by
  cases v with
  | sequence | mapping | tagged => cases hd
  | _ => exact ⟨fun _ => nofun, fun _ => rfl⟩

/-- Expansion leaves a merge key exactly if it comes to a mapping that merges one with a merge key. -/
theorem mergeFree_iff_not_stacks {n : Nat} {w : Value} (hd : v.depth ≤ n) (hv : v.SingleMerge)
    (h : expandWithin n v = .ok w) : w.mergeFree = true ↔ ¬ Stacks v := by
  induction n generalizing v w with
  | zero =>
    obtain rfl := Except.ok.inj h
    exact mergeFree_iff_of_depth_eq_zero (Nat.le_zero.mp hd)
  | succ n ih =>
    cases v with
    | mapping es =>
      obtain ⟨es₁, es₂, h₁, h₂, rfl⟩ := expandWithin_mapping_ok_iff.mp h
      obtain ⟨hone, -⟩ := Value.singleMerge_mapping_iff.mp hv
      obtain ⟨-, hsingle⟩ := Value.singleMerge_mapping_iff.mp (singleMerge_mergeEntries hv h₁)
      have hfields : (∀ f ∈ es₂, f.2.mergeFree = true) ↔ ∀ e ∈ es₁, ¬ Stacks e.2 := by
        refine Entries.forall_mem_iff_of_forall₂ h₂ fun e he f hf => ?_
        have hdepth := depth_le_of_mem_mergeEntries h₁ he
        simp only [Value.depth] at hd
        exact ih (by omega) (hsingle e he) hf.2
      rw [mergeFree_mapping_iff, contains_key_of_byValue h₂, contains_mergeEntries hone h₁, hfields,
        stacks_mapping_iff h₁]
      simp
    | sequence vs =>
      obtain ⟨ws, hws, rfl⟩ := expandWithin_sequence_ok_iff.mp h
      have hitems : (∀ w ∈ ws, w.mergeFree = true) ↔ ∀ v ∈ vs, ¬ Stacks v := by
        refine Entries.forall_mem_iff_of_forall₂ hws fun v hmem w hw => ?_
        have hdepth := Value.depth_le_of_mem_items hmem
        simp only [Value.depth] at hd
        exact ih (by omega) (Value.singleMergeInItems_iff.mp hv v hmem) hw
      rw [Value.mergeFree, Value.mergeFreeItems_iff, hitems, stacks_sequence_iff]
      simp
    | tagged t v =>
      obtain ⟨u, hu, rfl⟩ := expandWithin_tagged_ok_iff.mp h
      have hcontent : u.mergeFree = true ↔ ¬ Stacks v := by
        simp only [Value.depth] at hd
        exact ih (by omega) hv hu
      rw [stacks_tagged_iff, ← hcontent, Value.mergeFree]
    | _ =>
      obtain rfl := Except.ok.inj h
      exact mergeFree_iff_of_depth_eq_zero rfl

end Merge

end Yaml

namespace Loader

variable {onTag : OnTag} {l : Loader} {p : Path}

/-- An entry is put in the place of one with its key, so no mapping gets a second merge key. -/
theorem singleMerge_invariant : Invariant Value.SingleMerge where
  scalar {v} hv := by cases v <;> trivial
  sequence h := Value.singleMergeInItems_iff.mpr h
  empty := Value.singleMerge_mapping_iff.mpr ⟨Nat.zero_le _, fun _ he => absurd he List.not_mem_nil⟩
  insert hes _ hv := Merge.singleMerge_insert hes hv
  field h he := (Value.singleMerge_mapping_iff.mp h).2 _ he
  expand h he := Merge.singleMerge_expandWithin h he

/-- Whether a document of a file is read as a value whose tagged nodes resolve, and gives `v` then. -/
def ResolvesTo (l : Loader) (file : Path) (d : Document) (v : Value) : Prop :=
  ∃ raw, d.value = .ok raw ∧
    (resolveValue (l.onTag (l.loadWithin l.source.extent) (.root file)) raw).result = .ok v

/-- A loaded document has a merge key left exactly if it stacks merges after its tags are resolved. -/
theorem loadDocument_mergeFree_iff (hl : l.tags = .empty) {d : Document} {w : Value}
    (h : (l.loadDocument (l.loadWithin l.source.extent) (.root p) d).result = .ok w) :
    ∃ v, l.ResolvesTo p d v ∧ v.expandMerges = .ok w ∧ (w.mergeFree = true ↔ ¬ Merge.Stacks v) := by
  obtain ⟨raw, v, hraw, hv, hexpand⟩ := loadDocument_ok h
  have hkeeps := keeps_of_empty (P := Value.SingleMerge) hl
  have hinclude := singleMerge_invariant.loadWithin hkeeps l.source.extent
  have hsingle := singleMerge_invariant.resolveValue (singleMerge_invariant.onTag hkeeps hinclude) raw hv
  exact ⟨v, ⟨raw, hraw, hv⟩, hexpand, Merge.mergeFree_iff_not_stacks (Nat.le_refl _) hsingle hexpand⟩

end Loader

theorem exists_between_of_forall₂ {α β γ : Type} {R : α → β → Prop} {S : β → γ → Prop} {as : List α}
    {cs : List γ} (h : List.Forall₂ (fun a c => ∃ b, R a b ∧ S b c) as cs) :
    ∃ bs, List.Forall₂ R as bs ∧ List.Forall₂ S bs cs := by
  induction h with
  | nil => exact ⟨[], .nil, .nil⟩
  | cons hd _ ih =>
    obtain ⟨b, hR, hS⟩ := hd
    obtain ⟨bs, hRs, hSs⟩ := ih
    exact ⟨b :: bs, .cons hR hRs, .cons hS hSs⟩

/-- A document of a file has a merge key left exactly if it comes, once its tags are resolved, to a
mapping that merges one with a merge key. -/
theorem loaded_mergeFree_iff {l : Loader} (hl : l.tags = .empty) {p : Path} {ds : List Value}
    (h : (l.loadFile p).result = .ok ds) :
    ∃ text vs, l.source.read (p.absolutize l.cwd) = .ok text ∧
      List.Forall₂ (l.ResolvesTo (p.absolutize l.cwd)) (documents text) vs ∧
      List.Forall₂ (fun v d => v.expandMerges = .ok d ∧ (d.mergeFree = true ↔ ¬ Merge.Stacks v)) vs ds := by
  obtain ⟨text, ht, h⟩ := Loader.loadFile_ok h
  have hdocs := (Loader.loadWithin_ok_iff.mp h).imp fun d w => Loader.loadDocument_mergeFree_iff hl
  obtain ⟨vs, hvs, hds⟩ := exists_between_of_forall₂ hdocs
  exact ⟨text, vs, ht, hvs, hds⟩

/-- The items of a merged list have no merge keys, and none is left. -/
theorem merged_list_expands :
    let l := (FileSet.mk [(⟨"/a.yml"⟩, "b: &b {x: p}\nt:\n  <<: [*b, {z: q}]\n")]).loader true none ⟨"/"⟩
    let d := Value.mapping [(.string "b", .mapping [(.string "x", .string "p")]),
      (.string "t", .mapping [(.string "x", .string "p"), (.string "z", .string "q")])]
    (l.loadFile ⟨"/a.yml"⟩).result = .ok [d] ∧
      ∃ v, v.expandMerges = .ok d ∧ ¬ Merge.Stacks v := by
  intro l d
  have h : (l.loadFile ⟨"/a.yml"⟩).result = .ok [d] := by decide +kernel
  obtain ⟨text, vs, -, -, hds⟩ := loaded_mergeFree_iff rfl h
  obtain ⟨v, -, ⟨hexpand, hiff⟩, -, -⟩ := List.forall₂_cons_right_iff.mp hds
  exact ⟨h, v, hexpand, hiff.mp (by decide +kernel)⟩

/-- An alias merges a mapping that has a merge key itself, and that key is left. -/
theorem merged_merge_key_is_left :
    let l := (FileSet.mk [(⟨"/b.yml"⟩, "base: &b\n  <<: {x: p}\n  y: q\ntop:\n  <<: *b\n")]).loader
      true none ⟨"/"⟩
    ∃ d, (l.loadFile ⟨"/b.yml"⟩).result = .ok [d] ∧ d.mergeFree = false := by
  intro l
  refine ⟨.mapping [(.string "base", .mapping [(.string "y", .string "q"), (.string "x", .string "p")]),
    (.string "top", .mapping [(.string "<<", .mapping [(.string "x", .string "p")]), (.string "y", .string "q")])],
    ?_, ?_⟩ <;> decide +kernel

end YamlInclude
