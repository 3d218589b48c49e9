import YamlInclude.Proofs.Position

/-! # One more entry

An entry at the end of a mapping, whose value stands in the mapping already, changes neither how tagged
nodes are resolved nor how merge keys are expanded: the entry ends up with what its value ends up as.
-/

namespace YamlInclude

open Yaml

namespace Yaml

namespace Value

variable {v : Value} {s : String}

mutual

/-- Whether no tagged node stands in a key of a mapping that is resolved. -/
def untaggedKeys : Value → Bool
  | sequence vs => untaggedKeysInItems vs
  | mapping es => untaggedKeysInEntries es
  | _ => true

def untaggedKeysInItems : List Value → Bool
  | [] => true
  | v :: vs => untaggedKeys v && untaggedKeysInItems vs

def untaggedKeysInEntries : List (Value × Value) → Bool
  | [] => true
  | (k, v) :: es => k.taggedNodes.isEmpty && untaggedKeys v && untaggedKeysInEntries es

end

theorem untaggedKeysInItems_iff {vs : List Value} :
    untaggedKeysInItems vs = true ↔ ∀ v ∈ vs, v.untaggedKeys = true := by
  induction vs with
  | nil => simp [untaggedKeysInItems]
  | cons v vs ih => simp [untaggedKeysInItems, ih]

theorem untaggedKeysInEntries_iff {es : List (Value × Value)} :
    untaggedKeysInEntries es = true ↔ ∀ e ∈ es, e.1.taggedNodes = [] ∧ e.2.untaggedKeys = true := by
  induction es with
  | nil => simp [untaggedKeysInEntries]
  | cons e es ih =>
    obtain ⟨k, v⟩ := e
    simp [untaggedKeysInEntries, ih]

theorem same_string_iff : v.same (.string s) = true ↔ v = .string s := by
  cases v <;> simp [same]

theorem string_same_iff : (string s).same v = true ↔ v = .string s := by
  cases v with
  | string t => simpa [same] using eq_comm
  | _ => simp [same]

end Value

namespace Entries

variable {es es' rest : Entries} {x : Value × Value} {k v : Value} {s : String}

/-- Whether a mapping has an entry that another one has not, and nothing else that it has not. -/
structure OneMore (x : Value × Value) (es es' : Entries) : Prop where
  sub : ∀ e ∈ es', e ∈ es ∨ e = x
  mem : x ∈ es'
  contains : ∀ a, Entries.contains a es' = (Entries.contains a es || a.same x.1)

theorem OneMore.of_perm (h : es'.Perm (x :: es)) : OneMore x es es' where
  sub e he := (List.mem_cons.mp (h.mem_iff.mp he)).symm
  mem := h.mem_iff.mpr List.mem_cons_self
  contains a := by
    rw [Entries.contains, Entries.contains, h.any_eq, List.any_cons, Bool.or_comm]

/-- An entry that one mapping lacks comes into both, unless it has the key that the other has more. -/
theorem OneMore.insertNew (h : OneMore (.string s, v) es es') (k w : Value) :
    OneMore (.string s, v) (es.insertNew k w) (es'.insertNew k w) := by
  unfold Entries.insertNew
  rw [h.contains k]
  cases hk : Entries.contains k es with
  | true => simpa using h
  | false =>
    have hcontains (fs : Entries) (a : Value) :
        Entries.contains a (fs ++ [(k, w)]) = (Entries.contains a fs || a.same k) := by
      simp [Entries.contains]
    cases hs : k.same (.string s) with
    | true =>
      obtain rfl := Value.same_string_iff.mp hs
      refine ⟨fun e he => ?_, by simpa using h.mem, fun a => ?_⟩
      · exact (h.sub e (by simpa using he)).imp_left (List.mem_append_left _)
      · simp [hcontains, h.contains a]
    | false =>
      refine ⟨fun e he => ?_, by simp [h.mem], fun a => ?_⟩
      · have := h.sub e
        simp at he ⊢
        tauto
      · simp [hcontains, h.contains a]
        grind

theorem swapRemove_append (h : es.swapRemove k = some (v, rest)) (x : Value × Value) :
    ∃ rest', Entries.swapRemove k (es ++ [x]) = some (v, rest') ∧ rest'.Perm (x :: rest) := by
  obtain ⟨before, key, after, rfl, -, hi, rfl⟩ := swapRemove_split h
  have hi' : (((before ++ (key, v) :: after) ++ [x]).findIdx? fun e => k.same e.1) = some before.length := by
    rw [List.findIdx?_append, hi]
    rfl
  have hperm := (lastToFront_perm after).append_left before
  refine ⟨before ++ x :: after, ?_, List.perm_middle.trans (hperm.symm.cons x)⟩
  unfold swapRemove
  rw [hi']
  have hlength : before.length + 1 ≠ (before ++ (key, v) :: after ++ [x]).length := by simp
  simp only [List.getElem?_append_left (show before.length < (before ++ (key, v) :: after).length by simp),
    List.getElem?_append_right (Nat.le_refl _), Nat.sub_self, List.getElem?_cons_zero, List.getLast?_concat,
    if_neg hlength, List.dropLast_concat]
  simp

end Entries

namespace Merge

variable {es es' added out : Entries} {items : List Value} {k v w : Value} {s : String}

theorem addEntries_oneMore (h : Entries.OneMore (.string s, v) es es') (added : Entries) :
    Entries.OneMore (.string s, v) (addEntries es added) (addEntries es' added) := by
  induction added generalizing es es' with
  | nil => exact h
  | cons e added ih => exact ih (h.insertNew e.1 e.2)

theorem addItems_oneMore (h : Entries.OneMore (.string s, v) es es') (hout : addItems es items = .ok out) :
    ∃ out', addItems es' items = .ok out' ∧ Entries.OneMore (.string s, v) out out' := by
  induction items generalizing es es' with
  | nil => exact ⟨es', rfl, Except.ok.inj hout ▸ h⟩
  | cons item items ih =>
    cases item with
    | mapping added => exact ih (addEntries_oneMore h added) hout
    | _ => cases hout

theorem mergeEntries_oneMore (hs : key.same (.string s) = false) (h : mergeEntries es = .ok out) :
    ∃ out', mergeEntries (es ++ [(.string s, v)]) = .ok out' ∧ Entries.OneMore (.string s, v) out out' := by
  unfold mergeEntries at h ⊢
  cases hr : es.swapRemove key with
  | none =>
    rw [hr] at h
    obtain rfl := Except.ok.inj h
    have hkeys := Entries.swapRemove_eq_none_iff.mp hr
    have hnone : Entries.swapRemove key (es ++ [(.string s, v)]) = none := by
      refine Entries.swapRemove_eq_none_iff.mpr fun e he => ?_
      rcases List.mem_append.mp he with he | he
      · exact hkeys e he
      · obtain rfl := List.mem_singleton.mp he
        exact hs
    rw [hnone]
    exact ⟨_, rfl, .of_perm (List.perm_append_singleton _ _)⟩
  | some found =>
    obtain ⟨merged, rest⟩ := found
    obtain ⟨rest', hr', hperm⟩ := Entries.swapRemove_append hr (.string s, v)
    have hmore := Entries.OneMore.of_perm hperm
    rw [hr] at h
    rw [hr']
    cases merged with
    | mapping added =>
      obtain rfl := Except.ok.inj h
      exact ⟨_, rfl, addEntries_oneMore hmore added⟩
    | sequence items => exact addItems_oneMore hmore h
    | _ => cases h

theorem exists_byValue {ε : Type} {f : Value → Except ε Value} (h : ∀ e ∈ es, ∃ u, f e.2 = .ok u) :
    ∃ out, List.Forall₂ (Entries.ByValue f) es out := by
  induction es with
  | nil => exact ⟨[], .nil⟩
  | cons e es ih =>
    obtain ⟨u, hu⟩ := h e List.mem_cons_self
    obtain ⟨out, hout⟩ := ih fun e he => h e (List.mem_cons_of_mem _ he)
    exact ⟨(e.1, u) :: out, .cons ⟨rfl, hu⟩ hout⟩

/-- A mapping with one more entry, whose value expands, is expanded, and the entry has that value then. -/
theorem expandMerges_oneMore (hs : key.same (.string s) = false) (hnew : ∀ u, (.string s, u) ∉ es)
    {m : Value} (hes : (Value.mapping es).expandMerges = .ok m) (hv : v.expandMerges = .ok w) :
    ∃ out rest, (Value.mapping (es ++ [(.string s, v)])).expandMerges = .ok (.mapping out) ∧
      Entries.swapRemove (.string s) out = some (w, rest) := by
  obtain ⟨merged, _, hmerged, hvalues, -⟩ := expandWithin_mapping_ok_iff.mp hes
  obtain ⟨merged', hmerged', hmore⟩ := mergeEntries_oneMore (v := v) hs hmerged
  -- Each value is expanded at the depth of the longer mapping, which is no less than its own.
  have hdepth {e : Value × Value} (he : e ∈ merged') := depth_le_of_mem_mergeEntries hmerged' he
  have hexpand {e : Value × Value} (he : e ∈ merged') :
      expandWithin (Value.depthEntries (es ++ [(.string s, v)])) e.2 = e.2.expandMerges :=
    expandWithin_eq_of_depth_le (hdepth he) (Nat.le_refl _)
  have hall : ∀ e ∈ merged', ∃ u, expandWithin (Value.depthEntries (es ++ [(.string s, v)])) e.2 = .ok u := by
    intro e he
    rw [hexpand he]
    obtain hmem | rfl := hmore.sub e he
    · obtain ⟨e', -, -, hu⟩ := Entries.exists_of_mem_left hvalues hmem
      have hwithin := depth_le_of_mem_mergeEntries hmerged hmem
      exact ⟨e'.2, (expandWithin_eq_of_depth_le (Nat.le_refl _) hwithin).trans hu⟩
    · exact ⟨w, hv⟩
  obtain ⟨out, hout⟩ := exists_byValue hall
  have honce : ∀ u, (.string s, u) ∈ es ++ [(.string s, v)] ↔ u = v := fun u => by simp [hnew u]
  obtain ⟨u, hu, hfield⟩ := Entries.ByValue.field hout (mem_mergeEntries_iff hmerged' hs honce)
  obtain rfl := Except.ok.inj (hv.symm.trans ((hexpand hmore.mem).symm.trans hu))
  refine ⟨out, ?_⟩
  cases hr : Entries.swapRemove (.string s) out with
  | none =>
    have := Entries.swapRemove_eq_none_iff.mp hr _ ((hfield w).mpr rfl)
    rw [Value.same_self] at this
    cases this
  | some found =>
    obtain ⟨key, hkey, hperm⟩ := Entries.swapRemove_perm hr
    obtain rfl := Value.string_same_iff.mp hkey
    have hfound := (hfield found.1).mp (hperm.mem_iff.mpr List.mem_cons_self)
    exact ⟨found.2, expandWithin_mapping_ok_iff.mpr ⟨merged', out, hmerged', hout, rfl⟩, by rw [← hfound]⟩

end Merge

end Yaml

namespace Loader

open Traced

variable {onTag : OnTag} {v w x : Value} {es out : List (Value × Value)} {p : List Value.Step} {s : String}

/-- Where no key changes, a mapping is resolved value by value. -/
theorem resolveValue_mapping_ok_iff (hkeys : (Value.mapping es).untaggedKeys = true)
    (hd : (Value.mapping es).DistinctKeys) :
    (resolveValue onTag (.mapping es)).result = .ok w ↔
      ∃ out, w = .mapping out ∧
        List.Forall₂ (Entries.ByValue fun v => (resolveValue onTag v).result) es out := by
  have hself (e : Value × Value) (he : e ∈ es) : (resolveValue onTag e.1).result = .ok e.1 :=
    resolveValue_of_untagged onTag e.1 (Value.untaggedKeysInEntries_iff.mp hkeys e he).1
      (Value.distinctInEntries_iff.mp hd.2 e he).1
  have hentries (out : Entries) : (resolveEntries onTag es []).result = .ok out ↔
      List.Forall₂ (Entries.ByValue fun v => (resolveValue onTag v).result) es out := by
    rw [resolveEntries_ok_iff hself (by simpa [List.pairwise_map] using hd.1)]
    simp
  constructor
  · intro h
    obtain ⟨out, hout, h⟩ := result_bind_ok_iff.mp h
    exact ⟨out, (Except.ok.inj h).symm, (hentries out).mp hout⟩
  · rintro ⟨out, rfl, hout⟩
    exact result_bind_ok_iff.mpr ⟨out, (hentries out).mpr hout, rfl⟩

theorem untaggedKeys_at (h : v.At p x) (hkeys : v.untaggedKeys = true) : x.untaggedKeys = true := by
  induction h with
  | here v => exact hkeys
  | item hv _ ih => exact ih (Value.untaggedKeysInItems_iff.mp hkeys _ (List.mem_of_getElem? hv))
  | field hk _ ih => exact ih (Value.untaggedKeysInEntries_iff.mp hkeys _ ((hk _).mpr rfl)).2

theorem resolveValue_at_of_untaggedKeys (h : v.At p x) (hkeys : v.untaggedKeys = true) (hd : v.DistinctKeys)
    (hr : (resolveValue onTag v).result = .ok w) :
    ∃ y, (resolveValue onTag x).result = .ok y ∧ w.At p y := by
  induction h generalizing w with
  | here v => exact ⟨w, hr, .here w⟩
  | @item vs i v x p hv _ ih =>
    obtain ⟨ws, hws, hr⟩ := result_bind_ok_iff.mp hr
    obtain rfl := Except.ok.inj hr
    obtain ⟨hi, rfl⟩ := List.getElem?_eq_some_iff.mp hv
    have hws := resolveItems_ok_iff.mp hws
    have hlen := hws.length_eq
    obtain ⟨y, hy, hat⟩ := ih (Value.untaggedKeysInItems_iff.mp hkeys _ (List.getElem_mem hi))
      (Value.distinctInItems_iff.mp hd _ (List.getElem_mem hi)) (hws.get hi (by omega))
    exact ⟨y, hy, .item (List.getElem?_eq_getElem _) hat⟩
  | @field es k v x p hk _ ih =>
    have hmem := (hk v).mpr rfl
    obtain ⟨out, rfl, hout⟩ := (resolveValue_mapping_ok_iff hkeys hd).mp hr
    obtain ⟨v', hv, hk'⟩ := Entries.ByValue.field hout hk
    obtain ⟨y, hy, hat⟩ := ih (Value.untaggedKeysInEntries_iff.mp hkeys _ hmem).2
      (Value.distinctInEntries_iff.mp hd.2 _ hmem).2 hv
    exact ⟨y, hy, .field hk' hat⟩

/-- One more entry, of a value that stands in a mapping already, is resolved and expanded like that value. -/
theorem resolve_oneMore (hs : Merge.key.same (.string s) = false) (hp : Value.Step.unmerged p)
    (hat : (Value.mapping es).At p v) (hkeys : (Value.mapping es).untaggedKeys = true)
    (hd : (Value.mapping (es ++ [(.string s, v)])).DistinctKeys) {r m : Value}
    (hr : (resolveValue onTag (.mapping es)).result = .ok r) (hm : r.expandMerges = .ok m) :
    ∃ r' out w rest, (resolveValue onTag (.mapping (es ++ [(.string s, v)]))).result = .ok r' ∧
      r'.expandMerges = .ok (.mapping out) ∧ Entries.swapRemove (.string s) out = some (w, rest) ∧ m.At p w := by
  have hdistinct := List.pairwise_append.mp hd.1
  have hparts := Value.distinctInEntries_iff.mp hd.2
  have hes : (Value.mapping es).DistinctKeys :=
    ⟨hdistinct.1, Value.distinctInEntries_iff.mpr fun e he => hparts e (List.mem_append_left _ he)⟩
  have hkeys' : (Value.mapping (es ++ [(.string s, v)])).untaggedKeys = true := by
    refine Value.untaggedKeysInEntries_iff.mpr (List.forall_mem_append.mpr
      ⟨Value.untaggedKeysInEntries_iff.mp hkeys, List.forall_mem_singleton.mpr ⟨rfl, ?_⟩⟩)
    exact untaggedKeys_at hat hkeys
  obtain ⟨v', hv, hrat⟩ := resolveValue_at_of_untaggedKeys hat hkeys hes hr
  obtain ⟨es', rfl, hvalues⟩ := (resolveValue_mapping_ok_iff hkeys hes).mp hr
  obtain ⟨w, hw, hmat⟩ := Merge.expandWithin_at hrat hp (Nat.le_refl _) hm
  have hnew : ∀ u, (.string s, u) ∉ es' := by
    intro u hu
    obtain ⟨e, he, hkey, -⟩ := Entries.exists_of_mem_right hvalues hu
    have := hdistinct.2.2 e he (.string s, v) (List.mem_singleton_self _)
    rw [← hkey, Value.same_self] at this
    cases this
  obtain ⟨out, rest, hexpand, hremove⟩ := Merge.expandMerges_oneMore hs hnew hm hw
  refine ⟨_, out, w, rest, ?_, hexpand, hremove, hmat⟩
  exact (resolveValue_mapping_ok_iff hkeys' hd).mpr ⟨_, rfl, List.rel_append hvalues (.cons ⟨rfl, hv⟩ .nil)⟩

end Loader

end YamlInclude
