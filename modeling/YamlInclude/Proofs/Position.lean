import YamlInclude.Proofs.Merge
import YamlInclude.Proofs.Resolve

/-! # Positions in values

A position goes down through items and entries. Resolving the tagged nodes of a value and expanding its
merge keys treats what stands at a position on its own, as long as no tagged node is in a key and the
position does not pass a merge key.
-/

namespace YamlInclude

open Yaml

namespace Yaml

namespace Value

inductive Step where
  | item (index : Nat)
  | field (key : Value)

/-- What stands at a position; the key of a step has to be there exactly once. -/
inductive At : Value → List Step → Value → Prop
  | here (v : Value) : At v [] v
  | item {vs : List Value} {i : Nat} {v w : Value} {p : List Step} (hv : vs[i]? = some v)
      (h : At v p w) : At (.sequence vs) (.item i :: p) w
  | field {es : List (Value × Value)} {k v w : Value} {p : List Step}
      (hk : ∀ u, (k, u) ∈ es ↔ u = v) (h : At v p w) : At (.mapping es) (.field k :: p) w

/-- A position that no mapping is left by its merge key at. -/
def Step.unmerged (p : List Step) : Prop := ∀ k, .field k ∈ p → Merge.key.same k = false

variable {v w x : Value} {p : List Step}

theorem At.unique (hw : v.At p w) (hx : v.At p x) : w = x := by
  induction hw with
  | here v => cases hx; rfl
  | item hv _ ih =>
    cases hx with
    | item hv' hx =>
      obtain rfl := Option.some.inj (hv.symm.trans hv')
      exact ih hx
  | field hk _ ih =>
    cases hx with
    | field hk' hx =>
      obtain rfl := (hk' _).mp ((hk _).mpr rfl)
      exact ih hx

theorem At.single {k : Value} (h : v.At p w) : (mapping [(k, v)]).At (.field k :: p) w :=
  .field (by simp) h

theorem taggedInItems_eq_flatMap (vs : List Value) : taggedInItems vs = vs.flatMap taggedNodes := by
  induction vs with
  | nil => rfl
  | cons v vs ih => simp [taggedInItems, ih]

theorem taggedInEntries_eq_flatMap (es : List (Value × Value)) :
    taggedInEntries es = es.flatMap fun e => e.1.taggedNodes ++ e.2.taggedNodes := by
  induction es with
  | nil => rfl
  | cons e es ih => simp [taggedInEntries, ih]

theorem At.taggedNodes_sublist (h : v.At p w) : w.taggedNodes.Sublist v.taggedNodes := by
  induction h with
  | here v => exact .refl _
  | @item vs i v w p hv _ ih =>
    refine ih.trans ?_
    rw [taggedNodes, taggedInItems_eq_flatMap]
    exact List.sublist_flatten_of_mem (List.mem_map_of_mem (List.mem_of_getElem? hv))
  | @field es k v w p hk _ ih =>
    refine ih.trans ?_
    rw [taggedNodes, taggedInEntries_eq_flatMap]
    exact (List.sublist_append_right _ _).trans
      (List.sublist_flatten_of_mem (List.mem_map.mpr ⟨(k, v), (hk v).mpr rfl, rfl⟩))

end Value

namespace Entries

theorem exists_of_mem_left {α β : Type} {R : α → β → Prop} {as : List α} {bs : List β}
    (h : List.Forall₂ R as bs) {a : α} (ha : a ∈ as) : ∃ b ∈ bs, R a b := by
  induction h with
  | nil => cases ha
  | cons hR _ ih =>
    rcases List.mem_cons.mp ha with rfl | ha
    · exact ⟨_, List.mem_cons_self, hR⟩
    · obtain ⟨b, hb, hR⟩ := ih ha
      exact ⟨b, List.mem_cons_of_mem _ hb, hR⟩

theorem exists_of_mem_right {α β : Type} {R : α → β → Prop} {as : List α} {bs : List β}
    (h : List.Forall₂ R as bs) {b : β} (hb : b ∈ bs) : ∃ a ∈ as, R a b :=
  exists_of_mem_left (List.Forall₂.flip (show List.Forall₂ (flip (flip R)) as bs from h)) hb

theorem forall_mem_iff_of_forall₂ {α β : Type} {R : α → β → Prop} {P : α → Prop} {Q : β → Prop}
    {as : List α} {bs : List β} (h : List.Forall₂ R as bs)
    (hiff : ∀ a ∈ as, ∀ b, R a b → (Q b ↔ P a)) : (∀ b ∈ bs, Q b) ↔ ∀ a ∈ as, P a := by
  constructor
  · intro hall a ha
    obtain ⟨b, hb, hR⟩ := exists_of_mem_left h ha
    exact (hiff a ha b hR).mp (hall b hb)
  · intro hall b hb
    obtain ⟨a, ha, hR⟩ := exists_of_mem_right h hb
    exact (hiff a ha b hR).mpr (hall a ha)

theorem ByValue.field {ε : Type} {f : Value → Except ε Value} {es es' : List (Value × Value)}
    (h : List.Forall₂ (ByValue f) es es') {k v : Value} (hk : ∀ u, (k, u) ∈ es ↔ u = v) :
    ∃ v', f v = .ok v' ∧ ∀ u, (k, u) ∈ es' ↔ u = v' := by
  obtain ⟨⟨k', v'⟩, hmem, rfl, hv⟩ := exists_of_mem_left h ((hk v).mpr rfl)
  refine ⟨v', hv, fun u => ⟨fun hu => ?_, fun hu => hu ▸ hmem⟩⟩
  obtain ⟨⟨k'', u'⟩, hmem', rfl, hu'⟩ := exists_of_mem_right h hu
  obtain rfl := (hk u').mp hmem'
  exact Except.ok.inj (hu'.symm.trans hv)

theorem ByValue.keys {ε : Type} {f : Value → Except ε Value} {es es' : List (Value × Value)}
    (h : List.Forall₂ (ByValue f) es es') : es'.map Prod.fst = es.map Prod.fst := by
  induction h with
  | nil => rfl
  | cons he _ ih => rw [List.map_cons, List.map_cons, he.1, ih]

end Entries

namespace Merge

variable {v w x : Value} {p : List Value.Step} {n : Nat}

theorem mem_mergeEntries_iff {es es' : Entries} (h : mergeEntries es = .ok es') {k v : Value}
    (hk : key.same k = false) (hmem : ∀ u, (k, u) ∈ es ↔ u = v) (u : Value) :
    (k, u) ∈ es' ↔ u = v := by
  obtain ⟨-, rfl⟩ | ⟨k', v', rest, new, hk', hperm, rfl, -, hnew⟩ := mergeEntries_ok h
  · exact hmem u
  · have hrest (u : Value) : (k, u) ∈ rest ↔ u = v := by
      rw [← hmem u, hperm.mem_iff, List.mem_cons]
      refine ⟨Or.inr, fun h => h.resolve_left ?_⟩
      rintro ⟨⟩
      rw [hk] at hk'
      cases hk'
    have habsent : (k, u) ∉ new := fun hu => by
      have := (hnew _ hu).1
      rw [Entries.contains, List.any_eq_false] at this
      exact this _ ((hrest v).mpr rfl) (Value.same_self k)
    rw [List.mem_append, or_iff_left habsent, hrest]

/-- Expansion treats what stands at a position on its own. -/
theorem expandWithin_at (h : v.At p x) (hp : Value.Step.unmerged p) (hd : v.depth ≤ n)
    (he : expandWithin n v = .ok w) : ∃ y, x.expandMerges = .ok y ∧ w.At p y := by
  induction h generalizing n w with
  | here v => exact ⟨w, (expandWithin_eq_of_depth_le (Nat.le_refl _) hd).trans he, .here w⟩
  | @item vs i v x p hv _ ih =>
    obtain ⟨n, rfl⟩ : ∃ m, n = m + 1 := ⟨n - 1, by simp only [Value.depth] at hd; omega⟩
    obtain ⟨ws, hws, rfl⟩ := expandWithin_sequence_ok_iff.mp he
    obtain ⟨hi, rfl⟩ := List.getElem?_eq_some_iff.mp hv
    have hlen := hws.length_eq
    have hdepth := Value.depth_le_of_mem_items (List.getElem_mem hi)
    obtain ⟨y, hy, hat⟩ := ih (fun k hk => hp k (List.mem_cons_of_mem _ hk))
      (by simp only [Value.depth] at hd; omega) (hws.get hi (by omega))
    exact ⟨y, hy, .item (List.getElem?_eq_getElem _) hat⟩
  | @field es k v x p hk _ ih =>
    obtain ⟨n, rfl⟩ : ∃ m, n = m + 1 := ⟨n - 1, by simp only [Value.depth] at hd; omega⟩
    obtain ⟨es₁, es₂, h₁, h₂, rfl⟩ := expandWithin_mapping_ok_iff.mp he
    have hdepth := Value.depth_le_of_mem_entries ((hk v).mpr rfl)
    have hk₁ := mem_mergeEntries_iff h₁ (hp k List.mem_cons_self) hk
    obtain ⟨v', hv, hk₂⟩ := Entries.ByValue.field h₂ hk₁
    obtain ⟨y, hy, hat⟩ := ih (fun k hk => hp k (List.mem_cons_of_mem _ hk))
      (by simp only [Value.depth] at hd hdepth; omega) hv
    exact ⟨y, hy, .field hk₂ hat⟩

end Merge

end Yaml

namespace Loader

open Traced

variable {onTag : OnTag} {v w x : Value} {vs ws : List Value} {es out : List (Value × Value)}

theorem resolveItems_ok_iff :
    (resolveItems onTag vs).result = .ok ws ↔
      List.Forall₂ (fun v w => (resolveValue onTag v).result = .ok w) vs ws := by
  induction vs generalizing ws with
  | nil => cases ws <;> simp [resolveItems]
  | cons v vs ih =>
    constructor
    · intro h
      obtain ⟨w, hw, h⟩ := result_bind_ok_iff.mp h
      obtain ⟨ws', hws, h⟩ := result_bind_ok_iff.mp h
      obtain rfl := Except.ok.inj h
      exact .cons hw (ih.mp hws)
    · rintro (_ | ⟨hw, hws⟩)
      exact result_bind_ok_iff.mpr ⟨_, hw, result_bind_ok_iff.mpr ⟨_, ih.mpr hws, rfl⟩⟩

/-- Whether an entry resolves to another one, by its key and by its value. -/
def EntryResolves (onTag : OnTag) (e e' : Value × Value) : Prop :=
  (resolveValue onTag e.1).result = .ok e'.1 ∧ (resolveValue onTag e.2).result = .ok e'.2

theorem resolveEntries_ok_iff_insertAll {done : Entries} :
    (resolveEntries onTag es done).result = .ok out ↔
      ∃ rs, List.Forall₂ (EntryResolves onTag) es rs ∧ out = done.insertAll rs := by
  induction es generalizing done with
  | nil => simp [resolveEntries, Entries.insertAll, eq_comm]
  | cons e es ih =>
    obtain ⟨k, v⟩ := e
    constructor
    · intro h
      obtain ⟨k', hk, h⟩ := result_bind_ok_iff.mp h
      obtain ⟨v', hv, h⟩ := result_bind_ok_iff.mp h
      obtain ⟨rs, hrs, rfl⟩ := ih.mp h
      exact ⟨(k', v') :: rs, .cons ⟨hk, hv⟩ hrs, rfl⟩
    · rintro ⟨_, _ | ⟨hr, hrs⟩, rfl⟩
      exact result_bind_ok_iff.mpr ⟨_, hr.1, result_bind_ok_iff.mpr ⟨_, hr.2, ih.mpr ⟨_, hrs, rfl⟩⟩⟩

theorem resolveEntries_ok_iff {done : Entries}
    (hkeys : ∀ e ∈ es, (resolveValue onTag e.1).result = .ok e.1)
    (hnew : (done.map Prod.fst ++ es.map Prod.fst).Pairwise fun a b => b.same a = false) :
    (resolveEntries onTag es done).result = .ok out ↔
      ∃ new, out = done ++ new ∧
        List.Forall₂ (Entries.ByValue fun v => (resolveValue onTag v).result) es new := by
  rw [resolveEntries_ok_iff_insertAll]
  refine exists_congr fun new => ?_
  have hentry : List.Forall₂ (EntryResolves onTag) es new ↔
      List.Forall₂ (Entries.ByValue fun v => (resolveValue onTag v).result) es new := by
    constructor <;> intro h <;> refine List.forall₂_iff_get.mpr ⟨h.length_eq, fun i hi hi' => ?_⟩
    · have he := h.get hi hi'
      exact ⟨Except.ok.inj (he.1.symm.trans (hkeys _ (List.getElem_mem hi))), he.2⟩
    · have he := h.get hi hi'
      exact ⟨(hkeys _ (List.getElem_mem hi)).trans (congrArg _ he.1.symm), he.2⟩
  rw [hentry, and_comm]
  refine and_congr_left fun h => ?_
  rw [Entries.insertAll_of_distinct]
  rw [← Entries.ByValue.keys h, ← List.map_append, List.pairwise_map] at hnew
  exact hnew

mutual

theorem resolveValue_eq_pure (onTag : OnTag) (v : Value) (hu : v.taggedNodes = []) (hd : v.DistinctKeys) :
    resolveValue onTag v = pure v := by
  cases v with
  | sequence vs => rw [resolveValue, resolveItems_eq_pure onTag vs hu hd, pure_bind]
  | mapping es =>
    have hes : resolveEntries onTag es [] = pure es := resolveEntries_eq_pure onTag es hu hd.2 hd.1
    rw [resolveValue, hes, pure_bind]
  | tagged t u => cases hu
  | _ => rfl

theorem resolveItems_eq_pure (onTag : OnTag) (vs : List Value) (hu : Value.taggedInItems vs = [])
    (hd : Value.DistinctInItems vs) : resolveItems onTag vs = pure vs := by
  match vs with
  | [] => rfl
  | v :: vs =>
    obtain ⟨hv, hvs⟩ := List.append_eq_nil_iff.mp hu
    rw [resolveItems, resolveValue_eq_pure onTag v hv hd.1, pure_bind, resolveItems_eq_pure onTag vs hvs hd.2, pure_bind]

theorem resolveEntries_eq_pure (onTag : OnTag) (es : List (Value × Value)) (hu : Value.taggedInEntries es = [])
    (hd : Value.DistinctInEntries es) {done : Entries} (hnew : (done ++ es).Distinct) :
    resolveEntries onTag es done = pure (done ++ es) := by
  match es with
  | [] => rw [resolveEntries, List.append_nil]
  | (k, v) :: es =>
    obtain ⟨hkv, hes⟩ := List.append_eq_nil_iff.mp hu
    obtain ⟨hk, hv⟩ := List.append_eq_nil_iff.mp hkv
    have hinsert : done.insert k v = done ++ [(k, v)] :=
      Entries.insert_of_new fun e he => (List.pairwise_append.mp hnew).2.2 e he _ List.mem_cons_self
    rw [List.append_cons] at hnew ⊢
    rw [resolveEntries, resolveValue_eq_pure onTag k hk hd.1, pure_bind, resolveValue_eq_pure onTag v hv hd.2.1,
      pure_bind, hinsert, resolveEntries_eq_pure onTag es hes hd.2.2 hnew]

end

theorem resolveValue_of_untagged (onTag : OnTag) (v : Value) (hu : v.taggedNodes = []) (hd : v.DistinctKeys) :
    (resolveValue onTag v).result = .ok v := by
  rw [resolveValue_eq_pure onTag v hu hd, result_pure]

theorem length_taggedNodes_le {e : Value × Value} (he : e ∈ es) :
    e.1.taggedNodes.length + e.2.taggedNodes.length ≤ (Value.taggedInEntries es).length := by
  have hsub : (e.1.taggedNodes ++ e.2.taggedNodes).Sublist (Value.taggedInEntries es) := by
    rw [Value.taggedInEntries_eq_flatMap]
    exact List.sublist_flatten_of_mem (List.mem_map.mpr ⟨e, he, rfl⟩)
  simpa using hsub.length_le

theorem keys_untagged {e : Value × Value} (hone : (Value.taggedInEntries es).length ≤ 1) (he : e ∈ es)
    (hn : 0 < e.2.taggedNodes.length) : ∀ f ∈ es, f.1.taggedNodes.length = 0 := by
  induction es with
  | nil => cases he
  | cons g es ih =>
    obtain ⟨k, v⟩ := g
    simp only [Value.taggedInEntries, List.length_append] at hone
    intro f hf
    rcases List.mem_cons.mp he with rfl | he <;> rcases List.mem_cons.mp hf with rfl | hf
    · simp only at hn ⊢
      omega
    · have := length_taggedNodes_le hf
      simp only at hn
      omega
    · have := length_taggedNodes_le he
      simp only
      omega
    · exact ih (by omega) he f hf

/-- The one tagged node of a value gives way to what it resolves to, at its position. -/
theorem resolveValue_at {t : String} {u : Value} {p : List Value.Step} (h : v.At p (.tagged t u))
    (hone : v.taggedNodes.length ≤ 1) (hd : v.DistinctKeys) (hr : (resolveValue onTag v).result = .ok w) :
    ∃ r x, (onTag t u r).result = .ok x ∧ w.At p x := by
  induction p generalizing v w with
  | nil =>
    cases h
    exact ⟨_, w, hr, .here w⟩
  | cons step p ih =>
    cases h with
    | @item vs i v x _ hv h =>
      obtain ⟨ws, hws, hr⟩ := result_bind_ok_iff.mp hr
      obtain rfl := Except.ok.inj hr
      obtain ⟨hi, rfl⟩ := List.getElem?_eq_some_iff.mp hv
      have hws := resolveItems_ok_iff.mp hws
      have hlen := hws.length_eq
      have hsub := (Value.At.item hv (.here vs[i])).taggedNodes_sublist.length_le
      obtain ⟨r, x, hx, hat⟩ := ih h (by omega)
        (Value.distinctInItems_iff.mp hd _ (List.getElem_mem hi)) (hws.get hi (by omega))
      exact ⟨r, x, hx, .item (List.getElem?_eq_getElem _) hat⟩
    | @field es k v x _ hk h =>
      obtain ⟨out, hout, hr⟩ := result_bind_ok_iff.mp hr
      obtain rfl := Except.ok.inj hr
      have hmem := (hk v).mpr rfl
      have hnode := h.taggedNodes_sublist.length_le
      have hpos : 0 < v.taggedNodes.length := by
        simp only [Value.taggedNodes, List.length_cons] at hnode
        omega
      have hkeys := keys_untagged hone hmem hpos
      have hdist := Value.distinctInEntries_iff.mp hd.2
      have hself (e : Value × Value) (he : e ∈ es) : (resolveValue onTag e.1).result = .ok e.1 :=
        resolveValue_of_untagged onTag e.1 (List.length_eq_zero_iff.mp (hkeys e he)) (hdist e he).1
      obtain ⟨new, rfl, hnew⟩ :=
        (resolveEntries_ok_iff hself (by simpa [List.pairwise_map] using hd.1)).mp hout
      obtain ⟨v', hv, hk'⟩ := Entries.ByValue.field hnew hk
      have hle := length_taggedNodes_le hmem
      simp only [Value.taggedNodes] at hone hle
      obtain ⟨r, x, hx, hat⟩ := ih h (by omega) (hdist _ hmem).2 hv
      exact ⟨r, x, hx, .field hk' hat⟩

end Loader

end YamlInclude
