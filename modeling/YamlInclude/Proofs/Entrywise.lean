import YamlInclude.Proofs.Chain
import YamlInclude.Proofs.Entry
import YamlInclude.Proofs.Equality

/-! # Entries of resolved mappings

Resolution gives an entry for each entry of a mapping, in order, as long as no two keys of the mapping
resolve to the same key. Where they do, the second one replaces the value of the first one.
-/

namespace YamlInclude

open Yaml Traced

namespace Loader

variable {onTag : OnTag} {v r : Value} {vs ws : List Value} {es rs out : List (Value × Value)}

mutual

/-- Whether a value has an item for each item and an entry for each entry of another one, in order, with
what tagged nodes resolve to in their places. -/
inductive Entrywise (onTag : OnTag) : Value → Value → Prop
  | scalar {v : Value} (h : v.isScalar = true) : Entrywise onTag v v
  | sequence {vs ws : List Value} (h : EntrywiseItems onTag vs ws) :
      Entrywise onTag (.sequence vs) (.sequence ws)
  | mapping {es rs : List (Value × Value)} (h : EntrywiseEntries onTag es rs) :
      Entrywise onTag (.mapping es) (.mapping rs)
  | tagged {t : String} {u w : Value} (h : (resolveValue onTag (.tagged t u)).result = .ok w) :
      Entrywise onTag (.tagged t u) w

inductive EntrywiseItems (onTag : OnTag) : List Value → List Value → Prop
  | nil : EntrywiseItems onTag [] []
  | cons {v w : Value} {vs ws : List Value} (h : Entrywise onTag v w) (hs : EntrywiseItems onTag vs ws) :
      EntrywiseItems onTag (v :: vs) (w :: ws)

inductive EntrywiseEntries (onTag : OnTag) : List (Value × Value) → List (Value × Value) → Prop
  | nil : EntrywiseEntries onTag [] []
  | cons {k v k' v' : Value} {es rs : List (Value × Value)} (hk : Entrywise onTag k k')
      (hv : Entrywise onTag v v') (hs : EntrywiseEntries onTag es rs) :
      EntrywiseEntries onTag ((k, v) :: es) ((k', v') :: rs)

end

mutual

/-- Whether no two keys of a mapping outside of tagged nodes resolve to the same key. -/
def KeysStayDistinct (onTag : OnTag) : Value → Prop
  | .sequence vs => KeysStayDistinctInItems onTag vs
  | .mapping es =>
    es.Pairwise (fun e f => ∀ j k, (resolveValue onTag e.1).result = .ok j →
      (resolveValue onTag f.1).result = .ok k → k.same j = false) ∧ KeysStayDistinctInEntries onTag es
  | _ => True

def KeysStayDistinctInItems (onTag : OnTag) : List Value → Prop
  | [] => True
  | v :: vs => KeysStayDistinct onTag v ∧ KeysStayDistinctInItems onTag vs

def KeysStayDistinctInEntries (onTag : OnTag) : List (Value × Value) → Prop
  | [] => True
  | (k, v) :: es => KeysStayDistinct onTag k ∧ KeysStayDistinct onTag v ∧ KeysStayDistinctInEntries onTag es

end

theorem length_eq_of_entrywiseEntries (h : EntrywiseEntries onTag es rs) : rs.length = es.length := by
  induction es generalizing rs with
  | nil => cases h; rfl
  | cons e es ih =>
    cases h with
    | cons _ _ hs => rw [List.length_cons, ih hs, List.length_cons]

theorem distinct_resolved_iff (h : List.Forall₂ (EntryResolves onTag) es rs) :
    Entries.Distinct rs ↔ es.Pairwise fun e f => ∀ j k, (resolveValue onTag e.1).result = .ok j →
      (resolveValue onTag f.1).result = .ok k → k.same j = false := by
  induction h with
  | nil => exact iff_of_true .nil .nil
  | @cons e r es rs he hs ih =>
    have hhead : (∀ r' ∈ rs, r'.1.same r.1 = false) ↔
        ∀ f ∈ es, ∀ j k, (resolveValue onTag e.1).result = .ok j →
          (resolveValue onTag f.1).result = .ok k → k.same j = false := by
      refine Entries.forall_mem_iff_of_forall₂ hs fun f _ r' hf => ?_
      constructor
      · intro hne j k hj hk
        obtain rfl := Except.ok.inj (he.1.symm.trans hj)
        obtain rfl := Except.ok.inj (hf.1.symm.trans hk)
        exact hne
      · exact fun hne => hne _ _ he.1 hf.1
    rw [Entries.Distinct, List.pairwise_cons, List.pairwise_cons, hhead]
    exact and_congr_right fun _ => ih

/-- The mapping has an entry for each one that went in exactly if no key came twice. -/
theorem entrywise_insertAll_iff (h : List.Forall₂ (EntryResolves onTag) es rs)
    (hrs : EntrywiseEntries onTag es rs ↔ KeysStayDistinctInEntries onTag es) :
    EntrywiseEntries onTag es (Entries.insertAll [] rs) ↔ KeysStayDistinct onTag (.mapping es) := by
  rw [KeysStayDistinct, ← distinct_resolved_iff h, ← hrs]
  constructor
  · intro hout
    have hlength := (length_eq_of_entrywiseEntries hout).trans h.length_eq
    have hdistinct := Entries.distinct_of_length_insertAll hlength
    have hall : Entries.insertAll [] rs = rs := Entries.insertAll_of_distinct hdistinct
    exact ⟨hdistinct, hall ▸ hout⟩
  · rintro ⟨hdistinct, hout⟩
    have hall : Entries.insertAll [] rs = rs := Entries.insertAll_of_distinct hdistinct
    rwa [hall]

mutual

theorem entrywise_iff (v : Value) {r : Value} (h : (resolveValue onTag v).result = .ok r) :
    Entrywise onTag v r ↔ KeysStayDistinct onTag v := by
  cases v with
  | sequence vs =>
    obtain ⟨ws, hws, h⟩ := result_bind_ok_iff.mp h
    obtain rfl := Except.ok.inj h
    rw [KeysStayDistinct, ← entrywiseItems_iff vs (resolveItems_ok_iff.mp hws)]
    exact ⟨fun | .sequence hs => hs, .sequence⟩
  | mapping es =>
    obtain ⟨out, hout, h⟩ := result_bind_ok_iff.mp h
    obtain rfl := Except.ok.inj h
    obtain ⟨rs, hrs, rfl⟩ := resolveEntries_ok_iff_insertAll.mp hout
    rw [← entrywise_insertAll_iff hrs (entrywiseEntries_iff es hrs)]
    exact ⟨fun | .mapping hs => hs, .mapping⟩
  | tagged t u => exact iff_of_true (.tagged h) trivial
  | _ => exact iff_of_true (Except.ok.inj h ▸ .scalar rfl) trivial

theorem entrywiseItems_iff (vs : List Value) {ws : List Value}
    (h : List.Forall₂ (fun v w => (resolveValue onTag v).result = .ok w) vs ws) :
    EntrywiseItems onTag vs ws ↔ KeysStayDistinctInItems onTag vs := by
  match vs, h with
  | [], .nil => exact iff_of_true .nil trivial
  | v :: vs, .cons hv hvs =>
    rw [KeysStayDistinctInItems, ← entrywise_iff v hv, ← entrywiseItems_iff vs hvs]
    exact ⟨fun | .cons h hs => ⟨h, hs⟩, fun ⟨h, hs⟩ => .cons h hs⟩

theorem entrywiseEntries_iff (es : List (Value × Value)) {rs : List (Value × Value)}
    (h : List.Forall₂ (EntryResolves onTag) es rs) :
    EntrywiseEntries onTag es rs ↔ KeysStayDistinctInEntries onTag es := by
  match es, h with
  | [], .nil => exact iff_of_true .nil trivial
  | (k, v) :: es, .cons he hes =>
    rw [KeysStayDistinctInEntries, ← entrywise_iff k he.1, ← entrywise_iff v he.2,
      ← entrywiseEntries_iff es hes]
    exact ⟨fun | .cons hk hv hs => ⟨hk, hv, hs⟩, fun ⟨hk, hv, hs⟩ => .cons hk hv hs⟩

end

mutual

theorem untaggedKeys_of_untagged (v : Value) (h : v.taggedNodes = []) : v.untaggedKeys = true := by
  cases v with
  | sequence vs => exact untaggedKeysInItems_of_untagged vs h
  | mapping es => exact untaggedKeysInEntries_of_untagged es h
  | _ => rfl

theorem untaggedKeysInItems_of_untagged (vs : List Value) (h : Value.taggedInItems vs = []) :
    Value.untaggedKeysInItems vs = true := by
  match vs with
  | [] => rfl
  | v :: vs =>
    obtain ⟨hv, hvs⟩ := List.append_eq_nil_iff.mp h
    rw [Value.untaggedKeysInItems, untaggedKeys_of_untagged v hv, untaggedKeysInItems_of_untagged vs hvs]
    rfl

theorem untaggedKeysInEntries_of_untagged (es : List (Value × Value)) (h : Value.taggedInEntries es = []) :
    Value.untaggedKeysInEntries es = true := by
  match es with
  | [] => rfl
  | (k, v) :: es =>
    obtain ⟨hkv, hes⟩ := List.append_eq_nil_iff.mp h
    obtain ⟨hk, hv⟩ := List.append_eq_nil_iff.mp hkv
    rw [Value.untaggedKeysInEntries, hk, untaggedKeys_of_untagged v hv, untaggedKeysInEntries_of_untagged es hes]
    rfl

end

mutual

theorem keysStayDistinct_of_untaggedKeys (onTag : OnTag) (v : Value) (hkeys : v.untaggedKeys = true)
    (hd : v.DistinctKeys) : KeysStayDistinct onTag v := by
  cases v with
  | sequence vs => exact keysStayDistinctInItems_of_untaggedKeys onTag vs hkeys hd
  | mapping es =>
    have hentries := Value.untaggedKeysInEntries_iff.mp hkeys
    have hdistinct := Value.distinctInEntries_iff.mp hd.2
    refine ⟨hd.1.imp_of_mem fun {e f} he hf hne j k hj hk => ?_,
      keysStayDistinctInEntries_of_untaggedKeys onTag es hkeys hd.2⟩
    have hself {g : Value × Value} (hg : g ∈ es) : (resolveValue onTag g.1).result = .ok g.1 :=
      resolveValue_of_untagged onTag g.1 (hentries g hg).1 (hdistinct g hg).1
    obtain rfl := Except.ok.inj ((hself he).symm.trans hj)
    obtain rfl := Except.ok.inj ((hself hf).symm.trans hk)
    exact hne
  | _ => trivial

theorem keysStayDistinctInItems_of_untaggedKeys (onTag : OnTag) (vs : List Value)
    (hkeys : Value.untaggedKeysInItems vs = true) (hd : Value.DistinctInItems vs) :
    KeysStayDistinctInItems onTag vs := by
  match vs with
  | [] => trivial
  | v :: vs =>
    obtain ⟨hv, hvs⟩ := Bool.and_eq_true_iff.mp hkeys
    exact ⟨keysStayDistinct_of_untaggedKeys onTag v hv hd.1,
      keysStayDistinctInItems_of_untaggedKeys onTag vs hvs hd.2⟩

theorem keysStayDistinctInEntries_of_untaggedKeys (onTag : OnTag) (es : List (Value × Value))
    (hkeys : Value.untaggedKeysInEntries es = true) (hd : Value.DistinctInEntries es) :
    KeysStayDistinctInEntries onTag es := by
  match es with
  | [] => trivial
  | (k, v) :: es =>
    obtain ⟨hkv, hes⟩ := Bool.and_eq_true_iff.mp hkeys
    obtain ⟨hk, hv⟩ := Bool.and_eq_true_iff.mp hkv
    have hk := untaggedKeys_of_untagged k (List.isEmpty_iff.mp hk)
    exact ⟨keysStayDistinct_of_untaggedKeys onTag k hk hd.1, keysStayDistinct_of_untaggedKeys onTag v hv hd.2.1,
      keysStayDistinctInEntries_of_untaggedKeys onTag es hes hd.2.2⟩

end

end Loader

open Loader

/-- Resolution keeps the entries of all mappings exactly if no two keys of one mapping resolve to the same
key. It does so where no key holds a tagged node. -/
theorem resolution_entrywise_iff {l : Loader} {load : LoadText} {s : LoadState} {v r : Value}
    (hd : v.DistinctKeys) (h : (resolveValue (l.onTag load s) v).result = .ok r) :
    (Entrywise (l.onTag load s) v r ↔ KeysStayDistinct (l.onTag load s) v) ∧
      (v.untaggedKeys = true → Entrywise (l.onTag load s) v r) := by
  have hiff := entrywise_iff v h
  exact ⟨hiff, fun hkeys => hiff.mpr (keysStayDistinct_of_untaggedKeys _ v hkeys hd)⟩

/-- An included key that is different from the other key keeps its entry. -/
theorem included_key_keeps_entry :
    let text := "? !include b.yml\n: p\nk: q\n"
    let l := (FileSet.mk [(⟨"/a.yml"⟩, text), (⟨"/b.yml"⟩, "j\n")]).loader true none ⟨"/"⟩
    let onTag := l.onTag (l.loadWithin l.source.extent) (.root ⟨"/a.yml"⟩)
    ∃ v r, values text = [.ok v] ∧ v.DistinctKeys ∧
      (resolveValue onTag v).result = .ok r ∧ KeysStayDistinct onTag v := by
  intro text l onTag
  let v := Value.mapping [(.tagged "include" (.string "b.yml"), .string "p"), (.string "k", .string "q")]
  let r := Value.mapping [(.string "j", .string "p"), (.string "k", .string "q")]
  have hv : values text = [.ok v] := by decide +kernel
  have hr : (resolveValue onTag v).result = .ok r := by decide +kernel
  have hentrywise : Entrywise onTag v r :=
    .mapping (.cons (.tagged (by decide +kernel)) (.scalar rfl) (.cons (.scalar rfl) (.scalar rfl) .nil))
  have hd := values_distinctKeys hv
  exact ⟨v, r, hv, hd, hr, (resolution_entrywise_iff hd hr).1.mp hentrywise⟩

/-- An included key that is the other key takes the place of its entry with it. -/
theorem included_key_drops_entry :
    let text := "? !include b.yml\n: p\nkey: q\n"
    let l := (FileSet.mk [(⟨"/a.yml"⟩, text), (⟨"/b.yml"⟩, "key\n")]).loader true none ⟨"/"⟩
    let onTag := l.onTag (l.loadWithin l.source.extent) (.root ⟨"/a.yml"⟩)
    ∃ v r, values text = [.ok v] ∧ v.DistinctKeys ∧
      (resolveValue onTag v).result = .ok r ∧ ¬ Entrywise onTag v r := by
  intro text l onTag
  let v := Value.mapping [(.tagged "include" (.string "b.yml"), .string "p"), (.string "key", .string "q")]
  have hv : values text = [.ok v] := by decide +kernel
  have hr : (resolveValue onTag v).result = .ok (.mapping [(.string "key", .string "q")]) := by decide +kernel
  refine ⟨v, _, hv, values_distinctKeys hv, hr, ?_⟩
  intro h
  change Entrywise onTag (.mapping [_, _]) (.mapping [_]) at h
  cases h with
  | mapping h => exact absurd (length_eq_of_entrywiseEntries h) (by decide)

end YamlInclude
