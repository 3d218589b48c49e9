import YamlInclude.Proofs.Load
import YamlInclude.Proofs.Merge

/-! # Invariants of loaded values

A property that scalars have, that lists and mappings get from their parts and that expansion keeps holds of
every value that a load gives, at whatever level of inclusion, if the constructors of tags keep it.
-/

namespace YamlInclude

open Yaml Traced

namespace Loader

/-- A property of values that each step of a load keeps. -/
structure Invariant (P : Value → Prop) : Prop where
  scalar : ∀ {v : Value}, v.isScalar = true → P v
  sequence : ∀ {vs : List Value}, (∀ v ∈ vs, P v) → P (.sequence vs)
  empty : P (.mapping [])
  insert : ∀ {es : Entries} {k v : Value}, P (.mapping es) → P k → P v → P (.mapping (es.insert k v))
  field : ∀ {es : Entries} {e : Value × Value}, P (.mapping es) → e ∈ es → P e.2
  expand : ∀ {v w : Value}, P v → v.expandMerges = .ok w → P w

variable {l : Loader} {load : LoadText} {s : LoadState} {text : String} {n : Nat} {P : Value → Prop}
  {onTag : OnTag}

/-- Whether tagged nodes give way to values with a property, if their contents resolve to such values. -/
def TagsKeep (P : Value → Prop) (onTag : OnTag) : Prop :=
  ∀ t u r w, (∀ v, (r ()).result = .ok v → P v) → (onTag t u r).result = .ok w → P w

mutual

theorem Invariant.resolveValue (hP : Invariant P) (hT : TagsKeep P onTag) (v : Value) {w : Value}
    (h : (resolveValue onTag v).result = .ok w) : P w := by
  cases v with
  | sequence vs =>
    obtain ⟨ws, hws, h⟩ := result_bind_ok_iff.mp h
    exact Except.ok.inj h ▸ hP.sequence (hP.resolveItems hT vs hws)
  | mapping es =>
    obtain ⟨out, hout, h⟩ := result_bind_ok_iff.mp h
    exact Except.ok.inj h ▸ hP.resolveEntries hT es hP.empty hout
  | tagged t u => exact hT t u _ w (fun v hv => hP.resolveValue hT u hv) h
  | _ => exact Except.ok.inj h ▸ hP.scalar rfl

theorem Invariant.resolveItems (hP : Invariant P) (hT : TagsKeep P onTag) (vs : List Value)
    {ws : List Value} (h : (resolveItems onTag vs).result = .ok ws) : ∀ w ∈ ws, P w := by
  match vs with
  | [] => exact Except.ok.inj h ▸ nofun
  | v :: vs =>
    obtain ⟨w, hw, h⟩ := result_bind_ok_iff.mp h
    obtain ⟨ws', hws, h⟩ := result_bind_ok_iff.mp h
    exact Except.ok.inj h ▸ List.forall_mem_cons.mpr ⟨hP.resolveValue hT v hw, hP.resolveItems hT vs hws⟩

theorem Invariant.resolveEntries (hP : Invariant P) (hT : TagsKeep P onTag) (es : List (Value × Value))
    {done out : Entries} (hdone : P (.mapping done)) (h : (resolveEntries onTag es done).result = .ok out) :
    P (.mapping out) := by
  match es with
  | [] => exact Except.ok.inj h ▸ hdone
  | (k, v) :: es =>
    obtain ⟨k', hk, h⟩ := result_bind_ok_iff.mp h
    obtain ⟨v', hv, h⟩ := result_bind_ok_iff.mp h
    have hinsert := hP.insert hdone (hP.resolveValue hT k hk) (hP.resolveValue hT v hv)
    exact hP.resolveEntries hT es hinsert h

end

theorem loadEach_ok_iff {one : Document → Traced Value} {ds : List Document} {vs : List Value} :
    (loadEach one ds).result = .ok vs ↔ List.Forall₂ (fun d v => (one d).result = .ok v) ds vs := by
  induction ds generalizing vs with
  | nil => cases vs <;> simp [loadEach]
  | cons d ds ih =>
    constructor
    · intro h
      obtain ⟨v, hv, h⟩ := result_bind_ok_iff.mp h
      obtain ⟨vs', hvs, h⟩ := result_bind_ok_iff.mp h
      obtain rfl := Except.ok.inj h
      exact .cons hv (ih.mp hvs)
    · rintro (_ | ⟨hv, hvs⟩)
      exact result_bind_ok_iff.mpr ⟨_, hv, result_bind_ok_iff.mpr ⟨_, ih.mpr hvs, rfl⟩⟩

/-- The values of a text are the values of its documents. -/
theorem loadWithin_ok_iff {vs : List Value} :
    (l.loadWithin (n + 1) text s).result = .ok vs ↔
      List.Forall₂ (fun d v => (l.loadDocument (l.loadWithin n) s d).result = .ok v) (documents text) vs := by
  rw [← loadEach_ok_iff, loadWithin, result_bind_ok_iff]
  exact ⟨fun ⟨_, _, h⟩ => h, fun h => ⟨(), rfl, h⟩⟩

theorem loadWithin_single_iff {v w : Value} (hv : values text = [.ok v]) :
    (l.loadWithin (n + 1) text s).result = .ok [w] ↔
      ∃ r, (resolveValue (l.onTag (l.loadWithin n) s) v).result = .ok r ∧ r.expandMerges = .ok w := by
  obtain ⟨d, hdocs, hd⟩ := List.map_eq_singleton_iff.mp hv
  rw [loadWithin_ok_iff, hdocs, List.forall₂_cons, loadDocument_ok_iff hd]
  exact and_iff_left .nil

theorem Invariant.single (hP : Invariant P) {w : Value}
    (hload : ∀ vs, (load text s).result = .ok vs → ∀ v ∈ vs, P v)
    (hw : (single load text s).result = .ok w) : P w := by
  obtain ⟨vs, hvs, ⟨-, rfl⟩ | rfl⟩ := single_ok hw
  · exact hP.scalar rfl
  · exact hload _ hvs w (List.mem_singleton_self w)

theorem Invariant.asked (hP : Invariant P) {anchor : Option String} {w : Value}
    (hload : ∀ text vs, (load text s).result = .ok vs → ∀ v ∈ vs, P v)
    (hw : (l.asked load text s anchor).result = .ok w) : P w := by
  cases anchor with
  | none => exact hP.single (hload text) hw
  | some a =>
    obtain ⟨es, rest, hes, hrem⟩ | ⟨-, -, rfl⟩ := anchored_ok hw
    · obtain ⟨key, -, hperm⟩ := Entries.swapRemove_perm hrem
      exact hP.field (hP.single (hload _) hes) (hperm.mem_iff.mpr List.mem_cons_self)
    · exact hP.scalar rfl

theorem Invariant.follow (hP : Invariant P) {raw : String} {w : Value}
    (hload : ∀ text s vs, (load text s).result = .ok vs → ∀ v ∈ vs, P v)
    (hw : (l.follow load raw s).result = .ok w) : P w := by
  obtain ⟨inner, text, -, -, hw⟩ := follow_ok hw
  exact hP.asked (fun text => hload text inner) hw

end Loader

/-- Whether a constructor gives values with a property, if all that it can ask for has the property. -/
def TagConstructor.Keeps (P : Value → Prop) (construct : TagConstructor) : Prop :=
  ∀ c : TagContext, (∀ v, (c.resolved ()).result = .ok v → P v) →
    (∀ raw v, (c.included raw).result = .ok v → P v) → ∀ w, (construct c).result = .ok w → P w

theorem TagRegistry.mem_of_get? {κ : Type} {r : TagRegistry κ} {tag : String} {c : κ}
    (h : r.get? tag = some c) : ∃ e ∈ r.entries, e.2 = c := by
  obtain ⟨before, after, heq, -⟩ := List.lookup_eq_some_iff.mp h
  exact ⟨_, heq ▸ List.mem_append_right _ List.mem_cons_self, rfl⟩

namespace Loader

variable {l : Loader} {load : LoadText} {s : LoadState} {P : Value → Prop}

theorem keeps_of_empty (hl : l.tags = .empty) : ∀ e ∈ l.tags.entries, e.2.Keeps P := by
  rw [hl]
  exact nofun

theorem Invariant.onTag (hP : Invariant P) (hl : ∀ e ∈ l.tags.entries, e.2.Keeps P)
    (hload : ∀ text s vs, (load text s).result = .ok vs → ∀ v ∈ vs, P v) :
    TagsKeep P (l.onTag load s) := by
  intro t u r w hr hw
  obtain ⟨raw, -, hw⟩ | ⟨construct, hget, hw⟩ := onTag_ok hw
  · exact hP.follow hload hw
  · obtain ⟨e, he, rfl⟩ := TagRegistry.mem_of_get? hget
    exact hl e he _ hr (fun raw v hv => hP.follow hload hv) w hw

/-- An invariant holds of all values that a load gives. -/
theorem Invariant.loadWithin (hP : Invariant P) (hl : ∀ e ∈ l.tags.entries, e.2.Keeps P) (n : Nat)
    (text : String) (s : LoadState) (vs : List Value) (h : (l.loadWithin n text s).result = .ok vs) :
    ∀ v ∈ vs, P v := by
  induction n generalizing text s vs with
  | zero => cases h
  | succ n ih =>
    intro v hv
    obtain ⟨i, hi, rfl⟩ := List.getElem_of_mem hv
    have hdocs := loadWithin_ok_iff.mp h
    obtain ⟨raw, r, -, hr, hexpand⟩ := loadDocument_ok (hdocs.get (hdocs.length_eq ▸ hi) hi)
    exact hP.expand (hP.resolveValue (hP.onTag hl ih) raw hr) hexpand

end Loader

end YamlInclude
