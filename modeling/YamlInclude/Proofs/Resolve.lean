import YamlInclude.Include.Load
import YamlInclude.Proofs.Traced

/-! # Tagged nodes of a load

What a load does is decided by its tagged nodes: two loads that treat them alike are alike, a load that
succeeds has a value for each of them, and one that fails for no other reason failed at one of them.
-/

namespace YamlInclude

open Yaml

namespace Yaml.Value

mutual

/-- The tagged nodes of a value with their tags, in keys and inside other tagged nodes too. -/
def taggedNodes : Value → List (String × Value)
  | .sequence vs => taggedInItems vs
  | .mapping es => taggedInEntries es
  | .tagged t v => (t, v) :: taggedNodes v
  | _ => []

def taggedInItems : List Value → List (String × Value)
  | [] => []
  | v :: vs => taggedNodes v ++ taggedInItems vs

def taggedInEntries : List (Value × Value) → List (String × Value)
  | [] => []
  | (k, v) :: es => taggedNodes k ++ taggedNodes v ++ taggedInEntries es

end

end Yaml.Value

namespace Loader

open Traced

variable {onTag onTag₁ onTag₂ : OnTag} {R : ∀ {α : Type}, Traced α → Traced α → Prop}

/-- Whether two treatments of tagged nodes are related on the given ones, if they are on the contents. -/
def AgreeOn (R : ∀ {α : Type}, Traced α → Traced α → Prop) (onTag₁ onTag₂ : OnTag)
    (nodes : List (String × Value)) : Prop :=
  ∀ t u, (t, u) ∈ nodes → ∀ r₁ r₂ : Unit → Traced Value, R (r₁ ()) (r₂ ()) →
    R (onTag₁ t u r₁) (onTag₂ t u r₂)

mutual

theorem resolveValue_congr (hR : Congruence R) (v : Value)
    (h : AgreeOn R onTag₁ onTag₂ v.taggedNodes) :
    R (resolveValue onTag₁ v) (resolveValue onTag₂ v) := by
  cases v with
  | sequence vs => exact hR.bind (resolveItems_congr hR vs h) fun _ => hR.pure _
  | mapping es => exact hR.bind (resolveEntries_congr hR es h []) fun _ => hR.pure _
  | tagged t u =>
    refine h t u List.mem_cons_self _ _ (resolveValue_congr hR u fun t' u' hm => ?_)
    exact h t' u' (List.mem_cons_of_mem _ hm)
  | _ => exact hR.pure _

theorem resolveItems_congr (hR : Congruence R) (vs : List Value)
    (h : AgreeOn R onTag₁ onTag₂ (Value.taggedInItems vs)) :
    R (resolveItems onTag₁ vs) (resolveItems onTag₂ vs) := by
  match vs with
  | [] => exact hR.pure _
  | v :: vs =>
    have hv := resolveValue_congr hR v fun t u hm => h t u (List.mem_append_left _ hm)
    have hvs := resolveItems_congr hR vs fun t u hm => h t u (List.mem_append_right _ hm)
    exact hR.bind hv fun _ => hR.bind hvs fun _ => hR.pure _

theorem resolveEntries_congr (hR : Congruence R) (es : List (Value × Value))
    (h : AgreeOn R onTag₁ onTag₂ (Value.taggedInEntries es)) (done : Entries) :
    R (resolveEntries onTag₁ es done) (resolveEntries onTag₂ es done) := by
  match es with
  | [] => exact hR.pure _
  | (k, v) :: es =>
    have hk := resolveValue_congr hR k fun t u hm =>
      h t u (List.mem_append_left _ (List.mem_append_left _ hm))
    have hv := resolveValue_congr hR v fun t u hm =>
      h t u (List.mem_append_left _ (List.mem_append_right _ hm))
    have hes := resolveEntries_congr hR es fun t u hm => h t u (List.mem_append_right _ hm)
    exact hR.bind hk fun _ => hR.bind hv fun _ => hes _

end

mutual

theorem onTag_ok_of_resolveValue {v r : Value} (h : (resolveValue onTag v).result = .ok r)
    {t : String} {u : Value} (hm : (t, u) ∈ v.taggedNodes)
    (hleaf : ∀ t u r w, (onTag t u r).result = .ok w → u.taggedNodes = []) :
    ∃ r w, (onTag t u r).result = .ok w := by
  cases v with
  | sequence vs =>
    obtain ⟨ws, hws, -⟩ := result_bind_ok_iff.mp h
    exact onTag_ok_of_resolveItems hws hm hleaf
  | mapping es =>
    obtain ⟨ws, hws, -⟩ := result_bind_ok_iff.mp h
    exact onTag_ok_of_resolveEntries hws hm hleaf
  | tagged t' u' =>
    have hu : u'.taggedNodes = [] := hleaf t' u' _ r h
    obtain ⟨rfl, rfl⟩ : t = t' ∧ u = u' := by simpa [Value.taggedNodes, hu] using hm
    exact ⟨_, r, h⟩
  | _ => cases hm

theorem onTag_ok_of_resolveItems {vs ws : List Value} (h : (resolveItems onTag vs).result = .ok ws)
    {t : String} {u : Value} (hm : (t, u) ∈ Value.taggedInItems vs)
    (hleaf : ∀ t u r w, (onTag t u r).result = .ok w → u.taggedNodes = []) :
    ∃ r w, (onTag t u r).result = .ok w := by
  match vs with
  | [] => cases hm
  | v :: vs =>
    obtain ⟨w, hw, h⟩ := result_bind_ok_iff.mp h
    obtain ⟨ws, hws, -⟩ := result_bind_ok_iff.mp h
    rcases List.mem_append.mp hm with hm | hm
    · exact onTag_ok_of_resolveValue hw hm hleaf
    · exact onTag_ok_of_resolveItems hws hm hleaf

theorem onTag_ok_of_resolveEntries {es : List (Value × Value)} {done rs : Entries}
    (h : (resolveEntries onTag es done).result = .ok rs)
    {t : String} {u : Value} (hm : (t, u) ∈ Value.taggedInEntries es)
    (hleaf : ∀ t u r w, (onTag t u r).result = .ok w → u.taggedNodes = []) :
    ∃ r w, (onTag t u r).result = .ok w := by
  match es with
  | [] => cases hm
  | (k, v) :: es =>
    obtain ⟨k', hk, h⟩ := result_bind_ok_iff.mp h
    obtain ⟨v', hv, h⟩ := result_bind_ok_iff.mp h
    rcases List.mem_append.mp hm with hm | hm
    · rcases List.mem_append.mp hm with hm | hm
      · exact onTag_ok_of_resolveValue hk hm hleaf
      · exact onTag_ok_of_resolveValue hv hm hleaf
    · exact onTag_ok_of_resolveEntries h hm hleaf

end

mutual

theorem onTag_error_of_resolveValue {v : Value} {e : LoadError}
    (h : (resolveValue onTag v).result = .error e) :
    ∃ t u r, (t, u) ∈ v.taggedNodes ∧ (onTag t u r).result = .error e := by
  cases v with
  | sequence vs =>
    obtain h | ⟨_, -, h⟩ := result_bind_error_iff.mp h
    · exact onTag_error_of_resolveItems h
    · cases h
  | mapping es =>
    obtain h | ⟨_, -, h⟩ := result_bind_error_iff.mp h
    · exact onTag_error_of_resolveEntries h
    · cases h
  | tagged t u => exact ⟨t, u, _, List.mem_cons_self, h⟩
  | _ => cases h

theorem onTag_error_of_resolveItems {vs : List Value} {e : LoadError}
    (h : (resolveItems onTag vs).result = .error e) :
    ∃ t u r, (t, u) ∈ Value.taggedInItems vs ∧ (onTag t u r).result = .error e := by
  match vs with
  | [] => cases h
  | v :: vs =>
    obtain h | ⟨w, -, h⟩ := result_bind_error_iff.mp h
    · obtain ⟨t, u, r, hm, he⟩ := onTag_error_of_resolveValue h
      exact ⟨t, u, r, List.mem_append_left _ hm, he⟩
    · obtain h | ⟨_, -, h⟩ := result_bind_error_iff.mp h
      · obtain ⟨t, u, r, hm, he⟩ := onTag_error_of_resolveItems h
        exact ⟨t, u, r, List.mem_append_right _ hm, he⟩
      · cases h

theorem onTag_error_of_resolveEntries {es : List (Value × Value)} {done : Entries} {e : LoadError}
    (h : (resolveEntries onTag es done).result = .error e) :
    ∃ t u r, (t, u) ∈ Value.taggedInEntries es ∧ (onTag t u r).result = .error e := by
  match es with
  | [] => cases h
  | (k, v) :: es =>
    obtain h | ⟨k', -, h⟩ := result_bind_error_iff.mp h
    · obtain ⟨t, u, r, hm, he⟩ := onTag_error_of_resolveValue h
      exact ⟨t, u, r, List.mem_append_left _ (List.mem_append_left _ hm), he⟩
    · obtain h | ⟨v', -, h⟩ := result_bind_error_iff.mp h
      · obtain ⟨t, u, r, hm, he⟩ := onTag_error_of_resolveValue h
        exact ⟨t, u, r, List.mem_append_left _ (List.mem_append_right _ hm), he⟩
      · obtain ⟨t, u, r, hm, he⟩ := onTag_error_of_resolveEntries h
        exact ⟨t, u, r, List.mem_append_right _ hm, he⟩

end

end Loader

end YamlInclude
