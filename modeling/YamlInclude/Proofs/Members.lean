import YamlInclude.Proofs.Equality
import YamlInclude.Proofs.Keys
import YamlInclude.Proofs.Numeral
import YamlInclude.Yaml.Json

/-! # Members of JSON values

The JSON value of a mapping has a member for each entry, in order, as long as no two keys have the same text.
Where they do, the later value takes the place of the earlier one. Strings have different texts, and so have
keys that can be read back from their texts.
-/

namespace YamlInclude

namespace Json

variable {name : String} {j : Json} {ms ns : List (String × Json)}

theorem setMember_of_new (h : ∀ m ∈ ms, m.1 ≠ name) : setMember name j ms = ms ++ [(name, j)] := by
  induction ms with
  | nil => rfl
  | cons m ms ih =>
    obtain ⟨hm, hms⟩ := List.forall_mem_cons.mp h
    simp only [setMember, hm, if_false, List.cons_append, ih hms]

theorem names_setMember_of_mem (h : ∃ m ∈ ms, m.1 = name) :
    (setMember name j ms).map Prod.fst = ms.map Prod.fst := by
  induction ms with
  | nil => simp at h
  | cons m ms ih =>
    by_cases hm : m.1 = name
    · simp [setMember, hm]
    · simp [setMember, hm, ih (by simpa [hm] using h)]

theorem length_setMember_of_mem (h : ∃ m ∈ ms, m.1 = name) : (setMember name j ms).length = ms.length := by
  simpa using congrArg List.length (names_setMember_of_mem (j := j) h)

theorem setMember_adds : Adds (fun m n => m.1 ≠ n.1) fun ms m => setMember m.1 m.2 ms where
  new := setMember_of_new
  old h := length_setMember_of_mem (by simpa using h)

def DistinctNames (ms : List (String × Json)) : Prop := ms.Pairwise fun m n => m.1 ≠ n.1

theorem ofMembers_of_distinct (h : DistinctNames ms) : ofMembers ms = .object ms :=
  congrArg object (setMember_adds.foldl_of_pairwise h)

theorem distinctNames_setMember (h : DistinctNames ms) : DistinctNames (setMember name j ms) := by
  by_cases hname : ∃ m ∈ ms, m.1 = name
  · rw [DistinctNames, ← List.pairwise_map] at h ⊢
    rwa [names_setMember_of_mem hname]
  · have hnew : ∀ m ∈ ms, m.1 ≠ name := fun m hm heq => hname ⟨m, hm, heq⟩
    rw [setMember_of_new hnew]
    exact List.pairwise_append.mpr ⟨h, List.pairwise_singleton _ _, by simpa using hnew⟩

theorem distinctNames_of_length (h : ofMembers ms = .object ns) (hlength : ns.length = ms.length) :
    DistinctNames ms := by
  obtain rfl := Json.object.inj h
  exact setMember_adds.pairwise_of_length .nil (by simpa using hlength)

end Json

namespace Yaml.Value

mutual

/-- Whether a JSON value has an item for each item and a member for each entry of a value, in order, with the
texts of the keys as names. Keys that are collections have such a JSON value too. -/
inductive Mirrors : Value → Json → Prop
  | scalar {v : Value} (h : v.isScalar = true) : Mirrors v v.toJson
  | sequence {vs : List Value} {js : List Json} (h : MirrorsItems vs js) : Mirrors (.sequence vs) (.array js)
  | mapping {es : List (Value × Value)} {ms : List (String × Json)} (h : MirrorsMembers es ms) :
      Mirrors (.mapping es) (.object ms)
  | tagged {t : String} {v : Value} {j : Json} (h : Mirrors v j) :
      Mirrors (.tagged t v) (.object [(tagText t, j)])

inductive MirrorsItems : List Value → List Json → Prop
  | nil : MirrorsItems [] []
  | cons {v : Value} {j : Json} {vs : List Value} {js : List Json} (h : Mirrors v j)
      (hs : MirrorsItems vs js) : MirrorsItems (v :: vs) (j :: js)

inductive MirrorsMembers : List (Value × Value) → List (String × Json) → Prop
  | nil : MirrorsMembers [] []
  | cons {k v : Value} {j : Json} {es : List (Value × Value)} {ms : List (String × Json)}
      (hk : Mirrors k k.toJson) (hv : Mirrors v j) (hs : MirrorsMembers es ms) :
      MirrorsMembers ((k, v) :: es) ((k.keyText, j) :: ms)

end

mutual

/-- Whether no two keys of a mapping have the same text, in keys and values alike. -/
def DistinctTexts : Value → Prop
  | sequence vs => DistinctTextsInItems vs
  | mapping es => es.Pairwise (fun e f => e.1.keyText ≠ f.1.keyText) ∧ DistinctTextsInEntries es
  | tagged _ v => DistinctTexts v
  | _ => True

def DistinctTextsInItems : List Value → Prop
  | [] => True
  | v :: vs => DistinctTexts v ∧ DistinctTextsInItems vs

def DistinctTextsInEntries : List (Value × Value) → Prop
  | [] => True
  | (k, v) :: es => DistinctTexts k ∧ DistinctTexts v ∧ DistinctTextsInEntries es

end

mutual

/-- Whether the keys of each mapping are all strings, or all what their texts are read as. -/
def KeysOfOneKind : Value → Prop
  | sequence vs => KeysOfOneKindInItems vs
  | mapping es =>
    ((∀ e ∈ es, ∃ s, e.1 = string s) ∨ ∀ e ∈ es, Scalar.ofPlain e.1.keyText = .ok e.1) ∧
      KeysOfOneKindInEntries es
  | tagged _ v => KeysOfOneKind v
  | _ => True

def KeysOfOneKindInItems : List Value → Prop
  | [] => True
  | v :: vs => KeysOfOneKind v ∧ KeysOfOneKindInItems vs

def KeysOfOneKindInEntries : List (Value × Value) → Prop
  | [] => True
  | (k, v) :: es => KeysOfOneKind k ∧ KeysOfOneKind v ∧ KeysOfOneKindInEntries es

end

variable {v : Value} {es : List (Value × Value)} {ms : List (String × Json)}

theorem entriesToJson_eq_map (es : List (Value × Value)) :
    entriesToJson es = es.map fun e => (e.1.keyText, e.2.toJson) := by
  induction es with
  | nil => rfl
  | cons e es ih => rw [entriesToJson, ih, List.map_cons]

theorem itemsToJson_eq_map (vs : List Value) : itemsToJson vs = vs.map toJson := by
  induction vs with
  | nil => rfl
  | cons v vs ih => rw [itemsToJson, ih, List.map_cons]

theorem distinctNames_entriesToJson :
    Json.DistinctNames (entriesToJson es) ↔ es.Pairwise fun e f => e.1.keyText ≠ f.1.keyText := by
  rw [entriesToJson_eq_map, Json.DistinctNames, List.pairwise_map]

theorem length_eq_of_mirrorsMembers (h : MirrorsMembers es ms) : ms.length = es.length := by
  induction es generalizing ms with
  | nil => cases h; rfl
  | cons e es ih =>
    cases h with
    | cons _ _ hs => rw [List.length_cons, ih hs, List.length_cons]

/-- The object has a member for each one that went in exactly if no name came twice. -/
theorem mirrors_ofMembers_iff
    (hes : MirrorsMembers es (entriesToJson es) ↔ DistinctTextsInEntries es) :
    Mirrors (.mapping es) (.ofMembers (entriesToJson es)) ↔ DistinctTexts (.mapping es) := by
  rw [DistinctTexts, ← distinctNames_entriesToJson, ← hes]
  constructor
  · intro h
    generalize hj : Json.ofMembers (entriesToJson es) = j at h
    cases h with
    | scalar h => cases h
    | mapping h =>
      have hlength := length_eq_of_mirrorsMembers h
      have hdistinct := Json.distinctNames_of_length hj (by simpa [entriesToJson_eq_map] using hlength)
      obtain rfl := Json.object.inj ((Json.ofMembers_of_distinct hdistinct).symm.trans hj)
      exact ⟨hdistinct, h⟩
  · rintro ⟨hdistinct, h⟩
    exact Json.ofMembers_of_distinct hdistinct ▸ .mapping h

mutual

theorem mirrors_iff (v : Value) : Mirrors v v.toJson ↔ v.DistinctTexts := by
  cases v with
  | sequence vs =>
    rw [DistinctTexts, ← mirrorsItems_iff vs, toJson]
    exact ⟨fun | .sequence h => h, .sequence⟩
  | mapping es => exact mirrors_ofMembers_iff (mirrorsMembers_iff es)
  | tagged t v =>
    rw [DistinctTexts, ← mirrors_iff v, toJson]
    exact ⟨fun | .tagged h => h, .tagged⟩
  | _ => exact iff_of_true (.scalar rfl) trivial

theorem mirrorsItems_iff (vs : List Value) : MirrorsItems vs (itemsToJson vs) ↔ DistinctTextsInItems vs := by
  match vs with
  | [] => exact iff_of_true .nil trivial
  | v :: vs =>
    rw [DistinctTextsInItems, ← mirrors_iff v, ← mirrorsItems_iff vs]
    exact ⟨fun | .cons h hs => ⟨h, hs⟩, fun ⟨h, hs⟩ => .cons h hs⟩

theorem mirrorsMembers_iff (es : List (Value × Value)) :
    MirrorsMembers es (entriesToJson es) ↔ DistinctTextsInEntries es := by
  match es with
  | [] => exact iff_of_true .nil trivial
  | (k, v) :: es =>
    rw [DistinctTextsInEntries, ← mirrors_iff k, ← mirrors_iff v, ← mirrorsMembers_iff es]
    exact ⟨fun | .cons hk hv hs => ⟨hk, hv, hs⟩, fun ⟨hk, hv, hs⟩ => .cons hk hv hs⟩

end

theorem distinctTexts_of_kind (hd : es.Pairwise fun e f => f.1.same e.1 = false)
    (hkind : (∀ e ∈ es, ∃ s, e.1 = string s) ∨ ∀ e ∈ es, Scalar.ofPlain e.1.keyText = .ok e.1) :
    es.Pairwise fun e f => e.1.keyText ≠ f.1.keyText := by
  refine hd.imp_of_mem fun {e f} he hf hne htext => ?_
  have heq : e.1 = f.1 := by
    rcases hkind with hkind | hkind
    · obtain ⟨s, hs⟩ := hkind e he
      obtain ⟨t, ht⟩ := hkind f hf
      rw [hs, ht] at htext ⊢
      exact congrArg string htext
    · have hread := hkind e he
      rw [htext, hkind f hf] at hread
      exact (Except.ok.inj hread).symm
  rw [heq, same_self] at hne
  cases hne

mutual

theorem distinctTexts_of_keysOfOneKind (v : Value) (hd : v.DistinctKeys) (hkind : v.KeysOfOneKind) :
    v.DistinctTexts := by
  cases v with
  | sequence vs => exact distinctTextsInItems_of_keysOfOneKind vs hd hkind
  | mapping es =>
    exact ⟨distinctTexts_of_kind hd.1 hkind.1, distinctTextsInEntries_of_keysOfOneKind es hd.2 hkind.2⟩
  | tagged t v => exact distinctTexts_of_keysOfOneKind v hd hkind
  | _ => trivial

theorem distinctTextsInItems_of_keysOfOneKind (vs : List Value) (hd : DistinctInItems vs)
    (hkind : KeysOfOneKindInItems vs) : DistinctTextsInItems vs := by
  match vs with
  | [] => trivial
  | v :: vs =>
    exact ⟨distinctTexts_of_keysOfOneKind v hd.1 hkind.1,
      distinctTextsInItems_of_keysOfOneKind vs hd.2 hkind.2⟩

theorem distinctTextsInEntries_of_keysOfOneKind (es : List (Value × Value)) (hd : DistinctInEntries es)
    (hkind : KeysOfOneKindInEntries es) : DistinctTextsInEntries es := by
  match es with
  | [] => trivial
  | (k, v) :: es =>
    exact ⟨distinctTexts_of_keysOfOneKind k hd.1 hkind.1, distinctTexts_of_keysOfOneKind v hd.2.1 hkind.2.1,
      distinctTextsInEntries_of_keysOfOneKind es hd.2.2 hkind.2.2⟩

end

theorem ofPlain_keyText {k : Value} (h : k = null ∨ (∃ b, k = bool b) ∨ ∃ n, k = number (.int n)) :
    Scalar.ofPlain k.keyText = .ok k := by
  rcases h with rfl | ⟨b, rfl⟩ | ⟨n, rfl⟩
  · decide +kernel
  · cases b <;> decide +kernel
  · exact Scalar.ofPlain_text n

/-- The JSON value keeps the entries of all mappings exactly if no two keys of one mapping have the same text.
It does so where the keys of each mapping are strings, or are read back from their texts. -/
theorem toJson_mirrors_iff (v : Value) :
    (Mirrors v v.toJson ↔ v.DistinctTexts) ∧ (v.DistinctKeys → v.KeysOfOneKind → Mirrors v v.toJson) :=
  ⟨mirrors_iff v, fun hd hkind => (mirrors_iff v).mpr (distinctTexts_of_keysOfOneKind v hd hkind)⟩

/-- A number, a boolean and null as keys become three members. -/
theorem toJson_keeps_literal_keys :
    ∃ v, values "1: one\ntrue: yes\n~: nothing\n" = [.ok v] ∧ v.DistinctKeys ∧ v.KeysOfOneKind ∧
      Mirrors v v.toJson := by
  let one : Number := .int ⟨1, by decide, by decide⟩
  let v := mapping [(number one, string "one"), (bool true, string "yes"), (null, string "nothing")]
  have hv : values "1: one\ntrue: yes\n~: nothing\n" = [.ok v] := by decide +kernel
  have hkind : v.KeysOfOneKind := by
    refine ⟨Or.inr fun e he => ?_, by simp [KeysOfOneKindInEntries, KeysOfOneKind]⟩
    simp only [List.mem_cons, List.not_mem_nil, or_false] at he
    rcases he with rfl | rfl | rfl <;> exact ofPlain_keyText (by simp [one])
  have hd := values_distinctKeys hv
  exact ⟨v, hv, hd, hkind, (toJson_mirrors_iff v).2 hd hkind⟩

/-- A number and the string that spells it become one member. -/
theorem toJson_drops_entry :
    ∃ v, values "1: a\n\"1\": b\n" = [.ok v] ∧ v.DistinctKeys ∧ ¬ Mirrors v v.toJson := by
  let one : Number := .int ⟨1, by decide, by decide⟩
  let v := mapping [(number one, string "a"), (string "1", string "b")]
  have hv : values "1: a\n\"1\": b\n" = [.ok v] := by decide +kernel
  refine ⟨v, hv, values_distinctKeys hv, fun h => ?_⟩
  have hjson : v.toJson = .object [("1", .string "b")] := by decide +kernel
  rw [hjson] at h
  change Mirrors (mapping [_, _]) _ at h
  cases h with
  | scalar h => cases h
  | mapping h => exact absurd (length_eq_of_mirrorsMembers h) (by decide)

end Yaml.Value

end YamlInclude
