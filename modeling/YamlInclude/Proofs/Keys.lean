import YamlInclude.Proofs.Traced
import YamlInclude.Yaml.Document

/-! # Keys of mappings

Equality of keys is reflexive, and no mapping that is read from a document has a key twice.
-/

namespace YamlInclude

/-- Whether an operation adds an item at the end of a list if it is fit for all items there, and makes the
list no longer otherwise. -/
structure Adds {α : Type} (fit : α → α → Prop) (add : List α → α → List α) : Prop where
  new : ∀ {as : List α} {a : α}, (∀ b ∈ as, fit b a) → add as a = as ++ [a]
  old : ∀ {as : List α} {a : α}, (∃ b ∈ as, ¬ fit b a) → (add as a).length = as.length

namespace Adds

variable {α : Type} {fit : α → α → Prop} {add : List α → α → List α} {as bs : List α}

theorem foldl_of_pairwise (h : Adds fit add) (hp : (as ++ bs).Pairwise fit) : bs.foldl add as = as ++ bs := by
  induction bs generalizing as with
  | nil => simp
  | cons b bs ih =>
    have hb : ∀ a ∈ as, fit a b := fun a ha => (List.pairwise_append.mp hp).2.2 a ha b List.mem_cons_self
    rw [List.foldl_cons, h.new hb, ih (by simpa using hp)]
    simp

theorem length_foldl_le (h : Adds fit add) (as bs : List α) : (bs.foldl add as).length ≤ as.length + bs.length := by
  induction bs generalizing as with
  | nil => simp
  | cons b bs ih =>
    have hle := ih (add as b)
    have hadd : (add as b).length ≤ as.length + 1 := by
      by_cases hb : ∀ a ∈ as, fit a b
      · simp [h.new hb]
      · have := h.old (by simpa using hb)
        omega
    rw [List.foldl_cons, List.length_cons]
    omega

theorem pairwise_of_length (h : Adds fit add) (has : as.Pairwise fit)
    (hlength : (bs.foldl add as).length = as.length + bs.length) : (as ++ bs).Pairwise fit := by
  induction bs generalizing as with
  | nil => simpa using has
  | cons b bs ih =>
    rw [List.foldl_cons, List.length_cons] at hlength
    by_cases hb : ∀ a ∈ as, fit a b
    · have hnew : (as ++ [b]).Pairwise fit := List.pairwise_append.mpr ⟨has, List.pairwise_singleton _ _, by simpa using hb⟩
      rw [h.new hb] at hlength
      simpa using ih hnew (by rw [hlength, List.length_append]; simp; omega)
    · have hold := h.old (by simpa using hb)
      have hle := h.length_foldl_le (add as b) bs
      omega

end Adds

namespace Yaml

theorem Number.same_self (n : Number) : n.same n = true := by
  cases n <;> simp [Number.same, Binary64.same]

namespace Value

mutual

def DistinctKeys : Value → Prop
  | sequence vs => DistinctInItems vs
  | mapping es => es.Pairwise (fun e f => f.1.same e.1 = false) ∧ DistinctInEntries es
  | tagged _ v => DistinctKeys v
  | _ => True

def DistinctInItems : List Value → Prop
  | [] => True
  | v :: vs => DistinctKeys v ∧ DistinctInItems vs

def DistinctInEntries : List (Value × Value) → Prop
  | [] => True
  | (k, v) :: es => DistinctKeys k ∧ DistinctKeys v ∧ DistinctInEntries es

end

theorem sameEntries_of_subset {es fs : List (Value × Value)} (hsub : es ⊆ fs)
    (h : ∀ e ∈ es, e.1.same e.1 = true ∧ e.2.same e.2 = true) : sameEntries es fs = true := by
  induction es with
  | nil => rfl
  | cons e es ih =>
    obtain ⟨hk, hv⟩ := h e List.mem_cons_self
    have hes := ih (fun f hf => hsub (List.mem_cons_of_mem _ hf)) fun f hf =>
      h f (List.mem_cons_of_mem _ hf)
    simp only [sameEntries, Bool.and_eq_true, List.any_eq_true]
    exact ⟨⟨e, hsub List.mem_cons_self, hk, hv⟩, hes⟩

mutual

@[simp] theorem same_self (v : Value) : v.same v = true := by
  cases v with
  | number n => exact Number.same_self n
  | sequence vs => exact sameItems_self vs
  | mapping es =>
    simp only [same, beq_self_eq_true, Bool.true_and]
    exact sameEntries_of_subset (List.Subset.refl _) (same_self_of_mem es)
  | tagged t v => simp [same, same_self v]
  | _ => simp [same]

theorem sameItems_self (vs : List Value) : sameItems vs vs = true := by
  match vs with
  | [] => rfl
  | v :: vs => simp [sameItems, same_self v, sameItems_self vs]

theorem same_self_of_mem (es : List (Value × Value)) :
    ∀ e ∈ es, e.1.same e.1 = true ∧ e.2.same e.2 = true := by
  match es with
  | [] => exact nofun
  | (k, v) :: es =>
    intro e he
    rcases List.mem_cons.mp he with rfl | he
    · exact ⟨same_self k, same_self v⟩
    · exact same_self_of_mem es e he

end

theorem distinctInEntries_iff {es : List (Value × Value)} :
    DistinctInEntries es ↔ ∀ e ∈ es, e.1.DistinctKeys ∧ e.2.DistinctKeys := by
  induction es with
  | nil => simp [DistinctInEntries]
  | cons e es ih =>
    obtain ⟨k, v⟩ := e
    simp [DistinctInEntries, ih, and_assoc]

theorem distinctInItems_iff {vs : List Value} :
    DistinctInItems vs ↔ ∀ v ∈ vs, v.DistinctKeys := by
  induction vs with
  | nil => simp [DistinctInItems]
  | cons v vs ih => simp [DistinctInItems, ih]

def isScalar : Value → Bool
  | sequence _ | mapping _ | tagged _ _ => false
  | _ => true

theorem distinctKeys_of_isScalar {v : Value} (h : v.isScalar = true) : v.DistinctKeys := by
  cases v <;> trivial

end Value

namespace Scalar

variable {v : Value}

theorem ofInteger_isScalar {n : Int} (h : ofInteger n = .ok v) : v.isScalar = true := by
  unfold ofInteger at h
  split at h <;> cases h
  rfl

theorem ofPlain_isScalar {s : String} (h : ofPlain s = .ok v) : v.isScalar = true := by
  unfold ofPlain at h
  simp only at h
  split at h
  · cases h; rfl
  split at h
  · cases h; rfl
  split at h
  · exact ofInteger_isScalar h
  split at h
  · cases h; rfl
  split at h <;> cases h <;> rfl

theorem ofCore_isScalar {kind s : String} (h : ofCore kind s = .ok v) : v.isScalar = true := by
  unfold ofCore at h
  simp only at h
  split at h
  · split at h <;> cases h
    rfl
  split at h
  · split at h
    · exact ofInteger_isScalar h
    · cases h
  split at h
  · split at h <;> cases h
    rfl
  split at h <;> cases h
  rfl

theorem value_isScalar {tag : Option Tag} {s : String} {plain : Bool}
    (h : Scalar.value tag s plain = .ok v) : v.isScalar = true := by
  unfold Scalar.value at h
  split at h
  · split at h
    · exact ofPlain_isScalar h
    · cases h; rfl
  · split at h
    · exact ofCore_isScalar h
    · cases h; rfl
  · split at h
    · exact ofPlain_isScalar h
    · cases h; rfl

end Scalar

namespace Entries

variable {es : Entries} {k v : Value}

theorem insert_of_new (h : ∀ e ∈ es, k.same e.1 = false) : es.insert k v = es ++ [(k, v)] := by
  induction es with
  | nil => rfl
  | cons e es ih =>
    have he := h e List.mem_cons_self
    simp only [insert, he, Bool.false_eq_true, if_false, List.cons_append]
    rw [ih fun f hf => h f (List.mem_cons_of_mem _ hf)]

theorem length_insert_of_contains (h : ∃ e ∈ es, k.same e.1 = true) : (es.insert k v).length = es.length := by
  induction es with
  | nil => simp at h
  | cons e es ih =>
    cases he : k.same e.1 with
    | true => simp [insert, he]
    | false => simp [insert, he, ih (by simpa [he] using h)]

def insertAll (done added : Entries) : Entries := added.foldl (fun acc e => acc.insert e.1 e.2) done

def Distinct (es : Entries) : Prop := List.Pairwise (fun e f => f.1.same e.1 = false) es

theorem insert_adds : Adds (fun e f => f.1.same e.1 = false) fun es e => Entries.insert e.1 e.2 es where
  new := insert_of_new
  old h := length_insert_of_contains (by simpa using h)

theorem insertAll_of_distinct {added : Entries} (h : Distinct (es ++ added)) :
    es.insertAll added = es ++ added := insert_adds.foldl_of_pairwise h

theorem distinct_of_length_insertAll {added : Entries} (h : (insertAll [] added).length = added.length) :
    added.Distinct :=
  insert_adds.pairwise_of_length List.Pairwise.nil (by simpa [insertAll] using h)

end Entries

namespace Document

variable {d : Document} {one : Reader Value} {path : List PathStep} {r r' : Reading}

def Gives (P : Value → Prop) (one : Reader Value) : Prop :=
  ∀ path r v r', one path r = .ok (v, r') → P v

theorem readItems_distinct (hone : Gives Value.DistinctKeys one) {fuel i : Nat} {vs : List Value}
    (h : d.readItems one path fuel i r = .ok (vs, r')) : Value.DistinctInItems vs := by
  induction fuel generalizing i r vs r' with
  | zero => cases h
  | succ fuel ih =>
    obtain ⟨⟨n, m⟩, -, h⟩ := bind_ok h
    cases n
    case sequenceEnd | void =>
      obtain ⟨rfl, -⟩ := Prod.mk.inj (Except.ok.inj h)
      trivial
    all_goals
      obtain ⟨⟨v, r₁⟩, hv, h⟩ := bind_ok h
      obtain ⟨⟨ws, r₂⟩, hws, h⟩ := bind_ok h
      obtain ⟨rfl, -⟩ := Prod.mk.inj (Except.ok.inj h)
      exact ⟨hone _ _ _ _ hv, ih hws⟩

/-- A key is looked up before its value is read, and an entry is added only if it is new. -/
theorem readEntries_distinct (hone : Gives Value.DistinctKeys one) {mark : Mark} {fuel : Nat}
    {seen es : Entries} (hs : (Value.mapping seen).DistinctKeys)
    (h : d.readEntries one path mark fuel seen r = .ok (es, r')) : (Value.mapping es).DistinctKeys := by
  induction fuel generalizing seen r with
  | zero => cases h
  | succ fuel ih =>
    obtain ⟨⟨n, m⟩, -, h⟩ := bind_ok h
    cases n
    case mappingEnd | void =>
      obtain ⟨rfl, -⟩ := Prod.mk.inj (Except.ok.inj h)
      exact hs
    all_goals
      obtain ⟨⟨k, r₁⟩, hk, h⟩ := bind_ok h
      simp only at h
      split at h
      · cases h
      next hnew =>
        obtain ⟨⟨v, r₂⟩, hv, h⟩ := bind_ok h
        refine ih ⟨?_, ?_⟩ h
        · refine List.pairwise_append.mpr ⟨hs.1, by simp, fun e he f hf => ?_⟩
          obtain rfl := List.mem_singleton.mp hf
          simpa using List.find?_eq_none.mp hnew e he
        · refine Value.distinctInEntries_iff.mpr fun e he => ?_
          rcases List.mem_append.mp he with he | he
          · exact Value.distinctInEntries_iff.mp hs.2 e he
          · obtain rfl := List.mem_singleton.mp he
            exact ⟨hone _ _ _ _ hk, hone _ _ _ _ hv⟩

theorem withTag_distinct {tag : Option Tag} {v : Value} (h : v.DistinctKeys) :
    (withTag tag v).DistinctKeys := by
  unfold withTag
  split <;> exact h

theorem scalarValue_distinct {tag : Option Tag} {text : String} {plain : Bool} {v : Value}
    (h : scalarValue tag text plain = .ok v) : v.DistinctKeys := by
  unfold scalarValue at h
  cases hv : Scalar.value (if (valueTag? tag).isSome then none else tag) text plain with
  | error f => rw [hv] at h; cases h
  | ok w =>
    rw [hv] at h
    obtain rfl := Except.ok.inj h
    exact withTag_distinct (Value.distinctKeys_of_isScalar (Scalar.value_isScalar hv))

theorem readShape_distinct {inner : Option (Reader Value)}
    (hinner : ∀ one, inner = some one → Gives Value.DistinctKeys one) :
    Gives Value.DistinctKeys (d.readShape inner) := by
  intro path r v r' h
  obtain ⟨⟨n, m⟩, -, h⟩ := bind_ok h
  simp only at h
  split at h
  · split at h
    next hv =>
      obtain ⟨rfl, -⟩ := Prod.mk.inj (Except.ok.inj h)
      exact scalarValue_distinct hv
    · cases h
  · obtain ⟨⟨vs, r₁⟩, hvs, h⟩ := bind_ok h
    obtain ⟨rfl, -⟩ := Prod.mk.inj (Except.ok.inj h)
    exact withTag_distinct (readItems_distinct (hinner _ rfl) hvs)
  · obtain ⟨⟨es, r₁⟩, hes, h⟩ := bind_ok h
    obtain ⟨rfl, -⟩ := Prod.mk.inj (Except.ok.inj h)
    exact withTag_distinct (readEntries_distinct (hinner _ rfl) ⟨.nil, trivial⟩ hes)
  · cases h
  · cases h
  · obtain ⟨rfl, -⟩ := Prod.mk.inj (Except.ok.inj h)
    trivial

theorem followAlias_distinct {here : Reader Value} (h : Gives Value.DistinctKeys here) :
    Gives Value.DistinctKeys (d.followAlias here) := by
  intro path r v r' hr
  obtain ⟨⟨n, m⟩, -, hr⟩ := bind_ok hr
  cases n
  case «alias» target =>
    simp only at hr
    split at hr
    · cases hr
    · obtain ⟨⟨w, r₁⟩, hw, hr⟩ := bind_ok hr
      obtain ⟨rfl, -⟩ := Prod.mk.inj (Except.ok.inj hr)
      exact h _ _ _ _ hw
  all_goals exact h _ _ _ _ hr

theorem readNode_distinct (d : Document) (depth : Nat) :
    Gives Value.DistinctKeys (d.readNode depth) := by
  induction depth with
  | zero => exact readShape_distinct nofun
  | succ depth ih =>
    refine readShape_distinct fun one h => ?_
    obtain rfl := Option.some.inj h
    exact followAlias_distinct ih

theorem value_distinctKeys {v : Value} (h : d.value = .ok v) : v.DistinctKeys := by
  obtain ⟨⟨w, r⟩, hw, h⟩ := bind_ok h
  have hd := followAlias_distinct (d.readNode_distinct depthLimit) _ _ _ _ hw
  simp only at h
  split at h
  · cases h
  · obtain rfl := Except.ok.inj h
    exact hd

end Document

theorem values_distinctKeys {text : String} {v : Value} (h : values text = [.ok v]) : v.DistinctKeys := by
  obtain ⟨d, -, hd⟩ := List.map_eq_singleton_iff.mp h
  exact Document.value_distinctKeys hd

end Yaml

end YamlInclude
