import YamlInclude.Proofs.Chain
import YamlInclude.Proofs.TagLayers

/-! # Registered constructors

Whatever constructors are registered one after the other, a registry holds tag names in order, each of them once, and
for each name the constructor of the last call that succeeded for it. The exclamation marks at the start of a name
make no difference, neither for a call nor for a tagged node, whose constructor is told the name as it is held.
-/

namespace YamlInclude

variable {tag word : String}

/-! ## Spellings -/

def spelled (marks : Nat) (word : String) : String := String.ofList (List.replicate marks '!' ++ word.toList)

/-- Whether a text is one exclamation mark and then something that does not start with another one. -/
def IsTagName (name : String) : Prop := ∃ cs, name.toList = '!' :: cs ∧ cs.head? ≠ some '!'

theorem isTagName_tagName (tag : String) : IsTagName (tagName tag) := by
  refine ⟨tag.toList.dropWhile (· == '!'), by simp [tagName], ?_⟩
  intro hhead
  have hnot := List.head?_dropWhile_not (· == '!') tag.toList
  rw [hhead] at hnot
  simp at hnot

theorem tagName_spelled (marks : Nat) (word : String) : tagName (spelled marks word) = tagName word := by
  have hmarks : ∀ c ∈ List.replicate marks '!', (c == '!') = true := by
    intro c hc
    simp [List.eq_of_mem_replicate hc]
  rw [tagName, spelled, String.toList_ofList, List.dropWhile_append_of_pos hmarks, tagName]

theorem tagName_tagName (tag : String) : tagName (tagName tag) = tagName tag := by
  have hname : tagName tag = spelled 1 (String.ofList (tag.toList.dropWhile (· == '!'))) := by simp [tagName, spelled]
  rw [hname, tagName_spelled, tagName, String.toList_ofList, List.dropWhile_idempotent, ← hname]
  rfl

/-- The texts with the name of include nodes are the word behind any number of exclamation marks. -/
theorem tagName_eq_includeTag_iff : tagName tag = includeTag ↔ ∃ marks, tag = spelled marks "include" := by
  constructor
  · intro h
    have hword : tag.toList.dropWhile (· == '!') = "include".toList := by
      have hchars := congrArg String.toList h
      rw [tagName, String.toList_ofList] at hchars
      exact (List.cons.inj hchars).2
    have hmarks : tag.toList.takeWhile (· == '!') = List.replicate (tag.toList.takeWhile (· == '!')).length '!' := by
      apply List.eq_replicate_of_mem
      intro c hc
      simpa using List.mem_takeWhile_imp hc
    refine ⟨(tag.toList.takeWhile (· == '!')).length, String.toList_inj.mp ?_⟩
    rw [spelled, String.toList_ofList, ← hmarks, ← hword, List.takeWhile_append_dropWhile]
  · rintro ⟨marks, rfl⟩
    rw [tagName_spelled]
    decide +kernel

namespace TagRegistry

variable {κ : Type} {r r' : TagRegistry κ} {calls before after : List (String × κ)} {call : String × κ} {name : String}
  {c d : κ} {e : LoadError}

/-! ## Calls -/

/-- The registry after calls one after the other. A call that fails leaves it as it is. -/
def afterCalls (r : TagRegistry κ) : List (String × κ) → TagRegistry κ
  | [] => r
  | (tag, c) :: calls =>
    match r.register tag c with
    | .ok r' => r'.afterCalls calls
    | .error _ => r.afterCalls calls

theorem register_error_iff : r.register tag c = .error e ↔
    e = .reservedTag includeTag ∧ ∃ marks, tag = spelled marks "include" := by
  rw [← tagName_eq_includeTag_iff, register]
  split
  next h => simp [h, eq_comm]
  next h => simp [h]

/-- Whether the names of a registry are tag names in order, each of them once, and none is that of include nodes. -/
structure WellFormed (r : TagRegistry κ) : Prop where
  ordered : r.tags.Pairwise (· < ·)
  isTagName : ∀ name ∈ r.tags, IsTagName name
  unreserved : includeTag ∉ r.tags

theorem WellFormed.inOrder (h : r.WellFormed) : InOrder r.entries := List.pairwise_map.mp h.ordered

theorem wellFormed_empty : (empty : TagRegistry κ).WellFormed where
  ordered := List.Pairwise.nil
  isTagName := by simp [tags, empty]
  unreserved := by simp [tags, empty]

theorem WellFormed.register (h : r.WellFormed) (hr : r.register tag c = .ok r') : r'.WellFormed := by
  obtain ⟨hname, rfl⟩ := register_ok_iff.mp hr
  have hmem {name : String} (hmem : name ∈ (TagRegistry.insertSorted (tagName tag) c r.entries).map (·.1)) :
      name = tagName tag ∨ name ∈ r.tags := by
    obtain ⟨e, he, rfl⟩ := List.mem_map.mp hmem
    exact (name_of_mem_insertSorted he).imp_right fun hes => List.mem_map.mpr ⟨e, hes, rfl⟩
  constructor
  · exact List.pairwise_map.mpr h.inOrder.insertSorted
  · intro name hn
    rcases hmem hn with rfl | hn
    · exact isTagName_tagName tag
    · exact h.isTagName name hn
  · intro hn
    rcases hmem hn with hn | hn
    · exact hname hn.symm
    · exact h.unreserved hn

theorem WellFormed.afterCalls (h : r.WellFormed) (calls : List (String × κ)) : (r.afterCalls calls).WellFormed := by
  induction calls generalizing r with
  | nil => exact h
  | cons call calls ih =>
    unfold TagRegistry.afterCalls
    split
    next hr => exact ih (h.register hr)
    · exact ih h

theorem afterCalls_concat (r : TagRegistry κ) (calls : List (String × κ)) (tag : String) (c : κ) :
    r.afterCalls (calls ++ [(tag, c)]) =
      match (r.afterCalls calls).register tag c with
      | .ok r' => r'
      | .error _ => r.afterCalls calls := by
  induction calls generalizing r with
  | nil => rfl
  | cons call calls ih =>
    rw [List.cons_append, afterCalls, afterCalls]
    split <;> exact ih _

theorem afterCalls_concat_spelled (r : TagRegistry κ) (calls : List (String × κ)) (marks : Nat) (c : κ) :
    r.afterCalls (calls ++ [(spelled marks "include", c)]) = r.afterCalls calls := by
  have hfails : (r.afterCalls calls).register (spelled marks "include") c = .error (.reservedTag includeTag) :=
    register_error_iff.mpr ⟨rfl, marks, rfl⟩
  rw [afterCalls_concat, hfails]

/-! ## Lookups -/

theorem WellFormed.contains_iff (h : r.WellFormed) : r.contains tag = true ↔ tagName tag ∈ r.tags := by
  rw [contains, Option.isSome_iff_exists, tags, List.mem_map]
  constructor
  · rintro ⟨c, hc⟩
    exact ⟨(tagName tag, c), h.inOrder.mem_iff.mpr hc, rfl⟩
  · rintro ⟨⟨name, c⟩, he, rfl⟩
    exact ⟨c, h.inOrder.mem_iff.mp he⟩

theorem WellFormed.get?_eq_none (h : r.WellFormed) (htag : tagName tag = includeTag) : r.get? tag = none := by
  have hnot : ¬ r.contains tag = true := by
    rw [h.contains_iff, htag]
    exact h.unreserved
  simpa [contains] using hnot

/-- Whether a constructor is that of the last call that succeeded for the name of a tag. -/
def IsLatest (calls : List (String × κ)) (tag : String) (c : κ) : Prop :=
  ∃ before spelling after, calls = before ++ (spelling, c) :: after ∧ tagName spelling = tagName tag ∧
    (∃ r, (empty.afterCalls before).register spelling c = .ok r) ∧ ∀ call ∈ after, tagName call.1 ≠ tagName tag

theorem register_succeeds_iff : (∃ r', r.register tag c = .ok r') ↔ tagName tag ≠ includeTag := by
  simp [register_ok_iff]

/-- One more call counts if it is for the name of the tag, and otherwise the calls before it do. -/
theorem isLatest_concat_iff {u : String} : IsLatest (calls ++ [(u, d)]) tag c ↔
    if tagName u = tagName tag then tagName u ≠ includeTag ∧ c = d else IsLatest calls tag c := by
  constructor
  · rintro ⟨before, spelling, after, hcalls, hname, hok, hafter⟩
    rcases List.eq_nil_or_concat' after with rfl | ⟨after, call, rfl⟩
    · obtain ⟨rfl, heq⟩ := List.append_inj' hcalls rfl
      obtain ⟨rfl, rfl⟩ := Prod.mk.inj (List.cons.inj heq).1
      rw [if_pos hname]
      exact ⟨register_succeeds_iff.mp hok, rfl⟩
    · rw [← List.cons_append, ← List.append_assoc] at hcalls
      obtain ⟨rfl, heq⟩ := List.append_inj' hcalls rfl
      obtain rfl := (List.cons.inj heq).1
      rw [if_neg (hafter (u, d) (by simp))]
      exact ⟨before, spelling, after, rfl, hname, hok, fun call hcall => hafter call (List.mem_append_left _ hcall)⟩
  · intro h
    split at h
    next hname =>
      obtain ⟨hu, rfl⟩ := h
      exact ⟨calls, u, [], rfl, hname, register_succeeds_iff.mpr hu, by simp⟩
    next hname =>
      obtain ⟨before, spelling, after, rfl, hspelling, hok, hafter⟩ := h
      refine ⟨before, spelling, after ++ [(u, d)], by simp, hspelling, hok, ?_⟩
      intro call hcall
      rcases List.mem_append.mp hcall with hcall | hcall
      · exact hafter call hcall
      · rwa [List.mem_singleton.mp hcall]

/-- A lookup finds the constructor of the last call that succeeded for the name. -/
theorem get?_afterCalls_iff : ((empty : TagRegistry κ).afterCalls calls).get? tag = some c ↔ IsLatest calls tag c := by
  induction calls using List.reverseRecOn with
  | nil => simp [IsLatest, afterCalls, get?, empty]
  | append_singleton calls call ih =>
    obtain ⟨u, d⟩ := call
    rw [afterCalls_concat, isLatest_concat_iff]
    cases hr : ((empty : TagRegistry κ).afterCalls calls).register u d with
    | ok r' =>
      have hu : tagName u ≠ includeTag := register_succeeds_iff.mp ⟨r', hr⟩
      rw [get?_of_register_ok hr]
      by_cases hname : tagName u = tagName tag
      · simp [hname, hname ▸ hu, eq_comm]
      · rw [if_neg hname, if_neg (Ne.symm hname)]
        exact ih
    | error e =>
      obtain ⟨-, hspelled⟩ := register_error_iff.mp hr
      have hu : tagName u = includeTag := tagName_eq_includeTag_iff.mpr hspelled
      by_cases hname : tagName u = tagName tag
      · have hnone : ((empty : TagRegistry κ).afterCalls calls).get? tag = none :=
          (wellFormed_empty.afterCalls calls).get?_eq_none (hname ▸ hu)
        simp [hname, hname ▸ hu, hnone]
      · rw [if_neg hname]
        exact ih

theorem contains_afterCalls_iff :
    ((empty : TagRegistry κ).afterCalls calls).contains tag = true ↔ ∃ c, IsLatest calls tag c := by
  rw [contains, Option.isSome_iff_exists]
  simp only [get?_afterCalls_iff]

theorem get?_tagName (r : TagRegistry κ) (tag : String) : r.get? (tagName tag) = r.get? tag := by
  rw [get?, tagName_tagName, get?]

end TagRegistry

namespace Loader

open Yaml TagRegistry

variable {l : Loader} {load : LoadText} {s : LoadState} {t : String} {v : Value}

/-- What the constructor of a tagged node is told. -/
def contextOf (l : Loader) (load : LoadText) (s : LoadState) (t : String) (v : Value) : TagContext where
  tag := tagName (Value.tagText t)
  file := s.file
  written := t
  content := v
  resolved _ := resolveValue (l.onTag load s) v
  included raw := l.follow load raw s

theorem resolveValue_tagged (htag : tagName (Value.tagText t) ≠ includeTag) :
    resolveValue (l.onTag load s) (.tagged t v) =
      match l.tags.get? (Value.tagText t) with
      | some construct => construct (l.contextOf load s t v)
      | none => .fail (.unknownTag (tagName (Value.tagText t)) s.file) := by
  simp only [resolveValue, onTag, if_neg htag, get?_tagName]
  cases l.tags.get? (Value.tagText t) <;> rfl

/-- Names are held and looked up in one form: a tagged node goes to the constructor that was registered last under
any spelling of its tag, and only the spellings of the include tag are refused. -/
theorem registry_and_dispatch_agree (calls : List (String × TagConstructor)) :
    let r := TagRegistry.empty.afterCalls calls
    r.WellFormed ∧ r.size = r.tags.length ∧
      (∀ tag c e, r.register tag c = .error e ↔
        e = .reservedTag includeTag ∧ ∃ marks, tag = spelled marks "include") ∧
      (∀ marks c, TagRegistry.empty.afterCalls (calls ++ [(spelled marks "include", c)]) = r) ∧
      (∀ tag c, r.get? tag = some c ↔ IsLatest calls tag c) ∧
      (∀ tag, (r.contains tag = true ↔ ∃ c, IsLatest calls tag c) ∧ (r.contains tag = true ↔ tagName tag ∈ r.tags)) ∧
      ∀ (l : Loader) (load : LoadText) (s : LoadState) (t : String) (v : Value), l.tags = r →
        tagName (Value.tagText t) ≠ includeTag →
        let context := l.contextOf load s t v
        (∀ c, IsLatest calls (Value.tagText t) c → context.tag ∈ r.tags ∧
          resolveValue (l.onTag load s) (.tagged t v) = c context) ∧
        ((∀ c, ¬ IsLatest calls (Value.tagText t) c) →
          resolveValue (l.onTag load s) (.tagged t v) = .fail (.unknownTag context.tag s.file)) := by
  intro r
  have hr : r.WellFormed := wellFormed_empty.afterCalls calls
  refine ⟨hr, (List.length_map _).symm, fun tag c e => register_error_iff, fun marks c => ?_, fun tag c => get?_afterCalls_iff,
    fun tag => ⟨contains_afterCalls_iff, hr.contains_iff⟩, ?_⟩
  · exact afterCalls_concat_spelled .empty calls marks c
  intro l load s t v hl htag context
  rw [resolveValue_tagged htag, hl]
  constructor
  · intro c hc
    rw [get?_afterCalls_iff.mpr hc]
    exact ⟨hr.contains_iff.mp (contains_afterCalls_iff.mpr ⟨c, hc⟩), rfl⟩
  · intro hnone
    cases hget : r.get? (Value.tagText t) with
    | none => rfl
    | some c => exact absurd (get?_afterCalls_iff.mp hget) (hnone c)

/-- The later spelling has the tag, in between a spelling of the include tag is refused, and another tag is unknown. -/
theorem later_spelling_is_dispatched :
    let first : TagConstructor := fun context => context.fail "first"
    let later : TagConstructor := fun context => pure (.string context.tag)
    let calls := [("!!shout", first), ("!!include", first), ("shout", later)]
    let l := { FileSet.empty.loader true none ⟨"/"⟩ with tags := TagRegistry.empty.afterCalls calls }
    let s := LoadState.root ⟨"/a.yml"⟩
    IsLatest calls "!shout" later ∧
      resolveValue (l.onTag l.loadText s) (.tagged "shout" .null) = pure (.string "!shout") ∧
      resolveValue (l.onTag l.loadText s) (.tagged "env" .null) = .fail (.unknownTag "!env" ⟨"/a.yml"⟩) := by
  intro first later calls l s
  obtain ⟨-, -, -, -, -, -, hdispatch⟩ := registry_and_dispatch_agree calls
  have hlatest : IsLatest calls "!shout" later :=
    ⟨calls.dropLast, "shout", [], rfl, by decide +kernel, register_succeeds_iff.mpr (by decide +kernel), by simp⟩
  have hnone (c : TagConstructor) : ¬ IsLatest calls "!env" c := by
    rintro ⟨before, spelling, after, hcalls, hname, -, -⟩
    have hmem : tagName spelling ∈ calls.map fun call => tagName call.1 :=
      List.mem_map.mpr ⟨(spelling, c), by rw [hcalls]; simp, rfl⟩
    have hnames : tagName "!env" ∉ [tagName "!!shout", tagName "!!include", tagName "shout"] := by decide +kernel
    rw [hname] at hmem
    exact hnames (by simpa [calls] using hmem)
  obtain ⟨hshout, -⟩ := hdispatch l l.loadText s "shout" .null rfl (by decide +kernel)
  obtain ⟨-, henv⟩ := hdispatch l l.loadText s "env" .null rfl (by decide +kernel)
  exact ⟨hlatest, (hshout later hlatest).2, henv hnone⟩

end Loader

end YamlInclude
