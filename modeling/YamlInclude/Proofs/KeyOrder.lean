import YamlInclude.Proofs.Chain
import YamlInclude.Proofs.Entry
import YamlInclude.Proofs.Invariant
import YamlInclude.Proofs.Members

/-! # Order of keys

A loaded mapping has the keys that its document writes in their order, exactly if at most one entry
follows the merge key: the last entry comes into the place of that key. The same holds of the member
names of its JSON value.
-/

namespace YamlInclude

open Yaml Traced

section LastToFront

variable {α : Type} {before after new : List α}

theorem lastToFront_of_length_le_one (h : after.length ≤ 1) : lastToFront after = after := by
  match after with
  | [] => rfl
  | [_] => rfl
  | _ :: _ :: _ => simp at h

theorem length_le_one_of_lastToFront (hd : after.Nodup) (h : lastToFront after = after) : after.length ≤ 1 := by
  rcases List.eq_nil_or_concat after with rfl | ⟨init, z, rfl⟩
  · exact Nat.zero_le _
  · rw [List.concat_eq_append, List.nodup_append] at hd
    rw [lastToFront, List.concat_eq_append, List.getLast?_concat, List.dropLast_concat] at h
    cases init with
    | nil => exact Nat.le_refl _
    | cons a init =>
      have hza : z = a := (List.cons.inj h).1
      exact absurd hza.symm (hd.2.2 a List.mem_cons_self z (List.mem_singleton_self z))

theorem sublist_of_sublist_append {xs ys : List α} (h : xs.Sublist (ys ++ new)) (hnew : ∀ a ∈ new, a ∉ xs) :
    xs.Sublist ys := by
  obtain ⟨xs₁, xs₂, rfl, h₁, h₂⟩ := List.sublist_append_iff.mp h
  cases xs₂ with
  | nil => simpa using h₁
  | cons a xs₂ => exact absurd (List.mem_append_right _ List.mem_cons_self) (hnew a (h₂.subset List.mem_cons_self))

theorem lastToFront_map {β : Type} (f : α → β) (as : List α) : lastToFront (as.map f) = (lastToFront as).map f := by
  cases h : as.getLast? <;> simp [lastToFront, h]

/-- Different elements keep their order when the last one moves, exactly if it passes no other one. -/
theorem sublist_lastToFront_iff (hd : (before ++ after).Nodup) (hnew : ∀ a ∈ new, a ∉ before ++ after) :
    (before ++ after).Sublist (before ++ lastToFront after ++ new) ↔ after.length ≤ 1 := by
  constructor
  · intro h
    have hsub := sublist_of_sublist_append h hnew
    have heq := hsub.eq_of_length (by simp [(lastToFront_perm after).length_eq])
    exact length_le_one_of_lastToFront hd.of_append_right (List.append_cancel_left heq).symm
  · intro h
    rw [lastToFront_of_length_le_one h]
    exact List.sublist_append_left _ _

end LastToFront

namespace Json

variable {ms acc : List (String × Json)}

theorem names_setMembers (ms acc : List (String × Json)) :
    ∃ new, (ms.foldl (fun acc m => setMember m.1 m.2 acc) acc).map Prod.fst = acc.map Prod.fst ++ new ∧
      ∀ n ∈ new, n ∉ acc.map Prod.fst := by
  induction ms generalizing acc with
  | nil => exact ⟨[], by simp, nofun⟩
  | cons m ms ih =>
    obtain ⟨new, heq, hnew⟩ := ih (setMember m.1 m.2 acc)
    rw [List.foldl_cons, heq]
    by_cases hm : ∃ a ∈ acc, a.1 = m.1
    · rw [names_setMember_of_mem hm] at hnew ⊢
      exact ⟨new, rfl, hnew⟩
    · have habsent : ∀ a ∈ acc, a.1 ≠ m.1 := fun a ha h => hm ⟨a, ha, h⟩
      rw [setMember_of_new habsent, List.map_append] at hnew ⊢
      refine ⟨m.1 :: new, by simp, ?_⟩
      intro n hn
      rcases List.mem_cons.mp hn with rfl | hn
      · simpa using fun a ha => habsent (m.1, a) ha rfl
      · exact fun h => hnew n hn (List.mem_append_left _ h)

theorem names_ofMembers {first : List (String × Json)} (last : List (String × Json)) (h : DistinctNames first) :
    ∃ ms new, ofMembers (first ++ last) = .object ms ∧ ms.map Prod.fst = first.map Prod.fst ++ new ∧
      ∀ n ∈ new, n ∉ first.map Prod.fst := by
  have hfirst : first.foldl (fun acc m => setMember m.1 m.2 acc) [] = first := setMember_adds.foldl_of_pairwise h
  obtain ⟨new, heq, hnew⟩ := names_setMembers last first
  refine ⟨_, new, ?_, heq, hnew⟩
  rw [ofMembers, List.foldl_append, hfirst]

end Json

namespace Yaml

namespace Entries

def ownKeys (es : Entries) : List Value := (es.map Prod.fst).filter fun k => !Merge.key.same k

def afterMerge (es : Entries) : Nat := ((es.map Prod.fst).dropWhile fun k => !Merge.key.same k).length - 1

variable {es es' : Entries}

theorem nodup_keys (h : es.Distinct) : (es.map Prod.fst).Nodup := by
  refine List.pairwise_map.mpr (h.imp ?_)
  intro e f hne heq
  rw [heq, Value.same_self] at hne
  cases hne

theorem ownKeys_of_free (h : ∀ e ∈ es, Merge.key.same e.1 = false) : es.ownKeys = es.map Prod.fst := by
  refine List.filter_eq_self.mpr ?_
  intro k hk
  obtain ⟨e, he, rfl⟩ := List.mem_map.mp hk
  simp [h e he]

theorem ownKeys_append (es es' : Entries) : ownKeys (es ++ es') = es.ownKeys ++ es'.ownKeys := by
  simp [ownKeys]

theorem afterMerge_of_free (h : ∀ e ∈ es, Merge.key.same e.1 = false) : es.afterMerge = 0 := by
  have hnil : (es.map Prod.fst).dropWhile (fun k => !Merge.key.same k) = [] := by
    simpa [List.dropWhile_eq_nil_iff] using fun a b he => h (a, b) he
  rw [afterMerge, hnil]
  rfl

theorem afterMerge_split {before after : Entries} {k v : Value} (hk : Merge.key.same k = true)
    (hbefore : ∀ e ∈ before, Merge.key.same e.1 = false) : afterMerge (before ++ (k, v) :: after) = after.length := by
  have hskip : ∀ a ∈ before.map Prod.fst, (!Merge.key.same a) = true := by
    simpa using fun a b he => hbefore (a, b) he
  rw [afterMerge, List.map_append, List.dropWhile_append_of_pos hskip, List.map_cons]
  simp [hk]

end Entries

namespace Merge

variable {es es' : Entries}

theorem mergeEntries_rest {v : Value} {rest : Entries} (hr : es.swapRemove key = some (v, rest))
    (h : mergeEntries es = .ok es') : ∃ new : Entries, es' = rest ++ new ∧ ∀ e ∈ new, rest.contains e.1 = false := by
  unfold mergeEntries at h
  rw [hr] at h
  cases v with
  | mapping added =>
    obtain ⟨new, -, heq, hnew⟩ := addEntries_eq rest added
    exact ⟨new, (Except.ok.inj h).symm.trans heq, hnew⟩
  | sequence items =>
    obtain ⟨new, heq, -, hnew⟩ := addItems_eq h
    exact ⟨new, heq, fun e he => (hnew e he).1⟩
  | _ => cases h

/-- A mapping without a merge key keeps its entries. In any other one the entries before the merge key stay,
the last entry comes into its place, and entries follow whose keys were not there. -/
theorem mergeEntries_arranged (hd : es.Distinct) (h : mergeEntries es = .ok es') :
    ∃ before after new : Entries, es.ownKeys = (before ++ after).map Prod.fst ∧ es.afterMerge = after.length ∧
      es' = before ++ lastToFront after ++ new ∧ ∀ e ∈ new, e.1 ∉ es.ownKeys := by
  cases hr : es.swapRemove key with
  | none =>
    have hfree := Entries.swapRemove_eq_none_iff.mp hr
    unfold mergeEntries at h
    rw [hr] at h
    refine ⟨es, [], [], ?_, Entries.afterMerge_of_free hfree, ?_, nofun⟩
    · rw [List.append_nil, Entries.ownKeys_of_free hfree]
    · simp [lastToFront, ← Except.ok.inj h]
  | some found =>
    obtain ⟨v, rest⟩ := found
    obtain ⟨before, k, after, rfl, hk, -, rfl⟩ := Entries.swapRemove_split hr
    obtain ⟨new, rfl, hnew⟩ := mergeEntries_rest hr h
    have hkey : k = key := Value.string_same_iff.mp hk
    subst hkey
    obtain ⟨-, htail, hbefore⟩ := List.pairwise_append.mp hd
    have hbefore : ∀ e ∈ before, key.same e.1 = false := fun e he => hbefore e he _ List.mem_cons_self
    have hafter : ∀ e ∈ after, key.same e.1 = false := by
      intro e he
      refine Bool.eq_false_iff.mpr fun hsame => ?_
      have hne := List.rel_of_pairwise_cons htail he
      rw [Value.string_same_iff.mp hsame] at hne
      cases hne
    have hown : Entries.ownKeys (before ++ (key, v) :: after) = (before ++ after).map Prod.fst := by
      rw [Entries.ownKeys_append, Entries.ownKeys_of_free hbefore, List.map_append, ← Entries.ownKeys_of_free hafter]
      rfl
    refine ⟨before, after, new, hown, Entries.afterMerge_split hk hbefore, rfl, ?_⟩
    intro e he hmem
    have habsent := hnew e he
    rw [Entries.contains, List.any_eq_false] at habsent
    rw [hown, List.mem_map] at hmem
    obtain ⟨f, hf, hfe⟩ := hmem
    have hf : f ∈ before ++ lastToFront after := ((lastToFront_perm after).append_left before).mem_iff.mpr hf
    exact habsent f hf (by rw [hfe, Value.same_self])

end Merge

/-- Whether a value has the keys of a mapping besides the merge key in their order. -/
def Value.KeysInOrder (es : Entries) : Value → Prop
  | .mapping ws => es.ownKeys.Sublist (ws.map Prod.fst)
  | _ => False

/-- Whether a JSON value has members for the keys of a mapping besides the merge key, in their order. -/
def Value.NamesInOrder (es : Entries) : Json → Prop
  | .object ms => (es.ownKeys.map Value.keyText).Sublist (ms.map Prod.fst)
  | _ => False

instance (es : Entries) : DecidablePred (Value.KeysInOrder es)
  | .mapping ws => inferInstanceAs (Decidable (es.ownKeys.Sublist (ws.map Prod.fst)))
  | .null | .bool _ | .number _ | .string _ | .sequence _ | .tagged _ _ => isFalse id

instance (es : Entries) : DecidablePred (Value.NamesInOrder es)
  | .object ms => inferInstanceAs (Decidable ((es.ownKeys.map Value.keyText).Sublist (ms.map Prod.fst)))
  | .null | .bool _ | .number _ | .string _ | .array _ => isFalse id

end Yaml

namespace Loader

variable {l : Loader} {load : LoadText} {s : LoadState} {d : Document} {es : Entries} {w : Value}

/-- A document that is a mapping gives one with the same keys besides the merge key, in whose place the last
of them has come, and with other keys after them. -/
theorem loadDocument_arranged (hv : d.value = .ok (.mapping es)) (hkeys : ∀ e ∈ es, e.1.taggedNodes = [])
    (h : (l.loadDocument load s d).result = .ok w) :
    ∃ ws before after new, w = .mapping ws ∧ es.ownKeys = before ++ after ∧ es.afterMerge = after.length ∧
      ws.map Prod.fst = before ++ lastToFront after ++ new ∧ ∀ k ∈ new, k ∉ es.ownKeys := by
  have hd := d.value_distinctKeys hv
  obtain ⟨r, hr, hexpand⟩ := (loadDocument_ok_iff hv).mp h
  obtain ⟨rs, hrs, hr⟩ := result_bind_ok_iff.mp hr
  obtain rfl := Except.ok.inj hr
  have hself : ∀ e ∈ es, (resolveValue (l.onTag load s) e.1).result = .ok e.1 := fun e he =>
    resolveValue_of_untagged _ e.1 (hkeys e he) (Value.distinctInEntries_iff.mp hd.2 e he).1
  obtain ⟨rs, rfl, hbyValue⟩ := (resolveEntries_ok_iff hself (by simpa [List.pairwise_map] using hd.1)).mp hrs
  have hsame : rs.map Prod.fst = es.map Prod.fst := Entries.ByValue.keys hbyValue
  have hdistinct : Entries.Distinct rs := by
    have hpairs : (es.map Prod.fst).Pairwise fun a b => b.same a = false := List.pairwise_map.mpr hd.1
    rw [← hsame] at hpairs
    exact List.pairwise_map.mp hpairs
  obtain ⟨es₁, ws, hmerge, hws, rfl⟩ := Merge.expandWithin_mapping_ok_iff.mp hexpand
  obtain ⟨before, after, new, hown, hcount, rfl, hnew⟩ := Merge.mergeEntries_arranged hdistinct hmerge
  have hown' : es.ownKeys = Entries.ownKeys rs := by rw [Entries.ownKeys, Entries.ownKeys, hsame]
  refine ⟨ws, before.map Prod.fst, after.map Prod.fst, new.map Prod.fst, rfl, ?_, ?_, ?_, ?_⟩
  · rw [hown', hown, List.map_append]
  · rw [List.length_map, ← hcount, Entries.afterMerge, Entries.afterMerge, hsame]
  · rw [Entries.ByValue.keys hws, List.map_append, List.map_append, lastToFront_map]
  · intro k hk
    obtain ⟨e, he, rfl⟩ := List.mem_map.mp hk
    rw [hown']
    exact hnew e he

theorem loadDocument_keysInOrder_iff (hv : d.value = .ok (.mapping es)) (hkeys : ∀ e ∈ es, e.1.taggedNodes = [])
    (h : (l.loadDocument load s d).result = .ok w) : w.KeysInOrder es ↔ es.afterMerge ≤ 1 := by
  obtain ⟨ws, before, after, new, rfl, hown, hcount, heq, hnew⟩ := loadDocument_arranged hv hkeys h
  have hnodup : es.ownKeys.Nodup := (Entries.nodup_keys (d.value_distinctKeys hv).1).filter _
  rw [Value.KeysInOrder, heq, hcount]
  rw [hown] at hnodup hnew ⊢
  exact sublist_lastToFront_iff hnodup hnew

theorem loadDocument_namesInOrder_iff (hv : d.value = .ok (.mapping es)) (hkeys : ∀ e ∈ es, e.1.taggedNodes = [])
    (h : (l.loadDocument load s d).result = .ok w) (htexts : (es.ownKeys.map Value.keyText).Nodup) :
    Value.NamesInOrder es w.toJson ↔ es.afterMerge ≤ 1 := by
  obtain ⟨ws, before, after, new, rfl, hown, hcount, heq, -⟩ := loadDocument_arranged hv hkeys h
  obtain ⟨own, others, rfl, hown', -⟩ := List.map_eq_append_iff.mp heq
  have hnames : (Value.entriesToJson own).map Prod.fst =
      before.map Value.keyText ++ lastToFront (after.map Value.keyText) := by
    rw [Value.entriesToJson_eq_map, List.map_map, lastToFront_map, ← List.map_append, ← hown', List.map_map]
    rfl
  rw [hown, List.map_append] at htexts
  have hperm := (lastToFront_perm (after.map Value.keyText)).append_left (before.map Value.keyText)
  have hdistinct : Json.DistinctNames (Value.entriesToJson own) := by
    rw [Json.DistinctNames, ← List.pairwise_map, hnames]
    exact hperm.nodup_iff.mpr htexts
  obtain ⟨ms, added, hms, hadded, hnew⟩ := Json.names_ofMembers (Value.entriesToJson others) hdistinct
  have hjson : (Value.mapping (own ++ others)).toJson = .object ms := by
    rw [← hms, Value.toJson]
    simp only [Value.entriesToJson_eq_map, List.map_append]
  rw [hjson, Value.NamesInOrder, hadded, hnames, hown, List.map_append, hcount,
    ← after.length_map Value.keyText]
  refine sublist_lastToFront_iff htexts ?_
  intro n hn hmem
  rw [hnames] at hnew
  exact hnew n hn (hperm.mem_iff.mpr hmem)

/-- Whether a mapping without tagged keys keeps the order of its own keys in a value, exactly if at most one
entry follows its merge key; and whether the same holds of the JSON value, if the keys have different texts. -/
def OrderDecided (d : Document) (w : Value) : Prop :=
  ∀ es : Entries, d.value = .ok (.mapping es) → (∀ e ∈ es, e.1.taggedNodes = []) →
    (w.KeysInOrder es ↔ es.afterMerge ≤ 1) ∧
      ((es.ownKeys.map Value.keyText).Nodup → (Value.NamesInOrder es w.toJson ↔ es.afterMerge ≤ 1))

theorem loadText_orderDecided {text : String} {ds : List Value} (h : (l.loadText text s).result = .ok ds) :
    List.Forall₂ OrderDecided (documents text) ds := by
  refine (loadWithin_ok_iff.mp h).imp ?_
  intro d w hw es hv hkeys
  exact ⟨loadDocument_keysInOrder_iff hv hkeys hw, loadDocument_namesInOrder_iff hv hkeys hw⟩

end Loader

/-- The keys that a document writes in its mapping keep their order when it is loaded, and when the loaded
value is written as JSON, exactly if at most one of them follows the merge key. -/
theorem loaded_keys_in_order_iff (l : Loader) (p : Path) :
    (∀ ds, (l.loadFile p).result = .ok ds → ∃ text, l.source.read (p.absolutize l.cwd) = .ok text ∧
      List.Forall₂ Loader.OrderDecided (documents text) ds) ∧
    ∀ text ds, (l.loadString text p).result = .ok ds → List.Forall₂ Loader.OrderDecided (documents text) ds := by
  constructor
  · intro ds h
    obtain ⟨text, hread, h⟩ := Loader.loadFile_ok h
    exact ⟨text, hread, Loader.loadText_orderDecided h⟩
  · intro text ds h
    exact Loader.loadText_orderDecided h

/-- One entry follows the merge key and comes into its place, so it stays behind the entry before that key. -/
theorem key_after_merge_in_order :
    let text := "b: p\n<<: !include d.yml\na: q\n"
    let l := (FileSet.mk [(⟨"/a.yml"⟩, text), (⟨"/d.yml"⟩, "{c: r, a: s}\n")]).loader true none ⟨"/"⟩
    let es : Entries :=
      [(.string "b", .string "p"), (Merge.key, .tagged "include" (.string "d.yml")), (.string "a", .string "q")]
    ∃ w, (l.loadFile ⟨"/a.yml"⟩).result = .ok [w] ∧ values text = [.ok (.mapping es)] ∧ w.KeysInOrder es ∧
      Value.NamesInOrder es w.toJson := by
  intro text l es
  let w := Value.mapping [(.string "b", .string "p"), (.string "a", .string "q"), (.string "c", .string "r")]
  have hload : (l.loadFile ⟨"/a.yml"⟩).result = .ok [w] := by decide +kernel
  have hvalues : values text = [.ok (.mapping es)] := by decide +kernel
  obtain ⟨read, hread, hall⟩ := (loaded_keys_in_order_iff l ⟨"/a.yml"⟩).1 [w] hload
  have htext : l.source.read ((⟨"/a.yml"⟩ : Path).absolutize l.cwd) = .ok text := by decide +kernel
  obtain rfl : read = text := Except.ok.inj (hread.symm.trans htext)
  obtain ⟨d, hdocs, hd⟩ := List.map_eq_singleton_iff.mp hvalues
  rw [hdocs] at hall
  obtain ⟨hdecided, -⟩ := List.forall₂_cons.mp hall
  obtain ⟨hkeys, hnames⟩ := hdecided es hd (by decide +kernel)
  exact ⟨w, hload, hvalues, hkeys.mpr (by decide +kernel), (hnames (by decide +kernel)).mpr (by decide +kernel)⟩

/-- The last of two entries that follow the merge key comes before the first one. -/
theorem merge_key_reorders :
    let text := "<<: {a: p}\na: q\nb: r\n"
    let l := (FileSet.mk [(⟨"/a.yml"⟩, text)]).loader true none ⟨"/"⟩
    ∃ (es : Entries) (w : Value), values text = [.ok (.mapping es)] ∧ (∀ e ∈ es, e.1.isScalar = true) ∧
      (es.ownKeys.map Value.keyText).Nodup ∧ (l.loadFile ⟨"/a.yml"⟩).result = .ok [w] ∧
      ¬ w.KeysInOrder es ∧ ¬ Value.NamesInOrder es w.toJson := by
  intro text l
  refine ⟨[(Merge.key, .mapping [(.string "a", .string "p")]), (.string "a", .string "q"), (.string "b", .string "r")],
    .mapping [(.string "b", .string "r"), (.string "a", .string "q")], ?_, ?_, ?_, ?_, ?_, ?_⟩
  all_goals decide +kernel

end YamlInclude
