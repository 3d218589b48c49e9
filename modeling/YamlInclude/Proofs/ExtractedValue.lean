import YamlInclude.Proofs.EntryEvents
import YamlInclude.Proofs.EntryValue
import YamlInclude.Proofs.Entrywise
import YamlInclude.Proofs.ReferenceText

/-! # Values of extracted nodes

What the splice keeps of a text is a text of whole lines, to which it adds the line of one entry. Where the kept text
has the nodes of the text, the entry goes on the root mapping, and the anchored node has its own value.
-/

namespace YamlInclude

open Yaml Traced

namespace Anchor

/-- What the splice keeps of a text, with a line break at its end. -/
def kept (text : String) : String :=
  let body := stripMarkers text.toList
  String.ofList (body ++ if body.isEmpty || body.getLast? == some '\n' then [] else ['\n'])

theorem splice_eq (text x : String) : (splice text x).toList = (kept text).toList ++ entryText x.toList := by
  simp [splice, kept, entryText]

theorem endsLine_kept {text : String} (h : kept text ≠ "") : EndsLine (kept text).toList := by
  simp only [kept, String.toList_ofList] at h ⊢
  split
  next hline =>
    rw [List.append_nil]
    obtain hempty | hline := Bool.or_eq_true_iff.mp hline
    · rw [List.isEmpty_iff.mp hempty] at h
      exact absurd rfl h
    · exact beq_iff_eq.mp hline
  · exact List.getLast?_concat

end Anchor

namespace Yaml

theorem completes_of_ended {ts : List (Located Token)} (h : Ended none ts) (hne : ts ≠ []) : Completes ts := by
  induction ts with
  | nil => exact absurd rfl hne
  | cons t ts ih =>
    obtain ⟨-, hlast, hrest⟩ := h
    by_cases hts : ts = []
    · exact ⟨t, List.mem_cons_self, hlast rfl hts⟩
    · obtain ⟨u, hu, he⟩ := ih hrest hts
      exact ⟨u, List.mem_cons_of_mem _ hu, he⟩

theorem Entries.mem_iff_of_distinct {es : Entries} {k v : Value} (h : es.Distinct) (hv : (k, v) ∈ es) (u : Value) :
    (k, u) ∈ es ↔ u = v := by
  have hkeys : (es.map (·.1)).Nodup := by
    refine List.pairwise_map.mpr (h.imp fun {e f} hne heq => ?_)
    rw [heq, Value.same_self] at hne
    cases hne
  constructor
  · intro hu
    exact congrArg Prod.snd (List.inj_on_of_nodup_map hkeys hu hv rfl)
  · rintro rfl
    exact hv

theorem reaches_of_values {text : String} {v : Value} (h : values text = [.ok v]) :
    Grammar.Reaches (events text).1 := by
  obtain hnone | hend := @events_ended text (by simp [h])
  · have hended := (tokens_faithful text.toList).2
    refine Grammar.run_ends _ (Grammar.start_ready hended) (fun hfailure => ?_) hnone
    refine completes_of_ended (hfailure ▸ hended) fun htokens => ?_
    have hdocuments : documents text = documentsOf (eventsOf (tokens text.toList).1 (tokens text.toList).2).2
        (eventsOf (tokens text.toList).1 (tokens text.toList).2).1 .empty true := rfl
    replace hfailure : (tokens text.toList).2 = none := hfailure
    replace htokens : (tokens text.toList).1 = [] := htokens
    rw [values, hdocuments, htokens, hfailure] at h
    cases h
  · exact hend

end Yaml

namespace Loader

variable {onTag : OnTag} {es rs : Entries} {k v m : Value} {name : String}

/-- Whether no two keys of a mapping resolve to the same key. -/
def KeysResolveDistinct (onTag : OnTag) (es : Entries) : Prop :=
  es.Pairwise fun e f => ∀ j k, (resolveValue onTag e.1).result = .ok j → (resolveValue onTag f.1).result = .ok k →
    k.same j = false

theorem keysResolveDistinct_of_untagged (h : ∀ e ∈ es, e.1.taggedNodes = []) (hd : (Value.mapping es).DistinctKeys) :
    KeysResolveDistinct onTag es := by
  have hself {e : Value × Value} (he : e ∈ es) : (resolveValue onTag e.1).result = .ok e.1 :=
    resolveValue_of_untagged onTag e.1 (h e he) (Value.distinctInEntries_iff.mp hd.2 e he).1
  refine hd.1.imp_of_mem fun {e f} he hf hne j k hj hk => ?_
  rw [← Except.ok.inj ((hself he).symm.trans hj), ← Except.ok.inj ((hself hf).symm.trans hk)]
  exact hne

theorem resolveValue_of_keysResolveDistinct (hkeys : KeysResolveDistinct onTag es) :
    (resolveValue onTag (.mapping es)).result = .ok m ↔
      ∃ rs, m = .mapping rs ∧ List.Forall₂ (EntryResolves onTag) es rs := by
  constructor
  · intro h
    obtain ⟨out, hout, h⟩ := result_bind_ok_iff.mp h
    obtain ⟨rs, hrs, rfl⟩ := resolveEntries_ok_iff_insertAll.mp hout
    have hall : Entries.insertAll [] rs = rs := Entries.insertAll_of_distinct ((distinct_resolved_iff hrs).mpr hkeys)
    exact ⟨rs, (Except.ok.inj h).symm.trans (by rw [hall]), hrs⟩
  · rintro ⟨rs, rfl, hrs⟩
    have hall : Entries.insertAll [] rs = rs := Entries.insertAll_of_distinct ((distinct_resolved_iff hrs).mpr hkeys)
    exact result_bind_ok_iff.mpr ⟨rs, resolveEntries_ok_iff_insertAll.mpr ⟨rs, hrs, hall.symm⟩, rfl⟩

theorem resolve_addedEntry (hname : Merge.key.same (.string name) = false) (hk : Merge.key.same k = false) {key : Value}
    {i : Nat} (hentry : es[i]? = some (key, v)) (hkey : (resolveValue onTag key).result = .ok k)
    (hkeys : KeysResolveDistinct onTag (es ++ [(.string name, v)])) {r : Value}
    (hr : (resolveValue onTag (.mapping es)).result = .ok r) (hm : r.expandMerges = .ok m) :
    ∃ r' out w rest, (resolveValue onTag (.mapping (es ++ [(.string name, v)]))).result = .ok r' ∧
      r'.expandMerges = .ok (.mapping out) ∧ Entries.swapRemove (.string name) out = some (w, rest) ∧
      m.At [.field k] w := by
  obtain ⟨rs, rfl, hrs⟩ := (resolveValue_of_keysResolveDistinct (List.pairwise_append.mp hkeys).1).mp hr
  obtain ⟨⟨k', y⟩, hmem, hk', hy⟩ : ∃ r ∈ rs, EntryResolves onTag (key, v) r :=
    Entries.exists_of_mem_left hrs (List.mem_of_getElem? hentry)
  obtain rfl := Except.ok.inj (hkey.symm.trans hk')
  have hrs' : List.Forall₂ (EntryResolves onTag) (es ++ [(.string name, v)]) (rs ++ [(.string name, y)]) :=
    List.rel_append hrs (.cons ⟨rfl, hy⟩ .nil)
  have hdistinct := List.pairwise_append.mp ((distinct_resolved_iff hrs').mpr hkeys)
  have hat : (Value.mapping rs).At [.field k] y := .field (Entries.mem_iff_of_distinct hdistinct.1 hmem) (.here y)
  have hunmerged : Value.Step.unmerged [.field k] := by
    intro k' hk'
    cases List.mem_singleton.mp hk'
    exact hk
  obtain ⟨w, hw, hmat⟩ := Merge.expandWithin_at hat hunmerged (Nat.le_refl _) hm
  have hnew : ∀ u, (.string name, u) ∉ rs := by
    intro u hu
    have := hdistinct.2.2 _ hu _ (List.mem_singleton_self _)
    rw [Value.same_self] at this
    cases this
  obtain ⟨out, rest, hexpand, hremove⟩ := Merge.expandMerges_oneMore hname hnew hm hw
  exact ⟨_, out, w, rest, (resolveValue_of_keysResolveDistinct hkeys).mpr ⟨_, rfl, hrs'⟩, hexpand, hremove, hmat⟩

variable {l : Loader} {text : String}

theorem values_of_loadText {s : LoadState} (h : (l.loadText text s).result = .ok [m]) : ∃ v, values text = [.ok v] := by
  obtain ⟨d, _, hd, hnone, hdocuments⟩ := List.forall₂_cons_right_iff.mp (loadWithin_ok_iff.mp h)
  obtain rfl := List.forall₂_nil_right_iff.mp hnone
  obtain ⟨v, _, hv, -⟩ := loadDocument_ok hd
  exact ⟨v, by rw [values, hdocuments, List.map_singleton, hv]⟩

end Loader

namespace Yaml

variable {text x : String} {p : Properties} {entries : List (NodeTree × NodeTree)}

theorem isName_of_anchor {t : NodeTree} {v : Value} (h : ReadsAs text t) (hv : values text = [.ok v])
    (hx : x ∈ t.anchors) : x.toList.all isNameChar = true := by
  obtain ⟨e, he, hanchor⟩ := List.mem_filterMap.mp hx
  have hevent : e ∈ (events text).1.map (·.event) := by
    rw [h]
    simp [he]
  obtain ⟨m, hm, rfl⟩ := List.mem_map.mp hevent
  obtain ⟨t, ht, htoken⟩ := (carriesAnchor_iff_token (by simp [hv])).mp ⟨m, hm, hanchor⟩
  exact (((tokens_faithful text.toList).1 t ht).stands x htoken).2.1

theorem readsAs_splice {v : Value} (hkept : ReadsAs (Anchor.kept text) (.mapping p entries))
    (hname : x.toList.all isNameChar = true) (hne : x ≠ "") (hv : values (Anchor.splice text x) = [.ok v]) :
    ReadsAs (Anchor.splice text x) (.mapping p (entries ++ [(.scalar .none Anchor.sentinel true, .alias x)])) := by
  have hline : EndsLine (Anchor.kept text).toList := by
    refine Anchor.endsLine_kept fun hempty => ?_
    have hevents : (events "").1.map (·.event) = [.streamEnd] := by decide +kernel
    rw [hempty, ReadsAs, hevents] at hkept
    cases hkept
  have hreaches := reaches_of_values hv
  unfold ReadsAs events at hkept ⊢
  rw [events, Anchor.splice_eq] at hreaches
  rw [Anchor.splice_eq]
  have hne' : x.toList ≠ [] := by simpa using hne
  rw [events_entry hline hname hne' (.mappingStart p :: NodeTree.entryEvents entries)
    (by rw [hkept, NodeTree.events]; simp) hreaches]
  simp [NodeTree.events, NodeTree.entryEvents_append, NodeTree.entryEvents]

/-- Where the kept text is read as the mapping that a text is read as, the splice adds an entry with the value of the
anchored one. -/
theorem values_splice {whole : String} {es : Entries} {v : Value} {i : Nat} {node : NodeTree × NodeTree}
    (hkept : ReadsAs (Anchor.kept text) (.mapping p entries)) (hwhole : ReadsAs whole (.mapping p entries))
    (hnode : entries[i]? = some node) (hx : node.2.anchor? = some x)
    (honce : (NodeTree.mapping p entries).anchors.count x = 1) (hne : x ≠ "")
    (hv : values whole = [.ok (.mapping es)]) (hspliced : values (Anchor.splice text x) = [.ok v]) :
    ∃ k w, es[i]? = some (k, w) ∧
      values (Anchor.splice text x) = [.ok (.mapping (es ++ [(.string Anchor.sentinel, w)]))] := by
  have hname := isName_of_anchor hwhole hv (List.count_pos_iff.mp (honce ▸ Nat.one_pos))
  have hreads := readsAs_splice hkept hname hne hspliced
  obtain ⟨k, w, hentry, rfl⟩ := values_entry hwhole hreads (by decide +kernel) hnode hx honce hv hspliced
  exact ⟨k, w, hentry, hspliced⟩

end Yaml

open Loader

/-- The splice adds just its entry to a text that is read as a mapping, where what it keeps is read as that mapping,
the anchor stands at one entry only, and the text with the entry has a value. -/
theorem addsEntry_of_kept {text x : String} {p : Properties} {entries : List (NodeTree × NodeTree)} {es : Entries}
    {e : Value × Value} {v : Value} {i : Nat} {node : NodeTree × NodeTree}
    (hkept : ReadsAs (Anchor.kept text) (.mapping p entries)) (hwhole : ReadsAs text (.mapping p entries))
    (hnode : entries[i]? = some node) (hx : node.2.anchor? = some x)
    (honce : (NodeTree.mapping p entries).anchors.count x = 1) (hne : x ≠ "")
    (hv : values text = [.ok (.mapping es)]) (he : es[i]? = some e) (hmerge : Merge.key.same e.1 = false)
    (hkeys : (Value.mapping es).untaggedKeys = true) (hspliced : values (Anchor.splice text x) = [.ok v]) :
    AddsEntry text x [.field e.1] := by
  obtain ⟨key, w, he', hadded⟩ := values_splice hkept hwhole hnode hx honce hne hv hspliced
  obtain rfl := Option.some.inj (he.symm.trans he')
  have hat : (Value.mapping es).At [.field key] w :=
    .field (Entries.mem_iff_of_distinct (values_distinctKeys hv).1 (List.mem_of_getElem? he)) (.here w)
  refine ⟨es, w, hv, hadded, hat, ?_, hkeys⟩
  rintro k hk
  cases List.mem_singleton.mp hk
  exact hmerge

/-- An include of an anchored entry of a mapping gives what the entry is loaded as from every text that has the nodes
of the kept text: from that text, and from the whole one unless a node in it ends otherwise. -/
theorem extracted_value_is_own {l : Loader} (hl : l.tags = .empty) {st : LoadState} {raw x text whole : String}
    {n : Nat} (h : l.Extracts st raw x text) (hn : n ≤ l.source.extent + 1) {p : Properties}
    {entries : List (NodeTree × NodeTree)} (hkept : ReadsAs (Anchor.kept text) (.mapping p entries))
    (hwhole : ReadsAs whole (.mapping p entries)) {i : Nat} {node : NodeTree × NodeTree}
    (hnode : entries[i]? = some node) (hx : node.2.anchor? = some x)
    (honce : (NodeTree.mapping p entries).anchors.count x = 1) {es : Entries} {e : Value × Value} {k m w : Value}
    (hv : values whole = [.ok (.mapping es)]) (he : es[i]? = some e) (hk : Merge.key.same k = false)
    (hm : (l.loadText whole (.root (l.target raw st.file))).result = .ok [m])
    (hw : (l.follow (l.loadWithin n) raw st).result = .ok w) :
    let onTag := l.onTag (l.loadWithin l.source.extent) (.root (l.target raw st.file))
    let spliced := es ++ [(.string Anchor.sentinel, e.2)]
    values (Anchor.splice text x) = [.ok (.mapping spliced)] ∧
      ((resolveValue onTag e.1).result = .ok k → KeysResolveDistinct onTag spliced → m.At [.field k] w) := by
  obtain ⟨key, v⟩ := e
  obtain ⟨_, node⟩ := node
  obtain hloaded | ⟨e, he, -⟩ := h.follows hl hn
  · dsimp only
    generalize l.target raw st.file = file at hm hloaded
    obtain ⟨ds, hds, htaken⟩ := bind_ok (hloaded.symm.trans hw)
    match ds with
    | [] => cases htaken
    | _ :: _ :: _ => cases htaken
    | [d] =>
      obtain ⟨v', hv'⟩ := values_of_loadText hds
      have hne : x ≠ "" := (Reference.wellFormed_parse raw).anchor_ne_empty x h.anchored
      obtain ⟨key', v'', he', hv'⟩ := values_splice hkept hwhole hnode hx honce hne hv hv'
      obtain ⟨rfl, rfl⟩ := Prod.mk.inj (Option.some.inj (he.symm.trans he'))
      refine ⟨hv', fun hkey hkeys => ?_⟩
      obtain ⟨r, hr, hexpand⟩ := (loadWithin_single_iff hv).mp hm
      obtain ⟨r', hr', hexpand'⟩ := (loadWithin_single_iff hv').mp hds
      obtain ⟨r'', out, w', rest, hr'', hout, hremove, hat⟩ :=
        resolve_addedEntry (by decide +kernel) hk he hkey hkeys hr hexpand
      obtain rfl := Except.ok.inj (hr'.symm.trans hr'')
      obtain rfl := Except.ok.inj (hexpand'.symm.trans hout)
      have htaken' : takeEntry x file [.mapping out] = .ok w' := by
        change entryOf x file (.mapping out) = .ok w'
        simp only [entryOf, hremove]
      rwa [← Except.ok.inj (htaken'.symm.trans htaken)]
  · cases hw.symm.trans he

/-- A list above an alias to it, in a text with a document marker at its end. -/
theorem extracted_list_is_own :
    let text := "m: &x [p, q]\nn: *x\n...\n"
    let plain (s : String) := NodeTree.scalar .none s true
    let entries : List (NodeTree × NodeTree) :=
      [(plain "m", .sequence ⟨some "x", none⟩ [plain "p", plain "q"]), (plain "n", .alias "x")]
    let list := Value.sequence [.string "p", .string "q"]
    let m := Value.mapping [(.string "m", list), (.string "n", list)]
    let l := (FileSet.pair "k: !include b.yml *x\n" text).loader true none ⟨"/"⟩
    let st := LoadState.root ⟨"/a.yml"⟩
    let file := l.target "b.yml *x" st.file
    l.Extracts st "b.yml *x" "x" text ∧ ReadsAs (Anchor.kept text) (.mapping .none entries) ∧
      ReadsAs text (.mapping .none entries) ∧ values text = [.ok m] ∧
      (l.loadText text (.root file)).result = .ok [m] ∧
      (l.follow (l.loadWithin 1) "b.yml *x" st).result = .ok list ∧ m.At [.field (.string "m")] list := by
  intro text plain entries list m l st file
  have hextracts : l.Extracts st "b.yml *x" "x" text :=
    ⟨by decide +kernel, by decide +kernel, by decide +kernel, by decide +kernel⟩
  have hkept : ReadsAs (Anchor.kept text) (.mapping .none entries) := by decide +kernel
  have hwhole : ReadsAs text (.mapping .none entries) := by decide +kernel
  have hv : values text = [.ok m] := by decide +kernel
  have hm : (l.loadText text (.root file)).result = .ok [m] := by decide +kernel
  have hw : (l.follow (l.loadWithin 1) "b.yml *x" st).result = .ok list := by decide +kernel
  obtain ⟨hspliced, hat⟩ := extracted_value_is_own rfl hextracts (n := 1) (by decide +kernel) hkept hwhole (i := 0)
    rfl rfl (by decide +kernel) hv (k := .string "m") rfl (by decide +kernel) hm hw
  refine ⟨hextracts, hkept, hwhole, hv, hm, hw, hat rfl ?_⟩
  exact keysResolveDistinct_of_untagged (by decide +kernel) (values_distinctKeys hspliced)

end YamlInclude
