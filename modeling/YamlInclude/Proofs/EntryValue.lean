import YamlInclude.Proofs.SharedNodes

/-! # The value of an added entry

A text is read as a mapping, and another one as the same mapping with an entry more, whose value is an alias of the
anchor that one of the other entries has. Then its document has the entries of the first one, and the added entry has
the value of the anchored one.
-/

namespace YamlInclude.Yaml

variable {sentinel : String} {entries before after : List (NodeTree × NodeTree)} {key value : NodeTree}

theorem Event.begins_of_anchor {e : Event} (h : e.anchor? ≠ none) : e.begins = true := by
  cases e <;> first | rfl | exact absurd rfl h

namespace Document

variable {d d' : Document} {ns : List Node} {v : Value}

theorem target_of_anchor {es : List Event} {e f : Event} {j : Nat} (hnested : WellNested es)
    (hns : ns.map Node.shape = (e :: es).map Event.shape) (hf : (e :: es)[j]? = some f) (hanchor : f.anchor? ≠ none) :
    Target ns j := by
  cases j with
  | zero => exact Or.inl rfl
  | succ j =>
    obtain ⟨hj, hf⟩ := List.getElem?_eq_some_iff.mp hf
    have hdrop : es.drop j = f :: es.drop (j + 1) := by
      rw [← hf]
      exact List.drop_eq_getElem_cons (Nat.lt_of_succ_lt_succ hj)
    obtain ⟨t, rest, ht⟩ := hnested (es.take j) f (es.drop (j + 1)) (by rw [← hdrop, List.take_append_drop])
      (Event.begins_of_anchor hanchor)
    have hshape : (ns.drop (j + 1)).map Node.shape = t.events.map Event.shape ++ rest.map Event.shape := by
      rw [List.map_drop, hns, ← List.map_drop, List.drop_succ_cons, hdrop, ht, List.map_append]
    obtain ⟨ms, p, hms, hshape, -⟩ := List.map_eq_append_iff.mp hshape
    exact Or.inr ⟨t, ms, p, hms, hshape⟩

theorem readNode_of_value {n : Node} {p : List Node} (hnodes : d.nodes.map (·.1) = n :: p)
    (hn : ∀ target, n ≠ .alias target) (h : d.value = .ok v) :
    ∃ s, d.readNode depthLimit [] ⟨d.nodes, 0⟩ = .ok (v, s) := by
  obtain ⟨⟨w, s⟩, hw, h⟩ := bind_ok h
  have hw := followAlias_node (r := ⟨d.nodes, 0⟩) hnodes hn hw
  dsimp only at h
  split at h
  · cases h
  · cases h
    exact ⟨s, hw⟩

theorem readNode_mapping {depth : Nat} {path : List PathStep} {r s : Reading} {tag : Option Tag}
    (hr : r.nodes = .mappingStart tag :: ns) (h : d.readNode depth path r = .ok (v, s)) :
    ∃ k mark fuel r₁ es, depth = k + 1 ∧ r₁.nodes = ns ∧
      d.readEntries (d.followAlias (d.readNode k)) path mark fuel [] r₁ = .ok (es, s) ∧
      v = withTag tag (.mapping es) := by
  obtain ⟨inner, hd, hinner⟩ := d.readNode_eq depth
  rw [hd] at h
  obtain ⟨one, mark, fuel, r₁, es, hone, hr₁, hes, rfl⟩ := readShape_mapping hr h
  obtain ⟨k, rfl, rfl⟩ := hinner one hone
  exact ⟨k, mark, fuel, r₁, es, rfl, hr₁, hes, rfl⟩

theorem exists_least_depth {depth jumps : Nat} {path : List PathStep} {s : Reading}
    (h : d.readNode depth path ⟨d.nodes, jumps⟩ = .ok (v, s)) :
    ∃ least path jumps v s, d.readNode least path ⟨d.nodes, jumps⟩ = .ok (v, s) ∧
      ∀ k < least, ∀ path jumps v s, d.readNode k path ⟨d.nodes, jumps⟩ ≠ .ok (v, s) := by
  classical
  have hsome : ∃ depth path jumps v s, d.readNode depth path ⟨d.nodes, jumps⟩ = .ok (v, s) := ⟨_, _, _, _, _, h⟩
  obtain ⟨path, jumps, v, s, hleast⟩ := Nat.find_spec hsome
  exact ⟨_, path, jumps, v, s, hleast, fun k hk path jumps v s hv => Nat.find_min hsome hk ⟨path, jumps, v, s, hv⟩⟩

theorem withTag_mapping {tag : Option Tag} {es fs : Entries} (h : withTag tag (.mapping es) = .mapping fs) :
    es = fs ∧ ∀ gs, withTag tag (.mapping gs) = .mapping gs := by
  unfold withTag at h ⊢
  split at h
  · cases h
  · cases h
    exact ⟨rfl, fun _ => rfl⟩

theorem readEntries_added {depth j fuel : Nat} {path : List PathStep} {mark : Mark} {seen es : Entries}
    {r s : Reading} (hr : r.nodes = [.scalar none sentinel true, .alias j, .mappingEnd])
    (hsentinel : scalarValue none sentinel true = .ok (.string sentinel))
    (h : d.readEntries (d.followAlias (d.readNode depth)) path mark fuel seen r = .ok (es, s)) :
    ∃ path' jumps w inner, d.readNode depth path' ⟨d.nodes.drop j, jumps⟩ = .ok (w, inner) ∧
      es = seen ++ [(.string sentinel, w)] := by
  obtain ⟨_, k, r₁, w, r₂, hk, hw, h⟩ := readEntries_entry hr rfl h
  have hk := followAlias_node hr nofun hk
  obtain ⟨inner, hd, -⟩ := d.readNode_eq depth
  rw [hd] at hk
  obtain ⟨hkey, hr₁⟩ := readShape_scalar hr hk
  obtain rfl := Except.ok.inj (hsentinel.symm.trans hkey)
  obtain ⟨path', jumps, inner, hw, hr₂⟩ := followAlias_alias hr₁ hw
  obtain ⟨rfl, -⟩ := readEntries_end hr₂ h
  exact ⟨path', jumps, w, inner, hw, rfl⟩

theorem value_entry {shared : List Node} {p : Properties} {es : Entries} {v' : Value}
    (hfits : Fits shared (.mappingStart p :: NodeTree.entryEvents (before ++ (key, value) :: after)) shared)
    (htargets : ∀ j, .alias j ∈ shared → Target shared j) (hvalue : value.anchor? ≠ none)
    (hd : d.nodes.map (·.1) = shared ++ [.mappingEnd])
    (hd' : d'.nodes.map (·.1) = shared ++
      [.scalar none sentinel true, .alias (Event.mappingStart p :: (NodeTree.entryEvents before ++ key.events)).length,
        .mappingEnd])
    (hsentinel : scalarValue none sentinel true = .ok (.string sentinel))
    (hv : d.value = .ok (.mapping es)) (hv' : d'.value = .ok v') :
    ∃ k w, es[before.length]? = some (k, w) ∧ v' = .mapping (es ++ [(.string sentinel, w)]) := by
  obtain ⟨n, ns, hshared, hn, -, hns⟩ := hfits.cons
  cases n <;> cases hn
  have hshare : Share shared d d' := ⟨⟨_, hd.symm⟩, ⟨_, hd'.symm⟩, htargets⟩
  have hself : Share shared d d := ⟨⟨_, hd.symm⟩, ⟨_, hd.symm⟩, htargets⟩
  rw [hshared, List.cons_append] at hd hd'
  obtain ⟨_, hread⟩ := readNode_of_value hd nofun hv
  obtain ⟨_, hread'⟩ := readNode_of_value hd' nofun hv'
  obtain ⟨least, _, jumps, _, _, hleast, hmin⟩ := exists_least_depth hread
  obtain ⟨depth, _, _, r₀, es₀, rfl, hr₀, hes₀, -⟩ := readNode_mapping (r := ⟨d.nodes, jumps⟩) hd hleast
  obtain ⟨depth₁, _, _, r₁, es₁, -, hr₁, hes₁, htag⟩ := readNode_mapping (r := ⟨d.nodes, 0⟩) hd hread
  obtain ⟨depth₂, _, _, r₂, es₂, -, hr₂, hes₂, rfl⟩ := readNode_mapping (r := ⟨d'.nodes, 0⟩) hd' hread'
  obtain ⟨rfl, hplain⟩ := withTag_mapping htag.symm
  have hlower : ∀ k < depth, ∀ path jumps v s, d.readNode k path ⟨d.nodes, jumps⟩ ≠ .ok (v, s) :=
    fun k hk => hmin k (hk.trans depth.lt_succ_self)
  have hagree {e : Document} (he : Share shared d e) (k : Nat) (t : NodeTree) :
      Agree shared t.events (d.followAlias (d.readNode depth)) (e.followAlias (e.readNode k)) :=
    followAlias_agree he (hmin depth depth.lt_succ_self) (readNode_agree he hlower k) t
  -- at the least depth the document has the same entries
  have hsame : es₀ = es₁ := by
    obtain ⟨added, _, _, r₃, r₃', -, hr₃, hr₃', h₀, h₁⟩ := readEntries_agree (hagree hself depth₁) hns hr₀ hr₁ hes₀ hes₁
    rw [(readEntries_end hr₃ h₀).1, (readEntries_end hr₃' h₁).1]
  -- the entries before the anchored one, that one, and those after it
  rw [NodeTree.entryEvents_append, NodeTree.entryEvents] at hns
  obtain ⟨ns₁, rest, rfl, hns₁, hrest⟩ := hns.append
  obtain ⟨ns₂, rest, rfl, hns₂, hrest⟩ := hrest.append
  obtain ⟨ns₃, ns₄, rfl, hns₃, hns₄⟩ := hrest.append
  simp only [List.append_assoc] at hr₀ hr₂
  obtain ⟨added, _, _, r₃, r₃', hlength, hr₃, hr₃', hes₀, hes₂⟩ :=
    readEntries_agree (hagree hshare depth₂) hns₁ hr₀ hr₂ hes₀ hes₂
  obtain ⟨n, ns₅, hn, hbegins⟩ := hns₂.begins
  obtain ⟨_, k, r₄, w, r₅, hk, hw, hes₀⟩ := readEntries_entry (by rw [hr₃, hn]; rfl) hbegins hes₀
  obtain ⟨_, k', r₄', w', r₅', hk', hw', hes₂⟩ := readEntries_entry (by rw [hr₃', hn]; rfl) hbegins hes₂
  obtain ⟨rfl, hr₄, hr₄'⟩ := hagree hshare depth₂ key hns₂ hr₃ hr₃' hk hk'
  obtain ⟨rfl, hr₅, hr₅'⟩ := hagree hshare depth₂ value hns₃ hr₄ hr₄' hw hw'
  obtain ⟨added', _, _, r₆, r₆', -, hr₆, hr₆', hes₀, hes₂⟩ :=
    readEntries_agree (hagree hshare depth₂) hns₄ hr₅ hr₅' hes₀ hes₂
  obtain ⟨hes₀, -⟩ := readEntries_end hr₆ hes₀
  obtain ⟨_, jumps', w', _, hadded, hes₂⟩ := readEntries_added hr₆' hsentinel hes₂
  -- the added entry reads the nodes that the anchored one has
  obtain ⟨j, hj, -⟩ | ⟨n', ns₆, rfl, hnode⟩ := hns₃.alias_or_node
  · exact absurd hj hvalue
  have hdrop : shared.drop (Event.mappingStart p :: (NodeTree.entryEvents before ++ key.events)).length =
      n' :: ns₆ ++ ns₄ := by
    have hlengths := congrArg List.length hns₁.shapes
    have hlengths' := congrArg List.length hns₂.shapes
    simp only [List.length_map] at hlengths hlengths'
    rw [List.length_cons, List.length_append, ← hlengths, ← hlengths', hshared, List.drop_succ_cons,
      ← List.append_assoc, List.drop_left' List.length_append]
  obtain ⟨q, hq⟩ := nodes_drop hshare.right hdrop jumps'
  have hw := followAlias_node hr₄ hnode hw
  obtain ⟨rfl, -⟩ := readNode_agree hshare hlower depth₂ value hns₃ hr₄ hq hw hadded
  subst hsame hes₀ hes₂
  refine ⟨k, w, ?_, hplain _⟩
  simp [← hlength]

end Document

theorem anchor?_ne_of_count {x : String} {es fs : List Event} {e : Event} (he : e.anchor? = some x)
    (h : ((es ++ e :: fs).filterMap Event.anchor?).count x = 1) :
    (∀ f ∈ es, f.anchor? ≠ some x) ∧ ∀ f ∈ fs, f.anchor? ≠ some x := by
  rw [List.filterMap_append, List.filterMap_cons_some he, List.count_append, List.count_cons_self] at h
  have hnone (gs : List Event) (hgs : (gs.filterMap Event.anchor?).count x = 0) : ∀ f ∈ gs, f.anchor? ≠ some x :=
    fun f hf hx => List.count_eq_zero.mp hgs (List.mem_filterMap.mpr ⟨f, hf, hx⟩)
  exact ⟨hnone es (by omega), hnone fs (by omega)⟩

/-- The values of a text that is read with an entry more, which is an alias of the anchor of another entry. -/
theorem values_entry {text text' x : String} {p : Properties} {i : Nat} {es : Entries} {v' : Value}
    (h : ReadsAs text (.mapping p entries))
    (h' : ReadsAs text' (.mapping p (entries ++ [(.scalar .none sentinel true, .alias x)])))
    (hsentinel : Document.scalarValue none sentinel true = .ok (.string sentinel))
    (hentry : entries[i]? = some (key, value)) (hx : value.anchor? = some x)
    (honce : (NodeTree.mapping p entries).anchors.count x = 1) (hv : values text = [.ok (.mapping es)])
    (hv' : values text' = [.ok v']) :
    ∃ k w, es[i]? = some (k, w) ∧ v' = .mapping (es ++ [(.string sentinel, w)]) := by
  obtain ⟨before, after, rfl, rfl⟩ : ∃ before after, entries = before ++ (key, value) :: after ∧ before.length = i := by
    obtain ⟨hi, hat⟩ := List.getElem?_eq_some_iff.mp hentry
    refine ⟨entries.take i, entries.drop (i + 1), ?_, List.length_take_of_le hi.le⟩
    rw [← hat, ← List.drop_eq_getElem_cons hi, List.take_append_drop]
  obtain ⟨e, rest, hvalue, -, hanchor⟩ := value.events_eq_cons
  rw [hx] at hanchor
  have hsplit : .mappingStart p :: NodeTree.entryEvents (before ++ (key, value) :: after) =
      (.mappingStart p :: (NodeTree.entryEvents before ++ key.events)) ++
        e :: (rest ++ NodeTree.entryEvents after) := by
    simp [NodeTree.entryEvents_append, NodeTree.entryEvents, hvalue]
  rw [NodeTree.anchors, NodeTree.events, ← List.cons_append, hsplit, List.append_assoc] at honce
  obtain ⟨hbefore, hafter⟩ := anchor?_ne_of_count hanchor honce
  obtain ⟨d, d', ns, hd, hd', hnodes, hnodes', hshape, htargets⟩ :=
    documents_entry h h' (by simp [hv]) (by simp [hv']) hsplit hanchor hbefore
      fun f hf => hafter f (List.mem_append_left _ hf)
  rw [values, hd] at hv
  rw [values, hd'] at hv'
  refine Document.value_entry ⟨hshape, List.Subset.refl _⟩ (fun j hj => ?_) (by simp [hx]) hnodes hnodes' hsentinel
    (List.cons.inj hv).1 (List.cons.inj hv').1
  obtain rfl | ⟨f, hf, hanchored⟩ := htargets j hj
  · exact Or.inl rfl
  · exact Document.target_of_anchor (NodeTree.nested_entryEvents _) hshape hf hanchored

end YamlInclude.Yaml
