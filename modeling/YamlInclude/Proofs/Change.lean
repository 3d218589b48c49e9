import YamlInclude.Compile.Write
import YamlInclude.Proofs.Reach

/-! # Changes of a tree

Each operation gives something to one place of a tree or takes it away from there. Where there are no links, all
other places keep what they have, and directories stay.
-/

namespace YamlInclude

namespace Entry

def Ordered (es : List (Name × Entry)) : Prop := es.Pairwise fun a b => a.1 < b.1

variable {e e' : Entry} {es : List (Name × Entry)} {new : Option Entry} {f : Name × Entry} {m n : Name}
  {j k l : Location}

theorem exists_setIn_eq (h : Ordered es) (n : Name) (new : Option Entry) : ∃ before old after,
    es = before ++ (old ++ after) ∧ setIn n new es = before ++ ((new.map fun e => (n, e)).toList ++ after) ∧
      (∀ f ∈ before, f.1 < n) ∧ (∀ f ∈ old, f.1 = n) ∧ ∀ f ∈ after, n < f.1 := by
  induction es with
  | nil => exact ⟨[], [], [], rfl, by simp [setIn], by simp, by simp, by simp⟩
  | cons f es ih =>
    obtain ⟨i, e⟩ := f
    obtain ⟨hi, hes⟩ := List.pairwise_cons.mp h
    unfold setIn
    split
    next heq =>
      subst heq
      exact ⟨[], [(i, e)], es, rfl, rfl, by simp, by simp, hi⟩
    next hne =>
      split
      next hlt =>
        refine ⟨[], [], (i, e) :: es, rfl, rfl, by simp, by simp, fun f hf => ?_⟩
        rcases List.mem_cons.mp hf with rfl | hf
        · exact hlt
        · exact lt_trans hlt (hi f hf)
      next hge =>
        obtain ⟨before, old, after, rfl, hset, hbefore, hold, hafter⟩ := ih hes
        refine ⟨(i, e) :: before, old, after, rfl, by rw [hset]; rfl, fun f hf => ?_, hold, hafter⟩
        rcases List.mem_cons.mp hf with rfl | hf
        · exact lt_of_le_of_ne (not_lt.mp hge) hne
        · exact hbefore f hf

theorem lookup_eq_none (h : ∀ f ∈ es, f.1 ≠ m) : es.lookup m = none :=
  List.lookup_eq_none_iff.mpr fun f hf => bne_iff_ne.mpr (h f hf).symm

theorem lookup_setIn (h : Ordered es) : (setIn n new es).lookup m = if m = n then new else es.lookup m := by
  obtain ⟨before, old, after, rfl, hset, hbefore, hold, hafter⟩ := exists_setIn_eq h n new
  rw [hset]
  simp only [List.lookup_append]
  split
  next heq =>
    subst heq
    rw [lookup_eq_none fun f hf => ne_of_lt (hbefore f hf), lookup_eq_none fun f hf => ne_of_gt (hafter f hf)]
    cases new <;> simp
  next hne =>
    have hnew : ((new.map fun e => (n, e)).toList).lookup m = none := by
      cases new <;> simp [List.lookup, beq_false_of_ne hne]
    rw [hnew, lookup_eq_none fun f hf heq => hne (heq.symm.trans (hold f hf))]

theorem mem_setIn (h : Ordered es) (hf : f ∈ setIn n new es) : f ∈ es ∨ f.1 = n ∧ new = some f.2 := by
  obtain ⟨before, old, after, rfl, hset, -⟩ := exists_setIn_eq h n new
  rw [hset] at hf
  simp only [List.mem_append] at hf ⊢
  rcases hf with hf | hf | hf
  · exact Or.inl (Or.inl hf)
  · cases new with
    | none => exact nomatch hf
    | some e =>
      obtain rfl := List.mem_singleton.mp hf
      exact Or.inr ⟨rfl, rfl⟩
  · exact Or.inl (Or.inr (Or.inr hf))

theorem ordered_setIn (h : Ordered es) : Ordered (setIn n new es) := by
  obtain ⟨before, old, after, rfl, hset, hbefore, -, hafter⟩ := exists_setIn_eq h n new
  obtain ⟨hb, hrest, hcross⟩ := List.pairwise_append.mp h
  obtain ⟨-, ha, -⟩ := List.pairwise_append.mp hrest
  have hnew : ∀ f ∈ (new.map fun e => (n, e)).toList, f.1 = n := by
    cases new <;> simp
  have hone : Ordered (new.map fun e => (n, e)).toList := by
    cases new <;> simp [Ordered]
  rw [hset]
  refine List.pairwise_append.mpr ⟨hb, List.pairwise_append.mpr ⟨hone, ha, ?_⟩, ?_⟩
  · intro f hf g hg
    rw [hnew f hf]
    exact hafter g hg
  · intro f hf g hg
    rcases List.mem_append.mp hg with hg | hg
    · rw [hnew g hg]
      exact hbefore f hf
    · exact lt_trans (hbefore f hf) (hafter g hg)

theorem setAt_cons (h : l ≠ []) : setAt new (n :: l) (.directory es) =
    match es.lookup n with
    | some e => .directory (setIn n (some (setAt new l e)) es)
    | none => .directory es := by
  cases l with
  | nil => exact absurd rfl h
  | cons => rfl

theorem exists_setAt_eq_directory (new : Option Entry) (es : List (Name × Entry)) (h : l ≠ []) :
    ∃ fs, setAt new l (.directory es) = .directory fs := by
  cases l with
  | nil => exact absurd rfl h
  | cons n l =>
    by_cases hl : l = []
    · subst hl
      exact ⟨_, rfl⟩
    · rw [setAt_cons hl]
      split <;> exact ⟨_, rfl⟩

theorem node_setAt (he : e.WellFormed) (h : ¬ l <+: k) : ((setAt new l e).at? k).map node = (e.at? k).map node := by
  induction l generalizing e k with
  | nil => exact absurd List.nil_prefix h
  | cons n l ih =>
    cases he with
    | file => cases l <;> rfl
    | link => cases l <;> rfl
    | @directory es names ordered below =>
      cases k with
      | nil =>
        obtain ⟨fs, hfs⟩ := exists_setAt_eq_directory new es (List.cons_ne_nil n l)
        rw [hfs]
        rfl
      | cons m k =>
        by_cases hl : l = []
        · subst hl
          have hne : m ≠ n := by
            rintro rfl
            exact h (by simp)
          rw [setAt, at?, at?, lookup_setIn ordered, if_neg hne]
        rw [setAt_cons hl]
        cases hn : es.lookup n with
        | none => rfl
        | some e =>
          dsimp only
          rw [at?, at?, lookup_setIn ordered]
          split
          next hmn =>
            subst hmn
            rw [hn]
            exact ih (below _ (mem_of_lookup hn)) fun hk => h (List.cons_prefix_cons.mpr ⟨rfl, hk⟩)
          · rfl

theorem at?_setAt_append (he : e.WellFormed) (hk : e.at? k = some (.directory es)) :
    (setAt new (k ++ [n]) e).at? (k ++ n :: j) = new.bind (at? j) := by
  induction k generalizing e with
  | nil =>
    cases hk
    cases he with
    | directory _ ordered => rw [List.nil_append, List.nil_append, setAt, at?, lookup_setIn ordered, if_pos rfl]
  | cons m k ih =>
    cases he with
    | file => simp [at?] at hk
    | link => simp [at?] at hk
    | @directory es₁ names ordered below =>
      obtain ⟨e₁, he₁, hk⟩ := Option.bind_eq_some_iff.mp hk
      rw [List.cons_append, List.cons_append, setAt_cons (l := k ++ [n]) (by simp), he₁]
      dsimp only
      rw [at?, lookup_setIn ordered, if_pos rfl]
      exact ih (below _ (mem_of_lookup he₁)) hk

theorem WellFormed.setAt (he : e.WellFormed) (hl : ∀ n ∈ l.getLast?, Path.IsName n)
    (hnew : ∀ e ∈ new, e.WellFormed) : (Entry.setAt new l e).WellFormed := by
  induction l generalizing e with
  | nil =>
    cases new with
    | none => exact he
    | some e' => exact hnew e' rfl
  | cons n l ih =>
    cases he with
    | file c x => cases l <;> exact .file c x
    | link target => cases l <;> exact .link target
    | @directory es names ordered below =>
      have hset : ∀ {new' : Option Entry}, Path.IsName n → (∀ e ∈ new', e.WellFormed) →
          (Entry.directory (setIn n new' es)).WellFormed := by
        intro new' hn hnew'
        refine .directory (fun f hf => ?_) (ordered_setIn ordered) fun f hf => ?_
        · rcases mem_setIn ordered hf with hf | ⟨rfl, -⟩
          · exact names f hf
          · exact hn
        · rcases mem_setIn ordered hf with hf | ⟨-, heq⟩
          · exact below f hf
          · exact hnew' _ heq
      by_cases hnil : l = []
      · subst hnil
        exact hset (hl n rfl) hnew
      rw [setAt_cons hnil]
      split
      next e₁ he₁ =>
        have hmem := mem_of_lookup he₁
        refine hset (names _ hmem) fun e' he' => ?_
        cases he'
        refine ih (below _ hmem) fun m hm => hl m ?_
        rwa [List.getLast?_cons_of_ne_nil hnil]
      · exact .directory names ordered below

end Entry

namespace FileTree

variable {t t' t'' : FileTree} {cwd k l : Location} {new : Option Entry} {p q : Path} {places places' : List Location}

structure Plain (t : FileTree) : Prop where
  wellFormed : t.WellFormed
  linkFree : t.LinkFree

theorem root_setAt (hl : l ≠ []) : (t.setAt l new).root = t.root.setAt new l := by
  obtain ⟨fs, hfs⟩ := Entry.exists_setAt_eq_directory new t.entries hl
  have hroot : t.root.setAt new l = .directory fs := hfs
  cases l with
  | nil => exact absurd rfl hl
  | cons n l =>
    unfold FileTree.setAt
    rw [hroot]
    rfl

theorem node?_setAt (hwf : t.WellFormed) (hroom : t.Room l) (hold : t.node? l ≠ some .directory)
    (hnew : ∀ e ∈ new, e.Bare) :
    (t.setAt l new).node? k = if k = l then new.map Entry.node else t.node? k := by
  obtain ⟨above, n, rfl, -, habove⟩ := hroom
  obtain ⟨es, hes⟩ := node?_eq_directory_iff.mp habove
  unfold node? FileTree.at?
  rw [root_setAt (by simp)]
  by_cases hprefix : above ++ [n] <+: k
  · obtain ⟨j, rfl⟩ := hprefix
    rw [List.append_assoc, List.singleton_append, Entry.at?_setAt_append hwf hes]
    cases j with
    | nil =>
      rw [if_pos rfl]
      cases new <;> rfl
    | cons m j =>
      rw [if_neg (by simp)]
      have hbelow : t.node? (above ++ [n] ++ m :: j) = none := by
        by_contra hsome
        refine hold (node?_of_concat (n := m) (node?_of_append (l := j) ?_))
        simpa using hsome
      have hnone : new.bind (Entry.at? (m :: j)) = none := by
        cases new with
        | none => rfl
        | some e => exact hnew e rfl m j
      rw [hnone]
      simpa [node?, FileTree.at?] using hbelow.symm
  · rw [Entry.node_setAt hwf hprefix, if_neg]
    rintro rfl
    exact hprefix List.prefix_rfl

theorem WellFormed.setAt (h : t.WellFormed) (hroom : t.Room l) (hnew : ∀ e ∈ new, e.WellFormed) :
    (t.setAt l new).WellFormed := by
  obtain ⟨above, n, rfl, hn, -⟩ := hroom
  unfold WellFormed
  rw [root_setAt (by simp)]
  refine Entry.WellFormed.setAt h ?_ hnew
  simpa using hn

theorem put_ok {e : Entry} (h : t.WellFormed) (hroom : t.Room l) (hold : t.node? l ≠ some .directory)
    (he : e.WellFormed) (hbare : e.Bare) : (t.setAt l (some e)).WellFormed ∧
      ∀ k, (t.setAt l (some e)).node? k = if k = l then some e.node else t.node? k := by
  refine ⟨h.setAt hroom ?_, fun k => node?_setAt h hroom hold ?_⟩
  · rintro e' ⟨⟩
    exact he
  · rintro e' ⟨⟩
    exact hbare

/-- Whether a tree has what another one has but for the contents at some places. -/
structure KeepsBut (places : List Location) (t t' : FileTree) : Prop where
  plain : t'.Plain
  content : ∀ l ∉ places, t'.contentAt? l = t.contentAt? l
  directory : ∀ l, t.node? l = some .directory → t'.node? l = some .directory

theorem KeepsBut.refl (h : t.Plain) : KeepsBut places t t := ⟨h, fun _ _ => rfl, fun _ h => h⟩

theorem KeepsBut.trans (h : KeepsBut places t t') (h' : KeepsBut places' t' t'') :
    KeepsBut (places ++ places') t t'' where
  plain := h'.plain
  content l hl := by
    rw [List.mem_append, not_or] at hl
    rw [h'.content l hl.2, h.content l hl.1]
  directory l hl := h'.directory l (h.directory l hl)

theorem Room.mono (h : t.Room l) (hdir : ∀ l, t.node? l = some .directory → t'.node? l = some .directory) :
    t'.Room l := by
  obtain ⟨above, n, rfl, hn, habove⟩ := h
  exact ⟨above, n, rfl, hn, hdir above habove⟩

theorem contentAt?_eq (h : t.node? l = t'.node? l) : t.contentAt? l = t'.contentAt? l := by
  apply Option.ext
  intro c
  rw [contentAt?_eq_some_iff, contentAt?_eq_some_iff, h]

theorem keepsBut_of_node? (h : t.Plain) (hwf : t'.WellFormed) (hsame : ∀ k ∉ places, t'.node? k = t.node? k)
    (hplaces : ∀ k ∈ places, t.node? k ≠ some .directory ∧ ∀ target, t'.node? k ≠ some (.link target)) :
    KeepsBut places t t' where
  plain := by
    refine ⟨hwf, fun k target => ?_⟩
    by_cases hk : k ∈ places
    · exact (hplaces k hk).2 target
    · rw [hsame k hk]
      exact h.linkFree k target
  content k hk := contentAt?_eq (hsame k hk)
  directory k hk := by
    rw [hsame k fun hmem => (hplaces k hmem).1 hk]
    exact hk

/-! ## Directories -/

theorem makeDirectory_ok (h : t.WellFormed) (hmake : t.makeDirectory cwd p = .ok t') : ∃ l, t.node? l = none ∧
    t'.WellFormed ∧ ∀ k, t'.node? k = if k = l then some .directory else t.node? k := by
  obtain ⟨l, hwalk, hmake⟩ := bind_ok hmake
  split at hmake
  · exact nomatch hmake
  next hnone =>
    cases hmake
    have hnone := node?_eq_none_iff.mpr hnone
    have hwf : (Entry.directory []).WellFormed := .directory (by simp) .nil (by simp)
    exact ⟨l, hnone, put_ok h (room_of_walk_to_none hwalk hnone) (by simp [hnone]) hwf fun _ _ => rfl⟩

theorem ensureDirectory_ok (hmake : t.ensureDirectory cwd p = .ok t') : t.makeDirectory cwd p = .ok t' ∨ t' = t := by
  unfold ensureDirectory at hmake
  split at hmake
  next hmade =>
    cases hmake
    exact Or.inl hmade
  · split at hmake
    · exact Or.inr (Except.ok.inj hmake).symm
    · exact nomatch hmake

section Invariant

variable {P : FileTree → Prop} (hP : ∀ {t t' p}, P t → t.makeDirectory cwd p = .ok t' → P t')

include hP

theorem ensureDirectory_invariant (h : P t) (hmake : t.ensureDirectory cwd p = .ok t') : P t' := by
  obtain hmade | rfl := ensureDirectory_ok hmake
  · exact hP h hmade
  · exact h

/-- What each new directory keeps is kept when directories are made, however far it comes. -/
theorem makeDirectoriesWithin_invariant (h : P t) (levels : Nat) (p : Path) :
    P (makeDirectoriesWithin cwd levels t p).1 := by
  induction levels generalizing t p with
  | zero =>
    unfold makeDirectoriesWithin
    split
    next hmade => exact ensureDirectory_invariant hP h hmade
    · exact h
    · exact h
  | succ levels ih =>
    unfold makeDirectoriesWithin
    split
    next hmade => exact ensureDirectory_invariant hP h hmade
    · split
      next above hlevels _ =>
        cases hlevels
        split
        · exact h
        have habove := ih h above
        split
        next hfailed =>
          rw [hfailed] at habove
          exact habove
        next hmade =>
          rw [hmade] at habove
          split
          next hmade' => exact ensureDirectory_invariant hP habove hmade'
          · exact habove
      · exact h
    · exact h

theorem prepare_invariant (h : P t) (p : Path) : P (t.prepare cwd p).1 := by
  unfold prepare
  split
  · exact h
  next dir _ =>
    have hmake := makeDirectoriesWithin_invariant hP h dir.chars.length dir
    unfold makeDirectories
    split
    next heq =>
      rw [heq] at hmake
      exact hmake
    next heq =>
      rw [heq] at hmake
      exact hmake

end Invariant

theorem wellFormed_prepare (h : t.WellFormed) (cwd : Location) (p : Path) : (t.prepare cwd p).1.WellFormed := by
  refine prepare_invariant (fun h hmake => ?_) h p
  obtain ⟨-, -, hwf, -⟩ := makeDirectory_ok h hmake
  exact hwf

theorem keepsBut_makeDirectory (h : t.Plain) (hmake : t.makeDirectory cwd p = .ok t') : KeepsBut [] t t' := by
  obtain ⟨l, hnone, hwf, hnode⟩ := makeDirectory_ok h.wellFormed hmake
  have hkeeps : KeepsBut [l] t t' := by
    refine keepsBut_of_node? h hwf (fun k hk => ?_) fun k hk => ?_
    · rw [hnode, if_neg (by simpa using hk)]
    · obtain rfl := List.mem_singleton.mp hk
      exact ⟨by simp [hnone], by simp [hnode]⟩
  refine ⟨hkeeps.plain, fun k _ => ?_, hkeeps.directory⟩
  by_cases hk : k = l
  · subst hk
    apply Option.ext
    intro c
    rw [contentAt?_eq_some_iff, contentAt?_eq_some_iff, hnode, if_pos rfl, hnone]
    simp
  · exact hkeeps.content k (by simpa using hk)

theorem keepsBut_prepare (cwd : Location) (h : t.Plain) (p : Path) : KeepsBut [] t (t.prepare cwd p).1 :=
  prepare_invariant (fun hkeeps hmake => hkeeps.trans (keepsBut_makeDirectory hkeeps.plain hmake)) (.refl h) p

/-! ## Files -/

def writeContent (t : FileTree) (cwd : Location) (p : Path) (c : Content) : Except SystemError FileTree := do
  let l ← t.walk true cwd p
  if endsWithSlash p || !endsWithName p then .error .isDirectory
  else match t.at? l with
    | some (.directory _) => .error .isDirectory
    | some (.file _ executable) => .ok (t.setAt l (some (.file c executable)))
    | _ => .ok (t.setAt l (some (.file c false)))

theorem write_eq_writeContent (t : FileTree) (cwd : Location) (p : Path) (text : String) :
    t.write cwd p text = t.writeContent cwd p (.text text) := rfl

theorem writeContent_ok {c : Content} (h : t.WellFormed) (hwrite : t.writeContent cwd p c = .ok t') :
    ∃ l x, t.walk true cwd p = .ok l ∧ t.node? l ≠ some .directory ∧ t'.WellFormed ∧
      ∀ k, t'.node? k = if k = l then some (.file c x) else t.node? k := by
  obtain ⟨l, hwalk, hwrite⟩ := bind_ok hwrite
  have hput (x : Bool) (hold : t.node? l ≠ some .directory) :=
    put_ok h (room_of_walk h hwalk hold) hold (.file c x) (Entry.bare_file c x)
  split at hwrite
  · exact nomatch hwrite
  split at hwrite
  · exact nomatch hwrite
  next x hfile =>
    cases hwrite
    have hold : t.node? l ≠ some .directory := by simp [node?, hfile, Entry.node]
    exact ⟨l, x, hwalk, hold, hput x hold⟩
  next hdir _ =>
    cases hwrite
    have hold := node?_ne_directory hdir
    exact ⟨l, false, hwalk, hold, hput false hold⟩

theorem endsWithName_of_writeContent {c : Content} (h : t.writeContent cwd p c = .ok t') : endsWithName p = true := by
  obtain ⟨_, -, h⟩ := bind_ok h
  split at h
  · exact nomatch h
  next hname => exact (by simpa using hname : _ ∧ _).2

theorem write_ok {text : String} (h : t.WellFormed) (hwrite : t.write cwd p text = .ok t') :
    ∃ l x, t.walk true cwd p = .ok l ∧ t.node? l ≠ some .directory ∧ t'.WellFormed ∧
      ∀ k, t'.node? k = if k = l then some (.file (.text text) x) else t.node? k := by
  rw [write_eq_writeContent] at hwrite
  exact writeContent_ok h hwrite

/-- What is renamed stands at its new place and no longer at the old one, and all else is as before. -/
theorem rename_ok (h : t.WellFormed) (hl : t.walk false cwd p = .ok l) (hfile : t.node? l ≠ some .directory)
    (hrename : t.rename cwd p q = .ok t') : ∃ m, t.walk false cwd q = .ok m ∧ t.node? l ≠ none ∧
      t.node? m ≠ some .directory ∧ t'.WellFormed ∧
      ∀ k, t'.node? k = if k = m then t.node? l else if k = l then none else t.node? k := by
  obtain ⟨l', hl', hrename⟩ := bind_ok hrename
  obtain rfl := Except.ok.inj (hl.symm.trans hl')
  obtain ⟨m, hm, hrename⟩ := bind_ok hrename
  split at hrename
  · cases hrename
  cases hat : t.at? l with
  | none => simp [hat] at hrename
  | some e =>
    rw [hat] at hrename
    dsimp only at hrename
    split at hrename
    · cases hrename
    split at hrename
    · cases hrename
    next hdir =>
      cases hrename
      have hdir := node?_ne_directory hdir
      have hnode : t.node? l = some e.node := by rw [node?, hat]; rfl
      refine ⟨m, hm, by simp [hnode], hdir, ?_⟩
      split
      next heq =>
        subst heq
        refine ⟨h, fun k => ?_⟩
        split
        next hk => rw [hk]
        · rfl
      next hne =>
        have hold := room_of_walk h hl hfile
        have hgone (k : Location) : (t.setAt l none).node? k = if k = l then none else t.node? k :=
          node?_setAt h hold hfile (by simp)
        have hroom : (t.setAt l none).Room m := by
          refine (room_of_walk h hm hdir).mono fun k hk => ?_
          rw [hgone, if_neg]
          · exact hk
          · rintro rfl
            exact hfile hk
        have hsame : (t.setAt l none).node? m = t.node? m := by rw [hgone, if_neg (Ne.symm hne)]
        have hbare : e.Bare := Entry.bare_of_node fun heq => hfile (by rw [hnode, heq])
        obtain ⟨hwf, hput⟩ :=
          put_ok (h.setAt hold (by simp)) hroom (hsame ▸ hdir) (Entry.WellFormed.at? h hat) hbare
        refine ⟨hwf, fun k => ?_⟩
        rw [hput, hgone, hnode]

theorem keepsBut_writeContent {c : Content} (h : t.Plain) (hwrite : t.writeContent cwd p c = .ok t') :
    KeepsBut [p.place cwd] t t' ∧ t'.contentAt? (p.place cwd) = some c := by
  obtain ⟨l, x, hwalk, hold, hwf, hnode⟩ := writeContent_ok h.wellFormed hwrite
  obtain rfl := walk_ok h.linkFree hwalk
  refine ⟨keepsBut_of_node? h hwf (fun k hk => ?_) fun k hk => ?_, contentAt?_eq_some_iff.mpr ⟨x, ?_⟩⟩
  · rw [hnode, if_neg (by simpa using hk)]
  · obtain rfl := List.mem_singleton.mp hk
    exact ⟨hold, by simp [hnode]⟩
  · rw [hnode, if_pos rfl]

theorem keepsBut_write {text : String} (h : t.Plain) (hwrite : t.write cwd p text = .ok t') :
    KeepsBut [p.place cwd] t t' ∧ t'.contentAt? (p.place cwd) = some (.text text) := by
  rw [write_eq_writeContent] at hwrite
  exact keepsBut_writeContent h hwrite

theorem keepsBut_rename {c : Content} (h : t.Plain) (hfile : t.contentAt? (p.place cwd) = some c)
    (hrename : t.rename cwd p q = .ok t') :
    KeepsBut [p.place cwd, q.place cwd] t t' ∧ t'.contentAt? (q.place cwd) = some c := by
  obtain ⟨x, hfile⟩ := contentAt?_eq_some_iff.mp hfile
  obtain ⟨l, hl, -⟩ := bind_ok hrename
  obtain rfl := walk_ok h.linkFree hl
  have hold : t.node? (p.place cwd) ≠ some .directory := by simp [hfile]
  obtain ⟨m, hm, -, hdir, hwf, hnode⟩ := rename_ok h.wellFormed hl hold hrename
  obtain rfl := walk_ok h.linkFree hm
  refine ⟨keepsBut_of_node? h hwf (fun k hk => ?_) fun k hk => ⟨?_, ?_⟩, contentAt?_eq_some_iff.mpr ⟨x, ?_⟩⟩
  · simp only [List.mem_cons, List.not_mem_nil, or_false, not_or] at hk
    rw [hnode, if_neg hk.2, if_neg hk.1]
  · rcases List.mem_cons.mp hk with rfl | hk
    · exact hold
    · rwa [List.mem_singleton.mp hk]
  · intro target
    rw [hnode, hfile]
    split
    · exact nofun
    · split
      · exact nofun
      · exact h.linkFree k target
  · rw [hnode, if_pos rfl, hfile]

def touched (cwd : Location) (p : Path) : List Location := [p.place cwd, (temporary p).place cwd]

theorem KeepsBut.mono (h : KeepsBut places t t') (hsub : places ⊆ places') : KeepsBut places' t t' where
  plain := h.plain
  content l hl := h.content l fun hmem => hl (hsub hmem)
  directory := h.directory

theorem attempt_eq_ok_iff {changed : Except SystemError FileTree} {fault : SystemError → CompileError} :
    t.attempt changed fault = (t', .ok ()) ↔ changed = .ok t' := by
  cases changed <;> simp [attempt]

theorem attempt_eq_error_iff {t₁ : FileTree} {changed : Except SystemError FileTree}
    {fault : SystemError → CompileError} {e : CompileError} :
    t.attempt changed fault = (t₁, .error e) ↔ t₁ = t ∧ ∃ cause, changed = .error cause ∧ e = fault cause := by
  cases changed <;> simp [attempt, eq_comm]

/-- Steps stop at the first one or go on behind it. -/
theorem writeSteps_cons (t : FileTree) (cwd : Location) (p : Path) (text : String) (s : WriteStep)
    (rest : List WriteStep) :
    (∃ t₁ e, t.writeStep cwd p text s = (t₁, .error e) ∧ writeSteps cwd p text (s :: rest) t = (t₁, .error e)) ∨
      ∃ t₁, t.writeStep cwd p text s = (t₁, .ok ()) ∧
        writeSteps cwd p text (s :: rest) t = writeSteps cwd p text rest t₁ := by
  rw [writeSteps]
  rcases t.writeStep cwd p text s with ⟨t₁, e | _⟩
  · exact Or.inl ⟨t₁, e, rfl, rfl⟩
  · exact Or.inr ⟨t₁, rfl, rfl⟩

theorem writeSteps_cons_ok {text : String} {s : WriteStep} {rest : List WriteStep}
    (h : (writeSteps cwd p text (s :: rest) t).2 = .ok ()) : ∃ t₁, t.writeStep cwd p text s = (t₁, .ok ()) ∧
      writeSteps cwd p text (s :: rest) t = writeSteps cwd p text rest t₁ := by
  rcases t.writeSteps_cons cwd p text s rest with ⟨t₁, e, -, herror⟩ | hok
  · rw [herror] at h
    exact nomatch h
  · exact hok

theorem replace_ok {text : String} (h : (t.replace cwd p text).2 = .ok ()) : ∃ t₁ t₂ t₃,
    t.prepare cwd p = (t₁, .ok ()) ∧ t₁.write cwd (temporary p) text = .ok t₂ ∧
      t₂.rename cwd (temporary p) p = .ok t₃ ∧ t.replace cwd p text = (t₃, .ok ()) := by
  unfold replace at h ⊢
  obtain ⟨t₁, hprepare, heq⟩ := writeSteps_cons_ok h
  rw [heq] at h ⊢
  obtain ⟨t₂, hwrite, heq⟩ := writeSteps_cons_ok h
  rw [heq] at h ⊢
  obtain ⟨t₃, hrename, heq⟩ := writeSteps_cons_ok h
  exact ⟨t₁, t₂, t₃, hprepare, attempt_eq_ok_iff.mp hwrite, attempt_eq_ok_iff.mp hrename, heq⟩

theorem endsWithName_of_rename (h : t.rename cwd p q = .ok t') : endsWithName p = true ∧ endsWithName q = true := by
  obtain ⟨_, -, h⟩ := bind_ok h
  obtain ⟨_, -, h⟩ := bind_ok h
  split at h
  · exact nomatch h
  next hname => simpa using hname

theorem endsWithName_of_replace {text : String} (h : (t.replace cwd p text).2 = .ok ()) :
    endsWithName (temporary p) = true ∧ endsWithName p = true := by
  obtain ⟨_, _, _, -, -, hrename, -⟩ := replace_ok h
  exact endsWithName_of_rename hrename

theorem keepsBut_replace {text : String} (h : t.Plain) (hreplace : (t.replace cwd p text).2 = .ok ()) :
    KeepsBut (touched cwd p) t (t.replace cwd p text).1 ∧
      (t.replace cwd p text).1.contentAt? (p.place cwd) = some (.text text) := by
  obtain ⟨t₁, t₂, t₃, hprepare, hwrite, hrename, heq⟩ := replace_ok hreplace
  have hprepared := keepsBut_prepare cwd h p
  rw [hprepare] at hprepared
  obtain ⟨hwritten, htext⟩ := keepsBut_write hprepared.plain hwrite
  obtain ⟨hrenamed, hcontent⟩ := keepsBut_rename hwritten.plain htext hrename
  rw [heq]
  exact ⟨((hprepared.trans hwritten).trans hrenamed).mono (by simp [touched]), hcontent⟩

end FileTree

end YamlInclude
