import YamlInclude.Compile.Collect
import YamlInclude.Proofs.ByteOrder
import YamlInclude.Proofs.Descent

/-! # The order of collected files

A directory stands for exactly the YAML files below it, and the links to files that are named like them. They come in
the order of a walk that visits the entries of each directory by the bytes of their names, and what leads to them from
the directory leads to their destinations from the output directory.
-/

namespace YamlInclude

/-- Whether a place comes before another one in a walk that visits the entries of each directory by the bytes of their
names: the two part at such entries. -/
def ComesBefore (a b : List Name) : Prop :=
  ∃ above n m rest rest', a = above ++ n :: rest ∧ b = above ++ m :: rest' ∧ Utf8.encode n < Utf8.encode m

namespace ComesBefore

variable {a b : List Name} {n m : Name}

theorem of_lt (h : n < m) (a b : List Name) : ComesBefore (n :: a) (m :: b) :=
  ⟨[], n, m, a, b, rfl, rfl, Utf8.encode_lt_encode h⟩

theorem cons (n : Name) (h : ComesBefore a b) : ComesBefore (n :: a) (n :: b) := by
  obtain ⟨above, m, m', rest, rest', rfl, rfl, hlt⟩ := h
  exact ⟨n :: above, m, m', rest, rest', rfl, rfl, hlt⟩

theorem ne (h : ComesBefore a b) : a ≠ b := by
  obtain ⟨above, n, m, rest, rest', rfl, rfl, hlt⟩ := h
  intro heq
  obtain ⟨rfl, -⟩ := List.cons.inj (List.append_cancel_left heq)
  exact List.lt_irrefl _ hlt

end ComesBefore

namespace Entry

variable {e e' : Entry} {es : List (Name × Entry)} {l : Location}

theorem at?_directory_cons (n m : Name) (e : Entry) (es : List (Name × Entry)) (l : Location) :
    (directory ((n, e) :: es)).at? (m :: l) = if m = n then e.at? l else (directory es).at? (m :: l) := by
  by_cases h : m = n
  · simp [at?, List.lookup, h]
  · simp [at?, List.lookup, h, beq_false_of_ne h]

theorem WellFormed.isName (h : e.WellFormed) (hat : e.at? l = some e') : ∀ n ∈ l, Path.IsName n := by
  induction l generalizing e with
  | nil => exact nofun
  | cons n l ih =>
    obtain ⟨es, e₁, rfl, hmem, hat⟩ := at?_cons_ok hat
    cases h with
    | directory names _ below => exact List.forall_mem_cons.mpr ⟨names _ hmem, ih (below _ hmem) hat⟩

theorem WellFormed.tail {f : Name × Entry} (h : (Entry.directory (f :: es)).WellFormed) :
    (Entry.directory es).WellFormed := by
  cases h with
  | directory names ordered below =>
    exact .directory (fun e he => names e (List.mem_cons_of_mem _ he)) (List.pairwise_cons.mp ordered).2
      fun e he => below e (List.mem_cons_of_mem _ he)

end Entry

namespace FileTree

variable {t : FileTree} {cwd : Location} {p input : Path} {e : Entry} {es : List (Name × Entry)} {names : List Name}

/-- Whether what stands at a place is a source when the search reaches it by a path: a YAML file whose path is short
enough for a walk, or a link named like one whose path leads to a file. -/
def IsSource (t : FileTree) (cwd : Location) (p : Path) : Node → Prop
  | .file _ _ => p.isYamlFile = true ∧ Fits p
  | .link _ => p.isYamlFile = true ∧ t.isFile cwd p = true
  | .directory => False

/-! ## The search below an entry -/

/-- Whether names lead from an entry, which a path leads to, to no directory but to what the search takes for a file. -/
def HasSource (t : FileTree) (cwd : Location) (p : Path) (e : Entry) (names : List Name) : Prop :=
  ∃ e', e.at? names = some e' ∧ e'.node ≠ .directory ∧ (p.descend names).isYamlFile = true ∧
    t.isFile cwd (p.descend names) = true

theorem hasSource_of_bare (h : e.Bare) : t.HasSource cwd p e names ↔
    names = [] ∧ e.node ≠ .directory ∧ p.isYamlFile = true ∧ t.isFile cwd p = true := by
  cases names with
  | nil => simp [HasSource, Entry.at?, Path.descend]
  | cons n l => simp [HasSource, h n l]

theorem hasSource_directory_cons (n m : Name) (e : Entry) (es : List (Name × Entry)) (l : Location) :
    t.HasSource cwd p (.directory ((n, e) :: es)) (m :: l) ↔
      if m = n then t.HasSource cwd (p.child m) e l else t.HasSource cwd p (.directory es) (m :: l) := by
  unfold HasSource
  rw [Entry.at?_directory_cons]
  split <;> rfl

theorem not_hasSource_nil : ¬ t.HasSource cwd p (.directory es) [] := by
  rintro ⟨e', hat, hnode, -⟩
  cases hat
  exact hnode rfl

theorem HasSource.mem {m : Name} {l : List Name} (h : t.HasSource cwd p (.directory es) (m :: l)) :
    ∃ e, (m, e) ∈ es := by
  obtain ⟨e', hat, -⟩ := h
  obtain ⟨es', e₁, heq, hmem, -⟩ := Entry.at?_cons_ok hat
  cases heq
  exact ⟨e₁, hmem⟩

/-- What is known of a search that finds every directory open. -/
structure Listing (t : FileTree) (cwd : Location) (p : Path) (e : Entry) (places : List (List Name)) : Prop where
  opens : ∀ names es, e.at? names = some (.directory es) → t.isPresent cwd (p.descend names) = true
  mem : ∀ names, names ∈ places ↔ t.HasSource cwd p e names
  ordered : places.Pairwise ComesBefore

/-- How a search at or below an entry can end: with the places of the sources, or at a directory that cannot be
opened. -/
inductive Searched (t : FileTree) (cwd : Location) (input p : Path) (e : Entry) :
    Except CollectError (List Path) → Prop
  | listed {places : List (List Name)} (h : t.Listing cwd p e places) :
      Searched t cwd input p e (.ok (places.map p.descend))
  | blocked {names : List Name} {es : List (Name × Entry)} {fault : SystemError}
      (hat : e.at? names = some (.directory es)) (hfind : t.find cwd (p.descend names) = .error fault) :
      Searched t cwd input p e (.error (.unreadable input (p.descend names) fault))

theorem Searched.of_bare (hbare : e.Bare) (hnode : e.node ≠ .directory) :
    t.Searched cwd input p e (.ok (if p.isYamlFile && t.isFile cwd p then [p] else [])) := by
  have hopens : ∀ names es, e.at? names = some (.directory es) → t.isPresent cwd (p.descend names) = true := by
    intro names es hat
    cases names with
    | nil =>
      cases hat
      exact absurd rfl hnode
    | cons n l =>
      rw [hbare] at hat
      exact nomatch hat
  split
  next hfile =>
    have hlisting : t.Listing cwd p e [[]] := by
      constructor
      · exact hopens
      · intro names
        rw [List.mem_singleton, hasSource_of_bare hbare]
        exact (and_iff_left ⟨hnode, Bool.and_eq_true_iff.mp hfile⟩).symm
      · exact List.pairwise_singleton _ _
    exact .listed hlisting
  next hfile =>
    have hlisting : t.Listing cwd p e [] := by
      constructor
      · exact hopens
      · intro names
        rw [hasSource_of_bare hbare]
        exact iff_of_false List.not_mem_nil fun h => hfile (Bool.and_eq_true_iff.mpr h.2.2)
      · exact .nil
    exact .listed hlisting

theorem Listing.nil (h : t.isPresent cwd p = true) : t.Listing cwd p (.directory []) [] where
  opens names es hat := by
    cases names with
    | nil => exact h
    | cons m l => exact nomatch hat
  mem names := by
    apply iff_of_false List.not_mem_nil
    cases names with
    | nil => exact not_hasSource_nil
    | cons m l => exact fun h => nomatch h.mem
  ordered := .nil

theorem Listing.cons {n : Name} {here rest : List (List Name)} (hlt : ∀ f ∈ es, n < f.1)
    (hhere : t.Listing cwd (p.child n) e here) (hrest : t.Listing cwd p (.directory es) rest) :
    t.Listing cwd p (.directory ((n, e) :: es)) (here.map (n :: ·) ++ rest) := by
  have hlater : ∀ m l, m :: l ∈ rest → n < m := by
    intro m l hml
    obtain ⟨e', he'⟩ := ((hrest.mem _).mp hml).mem
    exact hlt _ he'
  constructor
  · intro names es' hat
    cases names with
    | nil => exact hrest.opens [] es rfl
    | cons m l =>
      rw [Entry.at?_directory_cons] at hat
      split at hat
      next heq =>
        subst heq
        exact hhere.opens l es' hat
      next => exact hrest.opens _ es' hat
  · intro names
    rw [List.mem_append, List.mem_map]
    cases names with
    | nil => simp [hrest.mem, not_hasSource_nil]
    | cons m l =>
      rw [hasSource_directory_cons]
      split
      next heq =>
        subst heq
        have hother : m :: l ∉ rest := fun h => absurd (hlater m l h) (lt_irrefl m)
        simp [hhere.mem, hother]
      next hne =>
        have hother : ¬ ∃ l' ∈ here, n :: l' = m :: l := by
          rintro ⟨l', -, heq⟩
          exact hne (List.cons.inj heq).1.symm
        rw [hrest.mem]
        exact or_iff_right hother
  · apply List.pairwise_append.mpr
    refine ⟨hhere.ordered.map _ fun a b hab => hab.cons n, hrest.ordered, ?_⟩
    rintro a ha b hb
    obtain ⟨l, -, rfl⟩ := List.mem_map.mp ha
    cases b with
    | nil => exact absurd ((hrest.mem []).mp hb) not_hasSource_nil
    | cons m l' => exact ComesBefore.of_lt (hlater m l' hb) l l'

theorem Searched.cons {n : Name} {x y : Except CollectError (List Path)} (hlt : ∀ f ∈ es, n < f.1)
    (hx : t.Searched cwd input (p.child n) e x) (hy : t.Searched cwd input p (.directory es) y) :
    t.Searched cwd input p (.directory ((n, e) :: es)) (x >>= fun here => y >>= fun rest => .ok (here ++ rest)) := by
  cases hx with
  | @blocked names es' fault hat hfind =>
    have hat' : (Entry.directory ((n, e) :: es)).at? (n :: names) = some (.directory es') := by
      rw [Entry.at?_directory_cons, if_pos rfl, hat]
    exact .blocked hat' hfind
  | @listed here hhere =>
    cases hy with
    | @listed rest hrest =>
      have hcons : t.Searched cwd input p _ _ := .listed (hhere.cons hlt hrest)
      rwa [List.map_append, List.map_map] at hcons
    | @blocked names es' fault hat hfind =>
      cases names with
      | nil => exact .blocked rfl hfind
      | cons m l =>
        obtain ⟨es₁, e₁, heq, hmem, -⟩ := Entry.at?_cons_ok hat
        cases heq
        have hne : m ≠ n := (hlt _ hmem).ne'
        have hat' : (Entry.directory ((n, e) :: es)).at? (m :: l) = some (.directory es') := by
          rw [Entry.at?_directory_cons, if_neg hne, hat]
        exact .blocked hat' hfind

mutual

theorem searched_yamlFiles (t : FileTree) (cwd : Location) (input p : Path) : ∀ {e : Entry}, e.WellFormed →
    t.Searched cwd input p e (t.yamlFiles cwd input p e)
  | .file c x, _ => .of_bare (Entry.bare_file c x) nofun
  | .link target, _ => .of_bare (Entry.bare_link target) nofun
  | .directory es, h => by
    unfold yamlFiles
    split
    next fault hfind =>
      have hhere : (Entry.directory es).at? [] = some (.directory es) := rfl
      exact .blocked hhere hfind
    next found hfind => exact t.searched_yamlFilesOf cwd input p es h (isPresent_iff.mpr ⟨_, _, hfind⟩)

theorem searched_yamlFilesOf (t : FileTree) (cwd : Location) (input p : Path) :
    ∀ es : List (Name × Entry), (Entry.directory es).WellFormed → t.isPresent cwd p = true →
      t.Searched cwd input p (.directory es) (t.yamlFilesOf cwd input p es)
  | [], _, hopen => .listed (.nil hopen)
  | (n, e) :: es, h, hopen => by
    have hrest := t.searched_yamlFilesOf cwd input p es h.tail hopen
    cases h with
    | directory _ ordered below =>
    have hhere := t.searched_yamlFiles cwd input (p.child n) (below _ List.mem_cons_self)
    exact hhere.cons (List.pairwise_cons.mp ordered).1 hrest

end

/-! ## The search below a directory -/

theorem at?_below {here : Location} (hat : t.at? here = some e) (names : List Name) :
    t.at? (here ++ names) = e.at? names := by
  rw [FileTree.at?, Entry.at?_append, ← FileTree.at?, hat, Option.bind_some]

/-- The places of the sources of a directory, whose directories can all be opened. -/
structure Sources (t : FileTree) (cwd : Location) (input : Path) (here : Location) (places : List (List Name)) :
    Prop where
  opens : ∀ names, t.node? (here ++ names) = some .directory → Fits (input.descend names)
  mem : ∀ names, names ∈ places ↔ ∃ node, t.node? (here ++ names) = some node ∧ t.IsSource cwd (input.descend names) node
  ordered : places.Pairwise ComesBefore
  nonempty : ∀ names ∈ places, names ≠ []
  names : ∀ names ∈ places, ∀ n ∈ names, Path.IsName n

theorem Listing.sources {here : Location} {places : List (List Name)} (hwell : (Entry.directory es).WellFormed)
    (hwalk : t.walk true cwd input = .ok here) (hat : t.at? here = some (.directory es))
    (h : t.Listing cwd input (.directory es) places) : t.Sources cwd input here places where
  opens names hnode := by
    obtain ⟨es', hes'⟩ := node?_eq_directory_iff.mp hnode
    obtain ⟨l, e, hfind⟩ := isPresent_iff.mp (h.opens names es' (at?_below hat names ▸ hes'))
    exact fits_of_walk (find_ok_iff.mp hfind).1
  mem names := by
    have hdir : t.node? here = some .directory := node?_eq_directory_iff.mpr ⟨es, hat⟩
    have hnode {e' : Entry} (he' : (Entry.directory es).at? names = some e') :
        t.node? (here ++ names) = some e'.node := by
      rw [node?, at?_below hat, he', Option.map_some]
    rw [h.mem]
    constructor
    · rintro ⟨e', he', hfile, hyaml, hleads⟩
      refine ⟨e'.node, hnode he', ?_⟩
      cases e' with
      | file c x => exact ⟨hyaml, (isFile_descend_iff hwalk hdir (hnode he') (hwell.isName he')).mp hleads⟩
      | link target => exact ⟨hyaml, hleads⟩
      | directory => exact absurd rfl hfile
    · rintro ⟨node, hsome, hsource⟩
      obtain ⟨e', he', rfl⟩ := Option.map_eq_some_iff.mp hsome
      rw [at?_below hat] at he'
      refine ⟨e', he', ?_⟩
      cases e' with
      | file c x =>
        obtain ⟨hyaml, hfits⟩ := hsource
        exact ⟨nofun, hyaml, (isFile_descend_iff hwalk hdir (hnode he') (hwell.isName he')).mpr hfits⟩
      | link target => exact ⟨nofun, hsource⟩
      | directory => exact hsource.elim
  ordered := h.ordered
  nonempty := by
    rintro names hnames rfl
    exact not_hasSource_nil ((h.mem []).mp hnames)
  names names hnames := by
    obtain ⟨e', he', -⟩ := (h.mem names).mp hnames
    exact hwell.isName he'

theorem collectPairs_of_find {here : Location} (hfind : t.find cwd input = .ok (here, .directory es)) (out : Option Path) :
    t.collectPairs cwd out [input] = (t.yamlFilesOf cwd input input es).map
      (List.map fun p => .forSource p (out.map fun o => (input, o))) := by
  simp only [collectPairs, pairsOf, hfind]
  cases t.yamlFilesOf cwd input input es with
  | error e => rfl
  | ok sources => exact congrArg Except.ok (List.append_nil _)

/-- A directory is collected as its sources, each mirrored below the output directory, unless a directory below it
cannot be opened. -/
theorem collectPairs_directory (ht : t.WellFormed) (hinput : t.isDirectory cwd input = true) (out : Option Path) :
    ∃ here, t.walk true cwd input = .ok here ∧ t.node? here = some .directory ∧
      ((∃ places, t.Sources cwd input here places ∧ t.collectPairs cwd out [input] =
          .ok (places.map fun names => ⟨input.descend names, (out.getD input).descend names⟩)) ∨
        ∃ names fault, t.node? (here ++ names) = some .directory ∧ (∀ n ∈ names, Path.IsName n) ∧
          t.find cwd (input.descend names) = .error fault ∧
          t.collectPairs cwd out [input] = .error (.unreadable input (input.descend names) fault)) := by
  unfold isDirectory at hinput
  split at hinput
  next here es hfind =>
    obtain ⟨hwalk, hat⟩ := find_ok_iff.mp hfind
    have hnonempty := (walk_ok_iff.mp hwalk).1.nonempty
    have hwell := Entry.WellFormed.at? ht hat
    have hpairs := collectPairs_of_find hfind out
    refine ⟨here, hwalk, node?_eq_directory_iff.mpr ⟨es, hat⟩, ?_⟩
    have hsearched := t.searched_yamlFilesOf cwd input input es hwell (isPresent_iff.mpr ⟨_, _, hfind⟩)
    generalize t.yamlFilesOf cwd input input es = found at hsearched hpairs
    cases hsearched with
    | @listed places hlisting =>
      have hsources := hlisting.sources hwell hwalk hat
      refine Or.inl ⟨places, hsources, hpairs.trans (congrArg Except.ok ?_)⟩
      rw [List.map_map]
      apply List.map_congr_left
      intro names hnames
      exact FilePair.forSource_descend (hsources.names names hnames) (hsources.nonempty names hnames) hnonempty out
    | @blocked names es' fault hat' hfind' =>
      refine Or.inr ⟨names, fault, ?_, hwell.isName hat', hfind', hpairs⟩
      exact node?_eq_directory_iff.mpr ⟨es', (at?_below hat names).trans hat'⟩
  · cases hinput

/-- A directory is collected if the path of every directory below it is short enough for a walk, and else the error
names one that cannot be opened. What is collected are the YAML files below it whose paths are short enough, and the
links named like one whose paths lead to files, each once, in the order in which a walk visits them that goes down as it
comes and takes the entries of a directory by the bytes of their names. It goes into no link. What leads to a source from
the directory leads to its destination from the output directory or, if there is none, from the directory itself. -/
theorem directory_collects_sources_in_order (ht : t.WellFormed) (hinput : t.isDirectory cwd input = true)
    (out : Option Path) :
    ∃ here, t.walk true cwd input = .ok here ∧
      ((∃ ps, t.collectPairs cwd out [input] = .ok ps) ↔
        ∀ names, t.node? (here ++ names) = some .directory → Fits (input.descend names)) ∧
      (∀ ps, t.collectPairs cwd out [input] = .ok ps → ∃ places : List (List Name),
        ps = places.map (fun names => ⟨input.descend names, (out.getD input).descend names⟩) ∧
        (∀ names, names ∈ places ↔
          ∃ node, t.node? (here ++ names) = some node ∧ t.IsSource cwd (input.descend names) node) ∧
        places.Nodup ∧ places.Pairwise ComesBefore ∧
        ∀ names ∈ places, ∀ base : Path, (base.descend names).components = base.components ++ names.map .name) ∧
      ∀ e, t.collectPairs cwd out [input] = .error e → ∃ names fault, t.node? (here ++ names) = some .directory ∧
        t.find cwd (input.descend names) = .error fault ∧ e = .unreadable input (input.descend names) fault := by
  obtain ⟨here, hwalk, hdir, ⟨places, hsources, hpairs⟩ | ⟨names, fault, hbelow, hnames, hfind, hpairs⟩⟩ :=
    collectPairs_directory ht hinput out
  · rw [hpairs]
    refine ⟨here, hwalk, iff_of_true ⟨_, rfl⟩ hsources.opens, ?_, nofun⟩
    rintro ps hps
    obtain rfl := Except.ok.inj hps
    refine ⟨places, rfl, hsources.mem, ?_, hsources.ordered, fun names hmem base => ?_⟩
    · exact List.nodup_iff_pairwise_ne.mpr (hsources.ordered.imp ComesBefore.ne)
    · exact Path.components_descend (hsources.names names hmem)
  · rw [hpairs]
    refine ⟨here, hwalk, iff_of_false ?_ ?_, nofun, ?_⟩
    · rintro ⟨ps, hps⟩
      exact nomatch hps
    · intro hfits
      have hpresent := (isPresent_descend_iff hwalk hdir hbelow hnames).mpr (hfits names hbelow)
      obtain ⟨l, e, hfound⟩ := isPresent_iff.mp hpresent
      exact nomatch hfind.symm.trans hfound
    · rintro e he
      exact ⟨names, fault, hbelow, hfind, (Except.error.inj he).symm⟩

/-- The name of a directory ends like that of a YAML file, and a link leads back to the directory above. -/
theorem links_and_nested_directories_are_collected :
    let file : Entry := .file (.text "") false
    let t : FileTree := ⟨[("d".toList, .directory [("B.YML".toList, file), ("a".toList, .directory [("x.yaml".toList, file)]),
      ("a.yml".toList, .directory [("n.yml".toList, .link ⟨"../../real"⟩), ("up.yml".toList, .link ⟨".."⟩)]),
      ("é.txt".toList, file)]), ("real".toList, file)]⟩
    t.WellFormed ∧ t.isDirectory [] ⟨"./d/"⟩ = true ∧
      t.collectPairs [] (some ⟨"out"⟩) [⟨"./d/"⟩] = .ok [⟨⟨"./d/B.YML"⟩, ⟨"out/B.YML"⟩⟩,
        ⟨⟨"./d/a/x.yaml"⟩, ⟨"out/a/x.yaml"⟩⟩, ⟨⟨"./d/a.yml/n.yml"⟩, ⟨"out/a.yml/n.yml"⟩⟩] ∧
      (∀ names, t.node? ("d".toList :: names) = some .directory → Fits (Path.descend ⟨"./d/"⟩ names)) ∧
      ∀ names node, t.node? ("d".toList :: names) = some node → t.IsSource [] (Path.descend ⟨"./d/"⟩ names) node →
        (Path.descend ⟨"./d/"⟩ names).text ∈ ["./d/B.YML", "./d/a/x.yaml", "./d/a.yml/n.yml"] := by
  intro file t
  have hfile : file.WellFormed := .file _ _
  have hnested : (Entry.directory [("x.yaml".toList, file)]).WellFormed :=
    .directory (by decide) (by decide) (by simpa using hfile)
  have hlinks : (Entry.directory [("n.yml".toList, .link ⟨"../../real"⟩), ("up.yml".toList, .link ⟨".."⟩)]).WellFormed :=
    .directory (by decide) (by decide) (by simp [Entry.WellFormed.link])
  have ht : t.WellFormed := by
    refine .directory (by decide) (by decide) (List.forall_mem_cons.mpr ⟨?_, by simpa using hfile⟩)
    exact .directory (by decide) (by decide) (by simpa using ⟨hfile, hnested, hlinks, hfile⟩)
  have hinput : t.isDirectory [] ⟨"./d/"⟩ = true := by decide +kernel
  obtain ⟨here, hwalk, hopens, hsources, -⟩ := directory_collects_sources_in_order ht hinput (some ⟨"out"⟩)
  have hhere : t.walk true [] ⟨"./d/"⟩ = .ok ["d".toList] := by decide +kernel
  obtain rfl := Except.ok.inj (hwalk.symm.trans hhere)
  have hlisted : t.collectPairs [] (some ⟨"out"⟩) [⟨"./d/"⟩] = .ok [⟨⟨"./d/B.YML"⟩, ⟨"out/B.YML"⟩⟩,
      ⟨⟨"./d/a/x.yaml"⟩, ⟨"out/a/x.yaml"⟩⟩, ⟨⟨"./d/a.yml/n.yml"⟩, ⟨"out/a.yml/n.yml"⟩⟩] := by decide +kernel
  obtain ⟨places, hplaces, hmem, -⟩ := hsources _ hlisted
  refine ⟨ht, hinput, hlisted, hopens.mp ⟨_, hlisted⟩, fun names node hnode hsource => ?_⟩
  have htexts : places.map (fun names => (Path.descend ⟨"./d/"⟩ names).text) =
      ["./d/B.YML", "./d/a/x.yaml", "./d/a.yml/n.yml"] := by
    have heq := congrArg (List.map fun p : FilePair => p.source.text) hplaces.symm
    rwa [List.map_map] at heq
  rw [← htexts]
  exact List.mem_map.mpr ⟨names, (hmem names).mpr ⟨node, hnode, hsource⟩, rfl⟩

section Instances

def directoryWith (es : List (Name × Entry)) : FileTree := ⟨[(['d'], .directory es)]⟩

theorem wellFormed_directoryWith (h : (Entry.directory es).WellFormed) : (directoryWith es).WellFormed := by
  have hd : Path.IsName ['d'] := by decide
  exact .directory (List.forall_mem_singleton.mpr hd) (List.pairwise_singleton _ _) (List.forall_mem_singleton.mpr h)

def slashed (k : Nat) : Path := .ofChars ('d' :: List.replicate k '/')

theorem chars_slashed (k : Nat) : (slashed k).chars = ['d'] ++ List.replicate k '/' := Path.chars_ofChars _

theorem splitChar_replicate (sep : Char) (k : Nat) : splitChar sep (List.replicate k sep) = List.replicate (k + 1) [] := by
  induction k with
  | zero => rfl
  | succ k ih => rw [List.replicate_succ, splitChar, if_pos rfl, ih, ← List.replicate_succ]

theorem reaches_empty {here : Location} (h : t.node? here = some .directory) (links k : Nat) :
    Reaches t true here links (List.replicate k []) here := by
  induction k with
  | zero => exact .done links
  | succ k ih => exact .enter h (Nat.zero_le _) h (fun _ => nofun) ih

theorem byteCount_append (cs ds : List Char) : byteCount (cs ++ ds) = byteCount cs + byteCount ds := by
  rw [byteCount, Utf8.encode, List.flatMap_append, List.length_append]
  rfl

theorem byteCount_chars_slashed (k : Nat) : byteCount (slashed k).chars = k + 1 := by
  have hslashes : byteCount (List.replicate k '/') = k := by
    induction k with
    | zero => rfl
    | succ k ih =>
      have hone : byteCount ['/'] = 1 := by decide
      rw [List.replicate_succ', byteCount_append, ih, hone]
  have hone : byteCount ['d'] = 1 := by decide
  rw [chars_slashed, byteCount_append, hslashes, hone, Nat.add_comm]

theorem find_slashed (es : List (Name × Entry)) {k : Nat} (hk : k < maxPath) :
    (directoryWith es).find [] (slashed k) = .ok ([['d']], .directory es) := by
  have hroot : (directoryWith es).node? [] = some .directory := rfl
  have hd : (directoryWith es).node? [['d']] = some .directory := rfl
  have hwalkable : Walkable (slashed k) := by
    constructor
    · simp [chars_slashed]
    · simp [chars_slashed]
    · rw [byteCount_chars_slashed]
      exact hk
  apply find_ok_iff.mpr
  refine ⟨walk_ok_iff_reaches.mpr ⟨hwalkable, ?_⟩, rfl⟩
  have hrelative : (slashed k).isAbsolute = false := by
    rw [Path.isAbsolute, chars_slashed]
    rfl
  have hbody : (slashed k).body = ['d'] :: List.replicate k [] := by
    rw [Path.body, hrelative, if_neg Bool.false_ne_true, chars_slashed, List.singleton_append, splitChar,
      if_neg (by decide), splitChar_replicate, List.replicate_succ]
  rw [hrelative, if_neg Bool.false_ne_true, hbody]
  exact .enter hroot (by decide) hd (by simp) (reaches_empty hd _ _)

theorem find_below_slashed (t : FileTree) {k : Nat} {n : Name} (hk : k ≠ 0) (hslash : '/' ∉ n)
    (hnul : Char.ofNat 0 ∉ n) (hlong : maxPath < k + 1 + byteCount n) :
    t.find [] ((slashed k).child n) = .error .nameTooLong := by
  have hopen : (slashed k).isOpen = true := by
    obtain ⟨k, rfl⟩ := Nat.exists_eq_succ_of_ne_zero hk
    rw [Path.isOpen, chars_slashed, List.replicate_succ', ← List.append_assoc, List.getLast?_concat]
    exact Bool.or_true _
  have hchars : ((slashed k).child n).chars = (slashed k).chars ++ n := by
    rw [Path.chars_child hslash, hopen, if_pos rfl]
  have hcount : maxPath < byteCount ((slashed k).child n).chars := by
    rw [hchars, byteCount_append, byteCount_chars_slashed]
    exact hlong
  have hwalk : t.walk true [] ((slashed k).child n) = .error .nameTooLong := by
    have hnone : ((slashed k).child n).chars.contains (Char.ofNat 0) = false := by
      simp [hchars, chars_slashed, hnul]
    rw [walk, if_neg (by simp [hchars, chars_slashed]), hnone, if_neg Bool.false_ne_true, if_pos hcount]
  rw [find, hwalk]
  rfl

/-- A YAML file of a directory is left out because its path is too long, and a directory in it ends the search. -/
theorem long_paths_are_not_collected :
    let t := directoryWith [("abcd.yml".toList, .file (.text "") false)]
    let u := directoryWith [("abcde".toList, .directory [])]
    t.WellFormed ∧ t.isDirectory [] (slashed 4090) = true ∧
      t.node? [['d'], "abcd.yml".toList] = some (.file (.text "") false) ∧
      ((slashed 4090).child "abcd.yml".toList).isYamlFile = true ∧
      t.collectPairs [] none [slashed 4090] = .ok [] ∧
    u.WellFormed ∧ u.isDirectory [] (slashed 4090) = true ∧
      u.collectPairs [] none [slashed 4090] =
        .error (.unreadable (slashed 4090) ((slashed 4090).child "abcde".toList) .nameTooLong) := by
  intro t u
  have hfile : (Entry.directory [("abcd.yml".toList, .file (.text "") false)]).WellFormed :=
    .directory (by decide) (by decide) (List.forall_mem_singleton.mpr (.file _ _))
  have hdirectory : (Entry.directory [("abcde".toList, .directory [])]).WellFormed :=
    .directory (by decide) (by decide) (List.forall_mem_singleton.mpr (.directory nofun .nil nofun))
  have ht : t.find [] (slashed 4090) = _ := find_slashed _ (by decide)
  have hu : u.find [] (slashed 4090) = _ := find_slashed _ (by decide)
  have hlong : t.isFile [] ((slashed 4090).child "abcd.yml".toList) = false := by
    rw [isFile, t.find_below_slashed (by decide) (by decide) (by decide) (by decide)]
  refine ⟨wellFormed_directoryWith hfile, by rw [isDirectory, ht], rfl, ?_, ?_,
    wellFormed_directoryWith hdirectory, by rw [isDirectory, hu], ?_⟩
  · rw [Path.isYamlFile, Path.extension?, Path.fileName?_child (by decide)]
    decide
  · rw [collectPairs_of_find ht, yamlFilesOf, yamlFilesOf, yamlFiles, hlong, Bool.and_false]
    rfl
  · rw [collectPairs_of_find hu, yamlFilesOf, yamlFilesOf, yamlFiles,
      u.find_below_slashed (by decide) (by decide) (by decide) (by decide)]
    rfl

end Instances

end FileTree

end YamlInclude
