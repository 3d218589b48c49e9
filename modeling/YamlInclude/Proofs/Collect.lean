import YamlInclude.Proofs.DepthFirst

/-! # Destinations of collected files

The files that a directory stands for are at different places below it, and their destinations mirror these
places up to the last name. So files of different directories have different destinations, and two of one directory
whose names end in `.yml` or `.yaml` share theirs exactly if the names are the same before that.
-/

namespace YamlInclude

namespace Path

/-- The file name up to its extension. -/
def stem? (p : Path) : Option (List Char) := p.fileName?.map fun n => (splitExtension n).1

/-- Whether the extension of a path is `yml` or `yaml` in small letters. -/
def HasSmallExtension (p : Path) : Prop :=
  p.extension? = some ['y', 'm', 'l'] ∨ p.extension? = some ['y', 'a', 'm', 'l']

instance (p : Path) : Decidable p.HasSmallExtension := inferInstanceAs (Decidable (_ ∨ _))

/-- Whether two paths have the same components before the last one. -/
def SharesDirectory (p q : Path) : Prop := p.components.dropLast = q.components.dropLast

variable {p q : Path} {n m : Name}

theorem sharesDirectory_child_iff (hn : IsName n) (hm : IsName m) :
    (p.child n).SharesDirectory (q.child m) ↔ p.components = q.components := by
  rw [SharesDirectory, components_child hn.noSlash hn.component, components_child hm.noSlash hm.component,
    List.dropLast_concat, List.dropLast_concat]

theorem stem?_child (hn : IsName n) : (p.child n).stem? = some (splitExtension n).1 := by
  rw [stem?, fileName?_child hn, Option.map_some]

theorem bareName_of_hasSmallExtension (hn : IsName n) (h : (p.child n).HasSmallExtension) :
    bareName n = (splitExtension n).1 := by
  rw [HasSmallExtension, extension?, fileName?_child hn, Option.bind_some] at h
  apply if_pos
  rcases h with h | h
  · rw [h]
    rfl
  · rw [h]
    rfl

theorem same_jsonPath_child_iff (hn : IsName n) (hm : IsName m) :
    (p.child n).jsonPath.same (q.child m).jsonPath = true ↔
      p.components = q.components ∧ bareName n = bareName m := by
  rw [same, components_jsonPath hn, components_jsonPath hm, beq_iff_eq, ← jsonComponent_inj]
  simp

end Path

open FileTree in
/-- Any two pairs of a directory have different sources. Their destinations differ if the sources are in different
directories, and if the sources have extensions in small letters, they differ unless both are in one directory and have
the same name without its extension. -/
theorem collected_destinations_iff {t : FileTree} {cwd : Location} {input : Path} {out : Option Path}
    {ps : List FilePair} (ht : t.WellFormed) (hinput : t.isDirectory cwd input = true)
    (hps : t.collectPairs cwd out [input] = .ok ps) :
    ps.Pairwise fun p q => p.source.same q.source = false ∧
      (p.written.same q.written = true → p.source.SharesDirectory q.source) ∧
      (p.source.HasSmallExtension → q.source.HasSmallExtension →
        (p.written.same q.written = true ↔
          p.source.SharesDirectory q.source ∧ p.source.stem? = q.source.stem?)) := by
  obtain ⟨here, -, -, ⟨places, hsources, hpairs⟩ | ⟨_, _, -, -, -, hpairs⟩⟩ := collectPairs_directory ht hinput out
  swap
  · exact nomatch hps.symm.trans hpairs
  obtain rfl := Except.ok.inj (hpairs.symm.trans hps)
  refine List.pairwise_map.mpr (hsources.ordered.imp_of_mem ?_)
  intro names names' hmem hmem' hbefore
  have hall := hsources.names names hmem
  have hall' := hsources.names names' hmem'
  constructor
  · rw [Path.same, Path.components_descend hall, Path.components_descend hall', beq_eq_false_iff_ne]
    intro heq
    have hinj : Function.Injective Component.name := fun _ _ h => Component.name.inj h
    exact hbefore.ne (List.map_injective_iff.mpr hinj (List.append_cancel_left heq))
  obtain rfl | ⟨above, n, rfl⟩ := List.eq_nil_or_concat' names
  · exact absurd rfl (hsources.nonempty _ hmem)
  obtain rfl | ⟨above', n', rfl⟩ := List.eq_nil_or_concat' names'
  · exact absurd rfl (hsources.nonempty _ hmem')
  have hn := hall n (by simp)
  have hn' := hall' n' (by simp)
  have habove : ∀ m ∈ above, Path.IsName m := fun m hm => hall m (by simp [hm])
  have habove' : ∀ m ∈ above', Path.IsName m := fun m hm => hall' m (by simp [hm])
  have hmirror (base : Path) : (base.descend above).components = (base.descend above').components ↔
      (input.descend above).components = (input.descend above').components := by
    simp [Path.components_descend habove, Path.components_descend habove']
  simp only [FilePair.written, Path.descend_concat]
  rw [Path.same_jsonPath_child_iff hn hn', Path.sharesDirectory_child_iff hn hn', Path.stem?_child hn,
    Path.stem?_child hn', hmirror, Option.some.injEq]
  refine ⟨And.left, fun hsmall hsmall' => ?_⟩
  rw [Path.bareName_of_hasSmallExtension hn hsmall, Path.bareName_of_hasSmallExtension hn' hsmall']

section Instances

def directoryOf (names : List Name) : FileTree := .directoryWith (names.map fun n => (n, .file (.text "") false))

theorem wellFormed_directoryOf {names : List Name} (hnames : ∀ n ∈ names, Path.IsName n)
    (hordered : names.Pairwise (· < ·)) : (directoryOf names).WellFormed := by
  apply FileTree.wellFormed_directoryWith
  refine .directory ?_ (List.pairwise_map.mpr hordered) ?_
  · intro e he
    obtain ⟨n, hn, rfl⟩ := List.mem_map.mp he
    exact hnames n hn
  · intro e he
    obtain ⟨n, -, rfl⟩ := List.mem_map.mp he
    exact .file _ _

/-- The name of one file is that of the other one with a further extension. -/
theorem collected_destinations_differ :
    let t := directoryOf ["a.yaml".toList, "a.yml.yml".toList]
    t.WellFormed ∧ t.isDirectory [] ⟨"d"⟩ = true ∧ ∃ p q, t.collectPairs [] none [⟨"d"⟩] = .ok [p, q] ∧
      p.source.HasSmallExtension ∧ q.source.HasSmallExtension ∧ p.source.SharesDirectory q.source ∧
      p.written.same q.written = false := by
  intro t
  have ht : t.WellFormed := wellFormed_directoryOf (by decide) (by decide)
  have hd : t.isDirectory [] ⟨"d"⟩ = true := by decide +kernel
  let p : FilePair := ⟨⟨"d/a.yaml"⟩, ⟨"d/a.yaml"⟩⟩
  let q : FilePair := ⟨⟨"d/a.yml.yml"⟩, ⟨"d/a.yml.yml"⟩⟩
  have hpq : t.collectPairs [] none [⟨"d"⟩] = .ok [p, q] := by decide +kernel
  have hp : p.source.HasSmallExtension := by decide +kernel
  have hq : q.source.HasSmallExtension := by decide +kernel
  obtain ⟨-, -, hiff⟩ := List.pairwise_pair.mp (collected_destinations_iff ht hd hpq)
  have hdirectory : p.source.components.dropLast = q.source.components.dropLast := by decide +kernel
  refine ⟨ht, hd, p, q, hpq, hp, hq, hdirectory, Bool.eq_false_iff.mpr fun hsame => ?_⟩
  exact absurd ((hiff hp hq).mp hsame).2 (by decide +kernel)

/-- Two files of a directory are written to one place. -/
theorem collected_destinations_meet :
    let t := directoryOf [['a', '.', 'y', 'a', 'm', 'l'], ['a', '.', 'y', 'm', 'l']]
    t.isDirectory [] ⟨"d"⟩ = true ∧ ∃ p q, t.collectPairs [] none [⟨"d"⟩] = .ok [p, q] ∧ p ≠ q ∧
      p.source.same q.source = false ∧ p.written.same q.written = true := by
  refine ⟨by decide +kernel, ⟨⟨"d/a.yaml"⟩, ⟨"d/a.yaml"⟩⟩, ⟨⟨"d/a.yml"⟩, ⟨"d/a.yml"⟩⟩, ?_⟩
  decide +kernel

end Instances

end YamlInclude
