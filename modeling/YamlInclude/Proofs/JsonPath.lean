import YamlInclude.Proofs.FileName

/-! # Names of JSON files

The search in a directory knows the extensions `yml` and `yaml` in any letter case, and it sees a name also where void
segments follow it. JSON paths take the place of the small letters only, and other text is added after the void
segments. So the JSON file of a source has the name that the search calls for if the extension is in small letters,
behind more than a dot, or if there is no such extension in any letters and the path ends with the name itself.
-/

namespace YamlInclude

namespace Path

variable {p p' q : Path} {n : Name} {voids : List Name}

/-! ## Names -/

def hasSmallExtension (n : Name) : Bool :=
  (splitExtension n).2.any fun e => e == ['y', 'm', 'l'] || e == ['y', 'a', 'm', 'l']

theorem bareName_eq (n : Name) : bareName n = if hasSmallExtension n then (splitExtension n).1 else n := rfl

theorem hasSmallExtension_iff : hasSmallExtension n = true ↔ ∃ stem e, splitExtension n = (stem, some e) ∧
    (e = ['y', 'm', 'l'] ∨ e = ['y', 'a', 'm', 'l']) := by
  unfold hasSmallExtension
  rcases splitExtension n with ⟨stem, _ | e⟩
  · simp
  · simp

/-- The last segment of a path, void or not. -/
def lastSegment (p : Path) : Name := p.body.getLastD []

/-- The components of a JSON path that come after those of the directory, of a path with this file name and this last
segment. -/
def jsonComponents (n last : Name) : List Component :=
  if last = n then [jsonComponent n]
  else if hasSmallExtension n then [.name (bareName n ++ ['.', 'j', 's', 'o', 'n'])]
  else [.name n, .name (last ++ ['.', 'j', 's', 'o', 'n'])]

/-- The name of the JSON file of a path with this file name, as the search in a directory tells YAML files: `json` takes
the place of the last extension of a YAML file and is added to any other name. -/
def outputName (p : Path) (n : Name) : Name :=
  (if p.isYamlFile then (splitExtension n).1 else n) ++ ['.', 'j', 's', 'o', 'n']

/-- Whether the JSON file of a path with this file name has the name that the search calls for. With an extension in
small letters it has, unless only a dot is before that and the path ends there. Otherwise the name must not have the
extension in other letters either, and the path has to end with the name. -/
def NamedBySearch (p : Path) (n : Name) : Prop :=
  if hasSmallExtension n then ¬(bareName n = ['.'] ∧ p.lastSegment = n)
  else p.isYamlFile = false ∧ p.lastSegment = n

instance (p : Path) (n : Name) : Decidable (p.NamedBySearch n) := inferInstanceAs (Decidable (ite ..))

/-- Whether two paths to one place with this file name have the same JSON path. -/
def NamedAlike (p p' : Path) (n : Name) : Prop :=
  if hasSmallExtension n then bareName n = ['.'] → (p.lastSegment = n ↔ p'.lastSegment = n)
  else p.lastSegment = p'.lastSegment

instance (p p' : Path) (n : Name) : Decidable (p.NamedAlike p' n) := inferInstanceAs (Decidable (ite ..))

/-! ## Paths with void segments behind their names -/

theorem Trailed.lastSegment (h : Trailed p q n voids) : p.lastSegment = voids.getLastD n := by
  rw [Path.lastSegment, h.body]
  simp [List.getLastD_eq_getLast?, List.getLast?_cons]

theorem Trailed.lastSegment_eq_iff (h : Trailed p q n voids) : p.lastSegment = n ↔ voids = [] := by
  rw [h.lastSegment]
  obtain rfl | ⟨voids, s, rfl⟩ := List.eq_nil_or_concat' voids
  · simp
  · have hs : s ≠ n := by
      rintro rfl
      exact Bool.noConfusion ((h.void s (by simp)).symm.trans h.isName.not_isVoid)
    simpa [List.getLastD_concat] using hs

theorem Trailed.extension? (h : Trailed p q n voids) : p.extension? = (splitExtension n).2 := by
  rw [Path.extension?, h.fileName?, Option.bind_some]

theorem Trailed.isYamlFile_of_small (h : Trailed p q n voids) (hsmall : hasSmallExtension n = true) :
    p.isYamlFile = true := by
  obtain ⟨stem, e, hsplit, he⟩ := hasSmallExtension_iff.mp hsmall
  rw [isYamlFile, h.extension?, hsplit, Option.any_some]
  rcases he with rfl | rfl <;> decide

theorem Trailed.components_append (h : Trailed p q n voids) (hne : voids ≠ []) {suffix : List Char}
    (hslash : '/' ∉ suffix) (hletter : ∃ c ∈ suffix, c ≠ '.') :
    (p.append suffix).components = q.components ++ [.name n, .name (p.lastSegment ++ suffix)] := by
  obtain rfl | ⟨voids, s, rfl⟩ := List.eq_nil_or_concat' voids
  · exact absurd rfl hne
  have hs := noSlash_of_isVoid (h.void s (by simp))
  let base : Path := ofChars ((q.child n).chars ++ trail voids ++ ['/'])
  have hbase : Trailed base q n (voids ++ [[]]) := by
    refine ⟨h.isName, fun m hm => ?_, by simp [base, trail_concat]⟩
    rcases List.mem_append.mp hm with hm | hm
    · exact h.void m (by simp [hm])
    · rw [List.mem_singleton.mp hm]
      rfl
  have hchild : p = base.child s := by
    refine eq_of_chars ?_
    rw [h.chars, chars_child hs, trail_concat]
    simp [base, isOpen]
  have hname := isName_append hs hslash hletter
  rw [h.lastSegment, List.getLastD_concat, hchild, append_child hname.noSlash,
    components_child hname.noSlash hname.component, hbase.components, List.append_assoc]
  rfl

/-- With void segments behind it, a name keeps its stem when its extension is cut off by length. -/
theorem Trailed.withExtension (h : Trailed p q n voids) (hne : voids ≠ []) {stem e ext : List Char}
    (hsplit : splitExtension n = (stem, some e)) (he : e ≠ []) (hext : '/' ∉ ext) :
    p.withExtension ext = q.child (stem ++ '.' :: ext) := by
  obtain ⟨hname, hstem⟩ := splitExtension_some hsplit
  rw [Path.withExtension, h.extension?, hsplit]
  dsimp only
  obtain ⟨voids', hr⟩ | ⟨-, hr⟩ := h.cut hsplit rfl
  · rw [hr.setExtension hext, hsplit]
  · generalize hk : (trail voids).length = k at hr
    have hpos : k ≠ 0 := by
      obtain ⟨s, voids, rfl⟩ := List.exists_cons_of_ne_nil hne
      simp [← hk, trail]
    have hslash : '/' ∉ stem ++ '.' :: e.take k := by
      intro hmem
      refine h.isName.noSlash (hname ▸ ?_)
      rw [← List.take_append_drop k e, ← List.cons_append, ← List.append_assoc]
      exact List.mem_append_left _ hmem
    have hup : stem ++ '.' :: e.take k ≠ ['.', '.'] := by
      intro hup
      have hlength := congrArg List.length hup
      have hstem := List.length_pos_of_ne_nil hstem
      have he := List.length_pos_of_ne_nil he
      simp only [List.length_append, List.length_cons, List.length_take, List.length_nil] at hlength
      omega
    have hdot : '.' ∉ e.take k := fun hmem => dot_not_mem_extension hsplit (List.mem_of_mem_take hmem)
    rw [hr, setExtension_child (isName_of_stem hstem hslash hup) hext, splitExtension_append hstem hdot]

/-! ## JSON paths -/

theorem bareName_json_ne (n : Name) : bareName n ++ ['.', 'j', 's', 'o', 'n'] ≠ n := by
  rw [bareName_eq]
  cases hsmall : hasSmallExtension n with
  | false => simp
  | true =>
    obtain ⟨stem, e, hsplit, he⟩ := hasSmallExtension_iff.mp hsmall
    obtain ⟨hname, -⟩ := splitExtension_some hsplit
    rw [if_pos rfl, hsplit]
    intro heq
    have hext := List.append_cancel_left (heq.trans hname)
    rcases he with rfl | rfl <;> exact absurd hext (by decide)

theorem Trailed.eq_child (h : Trailed p q n []) : p = q.child n :=
  eq_of_chars (by rw [h.chars, trail, List.flatMap_nil, List.append_nil])

theorem jsonPath_eq (p : Path) : p.jsonPath =
    if p.fileName?.any hasSmallExtension then p.withExtension ['j', 's', 'o', 'n']
    else p.append ['.', 'j', 's', 'o', 'n'] := by
  unfold jsonPath Path.extension?
  cases p.fileName? <;> rfl

theorem jsonPath_of_not_small (h : p.fileName?.any hasSmallExtension = false) :
    p.jsonPath = p.append ['.', 'j', 's', 'o', 'n'] := by
  rw [jsonPath_eq, h, if_neg Bool.false_ne_true]

/-- What is in the place of a name whose extension is in small letters, in the JSON path of a path with this last
segment. -/
def swappedName (n last : Name) : Name := if last = n then jsonName n else bareName n ++ ['.', 'j', 's', 'o', 'n']

theorem noSlash_swappedName (hn : IsName n) (last : Name) : '/' ∉ swappedName n last := by
  have hjson := (isName_append_json (noSlash_bareName hn)).noSlash
  unfold swappedName jsonName
  split
  · split
    · decide
    · exact hjson
  · exact hjson

theorem Trailed.jsonPath_of_small (h : Trailed p q n voids) (hsmall : hasSmallExtension n = true) :
    p.jsonPath = q.child (swappedName n p.lastSegment) := by
  unfold swappedName
  by_cases hlast : p.lastSegment = n
  · obtain rfl := h.lastSegment_eq_iff.mp hlast
    rw [if_pos hlast, ← jsonPath_child h.isName, ← h.eq_child]
  · have hne : voids ≠ [] := fun hnil => hlast (h.lastSegment_eq_iff.mpr hnil)
    obtain ⟨stem, e, hsplit, he⟩ := hasSmallExtension_iff.mp hsmall
    rw [if_neg hlast, bareName_eq, if_pos hsmall, hsplit, jsonPath_eq, h.fileName?, Option.any_some, if_pos hsmall]
    exact h.withExtension hne hsplit (by rcases he with rfl | rfl <;> simp) (by decide)

/-- A name and what follows it in a path decide what its JSON path has after the directory. -/
theorem Trailed.components_jsonPath (h : Trailed p q n voids) :
    p.jsonPath.components = q.components ++ jsonComponents n p.lastSegment := by
  unfold jsonComponents
  by_cases hlast : p.lastSegment = n
  · obtain rfl := h.lastSegment_eq_iff.mp hlast
    rw [if_pos hlast, ← Path.components_jsonPath h.isName, ← h.eq_child]
  rw [if_neg hlast]
  cases hsmall : hasSmallExtension n with
  | true =>
    have hjson := isName_append_json (noSlash_bareName h.isName)
    rw [h.jsonPath_of_small hsmall, swappedName, if_neg hlast, if_pos rfl,
      components_child hjson.noSlash hjson.component]
  | false =>
    have hne : voids ≠ [] := fun hnil => hlast (h.lastSegment_eq_iff.mpr hnil)
    rw [jsonPath_of_not_small (by rw [h.fileName?]; exact hsmall), if_neg Bool.false_ne_true]
    exact h.components_append hne (by decide) ⟨'j', by decide, by decide⟩

theorem jsonComponents_ne (n last : Name) : jsonComponents n last ≠ [.name n] := by
  unfold jsonComponents jsonComponent
  have hbare := bareName_json_ne n
  split
  · split <;> simp [hbare]
  · split <;> simp [hbare]

theorem jsonComponents_eq_iff (n last last' : Name) : jsonComponents n last = jsonComponents n last' ↔
    if hasSmallExtension n then bareName n = ['.'] → (last = n ↔ last' = n) else last = last' := by
  unfold jsonComponents
  cases hsmall : hasSmallExtension n with
  | true =>
    -- the last segments matter only where the JSON path may be a step to the directory above
    by_cases hlast : last = n <;> by_cases hlast' : last' = n <;> by_cases hbare : bareName n = ['.'] <;>
      simp [hlast, hlast', jsonComponent, hbare]
  | false =>
    by_cases hlast : last = n
    · by_cases hlast' : n = last'
      · simp [hlast, ← hlast']
      · simp [hlast, hlast', Ne.symm hlast']
    · by_cases hlast' : last' = n <;> simp [hlast, hlast']

theorem Trailed.namedBySearch_iff (h : Trailed p q n voids) :
    jsonComponents n p.lastSegment = [.name (p.outputName n)] ↔ p.NamedBySearch n := by
  unfold jsonComponents NamedBySearch outputName
  cases hsmall : hasSmallExtension n with
  | true =>
    have hbare : bareName n = (splitExtension n).1 := by rw [bareName_eq, hsmall, if_pos rfl]
    rw [h.isYamlFile_of_small hsmall, if_pos rfl, ← hbare]
    by_cases hlast : p.lastSegment = n <;> by_cases hdot : bareName n = ['.'] <;> simp [hlast, jsonComponent, hdot]
  | false =>
    have hbare : bareName n = n := by rw [bareName_eq, hsmall, if_neg Bool.false_ne_true]
    by_cases hlast : p.lastSegment = n
    · have hstem : p.isYamlFile = true → n ≠ (splitExtension n).1 := by
        intro hyaml heq
        rw [isYamlFile, h.extension?] at hyaml
        rcases hsplit : splitExtension n with ⟨stem, _ | e⟩
        · simp [hsplit] at hyaml
        · obtain ⟨hname, -⟩ := splitExtension_some hsplit
          rw [hsplit] at heq
          simpa using congrArg List.length (heq.symm.trans hname)
      cases hyaml : p.isYamlFile with
      | true => simp [hlast, jsonComponent, hbare, h.isName.ne_current, hstem hyaml]
      | false => simp [hlast, jsonComponent, hbare, h.isName.ne_current]
    · simp [hlast]

/-- The JSON file of a path is beside it with the name that the search calls for exactly under this condition. It is
always another file. -/
theorem json_file_named_iff (h : p.fileName? = some n) :
    (p.jsonPath.components = p.components.dropLast ++ [.name (p.outputName n)] ↔ p.NamedBySearch n) ∧
      p.jsonPath.same p = false ∧
      ∀ p', p.same p' = true → (p.jsonPath.same p'.jsonPath = true ↔ p.NamedAlike p' n) := by
  obtain ⟨q, voids, htrailed⟩ := exists_trailed h
  have hdirectory : p.components.dropLast = q.components := by rw [htrailed.components, List.dropLast_concat]
  refine ⟨?_, ?_, ?_⟩
  · rw [htrailed.components_jsonPath, hdirectory, List.append_cancel_left_eq]
    exact htrailed.namedBySearch_iff
  · rw [same, htrailed.components_jsonPath, htrailed.components]
    exact beq_false_of_ne fun heq => jsonComponents_ne n p.lastSegment (List.append_cancel_left heq)
  · intro p' hsame
    have hcomponents : p.components = p'.components := beq_iff_eq.mp hsame
    have hname : p'.fileName? = some n := by rw [← h, fileName?, fileName?, hcomponents]
    obtain ⟨q', voids', htrailed'⟩ := exists_trailed hname
    have hdirectory' : q'.components = q.components := by
      rw [← hdirectory, hcomponents, htrailed'.components, List.dropLast_concat]
    rw [same, beq_iff_eq, htrailed.components_jsonPath, htrailed'.components_jsonPath, hdirectory',
      List.append_cancel_left_eq, jsonComponents_eq_iff]
    rfl

theorem file_with_void_segments_named :
    let p : Path := ⟨"conf/app.prod.yaml/."⟩
    let p' : Path := ⟨"conf//app.prod.yaml"⟩
    let n := "app.prod.yaml".toList
    p.fileName? = some n ∧ p.same p' = true ∧ p.NamedBySearch n ∧ p.outputName n = "app.prod.json".toList ∧
      p.jsonPath.components = [.name "conf".toList, .name "app.prod.json".toList] ∧
      p.jsonPath.same p'.jsonPath = true := by
  intro p p' n
  have hname : p.fileName? = some n := by decide +kernel
  have hsame : p.same p' = true := by decide +kernel
  obtain ⟨hnamed, -, halike⟩ := json_file_named_iff hname
  have hsearch : p.NamedBySearch n := by decide +kernel
  refine ⟨hname, hsame, hsearch, by decide +kernel, ?_, (halike p' hsame).mpr (by decide +kernel)⟩
  rw [hnamed.mpr hsearch]
  decide +kernel

/-- An extension in capital letters stays, one behind a single dot is no name any more, and text is added after a slash
at the end. -/
theorem yaml_file_not_named_by_search :
    let capital : Path := ⟨"d/a.YML"⟩
    let dot : Path := ⟨"d/..yml"⟩
    let slash : Path := ⟨"d/a.txt/"⟩
    (capital.fileName? = some "a.YML".toList ∧ capital.isYamlFile = true ∧ capital.jsonPath = ⟨"d/a.YML.json"⟩ ∧
        capital.jsonPath.components ≠ capital.components.dropLast ++ [.name (capital.outputName "a.YML".toList)]) ∧
      (dot.fileName? = some "..yml".toList ∧ dot.isYamlFile = true ∧ dot.jsonPath = ⟨"d/.."⟩ ∧
        dot.jsonPath.components ≠ dot.components.dropLast ++ [.name (dot.outputName "..yml".toList)]) ∧
      slash.fileName? = some "a.txt".toList ∧ slash.same ⟨"d/a.txt"⟩ = true ∧
        slash.jsonPath.same (jsonPath ⟨"d/a.txt"⟩) = false := by
  decide +kernel

end Path

end YamlInclude
