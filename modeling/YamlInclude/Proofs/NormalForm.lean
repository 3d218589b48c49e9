import YamlInclude.Proofs.Folding
import YamlInclude.Proofs.Place

/-! # Normal forms

A normal form is a single dot, or it is names behind the root or behind steps up. Two paths have one normal form
exactly if they lead to one place from every directory, so a path may be replaced by its normal form before it is
joined or after.
-/

namespace YamlInclude

namespace Path

variable {p q : Path} {absolute : Bool} {ups k : Nat} {cwd here : Location} {segments names : List Name} {s x : Name}

/-! ## Components -/

theorem componentsOf_names (h : ∀ n ∈ names, IsName n) : componentsOf names = names.map .name := by
  have hname : ∀ n ∈ names, componentOf? n = (some ∘ Component.name) n := fun n hn => (h n hn).component
  rw [componentsOf, List.filterMap_congr hname, List.filterMap_eq_map]

theorem componentsOf_replicate_up (ups : Nat) :
    componentsOf (List.replicate ups ['.', '.']) = List.replicate ups .parent := by
  have hup : componentOf? ['.', '.'] = some .parent := rfl
  rw [componentsOf, List.filterMap_replicate_of_some hup]

theorem componentsWith_of_not_void (absolute : Bool) (h : ∀ s ∈ segments, isVoid s = false) :
    componentsWith absolute segments = (if absolute then [.root] else []) ++ componentsOf segments := by
  unfold componentsWith
  split
  · rfl
  · split
    next rest => exact absurd (h ['.'] List.mem_cons_self) (by decide)
    · rfl

/-- The components of a normal form are steps up and then names, behind the root names only. -/
theorem components_normalize (p : Path) : p.normalize = ⟨"."⟩ ∧ p.isAbsolute = false ∨
    ∃ (ups : Nat) (names : List Name), p.normalize.components =
      (if p.isAbsolute then [.root] else []) ++ List.replicate ups .parent ++ names.map .name ∧
      (p.isAbsolute = true → ups = 0) := by
  by_cases hnil : p.folded = []
  · rw [normalize_of_folded_nil hnil]
    cases p.isAbsolute with
    | true => exact Or.inr ⟨0, [], by decide +kernel, fun _ => rfl⟩
    | false => exact Or.inl ⟨rfl, rfl⟩
  · obtain ⟨ups, names, hfolded, hnames, hroot⟩ := exists_folded_eq p
    have hsegments : ∀ n ∈ p.folded, '/' ∉ n ∧ isVoid n = false := fun n => mem_folded
    refine Or.inr ⟨ups, names, ?_, hroot⟩
    rw [components_eq_body, isAbsolute_normalize, normalize_of_folded hnil, body_ofSegments _ hnil hsegments,
      componentsWith_of_not_void _ fun s hs => (hsegments s hs).2, hfolded, componentsOf_append,
      componentsOf_replicate_up, componentsOf_names hnames, List.append_assoc]

/-- Whether a path has a single dot only where it is nothing else, and steps up only at the start of a relative path. -/
structure IsCanonical (p : Path) : Prop where
  current : .current ∈ p.components → p = ⟨"."⟩
  parent : ∃ ups rest, p.components = List.replicate ups .parent ++ rest ∧ .parent ∉ rest ∧
    (p.isAbsolute = true → ups = 0)

theorem isCanonical_normalize (p : Path) : p.normalize.IsCanonical := by
  rcases components_normalize p with ⟨hdot, -⟩ | ⟨ups, names, hcomponents, hroot⟩
  · rw [hdot]
    exact ⟨fun _ => rfl, 0, [.current], by decide +kernel, by decide, fun _ => rfl⟩
  · constructor
    · intro h
      rw [hcomponents] at h
      cases habs : p.isAbsolute <;> simp [habs] at h
    · rw [isAbsolute_normalize, hcomponents]
      cases habs : p.isAbsolute with
      | true => exact ⟨0, .root :: names.map .name, by simp [hroot habs], by simp, fun _ => rfl⟩
      | false => exact ⟨ups, names.map .name, by simp, by simp, by simp⟩

/-! ## Places -/

theorem enter_eq_foldSegment (h : ∀ n ∈ here, IsName n) (s : Name) :
    enter here s = (foldSegment true here.reverse s).reverse := by
  by_cases hvoid : isVoid s = true
  · rw [foldSegment_of_isVoid hvoid, enter, if_pos hvoid, List.reverse_reverse]
  by_cases hup : s = ['.', '.']
  · subst hup
    rcases List.eq_nil_or_concat' here with rfl | ⟨here, n, rfl⟩
    · rfl
    · have hn : n ≠ ['.', '.'] := (h n (by simp)).ne_parent
      rw [List.reverse_concat, foldSegment_parent_cons hn]
      simp [enter, isVoid]
  · rw [foldSegment_of_ne (Bool.eq_false_iff.mpr hvoid) hup, enter, if_neg hvoid, if_neg hup]
    simp

theorem foldl_enter_eq (hhere : ∀ n ∈ here, IsName n) (hsegments : ∀ s ∈ segments, '/' ∉ s) :
    segments.foldl enter here = (segments.foldl (foldSegment true) here.reverse).reverse := by
  induction segments generalizing here with
  | nil => simp
  | cons s segments ih =>
    have hs : '/' ∉ s := hsegments s List.mem_cons_self
    have henter : ∀ n ∈ enter here s, IsName n := by
      intro n hn
      rw [enter_eq_foldSegment hhere, List.mem_reverse] at hn
      exact isName_of_foldSegment hs (fun m hm => hhere m (List.mem_reverse.mp hm)) n hn
    rw [List.foldl_cons, List.foldl_cons, ih henter fun t ht => hsegments t (List.mem_cons_of_mem _ ht),
      enter_eq_foldSegment hhere, List.reverse_reverse]

theorem place_eq_foldl_folded (p : Path) (hcwd : ∀ n ∈ cwd, IsName n) : p.place cwd =
    (p.folded.foldl (foldSegment true) (if p.isAbsolute then [] else cwd.reverse)).reverse := by
  have hstart : ∀ n ∈ (if p.isAbsolute then [] else cwd), IsName n := by
    split
    · simp
    · exact hcwd
  have hroot : p.isAbsolute = true →
      foldSegment true (if p.isAbsolute then [] else cwd.reverse) ['.', '.'] =
        if p.isAbsolute then [] else cwd.reverse := by
    intro habs
    rw [habs]
    rfl
  rw [place, foldl_enter_eq hstart fun s => noSlash_of_mem_body, foldl_folded hroot]
  split <;> rfl

theorem place_normalize (p : Path) (hcwd : ∀ n ∈ cwd, IsName n) : p.normalize.place cwd = p.place cwd := by
  rw [place_eq_foldl_folded _ hcwd, place_eq_foldl_folded _ hcwd, folded_normalize, isAbsolute_normalize]

theorem place_replicate (hfolded : p.folded = List.replicate ups ['.', '.'] ++ names) (hnames : ∀ n ∈ names, IsName n)
    (hroot : p.isAbsolute = true → ups = 0) (hx : IsName x) (hups : ups ≤ k) :
    p.place (List.replicate k x) = List.replicate (if p.isAbsolute then 0 else k - ups) x ++ names := by
  have hcwd : ∀ n ∈ List.replicate k x, IsName n := fun n hn => List.eq_of_mem_replicate hn ▸ hx
  rw [place_eq_foldl_folded p hcwd, hfolded, List.foldl_append, foldl_foldSegment_of_isName hnames]
  cases habs : p.isAbsolute with
  | true => simp [hroot habs]
  | false =>
    have hback : (List.replicate ups ['.', '.']).foldl (foldSegment true) (List.replicate k x ++ []) =
        (List.replicate k x).drop ups ++ [] :=
      foldl_replicate_up (fun n hn => (hcwd n hn).ne_parent) (by simpa using hups)
    rw [List.append_nil, List.append_nil, List.drop_replicate] at hback
    simp [hback]

theorem exists_isName_not_mem (names : List Name) : ∃ x, IsName x ∧ x ∉ names := by
  refine ⟨List.replicate (names.flatten.length + 1) 'a', ?_, ?_⟩
  · apply isName_append (n := []) (by simp)
    · simp
    · exact ⟨'a', by simp, by decide⟩
  · intro hmem
    have hlength := (List.sublist_flatten_of_mem hmem).length_le
    rw [List.length_replicate] at hlength
    omega

/-- From a directory of new names it is seen how far a path steps up and which names follow. -/
theorem normalize_eq_of_place (h : ∀ cwd, (∀ n ∈ cwd, IsName n) → p.place cwd = q.place cwd) :
    p.normalize = q.normalize := by
  obtain ⟨ups, names, hp, hnames, hroot⟩ := exists_folded_eq p
  obtain ⟨ups', names', hq, hnames', hroot'⟩ := exists_folded_eq q
  obtain ⟨x, hx, hnew⟩ := exists_isName_not_mem (names ++ names')
  rw [List.mem_append, not_or] at hnew
  have hplace := h (List.replicate (ups + ups' + 1) x) fun n hn => List.eq_of_mem_replicate hn ▸ hx
  rw [place_replicate hp hnames hroot hx (by omega), place_replicate hq hnames' hroot' hx (by omega),
    replicate_append_inj hnew.1 hnew.2] at hplace
  obtain ⟨hcount, rfl⟩ := hplace
  have habs : p.isAbsolute = q.isAbsolute := by
    cases hpabs : p.isAbsolute <;> cases hqabs : q.isAbsolute <;> simp [hpabs, hqabs] at hcount ⊢ <;> omega
  refine normalize_eq_iff.mpr ⟨habs, ?_⟩
  have hups : ups = ups' := by
    rw [habs] at hroot hcount
    split at hcount
    next hqabs => rw [hroot hqabs, hroot' hqabs]
    · omega
  rw [hp, hq, hups]

/-! ## Canonical forms -/

/-- Normal forms are canonical: they have the form of one, stay as they are, can be taken before or after paths are
joined, and are the same exactly for paths that lead to one place from every directory. -/
theorem normal_forms_are_canonical :
    (∀ p : Path, p.normalize.isAbsolute = p.isAbsolute ∧ p.normalize.IsCanonical ∧
      p.normalize.normalize = p.normalize) ∧
      (∀ b p : Path, (b.join p).normalize = (b.normalize.join p.normalize).normalize) ∧
      ∀ p q : Path, p.normalize = q.normalize ↔ ∀ cwd, (∀ n ∈ cwd, IsName n) → p.place cwd = q.place cwd := by
  refine ⟨?_, ?_, ?_⟩
  · exact fun p => ⟨isAbsolute_normalize p, isCanonical_normalize p, normalize_normalize p⟩
  · intro b p
    cases habs : p.isAbsolute with
    | true =>
      -- an absolute path takes the place of what it is joined to
      have habs' : p.normalize.isAbsolute = true := by rw [isAbsolute_normalize, habs]
      rw [join, if_pos habs, join, if_pos habs', normalize_normalize]
    | false => exact normalize_join habs
  · intro p q
    constructor
    · intro h cwd hcwd
      rw [← place_normalize p hcwd, h, place_normalize q hcwd]
    · exact normalize_eq_of_place

example : (Path.mk "../a/./b/..//../../c").normalize = ⟨"../../c"⟩ := by decide +kernel

end Path

end YamlInclude
