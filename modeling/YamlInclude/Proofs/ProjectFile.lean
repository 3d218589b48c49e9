import YamlInclude.Settings.Load
import YamlInclude.Proofs.Folding

/-! # Finding the settings of a project

The search looks into a directory, steps up to the one above it, and ends at the root. So it finds the settings file
of the deepest directory that has one, and it goes on in the same way from all directories below as long as there is
no such file on the way up.
-/

namespace YamlInclude

namespace Config

open YamlInclude.Path

variable {isFile : Path → Bool} {cwd dir below : Location} {p : Path} {n : Name}

def candidate (dir : Location) : Path := dir.path.child projectFileName

theorem candidate_eq (h : ∀ n ∈ dir, IsName n) : candidate dir = Location.path (dir ++ [projectFileName]) :=
  path_child h (by decide)

theorem candidate_inj (hdir : ∀ n ∈ dir, IsName n) (hcwd : ∀ n ∈ cwd, IsName n) :
    candidate dir = candidate cwd ↔ dir = cwd := by
  have hname {l : Location} (hl : ∀ n ∈ l, IsName n) : ∀ n ∈ l ++ [projectFileName], IsName n :=
    List.forall_mem_append.mpr ⟨hl, List.forall_mem_singleton.mpr (by decide)⟩
  constructor
  · intro h
    rw [candidate_eq hdir, candidate_eq hcwd] at h
    have hfolded := congrArg folded h
    rw [folded_path (hname hdir), folded_path (hname hcwd)] at hfolded
    exact List.append_cancel_right hfolded
  · rintro rfl
    rfl

/-! ## Steps up -/

theorem findProjectFile_root (isFile : Path → Bool) :
    findProjectFile isFile [] = if isFile (candidate []) then some (candidate []) else none := by
  simp only [findProjectFile, searched, List.reverse_nil, directoriesAbove, List.map_cons, List.map_nil,
    List.find?_singleton]
  rfl

theorem findProjectFile_concat (isFile : Path → Bool) (cwd : Location) (n : Name) :
    findProjectFile isFile (cwd ++ [n]) =
      if isFile (candidate (cwd ++ [n])) then some (candidate (cwd ++ [n])) else findProjectFile isFile cwd := by
  have hsearched : searched (cwd ++ [n]) = (cwd ++ [n]) :: searched cwd := by simp [searched, directoriesAbove]
  rw [findProjectFile, hsearched, List.map_cons]
  split
  next hfile => exact List.find?_cons_of_pos hfile
  next hfile => exact List.find?_cons_of_neg hfile

/-- Whether looking into a directory and then into the one above it ends with a result. -/
inductive Climbs (isFile : Path → Bool) : Path → Option Path → Prop
  | found {dir : Path} (hfile : isFile (dir.child projectFileName) = true) :
      Climbs isFile dir (some (dir.child projectFileName))
  | top {dir : Path} (hfile : isFile (dir.child projectFileName) = false) (hup : dir.parent? = none) :
      Climbs isFile dir none
  | up {dir above : Path} {r : Option Path} (hfile : isFile (dir.child projectFileName) = false)
      (hup : dir.parent? = some above) (h : Climbs isFile above r) : Climbs isFile dir r

theorem climbs_iff {dir : Path} {r : Option Path} : Climbs isFile dir r ↔
    if isFile (dir.child projectFileName) then r = some (dir.child projectFileName)
    else match dir.parent? with
      | none => r = none
      | some above => Climbs isFile above r := by
  constructor
  · intro h
    cases h with
    | found hfile => rw [if_pos hfile]
    | top hfile hup => simp only [hfile, hup, Bool.false_eq_true, if_false]
    | up hfile hup h => simpa only [hfile, hup, Bool.false_eq_true, if_false] using h
  · intro h
    split at h
    next hfile =>
      rw [h]
      exact .found hfile
    next hfile =>
      split at h
      next hup =>
        rw [h]
        exact .top (Bool.eq_false_iff.mpr hfile) hup
      next hup => exact .up (Bool.eq_false_iff.mpr hfile) hup h

theorem Climbs.unique {dir : Path} {r r' : Option Path} (h : Climbs isFile dir r) (h' : Climbs isFile dir r') :
    r = r' := by
  induction h with
  | found hfile =>
    rw [climbs_iff, if_pos hfile] at h'
    exact h'.symm
  | top hfile hup =>
    rw [climbs_iff, hfile, if_neg Bool.false_ne_true, hup] at h'
    exact h'.symm
  | up hfile hup _ ih =>
    rw [climbs_iff, hfile, if_neg Bool.false_ne_true, hup] at h'
    exact ih h'

theorem climbs_findProjectFile (isFile : Path → Bool) (hcwd : ∀ n ∈ cwd, IsName n) :
    Climbs isFile cwd.path (findProjectFile isFile cwd) := by
  induction cwd using List.reverseRecOn with
  | nil =>
    rw [findProjectFile_root]
    split
    next hfile => exact .found hfile
    next hfile => exact .top (Bool.eq_false_iff.mpr hfile) rfl
  | append_singleton cwd n ih =>
    rw [findProjectFile_concat]
    split
    next hfile => exact .found hfile
    next hfile =>
      apply Climbs.up (Bool.eq_false_iff.mpr hfile) (parent?_path_concat hcwd)
      exact ih fun m hm => hcwd m (List.mem_append_left _ hm)

/-! ## The nearest directory -/

/-- Whether a directory is the deepest one of a directory and those above it that has a settings file. -/
structure IsNearest (isFile : Path → Bool) (cwd dir : Location) : Prop where
  above : dir <+: cwd
  holds : isFile (candidate dir) = true
  deepest : ∀ l, l <+: cwd → isFile (candidate l) = true → l.length ≤ dir.length

theorem isNearest_self_iff (h : isFile (candidate cwd) = true) : IsNearest isFile cwd dir ↔ dir = cwd := by
  constructor
  · intro hdir
    exact hdir.above.eq_of_length_le (hdir.deepest cwd (List.prefix_refl cwd) h)
  · rintro rfl
    exact ⟨List.prefix_refl _, h, fun l hl _ => hl.length_le⟩

theorem isNearest_concat_iff (h : isFile (candidate (cwd ++ [n])) = false) :
    IsNearest isFile (cwd ++ [n]) dir ↔ IsNearest isFile cwd dir := by
  have habove (l : Location) (hl : l <+: cwd ++ [n]) (hfile : isFile (candidate l) = true) : l <+: cwd := by
    rcases List.prefix_concat_iff.mp hl with rfl | hl
    · rw [hfile] at h
      cases h
    · exact hl
  constructor
  · rintro ⟨hdir, hfile, hdeepest⟩
    exact ⟨habove dir hdir hfile, hfile, fun l hl => hdeepest l (hl.trans (List.prefix_append _ _))⟩
  · rintro ⟨hdir, hfile, hdeepest⟩
    exact ⟨hdir.trans (List.prefix_append _ _), hfile, fun l hl hl' => hdeepest l (habove l hl hl') hl'⟩

theorem findProjectFile_eq_some_iff :
    findProjectFile isFile cwd = some p ↔ ∃ dir, IsNearest isFile cwd dir ∧ p = candidate dir := by
  have hhere {l : Location} (h : isFile (candidate l) = true) :
      some (candidate l) = some p ↔ ∃ dir, IsNearest isFile l dir ∧ p = candidate dir := by
    simp [isNearest_self_iff h, eq_comm]
  induction cwd using List.reverseRecOn with
  | nil =>
    rw [findProjectFile_root]
    split
    next hfile => exact hhere hfile
    next hfile =>
      constructor
      · intro h
        cases h
      · rintro ⟨dir, hdir, -⟩
        obtain rfl := List.prefix_nil.mp hdir.above
        exact absurd hdir.holds hfile
  | append_singleton cwd n ih =>
    rw [findProjectFile_concat]
    split
    next hfile => exact hhere hfile
    next hfile =>
      refine ih.trans ?_
      simp only [isNearest_concat_iff (Bool.eq_false_iff.mpr hfile)]

theorem findProjectFile_eq_none_iff :
    findProjectFile isFile cwd = none ↔ ∀ dir, dir <+: cwd → isFile (candidate dir) = false := by
  induction cwd using List.reverseRecOn with
  | nil =>
    rw [findProjectFile_root]
    simp
  | append_singleton cwd n ih =>
    rw [findProjectFile_concat]
    simp only [List.prefix_concat_iff, forall_eq_or_imp, ← ih]
    split <;> simp_all

/-! ## Directories below -/

theorem findProjectFile_append (h : ∀ l, l ≠ [] → l <+: below → isFile (candidate (cwd ++ l)) = false) :
    findProjectFile isFile (cwd ++ below) = findProjectFile isFile cwd := by
  induction below using List.reverseRecOn with
  | nil => rw [List.append_nil]
  | append_singleton below n ih =>
    have hlast := h (below ++ [n]) (by simp) (List.prefix_refl _)
    rw [← List.append_assoc] at hlast ⊢
    rw [findProjectFile_concat, hlast, if_neg Bool.false_ne_true]
    apply ih
    intro l hne hl
    exact h l hne (hl.trans (List.prefix_append _ _))

theorem findProjectFile_append_ne {l : Location} (hcwd : ∀ n ∈ cwd, IsName n) (hbelow : ∀ n ∈ below, IsName n)
    (hne : l ≠ []) (hl : l <+: below) (hfile : isFile (candidate (cwd ++ l)) = true) :
    findProjectFile isFile (cwd ++ below) ≠ findProjectFile isFile cwd := by
  have habove : cwd ++ l <+: cwd ++ below := (List.prefix_append_right_inj cwd).mpr hl
  have hnames {dir : Location} (hdir : dir <+: cwd ++ below) : ∀ n ∈ dir, IsName n :=
    fun n hn => List.forall_mem_append.mpr ⟨hcwd, hbelow⟩ n (hdir.subset hn)
  intro heq
  cases hfound : findProjectFile isFile (cwd ++ below) with
  | none =>
    rw [findProjectFile_eq_none_iff.mp hfound _ habove] at hfile
    cases hfile
  | some p =>
    obtain ⟨dir, hdir, rfl⟩ := findProjectFile_eq_some_iff.mp hfound
    obtain ⟨dir', hdir', hsame⟩ := findProjectFile_eq_some_iff.mp (heq ▸ hfound)
    obtain rfl := (candidate_inj (hnames hdir.above) (hnames (hdir'.above.trans (List.prefix_append _ _)))).mp hsame
    -- the one directory is at least as deep as the file below, and at most as deep as the upper directory
    have hdeep := hdir.deepest _ habove hfile
    have hshallow := hdir'.above.length_le
    have hpos := List.length_pos_of_ne_nil hne
    rw [List.length_append] at hdeep
    omega

/-- The search ends, with the settings file of the deepest directory that has one, if any has. -/
theorem nearest_project_file_is_found (isFile : Path → Bool) {cwd : Location} (hcwd : ∀ n ∈ cwd, IsName n) :
    (∀ r, Climbs isFile cwd.path r ↔ r = findProjectFile isFile cwd) ∧
      (∀ p, findProjectFile isFile cwd = some p ↔ ∃ dir, IsNearest isFile cwd dir ∧ p = candidate dir) ∧
      (findProjectFile isFile cwd = none ↔ ∀ dir, dir <+: cwd → isFile (candidate dir) = false) ∧
      ∀ below, (∀ n ∈ below, IsName n) →
        (findProjectFile isFile (cwd ++ below) = findProjectFile isFile cwd ↔
          ∀ l, l ≠ [] → l <+: below → isFile (candidate (cwd ++ l)) = false) := by
  have hclimbs := climbs_findProjectFile isFile hcwd
  refine ⟨?_, fun p => findProjectFile_eq_some_iff, findProjectFile_eq_none_iff, ?_⟩
  · intro r
    constructor
    · exact fun h => h.unique hclimbs
    · rintro rfl
      exact hclimbs
  · intro below hbelow
    constructor
    · intro heq l hne hl
      by_contra hfile
      exact findProjectFile_append_ne hcwd hbelow hne hl (by simpa using hfile) heq
    · exact findProjectFile_append

/-- The root is searched too, and from all directories below where nothing is in between. -/
theorem project_file_at_root_is_found :
    let isFile (p : Path) := p == ⟨"/yamlc.toml"⟩
    findProjectFile isFile [['p']] = some ⟨"/yamlc.toml"⟩ ∧
      findProjectFile isFile ([['p']] ++ [['q'], ['r']]) = findProjectFile isFile [['p']] := by
  intro isFile
  obtain ⟨-, hfound, -, hbelow⟩ := nearest_project_file_is_found isFile (show ∀ n ∈ [['p']], IsName n by decide)
  constructor
  · refine (hfound _).mpr ⟨[], ⟨List.nil_prefix, by decide +kernel, ?_⟩, by decide +kernel⟩
    have hdeepest : ∀ l ∈ [['p']].inits, isFile (candidate l) = true → l.length ≤ 0 := by decide +kernel
    exact fun l hl => hdeepest l ((List.mem_inits l _).mpr hl)
  · refine (hbelow _ (by decide)).mpr ?_
    have hnone : ∀ l ∈ [['q'], ['r']].inits, l ≠ [] → isFile (candidate ([['p']] ++ l)) = false := by decide +kernel
    exact fun l hne hl => hnone l ((List.mem_inits l _).mpr hl) hne

end Config

end YamlInclude
