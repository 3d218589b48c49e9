import YamlInclude.Proofs.Folding
import YamlInclude.Proofs.JsonPath

/-! # Mirrored files

What is kept of a source is joined to the output directory as it is. So its JSON file is below that directory exactly
if the path that is kept leads from there to names only: an absolute path takes the place of the directory, steps up
leave it, and the JSON path of a name that is only a dot and an extension is a step up.
-/

namespace YamlInclude

namespace Path

variable {p q dir : Path} {absolute : Bool} {n : Name} {names done voids : List Name}

/-! ## Paths below a directory -/

/-- Whether the normal form of a path is that of a directory with names behind it. -/
def IsBelow (p dir : Path) : Prop :=
  ∃ names, names ≠ [] ∧ (∀ n ∈ names, IsName n) ∧ p.normalize = (dir.descend names).normalize

theorem folded_descend (h : ∀ n ∈ names, IsName n) : (p.descend names).folded = p.folded ++ names := by
  by_cases hne : names = []
  · subst hne
    simp [descend]
  · rw [folded, isAbsolute_descend h, body_descend h hne, foldSegments, List.foldl_append, foldl_lead,
      foldl_foldSegment_of_isName h, List.reverse_append, List.reverse_reverse]
    rfl

theorem isBelow_iff : p.IsBelow dir ↔ p.isAbsolute = dir.isAbsolute ∧
    ∃ names, names ≠ [] ∧ (∀ n ∈ names, IsName n) ∧ p.folded = dir.folded ++ names := by
  constructor
  · rintro ⟨names, hne, hnames, heq⟩
    obtain ⟨habs, hfold⟩ := normalize_eq_iff.mp heq
    exact ⟨habs.trans (isAbsolute_descend hnames), names, hne, hnames, hfold.trans (folded_descend hnames)⟩
  · rintro ⟨habs, names, hne, hnames, hfold⟩
    refine ⟨names, hne, hnames, normalize_eq_iff.mpr ⟨?_, ?_⟩⟩
    · rw [habs, isAbsolute_descend hnames]
    · rw [hfold, folded_descend hnames]

instance (p dir : Path) : Decidable (p.IsBelow dir) :=
  decidable_of_iff (p.isAbsolute = dir.isAbsolute ∧ p.folded.drop dir.folded.length ≠ [] ∧
      (∀ n ∈ p.folded.drop dir.folded.length, IsName n) ∧
      p.folded = dir.folded ++ p.folded.drop dir.folded.length) <| by
    rw [isBelow_iff]
    constructor
    · rintro ⟨habs, hne, hnames, hfold⟩
      exact ⟨habs, _, hne, hnames, hfold⟩
    · rintro ⟨habs, names, hne, hnames, hfold⟩
      have hdrop : p.folded.drop dir.folded.length = names := by rw [hfold, List.drop_left]
      rw [hdrop]
      exact ⟨habs, hne, hnames, hfold⟩

/-- Whether a path leads from a directory to names below it: with its dots folded it is names, or it is steps up and
then the names that they leave and more names. Where the directory is below the root, there may be more steps up than
that lead to the root. -/
def LeadsBelow (q dir : Path) : Prop :=
  ∃ ups back more, q.folded = List.replicate ups ['.', '.'] ++ back ++ more ∧ (∀ n ∈ back ++ more, IsName n) ∧
    more ≠ [] ∧ (back.length = ups ∧ back <:+ dir.folded ∨
      dir.isAbsolute = true ∧ back = dir.folded ∧ back.length ≤ ups)

/-! ## Joined paths -/

theorem replicate_up_append_inj {ups ups' : Nat} {names names' : List Name} (hnames : ∀ n ∈ names, IsName n)
    (hnames' : ∀ n ∈ names', IsName n) :
    List.replicate ups ['.', '.'] ++ names = List.replicate ups' ['.', '.'] ++ names' ↔
      ups = ups' ∧ names = names' := by
  have hnone {names : List Name} (h : ∀ n ∈ names, IsName n) : ['.', '.'] ∉ names := fun hup => (h _ hup).ne_parent rfl
  exact replicate_append_inj (hnone hnames) (hnone hnames')

theorem suffix_replicate_up_append_iff {ups : Nat} {back : List Name} (hback : ∀ n ∈ back, IsName n) :
    back <:+ List.replicate ups ['.', '.'] ++ names ↔ back <:+ names := by
  constructor
  · intro h
    obtain hsuffix | ⟨pre, rfl⟩ := List.suffix_or_suffix_of_suffix h (List.suffix_append _ names)
    · exact hsuffix
    · -- steps up before the names would be names
      obtain ⟨rest, hrest⟩ := h
      rw [← List.append_assoc, List.append_cancel_right_eq] at hrest
      have hpre : pre = [] := by
        refine List.eq_nil_iff_forall_not_mem.mpr fun n hn => ?_
        have hup : n ∈ List.replicate ups ['.', '.'] := hrest ▸ List.mem_append_right rest hn
        exact (hback n (List.mem_append_left _ hn)).ne_parent (List.eq_of_mem_replicate hup)
      rw [hpre, List.nil_append]
  · exact fun h => h.trans (List.suffix_append _ names)

theorem foldl_replicate_up_folded {ups up : Nat} (hnames : ∀ n ∈ names, IsName n) (hroot : absolute = true → ups = 0) :
    ((List.replicate up ['.', '.']).foldl (foldSegment absolute)
        (List.replicate ups ['.', '.'] ++ names).reverse).reverse =
      if up ≤ names.length then List.replicate ups ['.', '.'] ++ names.take (names.length - up)
      else List.replicate (if absolute then 0 else ups + (up - names.length)) ['.', '.'] := by
  have hne : ∀ n ∈ names.reverse, n ≠ ['.', '.'] := fun n hn => (hnames n (List.mem_reverse.mp hn)).ne_parent
  rw [List.reverse_append, List.reverse_replicate]
  split
  next hle =>
    rw [foldl_replicate_up hne (by simpa using hle), List.reverse_append, List.reverse_replicate, List.drop_reverse,
      List.reverse_reverse]
  next hgt =>
    have hcut : up = names.reverse.length + (up - names.length) := by
      rw [List.length_reverse]
      omega
    rw [hcut, List.replicate_add, List.foldl_append, foldl_replicate_up hne (Nat.le_refl _), List.drop_length,
      List.nil_append, foldl_replicate_up_start _ _ _ hroot, List.reverse_replicate]
    simp

theorem leadsBelow_iff {ups up : Nat} {names ds : List Name} (hq : q.folded = List.replicate up ['.', '.'] ++ names)
    (hnames : ∀ n ∈ names, IsName n) (hdir : dir.folded = List.replicate ups ['.', '.'] ++ ds)
    (hroot : dir.isAbsolute = true → ups = 0) :
    q.LeadsBelow dir ↔ ∃ back more, names = back ++ more ∧ more ≠ [] ∧
      (back.length = up ∧ back <:+ ds ∨ dir.isAbsolute = true ∧ back = ds ∧ back.length ≤ up) := by
  have hwhole (back : List Name) (habs : dir.isAbsolute = true) : back = dir.folded ↔ back = ds := by
    rw [hdir, hroot habs, List.replicate_zero, List.nil_append]
  constructor
  · rintro ⟨up', back, more, hfolded, hall, hne, h⟩
    rw [hq, List.append_assoc, replicate_up_append_inj hnames hall] at hfolded
    obtain ⟨rfl, rfl⟩ := hfolded
    refine ⟨back, more, rfl, hne, ?_⟩
    have hback : ∀ n ∈ back, IsName n := fun n hn => hall n (List.mem_append_left _ hn)
    obtain ⟨hlength, hsuffix⟩ | ⟨habs, hback', hlength⟩ := h
    · rw [hdir, suffix_replicate_up_append_iff hback] at hsuffix
      exact Or.inl ⟨hlength, hsuffix⟩
    · exact Or.inr ⟨habs, (hwhole back habs).mp hback', hlength⟩
  · rintro ⟨back, more, rfl, hne, h⟩
    refine ⟨up, back, more, by rw [hq, List.append_assoc], hnames, hne, ?_⟩
    have hback : ∀ n ∈ back, IsName n := fun n hn => hnames n (List.mem_append_left _ hn)
    obtain ⟨hlength, hsuffix⟩ | ⟨habs, hback', hlength⟩ := h
    · exact Or.inl ⟨hlength, hdir ▸ (suffix_replicate_up_append_iff hback).mpr hsuffix⟩
    · exact Or.inr ⟨habs, (hwhole back habs).mpr hback', hlength⟩

theorem take_append_eq_iff {α : Type} {up : Nat} {xs ys more : List α} (h : up ≤ xs.length) :
    xs.take (xs.length - up) ++ ys = xs ++ more ↔ ∃ back, ys = back ++ more ∧ back.length = up ∧ back <:+ xs := by
  constructor
  · intro heq
    refine ⟨xs.drop (xs.length - up), ?_, ?_, List.drop_suffix _ _⟩
    · rw [← List.append_cancel_left_eq (xs.take (xs.length - up)), heq, ← List.append_assoc, List.take_append_drop]
    · rw [List.length_drop]
      omega
  · rintro ⟨back, rfl, hlength, pre, rfl⟩
    rw [List.length_append, hlength, Nat.add_sub_cancel, List.take_left, List.append_assoc]

/-- A path is below a directory that it is joined to exactly if it leads from there to names below it. -/
theorem isBelow_join_iff (hq : q.isAbsolute = false) : (dir.join q).IsBelow dir ↔ q.LeadsBelow dir := by
  obtain ⟨ups, ds, hdir, hds, hroot⟩ := exists_folded_eq dir
  obtain ⟨up, names, hfolded, hnames, -⟩ := exists_folded_eq q
  have hjoin : (dir.join q).folded =
      (if up ≤ ds.length then List.replicate ups ['.', '.'] ++ ds.take (ds.length - up)
        else List.replicate (if dir.isAbsolute then 0 else ups + (up - ds.length)) ['.', '.']) ++ names := by
    rw [folded_join hq, ← foldl_folded (by simp [hq]), hfolded, List.foldl_append, foldl_foldSegment_of_isName hnames,
      List.reverse_append, List.reverse_reverse, hdir, foldl_replicate_up_folded hds hroot]
  rw [isBelow_iff, leadsBelow_iff hfolded hnames hdir hroot, isAbsolute_join_of_relative hq, hjoin, hdir]
  simp only [true_and]
  constructor
  · rintro ⟨more, hne, hmore, heq⟩
    by_cases hle : up ≤ ds.length
    · rw [if_pos hle, List.append_assoc, List.append_assoc, List.append_cancel_left_eq, take_append_eq_iff hle] at heq
      obtain ⟨back, hback, hlength, hsuffix⟩ := heq
      exact ⟨back, more, hback, hne, Or.inl ⟨hlength, hsuffix⟩⟩
    · have hall : ∀ n ∈ ds ++ more, IsName n := fun n hn => (List.mem_append.mp hn).elim (hds n) (hmore n)
      rw [if_neg hle, List.append_assoc, replicate_up_append_inj hnames hall] at heq
      obtain ⟨hups, rfl⟩ := heq
      cases habs : dir.isAbsolute with
      | true => exact ⟨ds, more, rfl, hne, Or.inr ⟨rfl, rfl, by omega⟩⟩
      | false =>
        -- a relative path that steps up out of the names leaves the directory
        rw [habs, if_neg Bool.false_ne_true] at hups
        omega
  · rintro ⟨back, more, rfl, hne, h⟩
    refine ⟨more, hne, fun n hn => hnames n (List.mem_append_right _ hn), ?_⟩
    obtain ⟨hlength, hsuffix⟩ | ⟨habs, rfl, hlength⟩ := h
    · have hle : up ≤ ds.length := hlength ▸ hsuffix.length_le
      rw [if_pos hle, List.append_assoc, List.append_assoc, List.append_cancel_left_eq, take_append_eq_iff hle]
      exact ⟨back, rfl, hlength, hsuffix⟩
    · split
      · rw [Nat.sub_eq_zero_of_le hlength, List.take_zero, List.append_nil, List.append_assoc]
      · rw [hroot habs, List.append_assoc]

/-! ## File names of joined paths -/

def componentName? : Component → Option Name
  | .name n => some n
  | _ => none

theorem fileName?_eq (p : Path) : p.fileName? = (componentsOf p.body).getLast?.bind componentName? := by
  have hprefix (c : Component) (hc : componentName? c = none) (cs : List Component) :
      (c :: cs).getLast?.bind componentName? = cs.getLast?.bind componentName? := by
    rcases List.eq_nil_or_concat' cs with rfl | ⟨cs, d, rfl⟩
    · exact hc
    · rw [List.getLast?_concat, ← List.cons_append, List.getLast?_concat]
  have hlast : p.fileName? = p.components.getLast?.bind componentName? := by
    unfold Path.fileName?
    rcases p.components.getLast? with _ | c
    · rfl
    · cases c <;> rfl
  rw [hlast, components_eq_body]
  unfold componentsWith
  split
  · exact hprefix _ rfl _
  · split
    next rest hbody =>
      rw [hbody]
      exact hprefix _ rfl _
    · rfl

theorem componentsOf_lead (p : Path) : componentsOf p.lead = componentsOf p.body := by
  cases hopen : p.isOpen with
  | false => rw [lead, hopen, if_neg Bool.false_ne_true]
  | true => simp [body_of_isOpen hopen, componentsOf, componentOf?, isVoid]

/-- Whether a path has void segments only. -/
def isBlank (p : Path) : Bool := p.body.all isVoid

theorem componentsOf_eq_nil_iff : componentsOf p.body = [] ↔ p.isBlank = true := by
  rw [componentsOf, List.filterMap_eq_nil_iff, isBlank, List.all_eq_true]
  refine forall₂_congr fun s _ => ?_
  unfold componentOf?
  split
  · simp_all
  · split <;> simp_all

theorem fileName?_join (hq : q.isAbsolute = false) :
    (dir.join q).fileName? = if q.isBlank then dir.fileName? else q.fileName? := by
  rw [fileName?_eq, body_join hq, componentsOf_append, componentsOf_lead, fileName?_eq, fileName?_eq q]
  cases hblank : q.isBlank with
  | true => rw [componentsOf_eq_nil_iff.mpr hblank, List.append_nil, if_pos rfl]
  | false =>
    obtain hnil | ⟨cs, c, hcs⟩ := List.eq_nil_or_concat' (componentsOf q.body)
    · simp [componentsOf_eq_nil_iff.mp hnil] at hblank
    · rw [hcs, ← List.append_assoc, List.getLast?_concat, List.getLast?_concat, if_neg Bool.false_ne_true]

/-! ## JSON paths of joined paths -/

theorem append_join (hq : q.isAbsolute = false) {suffix : List Char} (hslash : '/' ∉ suffix) :
    (dir.join q).append suffix = dir.join (q.append suffix) := by
  have hrelative : (q.append suffix).isAbsolute = false := by
    rw [isAbsolute, append, chars_ofChars]
    cases hchars : q.chars with
    | nil => simpa [isAbsolute] using isAbsolute_ofChars hslash
    | cons c cs => simpa [isAbsolute, hchars] using hq
  refine eq_of_chars ?_
  rw [append, chars_ofChars, chars_join hq, chars_join hrelative, append, chars_ofChars]
  split <;> simp

theorem Trailed.join (h : Trailed p q n voids) (hp : p.isAbsolute = false) (dir : Path) :
    ∃ q' : Path, Trailed (dir.join p) q' n voids ∧ ∀ m, '/' ∉ m → q'.child m = dir.join (q.child m) := by
  have hq : q.isAbsolute = false := by rw [← h.isAbsolute, hp]
  obtain ⟨q', hchild⟩ : ∃ q' : Path, ∀ m, '/' ∉ m → q'.child m = dir.join (q.child m) := by
    by_cases hnil : q.chars = []
    · refine ⟨dir, fun m hm => ?_⟩
      have hm' : q.child m = ofChars m := eq_of_chars (by rw [chars_child hm, hnil]; simp [isOpen, hnil])
      rw [hm']
      rfl
    · exact ⟨dir.join q, fun m hm => (join_child hq hnil hm).symm⟩
  refine ⟨q', ⟨h.isName, h.void, ?_⟩, hchild⟩
  rw [hchild n h.isName.noSlash, chars_join hp, chars_join ((isAbsolute_child h.isName.noSlash).trans hq), h.chars]
  split <;> simp

theorem Trailed.folded (h : Trailed p q n voids) : p.folded = q.folded ++ [n] := by
  rw [Path.folded, h.isAbsolute, h.body, foldSegments, List.foldl_append, List.foldl_cons, foldl_lead,
    foldSegment_of_isName h.isName, foldl_foldSegment_of_isVoid h.void, List.reverse_cons]
  rfl

theorem isAbsolute_jsonPath (p : Path) : p.jsonPath.isAbsolute = p.isAbsolute := by
  cases hsmall : p.fileName?.any hasSmallExtension with
  | false =>
    rw [jsonPath_of_not_small hsmall, isAbsolute, isAbsolute, append, chars_ofChars]
    cases hchars : p.chars <;> rfl
  | true =>
    obtain ⟨n, hname, hsmall⟩ := (Option.any_eq_true _ _).mp hsmall
    obtain ⟨q, voids, htrailed⟩ := exists_trailed hname
    rw [htrailed.jsonPath_of_small hsmall, isAbsolute_child (noSlash_swappedName htrailed.isName _),
      htrailed.isAbsolute]

/-- The JSON path of what is joined to a directory is joined to it too, unless that is nothing and the directory itself
has the extension. -/
theorem jsonPath_join (hq : q.isAbsolute = false)
    (h : q.isBlank = true → dir.fileName?.any hasSmallExtension = false) :
    (dir.join q).jsonPath = dir.join q.jsonPath := by
  have happend (hnone : (dir.join q).fileName?.any hasSmallExtension = false)
      (hnone' : q.fileName?.any hasSmallExtension = false) : (dir.join q).jsonPath = dir.join q.jsonPath := by
    rw [jsonPath_of_not_small hnone, jsonPath_of_not_small hnone', append_join hq (by decide)]
  have hjoin : (dir.join q).fileName? = _ := fileName?_join hq
  cases hblank : q.isBlank with
  | true =>
    have hname : q.fileName? = none := by rw [fileName?_eq, componentsOf_eq_nil_iff.mpr hblank]; rfl
    rw [hblank, if_pos rfl] at hjoin
    exact happend (hjoin ▸ h hblank) (by rw [hname]; rfl)
  | false =>
    rw [hblank, if_neg Bool.false_ne_true] at hjoin
    cases hsmall : q.fileName?.any hasSmallExtension with
    | false => exact happend (hjoin ▸ hsmall) hsmall
    | true =>
      obtain ⟨n, hname, hsmall⟩ := (Option.any_eq_true _ _).mp hsmall
      obtain ⟨q₀, voids, htrailed⟩ := exists_trailed hname
      obtain ⟨q', htrailed', hchild⟩ := htrailed.join hq dir
      rw [htrailed.jsonPath_of_small hsmall, htrailed'.jsonPath_of_small hsmall, htrailed.lastSegment,
        htrailed'.lastSegment, hchild _ (noSlash_swappedName htrailed.isName _)]

/-- Where nothing is joined to a directory whose name has the extension, the JSON file is beside the directory. -/
theorem not_isBelow_jsonPath_join (hq : q.isAbsolute = false) (hblank : q.isBlank = true)
    (hsmall : dir.fileName?.any hasSmallExtension = true) : ¬(dir.join q).jsonPath.IsBelow dir := by
  obtain ⟨n, hname, hsmall⟩ := (Option.any_eq_true _ _).mp hsmall
  have hjoin : (dir.join q).fileName? = some n := by rw [fileName?_join hq, hblank, if_pos rfl, hname]
  obtain ⟨q', voids, htrailed⟩ := exists_trailed hjoin
  have hfolded : dir.folded = q'.folded ++ [n] := by
    rw [← htrailed.folded, folded_join hq, foldl_foldSegment_of_isVoid (List.all_eq_true.mp hblank),
      List.reverse_reverse]
  rw [isBelow_iff]
  rintro ⟨-, names, hne, -, heq⟩
  have hlength : (dir.join q).jsonPath.folded.length ≤ q'.folded.length + 1 := by
    have hstep := length_foldSegment_le q'.isAbsolute q'.folded.reverse (swappedName n (dir.join q).lastSegment)
    rwa [List.length_reverse, ← List.length_reverse, ← folded_child (noSlash_swappedName htrailed.isName _),
      ← htrailed.jsonPath_of_small hsmall] at hstep
  have hpos := List.length_pos_of_ne_nil hne
  rw [heq, hfolded] at hlength
  simp only [List.length_append, List.length_singleton] at hlength
  omega

end Path

namespace FilePair

open YamlInclude.Path

/-- Whether the JSON file of what is kept of a source is below an output directory. -/
def StaysIn (kept dir : Path) : Prop :=
  if kept.isAbsolute then kept.jsonPath.IsBelow dir
  else kept.jsonPath.LeadsBelow dir ∧ ¬(kept.isBlank = true ∧ dir.fileName?.any hasSmallExtension = true)

/-- The JSON file of a source is below the output directory exactly if what is kept of the source leads there. -/
theorem mirrored_file_below_iff (source base dir : Path) :
    (forSource source (some (base, dir))).written.IsBelow dir ↔ StaysIn (keptPart source base) dir := by
  change (dir.join (keptPart source base)).jsonPath.IsBelow dir ↔ _
  generalize keptPart source base = kept
  unfold StaysIn
  cases habs : kept.isAbsolute with
  | true => rw [Path.join, habs, if_pos rfl, if_pos rfl]
  | false =>
    rw [if_neg Bool.false_ne_true]
    by_cases houtside : kept.isBlank = true ∧ dir.fileName?.any hasSmallExtension = true
    · exact iff_of_false (not_isBelow_jsonPath_join habs houtside.1 houtside.2) fun h => h.2 houtside
    · have hjoin : (dir.join kept).jsonPath = dir.join kept.jsonPath :=
        jsonPath_join habs fun hblank => Bool.eq_false_iff.mpr fun hsmall => houtside ⟨hblank, hsmall⟩
      have hrelative : kept.jsonPath.isAbsolute = false := by rw [isAbsolute_jsonPath, habs]
      rw [hjoin, isBelow_join_iff hrelative, and_iff_left houtside]

/-- Steps up that lead back to the directory do not leave it. -/
example : (forSource ⟨"src/../dist/x.yml"⟩ (some (⟨"src"⟩, ⟨"dist"⟩))).written.IsBelow ⟨"dist"⟩ := by decide +kernel

/-- Steps up below the base, a name that is only a dot and an extension, an absolute path behind an empty base, and no
path at all behind a directory that has the extension. -/
theorem mirrored_file_leaves_directory :
    let written (source base dir : String) : Path := (forSource ⟨source⟩ (some (⟨base⟩, ⟨dir⟩))).written
    (written "src/../../x.yml" "src" "dist" = ⟨"dist/../../x.json"⟩ ∧
        ¬(written "src/../../x.yml" "src" "dist").IsBelow ⟨"dist"⟩) ∧
      (written "src/..yml" "src" "dist" = ⟨"dist/.."⟩ ∧ ¬(written "src/..yml" "src" "dist").IsBelow ⟨"dist"⟩) ∧
      (written "/src/x.yml" "" "dist" = ⟨"/src/x.json"⟩ ∧ ¬(written "/src/x.yml" "" "dist").IsBelow ⟨"dist"⟩) ∧
      written "" "src" "dist.yml" = ⟨"dist.json"⟩ ∧ ¬(written "" "src" "dist.yml").IsBelow ⟨"dist.yml"⟩ := by
  decide +kernel

end FilePair

end YamlInclude
