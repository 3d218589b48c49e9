import YamlInclude.Include.Target
import YamlInclude.Proofs.FileName
import YamlInclude.Proofs.Folding

/-! # Canonical targets

The target of a reference is a normal path with a YAML extension in it, and it is the same for all spellings of a
reference. Whether a reference without an extension gets one depends on the directory of the including file too: an
extension anywhere in the names of its directories counts.
-/

namespace YamlInclude

namespace Path

variable {p q : Path} {n : Name} {names : List Name} {l : Location} {cs ds : List Char}

/-! ## Normal paths -/

theorem IsBelowRoot.isNormal (h : p.IsBelowRoot) : p.IsNormal := by
  obtain ⟨l, -, hl, hp⟩ := h
  exact ⟨l, hl, hp⟩

theorem IsNormal.normalize (h : p.IsNormal) : p.normalize = p := by
  obtain ⟨l, hl, rfl⟩ := h
  by_cases hnil : l = []
  · subst hnil
    rfl
  · have hfolded := folded_path hl
    rw [normalize_of_folded (by rwa [hfolded]), hfolded, isAbsolute_path]
    rfl

theorem normalize_join_names (hp : p.normalize = l.path) (h : ∀ n ∈ l, IsName n) (hq : q.isAbsolute = false)
    (hnames : ∀ n ∈ names, IsName n) (hbody : q.body = names) (hne : names ≠ []) :
    (p.join q).normalize = Location.path (l ++ names) := by
  have habs : (p.join q).isAbsolute = true := by
    rw [isAbsolute_join_of_relative hq, ← isAbsolute_normalize, hp, isAbsolute_path]
  have hfolded : (p.join q).folded = l ++ names := by
    rw [folded_join hq, hbody, foldl_foldSegment_of_isName hnames, ← folded_normalize, hp, folded_path h]
    simp
  rw [normalize_of_folded (by simp [hfolded, hne]), habs, hfolded]
  rfl

/-! ## The directory of a file -/

theorem exists_parent (h : p.fileName? = some n) : ∃ d, p.parent? = some d := by
  obtain ⟨q, voids, htrailed⟩ := exists_trailed h
  rw [parent?, htrailed.body, trimmedBody_append_void _ htrailed.isName.not_isVoid htrailed.void]
  split
  next hnil => exact absurd hnil (by simp)
  · exact ⟨_, rfl⟩

theorem isAbsolute_parent (habs : p.isAbsolute = true) (h : p.parent? = some q) : q.isAbsolute = true := by
  unfold parent? at h
  rw [habs] at h
  split at h
  · cases h
  · rw [← Option.some.inj h]
    simp [ofSegments, isAbsolute]

/-! ## Extensions -/

theorem isPrefixOf_append_cons {w : List Char} {c : Char} (h : c ∉ w) :
    w.isPrefixOf (cs ++ c :: ds) = w.isPrefixOf cs := by
  induction w generalizing cs with
  | nil => simp
  | cons a w ih =>
    obtain ⟨ha, hw⟩ := List.ne_and_not_mem_of_not_mem_cons h
    cases cs with
    | nil => simp [List.isPrefixOf_cons_cons, Ne.symm ha]
    | cons d cs => simp only [List.cons_append, List.isPrefixOf_cons_cons, ih hw]

theorem startsYaml_append_slash : startsYaml (cs ++ '/' :: ds) = startsYaml cs := by
  have hlower : lower (cs ++ '/' :: ds) = lower cs ++ '/' :: lower ds := by simp [lower]
  rw [startsYaml, startsYaml, hlower, isPrefixOf_append_cons (by decide), isPrefixOf_append_cons (by decide)]

theorem mentionsYaml_append_slash : mentionsYaml (cs ++ '/' :: ds) = (mentionsYaml cs || mentionsYaml ds) := by
  induction cs with
  | nil =>
    calc mentionsYaml ('/' :: ds) = (startsYaml ([] ++ '/' :: ds) || mentionsYaml ds) := rfl
      _ = (mentionsYaml [] || mentionsYaml ds) := by rw [startsYaml_append_slash]; rfl
  | cons c cs ih =>
    calc mentionsYaml (c :: (cs ++ '/' :: ds))
        = (startsYaml (c :: cs ++ '/' :: ds) || mentionsYaml (cs ++ '/' :: ds)) := rfl
      _ = (startsYaml (c :: cs) || (mentionsYaml cs || mentionsYaml ds)) := by rw [startsYaml_append_slash, ih]
      _ = (mentionsYaml (c :: cs) || mentionsYaml ds) := (Bool.or_assoc ..).symm

theorem mentionsYaml_append_right (cs : List Char) (h : mentionsYaml ds = true) : mentionsYaml (cs ++ ds) = true := by
  induction cs with
  | nil => exact h
  | cons c cs ih => rw [List.cons_append, mentionsYaml, ih, Bool.or_true]

theorem mentionsYaml_joinChar (segments : List Name) :
    mentionsYaml (joinChar '/' segments) = segments.any mentionsYaml := by
  induction segments with
  | nil => rfl
  | cons s segments ih =>
    cases segments with
    | nil => simp [joinChar]
    | cons t segments =>
      rw [List.any_cons, ← ih]
      exact mentionsYaml_append_slash

theorem hasYamlExtension_path (l : Location) : l.path.hasYamlExtension = l.any mentionsYaml := by
  have hchars : l.path.chars = [] ++ '/' :: joinChar '/' l := by simp [Location.path, ofSegments]
  rw [hasYamlExtension, hchars, mentionsYaml_append_slash, mentionsYaml_joinChar]
  rfl

theorem hasYamlExtension_append {suffix : List Char} (h : mentionsYaml suffix = true) :
    (p.append suffix).hasYamlExtension = true := by
  rw [hasYamlExtension, append, chars_ofChars]
  exact mentionsYaml_append_right _ h

end Path

namespace Target

open YamlInclude.Path

variable {from_ root dir : Path} {c d r : String} {names : List Name} {isFile : Path → Bool}

/-! ## Where references are looked up -/

def isRooted (component : String) : Bool := component.toList.head?.any isSeparator

def lookedUp (component : String) : Path := .ofChars (component.toList.dropWhile isSeparator)

theorem isAbsolute_lookedUp (c : String) : (lookedUp c).isAbsolute = false := by
  have hhead := List.head?_dropWhile_not isSeparator c.toList
  rw [lookedUp, isAbsolute, chars_ofChars]
  cases h : (c.toList.dropWhile isSeparator).head? with
  | none => rfl
  | some x =>
    rw [h] at hhead
    have hx : x ≠ '/' := by
      rintro rfl
      exact Bool.noConfusion (hhead : isSeparator '/' = false)
    simpa using hx

theorem lookedUp_of_unrooted (h : isRooted c = false) : lookedUp c = ⟨c⟩ := by
  have hdrop : c.toList.dropWhile isSeparator = c.toList := by
    unfold isRooted at h
    cases hc : c.toList with
    | nil => rfl
    | cons x cs =>
      rw [hc] at h
      have hx : isSeparator x = false := h
      rw [List.dropWhile_cons, hx, if_neg Bool.false_ne_true]
  rw [lookedUp, hdrop]
  exact ofChars_chars _

theorem located_eq (c : String) (from_ root : Path) :
    located c from_ root = (if isRooted c then root else from_.parent?.getD ⟨""⟩).join (lookedUp c) := by
  unfold located
  dsimp only
  cases h : isRooted c with
  | true =>
    rw [isRooted] at h
    rw [if_pos h, if_pos rfl, lookedUp]
  | false =>
    rw [lookedUp_of_unrooted h]
    rw [isRooted] at h
    rw [h, if_neg Bool.false_ne_true, if_neg Bool.false_ne_true]

theorem isAbsolute_located {n : Name} (hfrom : from_.isAbsolute = true) (hname : from_.fileName? = some n)
    (hroot : root.isAbsolute = true) (c : String) : (located c from_ root).isAbsolute = true := by
  obtain ⟨dir, hdir⟩ := exists_parent hname
  rw [located_eq, hdir]
  split
  · exact isAbsolute_join hroot
  · exact isAbsolute_join (isAbsolute_parent hfrom hdir)

/-! ## Spellings -/

/-- Whether two references are looked up in one directory and name one path there, as their dots are folded. -/
def Respells (c d : String) : Prop := isRooted c = isRooted d ∧ (lookedUp c).normalize = (lookedUp d).normalize

instance (c d : String) : Decidable (Respells c d) := inferInstanceAs (Decidable (_ ∧ _))

theorem Respells.normalize_located (h : Respells c d) (from_ root : Path) :
    (located c from_ root).normalize = (located d from_ root).normalize := by
  rw [located_eq, located_eq, h.1, normalize_join (isAbsolute_lookedUp c), normalize_join (isAbsolute_lookedUp d), h.2]

theorem isNormal_resolve (h : (located c from_ root).isAbsolute = true) (isFile : Path → Bool) :
    (resolve c from_ root isFile).IsNormal := by
  have hnormal := isNormal_normalize h
  unfold resolve
  dsimp only
  split
  · exact hnormal
  split
  · exact (isBelowRoot_append hnormal (by decide) ⟨'y', by decide, by decide⟩).isNormal
  · exact (isBelowRoot_append hnormal (by decide) ⟨'y', by decide, by decide⟩).isNormal

theorem hasYamlExtension_resolve (c : String) (from_ root : Path) (isFile : Path → Bool) :
    (resolve c from_ root isFile).hasYamlExtension = true := by
  unfold resolve
  dsimp only
  split
  · assumption
  split
  · exact hasYamlExtension_append (by decide)
  · exact hasYamlExtension_append (by decide)

/-- Targets are normal paths with a YAML extension, and all spellings of a reference have one target. -/
theorem targets_are_canonical {from_ root : Path} {n : Name} (hfrom : from_.isAbsolute = true)
    (hname : from_.fileName? = some n) (hroot : root.isAbsolute = true) (isFile : Path → Bool) :
    (∀ c, let p := resolve c from_ root isFile
      p.isAbsolute = true ∧ p.IsNormal ∧ p.normalize = p ∧ p.hasYamlExtension = true) ∧
    ∀ c d, Respells c d → resolve c from_ root isFile = resolve d from_ root isFile := by
  constructor
  · intro c p
    have hnormal : p.IsNormal := isNormal_resolve (isAbsolute_located hfrom hname hroot c) isFile
    refine ⟨?_, hnormal, hnormal.normalize, hasYamlExtension_resolve c from_ root isFile⟩
    obtain ⟨l, -, hl⟩ := hnormal
    rw [hl]
    exact isAbsolute_path l
  · intro c d h
    unfold resolve
    rw [h.normalize_located]

/-- Steps to and fro, single dots and separators of either kind make no difference. -/
theorem respelled_reference_has_one_target :
    let isFile (p : Path) := p == ⟨"/p/x.yml"⟩
    Respells "./sub//../../x" "../x" ∧ Respells "\\/x/." "/x" ∧
      resolve "./sub//../../x" ⟨"/p/d/a.yml"⟩ ⟨"/p"⟩ isFile = resolve "../x" ⟨"/p/d/a.yml"⟩ ⟨"/p"⟩ isFile ∧
      resolve "\\/x/." ⟨"/p/d/a.yml"⟩ ⟨"/p"⟩ isFile = resolve "/x" ⟨"/p/d/a.yml"⟩ ⟨"/p"⟩ isFile ∧
      (resolve "../x" ⟨"/p/d/a.yml"⟩ ⟨"/p"⟩ isFile).normalize = ⟨"/p/x.yml"⟩ := by
  intro isFile
  have hfile : (⟨"/p/d/a.yml"⟩ : Path).fileName? = some ['a', '.', 'y', 'm', 'l'] := by decide +kernel
  obtain ⟨hcanonical, hrespelled⟩ :=
    targets_are_canonical (by decide +kernel) hfile (show (⟨"/p"⟩ : Path).isAbsolute = true by decide +kernel) isFile
  have hrelative : Respells "./sub//../../x" "../x" := by decide +kernel
  have hrooted : Respells "\\/x/." "/x" := by decide +kernel
  refine ⟨hrelative, hrooted, hrespelled _ _ hrelative, hrespelled _ _ hrooted, ?_⟩
  obtain ⟨-, -, hnormal, -⟩ := hcanonical "../x"
  rw [hnormal]
  decide +kernel

/-! ## References without an extension -/

/-- A reference of names with single slashes between them and without a YAML extension. -/
structure IsPlain (r : String) (names : List Name) : Prop where
  text : r.toList = joinChar '/' names
  nonempty : names ≠ []
  isName : ∀ n ∈ names, IsName n
  unrooted : isRooted r = false
  bare : mentionsYaml r.toList = false

theorem IsPlain.body (h : IsPlain r names) : (⟨r⟩ : Path).body = names := by
  have hnames : ∀ n ∈ names, '/' ∉ n ∧ isVoid n = false := fun n hn =>
    ⟨(h.isName n hn).noSlash, (h.isName n hn).not_isVoid⟩
  have hpath : (⟨r⟩ : Path) = ofSegments false names :=
    eq_of_chars (h.text.trans (chars_ofChars _).symm)
  rw [hpath, body_ofSegments false h.nonempty hnames]

theorem IsPlain.isAbsolute (h : IsPlain r names) : (⟨r⟩ : Path).isAbsolute = false := by
  rw [← lookedUp_of_unrooted h.unrooted]
  exact isAbsolute_lookedUp r

theorem hasYamlExtension_join (hdir : dir.isAbsolute = true) (h : IsPlain r names) :
    (dir.join ⟨r⟩).normalize.hasYamlExtension = dir.normalize.hasYamlExtension := by
  obtain ⟨l, hl, hnormal⟩ := isNormal_normalize hdir
  have hbare : names.any mentionsYaml = false := by
    rw [← mentionsYaml_joinChar, ← h.text, h.bare]
  rw [normalize_join_names hnormal hl h.isAbsolute h.isName h.body h.nonempty, hnormal, hasYamlExtension_path,
    hasYamlExtension_path, List.any_append, hbare, Bool.or_false]

/-- A reference without an extension gets one, `.yml` if there is such a file, unless an extension is in the path of
the directory that it is looked up in. Then it gets none. -/
theorem resolve_of_isPlain {from_ dir : Path} {r : String} {names : List Name} (hfrom : from_.isAbsolute = true)
    (hdir : from_.parent? = some dir) (h : IsPlain r names) (root : Path) (isFile : Path → Bool) :
    let p := (dir.join ⟨r⟩).normalize
    let yml := p.append ['.', 'y', 'm', 'l']
    resolve r from_ root isFile =
      if dir.normalize.hasYamlExtension then p
      else if isFile yml then yml else p.append ['.', 'y', 'a', 'm', 'l'] := by
  intro p yml
  have hlocated : located r from_ root = dir.join ⟨r⟩ := by
    rw [located_eq, h.unrooted, if_neg Bool.false_ne_true, hdir, lookedUp_of_unrooted h.unrooted]
    rfl
  rw [resolve, hlocated, hasYamlExtension_join (isAbsolute_parent hfrom hdir) h]

theorem plain_reference_gets_extension :
    let isFile := (FileSet.mk [(⟨"/p/yml/parts/db.yml"⟩, "")]).source.isFile
    (⟨"/p/yml/a.yml"⟩ : Path).parent? = some ⟨"/p/yml"⟩ ∧ IsPlain "parts/db" [['p', 'a', 'r', 't', 's'], ['d', 'b']] ∧
      resolve "parts/db" ⟨"/p/yml/a.yml"⟩ ⟨"/"⟩ isFile = ⟨"/p/yml/parts/db.yml"⟩ := by
  intro isFile
  have hdir : (⟨"/p/yml/a.yml"⟩ : Path).parent? = some ⟨"/p/yml"⟩ := by decide +kernel
  have hplain : IsPlain "parts/db" [['p', 'a', 'r', 't', 's'], ['d', 'b']] :=
    ⟨by decide +kernel, by decide, by decide, by decide +kernel, by decide +kernel⟩
  refine ⟨hdir, hplain, ?_⟩
  rw [resolve_of_isPlain (by decide +kernel) hdir hplain]
  decide +kernel

/-- Below a directory with an extension in its name a reference gets none, so the file that it means is not found. -/
theorem plain_reference_gets_no_extension :
    let isFile := (FileSet.mk [(⟨"/p/my.yaml.d/x.yml"⟩, "")]).source.isFile
    let yml := ((⟨"/p/my.yaml.d"⟩ : Path).join ⟨"x"⟩).normalize.append ['.', 'y', 'm', 'l']
    (⟨"/p/my.yaml.d/a.yml"⟩ : Path).isAbsolute = true ∧
      (⟨"/p/my.yaml.d/a.yml"⟩ : Path).parent? = some ⟨"/p/my.yaml.d"⟩ ∧ IsPlain "x" [['x']] ∧ isFile yml = true ∧
      resolve "x" ⟨"/p/my.yaml.d/a.yml"⟩ ⟨"/"⟩ isFile ≠ yml := by
  intro isFile yml
  have hplain : IsPlain "x" [['x']] :=
    ⟨by decide +kernel, by decide, by decide, by decide +kernel, by decide +kernel⟩
  refine ⟨?_, ?_, hplain, ?_, ?_⟩ <;> decide +kernel

end Target

end YamlInclude
