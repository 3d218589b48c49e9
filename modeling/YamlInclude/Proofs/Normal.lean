import YamlInclude.FileTree.Basic
import YamlInclude.Proofs.Below
import YamlInclude.Proofs.Consulted

/-! # Normal paths

A normal path is the root with names below it. Folding the dots of an absolute path makes it normal, so a load
that starts with one asks for normal paths only.
-/

namespace YamlInclude

namespace Path

variable {p q : Path} {n : Name} {l m : Location}

def IsNormal (p : Path) : Prop := ∃ l : Location, (∀ n ∈ l, IsName n) ∧ p = l.path

theorem location_path_eq (h : ∀ n ∈ l, IsName n) : l.path = (ofChars ['/']).descend l := by
  cases l with
  | nil => rfl
  | cons n l =>
    rw [← ofSegments_body ((ofChars ['/']).descend (n :: l)), isAbsolute_descend h,
      body_descend h (List.cons_ne_nil _ _)]
    rfl

theorem body_path (h : ∀ n ∈ l, IsName n) (hl : l ≠ []) : l.path.body = l := by
  rw [location_path_eq h, body_descend h hl]
  rfl

theorem isAbsolute_path (l : Location) : l.path.isAbsolute = true := by
  simp [Location.path, ofSegments, isAbsolute]

theorem path_child (hl : ∀ m ∈ l, IsName m) (hn : IsName n) : l.path.child n = Location.path (l ++ [n]) := by
  have hall : ∀ m ∈ l ++ [n], IsName m := by
    intro m hm
    rcases List.mem_append.mp hm with hm | hm
    · exact hl m hm
    · rwa [List.mem_singleton.mp hm]
  rw [location_path_eq hall, descend_concat, ← location_path_eq hl]

theorem isName_of_foldSegment {done : List Name} {s : Name} (hs : '/' ∉ s) (hdone : ∀ n ∈ done, IsName n) :
    ∀ n ∈ foldSegment true done s, IsName n := by
  unfold foldSegment
  split
  · exact hdone
  next hvoid =>
    split
    next hdots =>
      split
      next n rest =>
        have hn := hdone n List.mem_cons_self
        rw [if_neg hn.ne_parent]
        exact fun m hm => hdone m (List.mem_cons_of_mem _ hm)
      · simp
    next hdots =>
      intro n hn
      rcases List.mem_cons.mp hn with rfl | hn
      · exact ⟨hs, by rw [componentOf?, if_neg hvoid, if_neg hdots]⟩
      · exact hdone n hn

theorem isName_of_foldSegments {segments : List Name} (h : ∀ s ∈ segments, '/' ∉ s) :
    ∀ n ∈ foldSegments true segments, IsName n := by
  have hfold : ∀ (done : List Name), (∀ n ∈ done, IsName n) →
      ∀ n ∈ segments.foldl (foldSegment true) done, IsName n := by
    induction segments with
    | nil => exact fun _ hdone => hdone
    | cons s segments ih =>
      intro done hdone
      exact ih (fun s' hs' => h s' (List.mem_cons_of_mem _ hs')) _
        (isName_of_foldSegment (h s List.mem_cons_self) hdone)
  intro n hn
  exact hfold [] (by simp) n (List.mem_reverse.mp hn)

theorem isNormal_normalize (h : p.isAbsolute = true) : p.normalize.IsNormal := by
  refine ⟨foldSegments true p.body, isName_of_foldSegments fun s hs => ?_, ?_⟩
  · rw [body_eq] at hs
    exact not_mem_of_mem_splitChar hs
  · unfold normalize
    rw [h]
    rfl

theorem isAbsolute_join (h : p.isAbsolute = true) : (p.join q).isAbsolute = true := by
  unfold join
  split
  · assumption
  · obtain ⟨cs, hcs⟩ := List.head?_eq_some_iff.mp (beq_iff_eq.mp h)
    simp [isAbsolute, hcs]

theorem isNormal_absolutize (p : Path) (h : q.isAbsolute = true) : (p.absolutize q).IsNormal := by
  unfold absolutize
  split
  · exact isNormal_normalize ‹_›
  · exact isNormal_normalize (isAbsolute_join h)

def IsBelowRoot (p : Path) : Prop := ∃ l : Location, l ≠ [] ∧ (∀ n ∈ l, IsName n) ∧ p = l.path

theorem isBelowRoot_append {suffix : List Char} (h : p.IsNormal) (hslash : '/' ∉ suffix)
    (hletter : ∃ c ∈ suffix, c ≠ '.') : (p.append suffix).IsBelowRoot := by
  have hsuffix : IsName suffix := isName_append (n := []) (by simp) hslash hletter
  have hname : ∀ n, IsName n → IsName (n ++ suffix) := fun n hn => isName_append hn.noSlash hslash hletter
  obtain ⟨l, hl, rfl⟩ := h
  obtain rfl | ⟨l, n, rfl⟩ := List.eq_nil_or_concat' l
  · exact ⟨[suffix], by simp, by simpa using hsuffix, rfl⟩
  · have hn := hl n (by simp)
    have hl : ∀ m ∈ l, IsName m := fun m hm => hl m (by simp [hm])
    rw [← path_child hl hn, append_child (hname n hn).noSlash, path_child hl (hname n hn)]
    refine ⟨_, by simp, ?_, rfl⟩
    intro m hm
    rcases List.mem_append.mp hm with hm | hm
    · exact hl m hm
    · rw [List.mem_singleton.mp hm]
      exact hname n hn

theorem parent?_path_concat (h : ∀ m ∈ l ++ [n], IsName m) : (Location.path (l ++ [n])).parent? = some l.path := by
  have htrim : trimmedBody true l = l := by
    obtain rfl | ⟨l, m, rfl⟩ := List.eq_nil_or_concat' l
    · rfl
    · exact trimmedBody_concat true l (h m (by simp)).not_isVoid
  unfold Path.parent?
  rw [isAbsolute_path, body_path h (by simp), trimmedBody_concat true l (h n (by simp)).not_isVoid]
  simp [htrim, Location.path]

theorem IsBelowRoot.parent? (h : p.IsBelowRoot) : ∃ l : Location, p.parent? = some l.path := by
  obtain ⟨l, hne, hl, rfl⟩ := h
  obtain rfl | ⟨l, n, rfl⟩ := List.eq_nil_or_concat' l
  · exact absurd rfl hne
  · exact ⟨l, parent?_path_concat hl⟩

end Path

namespace Loader

open YamlInclude.Path

variable {l : Loader} {raw : String} {p : Path}

theorem isAbsolute_root (hcwd : l.cwd.isAbsolute = true) : l.root.isAbsolute = true := by
  obtain ⟨m, -, h⟩ := isNormal_absolutize (l.rootDir.getD ⟨"."⟩) hcwd
  rw [root, h]
  exact isAbsolute_path m

theorem isNormal_located (hcwd : l.cwd.isAbsolute = true) (hp : p.IsBelowRoot) (component : String) :
    (Target.located component p l.root).normalize.IsNormal := by
  refine isNormal_normalize ?_
  unfold Target.located
  dsimp only
  split
  · exact isAbsolute_join (isAbsolute_root hcwd)
  · obtain ⟨m, hm⟩ := hp.parent?
    rw [hm]
    exact isAbsolute_join (isAbsolute_path m)

theorem isBelowRoot_of_mem_asks (hcwd : l.cwd.isAbsolute = true) (hp : p.IsBelowRoot) {q : Path}
    (hq : q ∈ l.asks raw p) : q.IsBelowRoot := by
  have hnormal := isNormal_located hcwd hp (Reference.parse raw).path
  have hyml : (Path.append _ ['.', 'y', 'm', 'l']).IsBelowRoot :=
    isBelowRoot_append hnormal (by decide) ⟨'y', by decide, by decide⟩
  have hyaml : (Path.append _ ['.', 'y', 'a', 'm', 'l']).IsBelowRoot :=
    isBelowRoot_append hnormal (by decide) ⟨'y', by decide, by decide⟩
  have htarget : (l.target raw p).IsBelowRoot := by
    unfold target Target.resolve
    dsimp only
    split
    next hext =>
      obtain ⟨m, hm, heq⟩ := hnormal
      refine ⟨m, ?_, hm, heq⟩
      rintro rfl
      rw [heq] at hext
      exact absurd hext (by decide)
    · split
      · exact hyml
      · exact hyaml
  unfold asks at hq
  rcases List.mem_append.mp hq with hq | hq
  · split at hq
    · exact nomatch hq
    · rw [List.mem_singleton.mp hq]
      exact hyml
  · rwa [List.mem_singleton.mp hq]

theorem isBelowRoot_target (hcwd : l.cwd.isAbsolute = true) (hp : p.IsBelowRoot) (raw : String) :
    (l.target raw p).IsBelowRoot :=
  isBelowRoot_of_mem_asks hcwd hp (List.mem_append_right _ (List.mem_singleton.mpr rfl))

end Loader

end YamlInclude
