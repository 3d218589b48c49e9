import YamlInclude.FileTree.Source
import YamlInclude.Proofs.Normal
import YamlInclude.Proofs.Tree

/-! # The extent of a tree

A normal path that leads to a file is known by the links on its way and that file. So no more normal paths than
the extent of a tree can be read, and no load of its files is cut off by the bound on its levels.
-/

namespace YamlInclude

namespace Entry

mutual

def links (here : Location) : Entry → List (Location × Path)
  | file _ _ => []
  | link target => [(here, target)]
  | directory es => linksOf here es

def linksOf (here : Location) : List (Name × Entry) → List (Location × Path)
  | [] => []
  | (n, e) :: es => links (here ++ [n]) e ++ linksOf here es

end

mutual

theorem length_links (here : Location) : ∀ e : Entry, (links here e).length = e.linkCount
  | .file _ _ => rfl
  | .link _ => rfl
  | .directory es => length_linksOf here es

theorem length_linksOf (here : Location) :
    ∀ es : List (Name × Entry), (linksOf here es).length = linkCountOf es
  | [] => rfl
  | (n, e) :: es => by
    rw [linksOf, linkCountOf, List.length_append, length_links (here ++ [n]) e, length_linksOf here es]

end

variable {e e' : Entry} {es : List (Name × Entry)} {n : Name} {l here : Location} {c : Content} {x : Bool}
  {target : Path}

theorem files_subset_filesOf (here : Location) (h : (n, e) ∈ es) : files (here ++ [n]) e ⊆ filesOf here es := by
  induction es with
  | nil => exact nomatch h
  | cons f es ih =>
    rcases List.mem_cons.mp h with rfl | h
    · exact List.subset_append_left _ _
    · exact List.Subset.trans (ih h) (List.subset_append_right _ _)

theorem links_subset_linksOf (here : Location) (h : (n, e) ∈ es) : links (here ++ [n]) e ⊆ linksOf here es := by
  induction es with
  | nil => exact nomatch h
  | cons f es ih =>
    rcases List.mem_cons.mp h with rfl | h
    · exact List.subset_append_left _ _
    · exact List.Subset.trans (ih h) (List.subset_append_right _ _)

theorem at?_append (e : Entry) (l k : Location) : e.at? (l ++ k) = (e.at? l).bind (at? k) := by
  induction l generalizing e with
  | nil => rfl
  | cons n l ih =>
    cases e with
    | directory es =>
      rw [List.cons_append, at?, at?]
      cases es.lookup n with
      | none => rfl
      | some e => exact ih e
    | file => rfl
    | link => rfl

theorem at?_cons_ok (h : e.at? (n :: l) = some e') :
    ∃ es e₁, e = .directory es ∧ (n, e₁) ∈ es ∧ e₁.at? l = some e' := by
  cases e with
  | directory es =>
    obtain ⟨e₁, he₁, h⟩ := Option.bind_eq_some_iff.mp h
    exact ⟨es, e₁, rfl, mem_of_lookup he₁, h⟩
  | file => exact nomatch h
  | link => exact nomatch h

theorem mem_files_of_at? (h : e.at? l = some (.file c x)) : (here ++ l, c) ∈ files here e := by
  induction l generalizing e here with
  | nil =>
    cases h
    simp [files]
  | cons n l ih =>
    obtain ⟨es, e₁, rfl, hmem, h⟩ := at?_cons_ok h
    have := files_subset_filesOf here hmem (ih h)
    simpa [files] using this

theorem mem_links_of_at? (h : e.at? l = some (.link target)) : (here ++ l, target) ∈ links here e := by
  induction l generalizing e here with
  | nil =>
    cases h
    simp [links]
  | cons n l ih =>
    obtain ⟨es, e₁, rfl, hmem, h⟩ := at?_cons_ok h
    have := links_subset_linksOf here hmem (ih h)
    simpa [links] using this

end Entry

namespace FileTree

variable {t : FileTree} {l here : Location} {n s : Name} {rest : List Name} {c : Content} {x : Bool}
  {es : List (Name × Entry)} {follow : Location → Path → List Name → Except SystemError Location}

theorem at?_concat (t : FileTree) (l : Location) (n : Name) : t.at? (l ++ [n]) =
    match t.at? l with
    | some (.directory es) => es.lookup n
    | _ => none := by
  rw [FileTree.at?, FileTree.at?, Entry.at?_append]
  cases t.root.at? l with
  | none => rfl
  | some e => cases e <;> simp [Entry.at?]

def links (t : FileTree) : List (Location × Path) := t.root.links []

theorem length_links (t : FileTree) : t.links.length = t.root.linkCount := t.root.length_links []

theorem mem_links_of_at? {target : Path} (h : t.at? l = some (.link target)) : (l, target) ∈ t.links :=
  Entry.mem_links_of_at? h

theorem mem_files_of_at? (h : t.at? l = some (.file c x)) : (l, c) ∈ t.files :=
  Entry.mem_files_of_at? h

/-- A walk along a name to a file goes on at the entry of that name, or as its link says. -/
theorem walkFrom_name (hs : Path.IsName s) (h : t.walkFrom true follow (s :: rest) here = .ok l)
    (hl : t.at? l = some (.file c x)) :
    (∃ target, t.at? (here ++ [s]) = some (.link target) ∧ follow here target rest = .ok l) ∨
      t.walkFrom true follow rest (here ++ [s]) = .ok l := by
  have hnext := t.at?_concat here s
  unfold walkFrom at h
  split at h
  · exact nomatch h
  next es hes =>
    rw [hes] at hnext
    rw [if_neg (Bool.eq_false_iff.mp hs.not_isVoid), if_neg hs.ne_parent] at h
    split at h
    · exact nomatch h
    · split at h
      next hnone =>
        split at h
        · cases h
          exact absurd (hl.symm.trans (hnext.trans hnone)) nofun
        · exact nomatch h
      next target hlink =>
        simp only [Bool.not_true, Bool.and_false, Bool.false_eq_true, if_false] at h
        exact Or.inl ⟨target, hnext.trans hlink, h⟩
      · exact Or.inr h
  · exact nomatch h

/-- A walk along names to a file ends at their location, or one of the names is that of a link. -/
theorem walkFrom_names (hrest : ∀ n ∈ rest, Path.IsName n) (h : t.walkFrom true follow rest here = .ok l)
    (hl : t.at? l = some (.file c x)) :
    l = here ++ rest ∨ ∃ above n below target, rest = above ++ n :: below ∧
      t.at? (here ++ above ++ [n]) = some (.link target) ∧ follow (here ++ above) target below = .ok l := by
  induction rest generalizing here with
  | nil =>
    cases h
    exact Or.inl (List.append_nil _).symm
  | cons s rest ih =>
    obtain ⟨target, hlink, h⟩ | h := walkFrom_name (hrest s List.mem_cons_self) h hl
    · exact Or.inr ⟨[], s, rest, target, rfl, by simpa using hlink, by simpa using h⟩
    · obtain rfl | ⟨above, n, below, target, rfl, hlink, h⟩ := ih (fun n hn => hrest n (List.mem_cons_of_mem _ hn)) h
      · exact Or.inl (by simp)
      · exact Or.inr ⟨s :: above, n, below, target, rfl, by simpa using hlink, by simpa using h⟩

/-- Whether no more than a number of lists of names lead a walk to a file. -/
def FewLead (t : FileTree) (walk : List Name → Except SystemError Location) (bound : Nat) : Prop :=
  ∃ few : List (List Name), few.length ≤ bound ∧ ∀ rest l c x, (∀ n ∈ rest, Path.IsName n) → walk rest = .ok l →
    t.at? l = some (.file c x) → rest ∈ few

theorem fewLead_of_error {walk : List Name → Except SystemError Location} {bound : Nat}
    (h : ∀ rest l c x, walk rest = .ok l → t.at? l ≠ some (.file c x)) : t.FewLead walk bound :=
  ⟨[], Nat.zero_le _, fun rest l c x _ hw hl => absurd hl (h rest l c x hw)⟩

theorem FewLead.mono {walk : List Name → Except SystemError Location} {m n : Nat} (h : t.FewLead walk m)
    (hmn : m ≤ n) : t.FewLead walk n := by
  obtain ⟨few, hlength, hall⟩ := h
  exact ⟨few, hlength.trans hmn, hall⟩

theorem fewLead_walkFrom {bound : Nat} (hfollow : ∀ here target before,
      t.FewLead (fun rest => follow here target (before ++ rest)) bound) (here : Location) :
    t.FewLead (fun rest => t.walkFrom true follow rest here) (t.files.length + t.links.length * bound) := by
  choose few hlength hall using fun here target => hfollow here target []
  let ends := t.files.filterMap fun f => f.1.dropPrefix? here
  let turn (k : Location × Path) : List (List Name) :=
    match k.1.dropPrefix? here with
    | none => []
    | some names => (few k.1.dropLast k.2).map (names ++ ·)
  have hprefix (names : List Name) : (here ++ names).dropPrefix? here = some names :=
    List.dropPrefix?_eq_some_iff.mpr ⟨here, rfl, beq_self_eq_true here⟩
  refine ⟨ends ++ t.links.flatMap turn, ?_, ?_⟩
  · have hturn : ∀ k, (turn k).length ≤ bound := by
      intro k
      simp only [turn]
      split
      · exact Nat.zero_le _
      · rw [List.length_map]
        exact hlength _ _
    have hturns : (t.links.flatMap turn).length ≤ t.links.length * bound := by
      rw [List.length_flatMap]
      have hsum := List.sum_le_card_nsmul (t.links.map fun k => (turn k).length) bound fun n hn => by
        obtain ⟨k, -, rfl⟩ := List.mem_map.mp hn
        exact hturn k
      simpa using hsum
    rw [List.length_append]
    exact Nat.add_le_add (List.length_filterMap_le _ _) hturns
  · intro rest l c x hrest hw hl
    obtain rfl | ⟨above, n, below, target, rfl, hlink, hw⟩ := walkFrom_names hrest hw hl
    · exact List.mem_append_left _ (List.mem_filterMap.mpr ⟨_, mem_files_of_at? hl, hprefix rest⟩)
    · refine List.mem_append_right _ (List.mem_flatMap.mpr ⟨_, mem_links_of_at? hlink, ?_⟩)
      have hbelow : below ∈ few (here ++ above) target := by
        refine hall _ _ below l c x (fun m hm => hrest m ?_) hw hl
        exact List.mem_append_right _ (List.mem_cons_of_mem _ hm)
      have hnames : (here ++ above ++ [n]).dropPrefix? here = some (above ++ [n]) := by
        rw [List.append_assoc]
        exact hprefix _
      simp only [turn, hnames, List.dropLast_concat]
      exact List.mem_map.mpr ⟨below, hbelow, by simp⟩

theorem fewLead_walkFrom_append {bound : Nat} (hfollow : ∀ here target before,
      t.FewLead (fun rest => follow here target (before ++ rest)) bound) (before : List Name) (here : Location) :
    t.FewLead (fun rest => t.walkFrom true follow (before ++ rest) here)
      (t.files.length + t.links.length * bound) := by
  induction before generalizing here with
  | nil => exact fewLead_walkFrom hfollow here
  | cons s before ih =>
    simp only [List.cons_append]
    unfold walkFrom
    split
    · exact fewLead_of_error nofun
    next es hes =>
      have hnext := t.at?_concat here s
      rw [hes] at hnext
      split
      · exact ih here
      split
      · exact ih _
      split
      · exact fewLead_of_error nofun
      split
      next hnone =>
        refine fewLead_of_error fun rest l c x hw hl => ?_
        split at hw
        · cases hw
          exact absurd (hl.symm.trans (hnext.trans hnone)) nofun
        · exact nomatch hw
      next target hlink =>
        have hsome : 1 ≤ t.links.length := List.length_pos_of_mem (mem_links_of_at? (hnext.trans hlink))
        simp only [Bool.not_true, Bool.and_false, Bool.false_eq_true, if_false]
        refine (hfollow here target before).mono ?_
        nlinarith
      · exact ih _
    · exact fewLead_of_error nofun

/-- How many normal paths lead to files by way of no more than a number of links. -/
theorem fewLead_walkWithin (links : Nat) (before : List Name) (here : Location) :
    t.FewLead (fun rest => t.walkWithin true links (before ++ rest) here)
      ((t.links.length + 1) ^ links * t.files.length) := by
  induction links generalizing before here with
  | zero =>
    have hstep := @fewLead_walkFrom_append t (fun _ _ _ => .error .tooManyLinks) 0
      (fun _ _ _ => fewLead_of_error nofun) before here
    simpa [walkWithin] using hstep
  | succ links ih =>
    have hstep := @fewLead_walkFrom_append t (fun here target rest =>
      t.walkWithin true links (target.body ++ rest) (if target.isAbsolute then [] else here)) _
      (fun here target before => by simpa using ih (target.body ++ before) _) before here
    refine FewLead.mono hstep ?_
    have hpow : 1 ≤ (t.links.length + 1) ^ links := Nat.one_le_pow _ _ (Nat.succ_pos _)
    rw [pow_succ]
    nlinarith [Nat.zero_le (t.files.length)]

theorem find_of_readText {cwd : Location} {p : Path} {text : String} (h : t.readText cwd p = .ok text) :
    ∃ l x, t.find cwd p = .ok (l, .file (.text text) x) := by
  unfold readText at h
  split at h
  · exact nomatch h
  next hfind =>
    cases h
    exact ⟨_, _, hfind⟩
  · exact nomatch h
  · exact nomatch h

/-- The paths below the root that can be read are among no more files than the extent of the tree. -/
theorem exists_readable (t : FileTree) (cwd : Location) : ∃ fs : FileSet,
    fs.files.length ≤ (t.source cwd).extent ∧
      ∀ p text, p.IsBelowRoot → t.readText cwd p = .ok text → (fs.find? p).isSome := by
  obtain ⟨few, hlength, hall⟩ := t.fewLead_walkWithin maxLinks [] []
  refine ⟨⟨few.map fun names => (Location.path names, "")⟩, ?_, ?_⟩
  · rw [List.length_map]
    rwa [length_links] at hlength
  · rintro p text ⟨l, hne, hl, rfl⟩ hread
    obtain ⟨m, x, hfind⟩ := find_of_readText hread
    obtain ⟨hwalk, hat⟩ := find_ok_iff.mp hfind
    obtain ⟨-, hwalk⟩ := walk_ok_iff.mp hwalk
    rw [Path.body_path hl hne, Path.isAbsolute_path, if_pos rfl] at hwalk
    have hmem : l ∈ few := hall l m _ _ hl hwalk hat
    rw [FileSet.find?, Option.isSome_map, List.find?_isSome]
    exact ⟨_, List.mem_map.mpr ⟨l, hmem, rfl⟩, Path.same_self _⟩

end FileTree

namespace Loader

variable {l : Loader} {t : FileTree} {cwd : Location} {p : Path} {n m : Nat}

/-- A load of a file of a tree is the same under all bounds on its levels above the extent of the tree. -/
theorem loadWithin_tree (hsource : l.source = t.source cwd) (htags : l.tags = .empty)
    (hcwd : l.cwd.isAbsolute = true) (hp : p.IsBelowRoot) (hn : l.source.extent < n) (hm : l.source.extent < m)
    (text : String) : l.loadWithin n text (.root p) = l.loadWithin m text (.root p) := by
  obtain ⟨fs, hlength, hfound⟩ := t.exists_readable cwd
  have hreads : l.ReadsAmong fs Path.IsBelowRoot := by
    refine ⟨fun {q text} hq hread => hfound q text hq ?_, fun raw _ hq => isBelowRoot_target hcwd hq raw⟩
    rwa [hsource] at hread
  have hunseen : (fs.unseen (.root p)).length ≤ fs.files.length := List.length_filter_le _ _
  rw [hsource] at hn hm
  exact (loadWithin_uncut hreads htags hp (LoadState.underway_root fs p) (by omega) (by omega) text).eq

end Loader

end YamlInclude
