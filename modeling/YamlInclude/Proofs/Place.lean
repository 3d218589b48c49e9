import YamlInclude.Proofs.Extent

/-! # Places

In a tree without links a path leads to one place, whatever the tree holds: a name goes down and `..` goes up.
-/

namespace YamlInclude

inductive Node where
  | file (content : Content) (executable : Bool)
  | link (target : Path)
  | directory

def Entry.node : Entry → Node
  | .file c x => .file c x
  | .link target => .link target
  | .directory _ => .directory

namespace Entry

/-- Whether nothing is below an entry. -/
def Bare (e : Entry) : Prop := ∀ n l, e.at? (n :: l) = none

theorem bare_file (c : Content) (x : Bool) : (file c x).Bare := fun _ _ => rfl

theorem bare_link (target : Path) : (link target).Bare := fun _ _ => rfl

theorem bare_of_node {e : Entry} (h : e.node ≠ .directory) : e.Bare := by
  cases e with
  | file c x => exact bare_file c x
  | link target => exact bare_link target
  | directory => exact absurd rfl h

end Entry

namespace Path

variable {p : Path} {s : Name} {rest : List Name} {here : Location}

/-- Where a segment leads from a place. -/
def enter (here : Location) (s : Name) : Location :=
  if isVoid s then here else if s = ['.', '.'] then here.dropLast else here ++ [s]

def place (p : Path) (cwd : Location) : Location := p.body.foldl enter (if p.isAbsolute then [] else cwd)

theorem enter_of_isName (hs : IsName s) : enter here s = here ++ [s] := by
  rw [enter, if_neg (Bool.eq_false_iff.mp hs.not_isVoid), if_neg hs.ne_parent]

theorem isName_of_enter (here : Location) (hslash : '/' ∉ s) (hstay : enter here s ≠ here)
    (hup : enter here s ≠ here.dropLast) :
    IsName s := by
  unfold enter at hstay hup
  split at hstay
  · exact absurd rfl hstay
  next hvoid =>
    rw [if_neg hvoid] at hup
    split at hup
    · exact absurd rfl hup
    next hdots => exact ⟨hslash, by rw [componentOf?, if_neg hvoid, if_neg hdots]⟩

theorem foldl_enter_of_empty (h : rest.all List.isEmpty = true) : rest.foldl enter here = here := by
  induction rest with
  | nil => rfl
  | cons s rest ih =>
    obtain ⟨hs, hrest⟩ := Bool.and_eq_true_iff.mp h
    rw [List.isEmpty_iff.mp hs]
    exact ih hrest

theorem exists_body_eq_cons (p : Path) : ∃ s rest, p.body = s :: rest ∧ ∀ n ∈ p.body, '/' ∉ n := by
  rw [body_eq]
  obtain ⟨s, rest, h⟩ := List.exists_cons_of_ne_nil (splitChar_ne_nil '/' (unrooted p.chars))
  exact ⟨s, rest, h, fun n hn => not_mem_of_mem_splitChar hn⟩

end Path

namespace FileTree

variable {t t' : FileTree} {cwd k l here : Location} {p : Path} {n s : Name} {rest : List Name} {c : Content}
  {x followLast : Bool} {follow follow' : Location → Path → List Name → Except SystemError Location}

def node? (t : FileTree) (l : Location) : Option Node := (t.at? l).map Entry.node

def LinkFree (t : FileTree) : Prop := ∀ l target, t.node? l ≠ some (.link target)

theorem linkFree_of_linkCount (h : t.root.linkCount = 0) : t.LinkFree := by
  intro l target hnode
  obtain ⟨e, he, hlink⟩ := Option.map_eq_some_iff.mp hnode
  cases e with
  | link target' =>
    have hmem := mem_links_of_at? he
    rw [← length_links, List.length_eq_zero_iff] at h
    rw [h] at hmem
    exact nomatch hmem
  | file => exact nomatch hlink
  | directory => exact nomatch hlink

/-- Whether an entry can be put at a place: its directory is there. -/
def Room (t : FileTree) (l : Location) : Prop := ∃ k n, l = k ++ [n] ∧ Path.IsName n ∧ t.node? k = some .directory

theorem node?_eq_none_iff : t.node? l = none ↔ t.at? l = none := Option.map_eq_none_iff

theorem node?_eq_directory_iff : t.node? l = some .directory ↔ ∃ es, t.at? l = some (.directory es) := by
  unfold node?
  cases t.at? l with
  | none => simp
  | some e => cases e <;> simp [Entry.node]

theorem node?_ne_directory (h : ∀ es, t.at? l ≠ some (.directory es)) : t.node? l ≠ some .directory := by
  intro hnode
  obtain ⟨es, hes⟩ := node?_eq_directory_iff.mp hnode
  exact h es hes

theorem node?_eq_file_iff : t.node? l = some (.file c x) ↔ t.at? l = some (.file c x) := by
  unfold node?
  cases t.at? l with
  | none => simp
  | some e => cases e <;> simp [Entry.node]

theorem contentAt?_eq_some_iff : t.contentAt? l = some c ↔ ∃ x, t.node? l = some (.file c x) := by
  unfold contentAt? node?
  cases t.at? l with
  | none => simp
  | some e => cases e <;> simp [Entry.node]

theorem node?_of_concat (h : t.node? (k ++ [n]) ≠ none) : t.node? k = some .directory := by
  rw [Ne, node?_eq_none_iff, at?_concat] at h
  rw [node?_eq_directory_iff]
  split at h
  next es hes => exact ⟨es, hes⟩
  · exact absurd rfl h

theorem node?_dropLast (h : t.node? l ≠ none) : t.node? l.dropLast ≠ none := by
  obtain rfl | ⟨k, n, rfl⟩ := List.eq_nil_or_concat' l
  · exact h
  · rw [List.dropLast_concat, node?_of_concat h]
    simp

theorem node?_dropLast_of_directory (h : t.node? l = some .directory) : t.node? l.dropLast = some .directory := by
  obtain rfl | ⟨k, n, rfl⟩ := List.eq_nil_or_concat' l
  · exact h
  · rw [List.dropLast_concat]
    exact node?_of_concat (n := n) (by simp [h])

theorem node?_of_append (h : t.node? (k ++ l) ≠ none) : t.node? k ≠ none := by
  induction l using List.reverseRecOn with
  | nil => rwa [List.append_nil] at h
  | append_singleton l n ih =>
    rw [← List.append_assoc] at h
    refine ih ?_
    rw [node?_of_concat h]
    simp

theorem room_of_node? (hwf : t.WellFormed) (h : t.node? l ≠ none) (hdir : t.node? l ≠ some .directory) :
    t.Room l := by
  obtain rfl | ⟨k, n, rfl⟩ := List.eq_nil_or_concat' l
  · exact absurd rfl hdir
  have hk := node?_of_concat h
  obtain ⟨es, hes⟩ := node?_eq_directory_iff.mp hk
  refine ⟨k, n, rfl, ?_, hk⟩
  rw [Ne, node?_eq_none_iff, at?_concat, hes] at h
  obtain ⟨e, he⟩ := Option.ne_none_iff_exists'.mp h
  cases Entry.WellFormed.at? hwf hes with
  | directory names => exact names _ (Entry.mem_of_lookup he)

theorem byteCount_of_isVoid (h : Path.isVoid s = true) : byteCount s ≤ maxName := by
  rcases Bool.or_eq_true_iff.mp h with hs | hs
  · rw [List.isEmpty_iff.mp hs]
    decide
  · rw [beq_iff_eq.mp hs]
    decide

/-- A step of a walk: it ends where nothing is, goes on as a link says, or goes on from what is there. -/
theorem walkFrom_step_ok_iff : t.walkFrom followLast follow (s :: rest) here = .ok l ↔
    t.node? here = some .directory ∧ byteCount s ≤ maxName ∧
      match t.node? (Path.enter here s) with
      | none => rest.all List.isEmpty = true ∧ l = Path.enter here s
      | some (.link target) =>
        if rest.isEmpty && !followLast then l = Path.enter here s else follow here target rest = .ok l
      | some _ => t.walkFrom followLast follow rest (Path.enter here s) = .ok l := by
  have hnext := t.at?_concat here s
  rw [walkFrom]
  unfold Path.enter
  rcases hhere : t.at? here with _ | e
  · simp [node?, hhere]
  cases e with
  | file => simp [node?, hhere, Entry.node]
  | link => simp [node?, hhere, Entry.node]
  | directory es =>
    have hdir : t.node? here = some .directory := node?_eq_directory_iff.mpr ⟨es, hhere⟩
    rw [hhere] at hnext
    dsimp only at hnext ⊢
    by_cases hvoid : Path.isVoid s = true
    · simp [hvoid, hdir, byteCount_of_isVoid hvoid]
    by_cases hdots : s = ['.', '.']
    · subst hdots
      have hshort : byteCount ['.', '.'] ≤ maxName := by decide
      simp [hvoid, hdir, hshort, node?_dropLast_of_directory hdir]
    simp only [hvoid, hdots, hdir, if_false, true_and, Bool.false_eq_true]
    by_cases hlong : maxName < byteCount s
    · simp [hlong]
    rw [if_neg hlong]
    cases hs : es.lookup s with
    | none =>
      have hnone : t.node? (here ++ [s]) = none := by rw [node?, hnext, hs]; rfl
      by_cases hempty : rest.all List.isEmpty = true
      · simp [hnone, hempty, not_lt.mp hlong, eq_comm]
      · simp [hnone, hempty]
    | some e =>
      have hsome : t.node? (here ++ [s]) = some e.node := by rw [node?, hnext, hs]; rfl
      cases e with
      | link target =>
        rw [hsome]
        dsimp only [Entry.node]
        split <;> simp [not_lt.mp hlong, eq_comm]
      | file => simp [hsome, not_lt.mp hlong, Entry.node]
      | directory => simp [hsome, not_lt.mp hlong, Entry.node]

theorem walkFrom_cons_ok_iff (hfree : t.LinkFree) : t.walkFrom followLast follow (s :: rest) here = .ok l ↔
    t.node? here = some .directory ∧ byteCount s ≤ maxName ∧
      (t.node? (Path.enter here s) ≠ none ∧ t.walkFrom followLast follow rest (Path.enter here s) = .ok l ∨
        t.node? (Path.enter here s) = none ∧ rest.all List.isEmpty = true ∧ l = Path.enter here s) := by
  rw [walkFrom_step_ok_iff]
  rcases hnext : t.node? (Path.enter here s) with _ | node
  · simp
  · cases node with
    | link target => exact absurd hnext (hfree _ target)
    | _ => simp

/-- A walk that gets on in a tree without links ends at the place of its segments. -/
theorem walkFrom_ok (hfree : t.LinkFree) (h : t.walkFrom followLast follow rest here = .ok l) :
    l = rest.foldl Path.enter here := by
  induction rest generalizing here with
  | nil =>
    cases h
    rfl
  | cons s rest ih =>
    obtain ⟨-, -, ⟨-, h⟩ | ⟨-, hempty, rfl⟩⟩ := (walkFrom_cons_ok_iff hfree).mp h
    · exact ih h
    · exact (Path.foldl_enter_of_empty hempty).symm

theorem walk_ok (hfree : t.LinkFree) (h : t.walk followLast cwd p = .ok l) : l = p.place cwd := by
  obtain ⟨-, h⟩ := walk_ok_iff.mp h
  obtain ⟨follow, hfollow⟩ := t.exists_walkFrom followLast maxLinks
  rw [hfollow] at h
  exact walkFrom_ok hfree h

/-- A walk is one in each tree in which no directory is missing, if something is there where it ends. Where nothing
was before, the segments must not go on behind it. -/
theorem walkFrom_mono {followLast' : Bool} (hfree : t.LinkFree) (hfree' : t'.LinkFree)
    (hdir : ∀ l, t.node? l = some .directory → t'.node? l = some .directory)
    (hend : t.node? l = none → rest.getLast? ≠ some []) (h : t.walkFrom followLast follow rest here = .ok l)
    (hl : t'.node? l ≠ none) : t'.walkFrom followLast' follow' rest here = .ok l := by
  induction rest generalizing here with
  | nil =>
    cases h
    rfl
  | cons s rest ih =>
    obtain ⟨hhere, hshort, hstep⟩ := (walkFrom_cons_ok_iff hfree).mp h
    have hnext : t'.node? (Path.enter here s) ≠ none ∧
        t'.walkFrom followLast' follow' rest (Path.enter here s) = .ok l := by
      cases rest with
      | nil =>
        obtain rfl : Path.enter here s = l := by
          obtain ⟨-, h⟩ | ⟨-, -, h⟩ := hstep
          · exact Except.ok.inj h
          · exact h.symm
        exact ⟨hl, rfl⟩
      | cons s' rest =>
        obtain ⟨-, h⟩ | ⟨hnone, hempty, rfl⟩ := hstep
        · have hnext := hdir _ ((walkFrom_cons_ok_iff hfree).mp h).1
          exact ⟨by simp [hnext], ih hend h⟩
        · have hlast := List.getLast_mem (List.cons_ne_nil s' rest)
          have hnil := List.isEmpty_iff.mp (List.all_eq_true.mp hempty _ hlast)
          refine absurd ?_ (hend hnone)
          rw [List.getLast?_cons_cons, List.getLast?_eq_some_getLast (List.cons_ne_nil s' rest), hnil]
    exact (walkFrom_cons_ok_iff hfree').mpr ⟨hdir here hhere, hshort, Or.inl hnext⟩

theorem isDirectory_iff : t.isDirectory cwd p = true ↔
    ∃ l, t.walk true cwd p = .ok l ∧ t.node? l = some .directory := by
  unfold isDirectory
  constructor
  · intro h
    split at h
    next l es hfind =>
      obtain ⟨hwalk, hat⟩ := find_ok_iff.mp hfind
      exact ⟨l, hwalk, node?_eq_directory_iff.mpr ⟨es, hat⟩⟩
    · exact nomatch h
  · rintro ⟨l, hwalk, hnode⟩
    obtain ⟨es, hes⟩ := node?_eq_directory_iff.mp hnode
    rw [find_ok_iff.mpr ⟨hwalk, hes⟩]

theorem isDirectory_of_directory (hfree : t.LinkFree) (hfree' : t'.LinkFree)
    (hdir : ∀ l, t.node? l = some .directory → t'.node? l = some .directory) (h : t.isDirectory cwd p = true) :
    t'.isDirectory cwd p = true := by
  obtain ⟨l, hwalk, hl⟩ := isDirectory_iff.mp h
  obtain ⟨hfits, hwalk⟩ := walk_ok_iff.mp hwalk
  obtain ⟨follow, hfollow⟩ := t.exists_walkFrom true maxLinks
  obtain ⟨follow', hfollow'⟩ := t'.exists_walkFrom true maxLinks
  rw [hfollow] at hwalk
  refine isDirectory_iff.mpr ⟨l, walk_ok_iff.mpr ⟨hfits, ?_⟩, hdir l hl⟩
  rw [hfollow']
  exact walkFrom_mono hfree hfree' hdir (by simp [hl]) hwalk (by simp [hdir l hl])

/-- Names lead to a file in a tree without links if none is too long and the file is at their place. -/
theorem walkFrom_file_iff (hfree : t.LinkFree) (hrest : ∀ n ∈ rest, Path.IsName n) :
    (t.walkFrom true follow rest here = .ok l ∧ t.node? l = some (.file c x)) ↔
      l = here ++ rest ∧ (∀ n ∈ rest, byteCount n ≤ maxName) ∧ t.node? (here ++ rest) = some (.file c x) := by
  induction rest generalizing here with
  | nil =>
    rw [walkFrom, List.append_nil]
    constructor
    · rintro ⟨h, hl⟩
      cases h
      exact ⟨rfl, by simp, hl⟩
    · rintro ⟨rfl, -, hl⟩
      exact ⟨rfl, hl⟩
  | cons s rest ih =>
    have hs := hrest s List.mem_cons_self
    have ih := @ih (here ++ [s]) fun n hn => hrest n (List.mem_cons_of_mem _ hn)
    rw [List.append_assoc, List.singleton_append] at ih
    rw [walkFrom_cons_ok_iff hfree, Path.enter_of_isName hs, List.forall_mem_cons]
    constructor
    · rintro ⟨⟨-, hshort, ⟨-, h⟩ | ⟨hnone, -, rfl⟩⟩, hl⟩
      · obtain ⟨rfl, hall, hfile⟩ := ih.mp ⟨h, hl⟩
        exact ⟨rfl, ⟨hshort, hall⟩, hfile⟩
      · rw [hnone] at hl
        exact nomatch hl
    · rintro ⟨rfl, ⟨hshort, hall⟩, hfile⟩
      obtain ⟨h, hl⟩ := ih.mpr ⟨rfl, hall, hfile⟩
      have hsome : t.node? (here ++ [s] ++ rest) ≠ none := by
        rw [List.append_assoc, List.singleton_append, hfile]
        simp
      have hnext := node?_of_append hsome
      exact ⟨⟨node?_of_concat hnext, hshort, Or.inl ⟨hnext, h⟩⟩, hl⟩

/-- Whether a place can be named by a path: neither the path nor a name is too long. -/
structure Nameable (l : Location) : Prop where
  path : Walkable l.path
  names : ∀ n ∈ l, byteCount n ≤ maxName

theorem contentOf?_path_eq_some_iff (hfree : t.LinkFree) (hl : ∀ n ∈ l, Path.IsName n) :
    t.contentOf? cwd l.path = some c ↔ Nameable l ∧ t.contentAt? l = some c := by
  obtain ⟨follow, hfollow⟩ := t.exists_walkFrom true maxLinks
  have hwalk : ∀ m x, (t.walkWithin true maxLinks l.path.body [] = .ok m ∧ t.node? m = some (.file c x)) ↔
      m = l ∧ (∀ n ∈ l, byteCount n ≤ maxName) ∧ t.node? l = some (.file c x) := by
    intro m x
    rw [hfollow]
    by_cases hne : l = []
    · subst hne
      have hroot : t.node? [] = some .directory := rfl
      constructor
      · rintro ⟨h, hm⟩
        have hbody : (Location.path []).body = [[]] := rfl
        rw [hbody] at h
        obtain rfl := walkFrom_ok hfree h
        exact nomatch hroot.symm.trans hm
      · rintro ⟨-, -, h⟩
        exact nomatch hroot.symm.trans h
    · rw [Path.body_path hl hne]
      exact walkFrom_file_iff hfree hl
  rw [contentOf?_eq_some_iff, contentAt?_eq_some_iff]
  constructor
  · rintro ⟨m, x, hfind⟩
    obtain ⟨hfind, hat⟩ := find_ok_iff.mp hfind
    obtain ⟨hfits, hfind⟩ := walk_ok_iff.mp hfind
    rw [Path.isAbsolute_path, if_pos rfl] at hfind
    obtain ⟨rfl, hnames, hnode⟩ := (hwalk m x).mp ⟨hfind, node?_eq_file_iff.mpr hat⟩
    exact ⟨⟨hfits, hnames⟩, x, hnode⟩
  · rintro ⟨⟨hfits, hnames⟩, x, hnode⟩
    obtain ⟨hfind, hat⟩ := (hwalk l x).mpr ⟨rfl, hnames, hnode⟩
    refine ⟨l, x, find_ok_iff.mpr ⟨walk_ok_iff.mpr ⟨hfits, ?_⟩, node?_eq_file_iff.mp hat⟩⟩
    rwa [Path.isAbsolute_path, if_pos rfl]

end FileTree

end YamlInclude
