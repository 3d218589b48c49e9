import YamlInclude.Proofs.Below
import YamlInclude.Proofs.Reach

/-! # Walks below a directory

What stands below a directory is reached by the names that lead to it, added to a path of the directory. Only the
lengths of the path and of its names can keep a walk from it.
-/

namespace YamlInclude

theorem Path.exists_body_eq_lead_append (p : Path) : ∃ after, p.body = p.lead ++ after ∧ ∀ s ∈ after, s = [] := by
  cases hopen : p.isOpen with
  | true => exact ⟨[[]], body_of_isOpen hopen, by simp⟩
  | false => exact ⟨[], by rw [lead, hopen, if_neg Bool.false_ne_true, List.append_nil], by simp⟩

namespace FileTree

/-- Whether a path and its segments are short enough for a walk. -/
structure Fits (p : Path) : Prop where
  path : Walkable p
  segments : ∀ s ∈ p.body, byteCount s ≤ maxName

variable {t : FileTree} {cwd l here start : Location} {p : Path} {names segments before after : List Name}
  {links : Nat} {followLast : Bool} {node : Node} {c : Content} {x : Bool}

theorem Reaches.short (h : Reaches t followLast l links segments here) : ∀ s ∈ segments, byteCount s ≤ maxName := by
  induction h with
  | done => exact nofun
  | absent _ hshort _ hempty _ =>
    rw [List.forall_mem_cons]
    constructor
    · exact hshort
    · intro s hs
      obtain rfl := List.isEmpty_iff.mp (List.all_eq_true.mp hempty s hs)
      exact Nat.zero_le _
  | link _ hshort => exact List.forall_mem_singleton.mpr hshort
  | follow _ hshort _ _ _ ih =>
    exact List.forall_mem_cons.mpr ⟨hshort, fun s hs => ih s (List.mem_append_right _ hs)⟩
  | enter _ hshort _ _ _ ih => exact List.forall_mem_cons.mpr ⟨hshort, ih⟩

theorem isFile_iff : t.isFile cwd p = true ↔ ∃ l c x, t.find cwd p = .ok (l, .file c x) := by
  unfold isFile
  split
  next l c x hfind => exact iff_of_true rfl ⟨l, c, x, hfind⟩
  next hnot => exact iff_of_false Bool.false_ne_true fun ⟨l, c, x, hfind⟩ => hnot l c x hfind

theorem isPresent_iff : t.isPresent cwd p = true ↔ ∃ l e, t.find cwd p = .ok (l, e) := by
  unfold isPresent
  cases t.find cwd p with
  | error e => simp
  | ok found => exact iff_of_true rfl ⟨found.1, found.2, rfl⟩

theorem fits_of_walk (h : t.walk followLast cwd p = .ok l) : Fits p := by
  obtain ⟨hp, hreaches⟩ := walk_ok_iff_reaches.mp h
  exact ⟨hp, hreaches.short⟩

/-- The names that lead from a place to an entry are a walk to it, whatever the number of links. -/
theorem reaches_names (hnode : t.node? (here ++ names) = some node) (hnot : ∀ target, node ≠ .link target)
    (hnames : ∀ n ∈ names, Path.IsName n) (hshort : ∀ n ∈ names, byteCount n ≤ maxName) (links : Nat) :
    Reaches t followLast (here ++ names) links names here := by
  induction names generalizing here with
  | nil =>
    rw [List.append_nil]
    exact .done links
  | cons n names ih =>
    rw [List.append_cons] at hnode ⊢
    have henter : Path.enter here n = here ++ [n] := Path.enter_of_isName (hnames n List.mem_cons_self)
    have hnext : t.node? (here ++ [n]) ≠ none := node?_of_append (l := names) (by rw [hnode]; simp)
    obtain ⟨next, hnext'⟩ := Option.ne_none_iff_exists'.mp hnext
    refine .enter (node?_of_concat hnext) (hshort n List.mem_cons_self) (henter ▸ hnext') ?_ ?_
    · rintro target rfl
      cases names with
      | nil =>
        rw [List.append_nil, hnext'] at hnode
        exact hnot target (Option.some.inj hnode).symm
      | cons m names =>
        -- something is below, so it is a directory
        rw [List.append_cons] at hnode
        have hbelow : t.node? (here ++ [n] ++ [m]) ≠ none := node?_of_append (l := names) (by rw [hnode]; simp)
        have hdir := node?_of_concat hbelow
        rw [hdir] at hnext'
        exact nomatch hnext'
    · rw [henter]
      exact ih hnode (fun m hm => hnames m (List.mem_cons_of_mem _ hm))
        fun m hm => hshort m (List.mem_cons_of_mem _ hm)

theorem Reaches.extend (h : Reaches t true here links segments start) (hdir : t.node? here = some .directory)
    (hsplit : segments = before ++ after) (hafter : ∀ s ∈ after, s = [])
    (hnames : ∀ links, Reaches t true l links names here) : Reaches t true l links (before ++ names) start := by
  induction h generalizing before after with
  | done links =>
    obtain ⟨rfl, -⟩ := List.append_eq_nil_iff.mp hsplit.symm
    exact hnames links
  | absent _ _ hnone _ hl =>
    rw [← hl, hdir] at hnone
    exact nomatch hnone
  | link _ _ _ hlast => exact nomatch hlast
  | @follow links s rest here' target hdir' hshort hlink _ _ ih =>
    rcases List.cons_eq_append_iff.mp hsplit with ⟨rfl, rfl⟩ | ⟨before, rfl, rfl⟩
    · obtain rfl := hafter s List.mem_cons_self
      rw [show Path.enter here' [] = here' from rfl, hdir'] at hlink
      exact nomatch hlink
    · rw [List.cons_append]
      apply Reaches.follow hdir' hshort hlink (Or.inr rfl)
      rw [← List.append_assoc]
      exact ih (List.append_assoc _ _ _).symm hafter
  | @enter links s rest here' node hdir' hshort hnode hnot hwalk ih =>
    rcases List.cons_eq_append_iff.mp hsplit with ⟨rfl, rfl⟩ | ⟨before, rfl, rfl⟩
    · obtain rfl := hafter s List.mem_cons_self
      exact ih (List.nil_append rest).symm fun s hs => hafter s (List.mem_cons_of_mem _ hs)
    · exact .enter hdir' hshort hnode hnot (ih rfl hafter)

/-- Where a path leads to a directory, names added to it lead to what is below, if that is no link and the path is
short enough. -/
theorem walk_descend (hwalk : t.walk true cwd p = .ok here) (hdir : t.node? here = some .directory)
    (hnode : t.node? (here ++ names) = some node) (hnot : ∀ target, node ≠ .link target)
    (hnames : ∀ n ∈ names, Path.IsName n) (hfits : Fits (p.descend names)) :
    t.walk true cwd (p.descend names) = .ok (here ++ names) := by
  by_cases hne : names = []
  · rw [hne, List.append_nil]
    exact hwalk
  obtain ⟨-, hreaches⟩ := walk_ok_iff_reaches.mp hwalk
  have hshort : ∀ n ∈ names, byteCount n ≤ maxName := by
    intro n hn
    apply hfits.segments
    rw [Path.body_descend hnames hne]
    exact List.mem_append_right _ hn
  apply walk_ok_iff_reaches.mpr
  constructor
  · exact hfits.path
  · rw [Path.body_descend hnames hne, Path.isAbsolute_descend hnames]
    obtain ⟨after, hbody, hafter⟩ := p.exists_body_eq_lead_append
    exact hreaches.extend hdir hbody hafter (reaches_names hnode hnot hnames hshort)

theorem isFile_descend_iff (hwalk : t.walk true cwd p = .ok here) (hdir : t.node? here = some .directory)
    (hfile : t.node? (here ++ names) = some (.file c x)) (hnames : ∀ n ∈ names, Path.IsName n) :
    t.isFile cwd (p.descend names) = true ↔ Fits (p.descend names) := by
  constructor
  · intro h
    obtain ⟨l, c, x, hfind⟩ := isFile_iff.mp h
    exact fits_of_walk (find_ok_iff.mp hfind).1
  · intro hfits
    have hwalk := walk_descend hwalk hdir hfile (fun _ => nofun) hnames hfits
    exact isFile_iff.mpr ⟨_, c, x, find_ok_iff.mpr ⟨hwalk, node?_eq_file_iff.mp hfile⟩⟩

theorem isPresent_descend_iff (hwalk : t.walk true cwd p = .ok here) (hdir : t.node? here = some .directory)
    (hbelow : t.node? (here ++ names) = some .directory) (hnames : ∀ n ∈ names, Path.IsName n) :
    t.isPresent cwd (p.descend names) = true ↔ Fits (p.descend names) := by
  constructor
  · intro h
    obtain ⟨l, e, hfind⟩ := isPresent_iff.mp h
    exact fits_of_walk (find_ok_iff.mp hfind).1
  · intro hfits
    obtain ⟨es, hes⟩ := node?_eq_directory_iff.mp hbelow
    have hwalk := walk_descend hwalk hdir hbelow (fun _ => nofun) hnames hfits
    exact isPresent_iff.mpr ⟨_, _, find_ok_iff.mpr ⟨hwalk, hes⟩⟩

end FileTree

end YamlInclude
