import YamlInclude.Proofs.Place

/-! # Walks that get on

The steps of a walk through a tree that may hold links: a walk ends where nothing is, ends at a link that it does not
follow, goes on as a link says, or enters what stands at the next place.
-/

namespace YamlInclude

namespace FileTree

/-- Whether segments lead from a place to `l`, with no more than a number of links on the way. -/
inductive Reaches (t : FileTree) (followLast : Bool) (l : Location) : Nat → List Name → Location → Prop
  | done (links : Nat) : Reaches t followLast l links [] l
  | absent {links : Nat} {s : Name} {rest : List Name} {here : Location} (hdir : t.node? here = some .directory)
      (hshort : byteCount s ≤ maxName) (hnone : t.node? (Path.enter here s) = none)
      (hempty : rest.all List.isEmpty = true) (hl : l = Path.enter here s) :
      Reaches t followLast l links (s :: rest) here
  | link {links : Nat} {s : Name} {here : Location} {target : Path} (hdir : t.node? here = some .directory)
      (hshort : byteCount s ≤ maxName) (hlink : t.node? (Path.enter here s) = some (.link target))
      (hlast : followLast = false) (hl : l = Path.enter here s) : Reaches t followLast l links [s] here
  | follow {links : Nat} {s : Name} {rest : List Name} {here : Location} {target : Path}
      (hdir : t.node? here = some .directory) (hshort : byteCount s ≤ maxName)
      (hlink : t.node? (Path.enter here s) = some (.link target)) (hon : rest ≠ [] ∨ followLast = true)
      (h : Reaches t followLast l links (target.body ++ rest) (if target.isAbsolute then [] else here)) :
      Reaches t followLast l (links + 1) (s :: rest) here
  | enter {links : Nat} {s : Name} {rest : List Name} {here : Location} {node : Node}
      (hdir : t.node? here = some .directory) (hshort : byteCount s ≤ maxName)
      (hnode : t.node? (Path.enter here s) = some node) (hnot : ∀ target, node ≠ .link target)
      (h : Reaches t followLast l links rest (Path.enter here s)) : Reaches t followLast l links (s :: rest) here

variable {t t' : FileTree} {cwd l here : Location} {p : Path} {rest : List Name} {links : Nat} {followLast : Bool}
  {follow : Location → Path → List Name → Except SystemError Location}

theorem reaches_of_walkFrom
    (hfollow : ∀ here target rest, follow here target rest = .ok l → ∃ n, links = n + 1 ∧
      Reaches t followLast l n (target.body ++ rest) (if target.isAbsolute then [] else here))
    (h : t.walkFrom followLast follow rest here = .ok l) : Reaches t followLast l links rest here := by
  induction rest generalizing here with
  | nil =>
    cases h
    exact .done links
  | cons s rest ih =>
    obtain ⟨hdir, hshort, hstep⟩ := walkFrom_step_ok_iff.mp h
    rcases hnext : t.node? (Path.enter here s) with _ | node
    · rw [hnext] at hstep
      exact .absent hdir hshort hnext hstep.1 hstep.2
    rw [hnext] at hstep
    cases node with
    | link target =>
      dsimp only at hstep
      split at hstep
      next hend =>
        obtain ⟨hrest, hlast⟩ := Bool.and_eq_true_iff.mp hend
        obtain rfl := List.isEmpty_iff.mp hrest
        exact .link hdir hshort hnext (by simpa using hlast) hstep
      next hend =>
        obtain ⟨n, rfl, hwalk⟩ := hfollow _ _ _ hstep
        exact .follow hdir hshort hnext (by simpa [imp_iff_not_or] using hend) hwalk
    | file c x => exact .enter hdir hshort hnext (fun _ => nofun) (ih hstep)
    | directory => exact .enter hdir hshort hnext (fun _ => nofun) (ih hstep)

theorem walkWithin_ok_iff :
    t.walkWithin followLast links rest here = .ok l ↔ Reaches t followLast l links rest here := by
  constructor
  · intro h
    induction links generalizing rest here with
    | zero =>
      refine reaches_of_walkFrom ?_ h
      exact fun _ _ _ hfollow => nomatch hfollow
    | succ links ih =>
      refine reaches_of_walkFrom ?_ h
      exact fun _ _ _ hfollow => ⟨links, rfl, ih hfollow⟩
  · intro h
    induction h with
    | done links => cases links <;> rfl
    | @absent links s rest here hdir hshort hnone hempty hl =>
      obtain ⟨follow, hfollow⟩ := t.exists_walkFrom followLast links
      rw [hfollow, walkFrom_step_ok_iff, hnone]
      exact ⟨hdir, hshort, hempty, hl⟩
    | @link links s here target hdir hshort hlink hlast hl =>
      obtain ⟨follow, hfollow⟩ := t.exists_walkFrom followLast links
      rw [hfollow, walkFrom_step_ok_iff, hlink]
      exact ⟨hdir, hshort, by simp [hlast, hl]⟩
    | @follow links s rest here target hdir hshort hlink hon _ ih =>
      have hend : (rest.isEmpty && !followLast) = false := by
        rcases hon with hrest | hlast
        · simp [hrest]
        · simp [hlast]
      rw [walkWithin, walkFrom_step_ok_iff, hlink]
      dsimp only
      rw [hend]
      exact ⟨hdir, hshort, ih⟩
    | @enter links s rest here node hdir hshort hnode hnot _ ih =>
      obtain ⟨follow, hfollow⟩ := t.exists_walkFrom followLast links
      rw [hfollow] at ih ⊢
      rw [walkFrom_step_ok_iff, hnode]
      refine ⟨hdir, hshort, ?_⟩
      cases node with
      | link target => exact absurd rfl (hnot target)
      | _ => exact ih

theorem node?_start (hhere : t.node? here = some .directory) (target : Path) :
    t.node? (if target.isAbsolute then [] else here) = some .directory := by
  split
  · rfl
  · exact hhere

theorem Reaches.room (h : Reaches t followLast l links rest here) (hslash : ∀ s ∈ rest, '/' ∉ s)
    (hhere : t.node? here ≠ none) (hnone : t.node? l = none) : t.Room l := by
  induction h with
  | done => exact absurd hnone hhere
  | @absent links s rest here hdir hshort hnext hempty hl =>
    subst hl
    have hs : Path.IsName s := Path.isName_of_enter here (hslash s List.mem_cons_self) ?_ ?_
    · exact ⟨here, s, Path.enter_of_isName hs, hs, hdir⟩
    · rintro heq
      rw [heq, hdir] at hnext
      exact nomatch hnext
    · rintro heq
      rw [heq] at hnext
      exact node?_dropLast hhere hnext
  | link _ _ hlink _ hl =>
    rw [hl, hlink] at hnone
    exact nomatch hnone
  | @follow _ s rest here target hdir _ _ _ _ ih =>
    refine ih (fun n hn => ?_) (by simp [node?_start hdir])
    rcases List.mem_append.mp hn with hn | hn
    · obtain ⟨_, _, -, hbody⟩ := target.exists_body_eq_cons
      exact hbody n hn
    · exact hslash n (List.mem_cons_of_mem _ hn)
  | enter _ _ hnode _ _ ih => exact ih (fun n hn => hslash n (List.mem_cons_of_mem _ hn)) (by simp [hnode])

theorem Reaches.node?_ne_link (h : Reaches t true l links rest here)
    (hhere : ∀ target, t.node? here ≠ some (.link target)) (target : Path) : t.node? l ≠ some (.link target) := by
  induction h with
  | done => exact hhere target
  | absent _ _ hnone _ hl => simp [hl, hnone]
  | link _ _ _ hlast => exact nomatch hlast
  | follow hdir _ _ _ _ ih => exact ih (by simp [node?_start hdir])
  | enter _ _ hnode hnot _ ih => exact ih (by simpa [hnode] using hnot)

theorem Reaches.all_links (h : Reaches t followLast l links rest here)
    (hl : ∀ target, t.node? l ≠ some (.link target)) : Reaches t true l links rest here := by
  induction h with
  | done links => exact .done links
  | absent hdir hshort hnone hempty heq => exact .absent hdir hshort hnone hempty heq
  | @link _ _ _ target _ _ hlink _ heq =>
    rw [← heq] at hlink
    exact absurd hlink (hl target)
  | follow hdir hshort hlink _ _ ih => exact .follow hdir hshort hlink (Or.inr rfl) ih
  | enter hdir hshort hnode hnot _ ih => exact .enter hdir hshort hnode hnot ih

theorem Reaches.of_file {c : Content} {x : Bool} {k : Location} (h : Reaches t' followLast l links rest here)
    (hold : t.node? k = none ∨ ∃ c x, t.node? k = some (.file c x))
    (hnode : ∀ j, t'.node? j = if j = k then some (.file c x) else t.node? j) :
    Reaches t followLast l links rest here := by
  have hkeep : ∀ {j node}, t'.node? j = some node → (∀ c x, node ≠ .file c x) → t.node? j = some node := by
    intro j node hj hfile
    rw [hnode] at hj
    split at hj
    · cases hj
      exact absurd rfl (hfile c x)
    · exact hj
  induction h with
  | done links => exact .done links
  | @absent _ s _ here hdir hshort hnone hempty heq =>
    refine .absent (hkeep hdir fun _ _ => nofun) hshort ?_ hempty heq
    rw [hnode] at hnone
    split at hnone
    · exact nomatch hnone
    · exact hnone
  | link hdir hshort hlink hlast heq =>
    exact .link (hkeep hdir fun _ _ => nofun) hshort (hkeep hlink fun _ _ => nofun) hlast heq
  | follow hdir hshort hlink hon _ ih =>
    exact .follow (hkeep hdir fun _ _ => nofun) hshort (hkeep hlink fun _ _ => nofun) hon ih
  | @enter _ s rest here node hdir hshort hnext hnot hwalk ih =>
    have hdir := hkeep hdir fun _ _ => nofun
    cases node with
    | link target => exact absurd rfl (hnot target)
    | directory => exact .enter hdir hshort (hkeep hnext fun _ _ => nofun) hnot ih
    | file c' x' =>
      -- nothing is entered behind a file, so the walk ends here
      obtain ⟨rfl, rfl⟩ : rest = [] ∧ l = Path.enter here s := by
        cases hwalk with
        | done => exact ⟨rfl, rfl⟩
        | _ => simp_all
      rw [hnode] at hnext
      split at hnext
      next heq =>
        rw [← heq] at hold
        rcases hold with hnone | ⟨c, x, hfile⟩
        · exact .absent hdir hshort hnone rfl rfl
        · exact .enter hdir hshort hfile (fun _ => nofun) (.done _)
      · exact .enter hdir hshort hnext (fun _ => nofun) (.done _)

/-! ## Walks of paths -/

theorem walk_ok_iff_reaches : t.walk followLast cwd p = .ok l ↔
    Walkable p ∧ Reaches t followLast l maxLinks p.body (if p.isAbsolute then [] else cwd) := by
  rw [walk_ok_iff, walkWithin_ok_iff]

theorem node?_of_walk (h : t.walk followLast cwd p = .ok l) :
    t.node? (if p.isAbsolute then [] else cwd) = some .directory := by
  obtain ⟨-, h⟩ := walk_ok_iff_reaches.mp h
  obtain ⟨s, rest, hbody, -⟩ := p.exists_body_eq_cons
  rw [hbody] at h
  cases h <;> assumption

theorem room_of_walk_to_none (h : t.walk followLast cwd p = .ok l) (hnone : t.node? l = none) : t.Room l := by
  obtain ⟨_, _, -, hslash⟩ := p.exists_body_eq_cons
  exact (walk_ok_iff_reaches.mp h).2.room hslash (by simp [node?_of_walk h]) hnone

theorem room_of_walk (hwf : t.WellFormed) (h : t.walk followLast cwd p = .ok l)
    (hdir : t.node? l ≠ some .directory) : t.Room l := by
  by_cases hnone : t.node? l = none
  · exact room_of_walk_to_none h hnone
  · exact room_of_node? hwf hnone hdir

theorem node?_ne_link_of_walk (h : t.walk true cwd p = .ok l) (target : Path) : t.node? l ≠ some (.link target) :=
  (walk_ok_iff_reaches.mp h).2.node?_ne_link (by simp [node?_of_walk h]) target

theorem walk_all_links (h : t.walk followLast cwd p = .ok l) (hl : ∀ target, t.node? l ≠ some (.link target)) :
    t.walk true cwd p = .ok l := by
  obtain ⟨hp, h⟩ := walk_ok_iff_reaches.mp h
  exact walk_ok_iff_reaches.mpr ⟨hp, h.all_links hl⟩

theorem walk_of_file {c : Content} {x : Bool} {k : Location} (h : t'.walk followLast cwd p = .ok l)
    (hold : t.node? k = none ∨ ∃ c x, t.node? k = some (.file c x))
    (hnode : ∀ j, t'.node? j = if j = k then some (.file c x) else t.node? j) : t.walk followLast cwd p = .ok l := by
  obtain ⟨hp, h⟩ := walk_ok_iff_reaches.mp h
  exact walk_ok_iff_reaches.mpr ⟨hp, h.of_file hold hnode⟩

end FileTree

end YamlInclude
