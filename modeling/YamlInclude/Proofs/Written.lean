import YamlInclude.Proofs.Change

/-! # Destinations and temporary files

The last name of a destination ends with `json`, that of the file that its text is written to first with `tmp`.
So no such file stands at the place of a destination.
-/

namespace YamlInclude

namespace Path

variable {p : Path} {cs n : List Char} {c : Char} {segments : List Name}

theorem exists_body_eq_concat (h : p.chars = cs ++ [c]) (hc : c ≠ '/') :
    ∃ segments n, p.body = segments ++ [n ++ [c]] := by
  rw [body_eq, h]
  by_cases hcs : cs = []
  · subst hcs
    rw [List.nil_append, unrooted_of_not_mem (by simpa using Ne.symm hc)]
    exact splitChar_concat hc []
  · rw [unrooted_append hcs]
    exact splitChar_concat hc _

theorem place_of_body (cwd : Location) (h : p.body = segments ++ [n]) (hn : IsName n) :
    ∃ k, p.place cwd = k ++ [n] := by
  rw [place, h, List.foldl_append, List.foldl_cons, List.foldl_nil, enter_of_isName hn]
  exact ⟨_, rfl⟩

theorem componentsWith_append_empty (absolute : Bool) {empty : List Name} (h : ∀ s ∈ empty, s = []) :
    componentsWith absolute (segments ++ empty) = componentsWith absolute segments := by
  induction empty using List.reverseRecOn with
  | nil => rw [List.append_nil]
  | append_singleton empty s ih =>
    obtain rfl := h s (by simp)
    rw [← List.append_assoc, componentsWith_concat absolute _ (by simp), ih fun s hs => h s (by simp [hs])]
    simp [componentOf?, isVoid]

end Path

namespace FileTree

open YamlInclude.Path

variable {p q : Path} {cs n : List Char} {c : Char}

theorem exists_last_name (h : endsWithName p = true) : ∃ segments n empty, p.body = segments ++ n :: empty ∧
    (∀ s ∈ empty, s = []) ∧ IsName n := by
  unfold endsWithName at h
  split at h
  next s hs =>
    obtain ⟨before, hbefore⟩ := List.getLast?_eq_some_iff.mp hs
    obtain ⟨segments, rest, hbody, -, hrest⟩ := List.filter_eq_append_iff.mp hbefore
    obtain ⟨more, empty, rfl, -, hne, hempty⟩ := List.filter_eq_cons_iff.mp hrest
    refine ⟨segments ++ more, s, empty, by rw [hbody, List.append_assoc], ?_, ?_⟩
    · intro n hn
      simpa using List.filter_eq_nil_iff.mp hempty n hn
    · obtain ⟨hdot, hdots⟩ := Bool.and_eq_true_iff.mp h
      have hslash : '/' ∉ s := by
        have hs : s ∈ p.body := by simp [hbody]
        rw [body_eq] at hs
        exact not_mem_of_mem_splitChar hs
      have hvoid : isVoid s = false := by
        simp_all [isVoid]
      exact ⟨hslash, by rw [componentOf?, hvoid, if_neg Bool.false_ne_true, if_neg (by simpa using hdots)]⟩
  · simp at h

theorem exists_fileName? (h : endsWithName p = true) : ∃ n, p.fileName? = some n := by
  obtain ⟨segments, n, empty, hbody, hempty, hn⟩ := exists_last_name h
  refine ⟨n, ?_⟩
  have hcut : segments ++ n :: empty = segments ++ [n] ++ empty := by simp
  rw [fileName?, components_eq_body, hbody, hcut, componentsWith_append_empty _ hempty,
    componentsWith_concat _ _ hn.ne_current, hn.component]
  simp

theorem getLast?_body_ne_nil (hne : p.chars ≠ []) (hslash : endsWithSlash p = false) : p.body.getLast? ≠ some [] := by
  obtain hnil | ⟨cs, c, hchars⟩ := List.eq_nil_or_concat' p.chars
  · exact absurd hnil hne
  obtain ⟨segments, m, hbody⟩ := exists_body_eq_concat hchars (by simpa [endsWithSlash, hchars] using hslash)
  simp [hbody]

theorem exists_body_name (h : endsWithName p = true) (hslash : endsWithSlash p = false) :
    ∃ segments n, p.body = segments ++ [n] ∧ IsName n := by
  obtain ⟨segments, n, empty, hbody, hempty, hn⟩ := exists_last_name h
  obtain rfl | ⟨empty, s, rfl⟩ := List.eq_nil_or_concat' empty
  · exact ⟨segments, n, hbody, hn⟩
  have hlast : p.body.getLast? = some [] := by
    have hcut : segments ++ n :: (empty ++ [s]) = segments ++ n :: empty ++ [s] := by simp
    rw [hbody, hcut, List.getLast?_concat, hempty s (by simp)]
  refine absurd hlast (getLast?_body_ne_nil ?_ hslash)
  intro hnil
  have hroot : p.body = [[]] := by rw [body_eq, hnil]; rfl
  have hmem : n ∈ p.body := by simp [hbody]
  rw [hroot] at hmem
  exact hn.ne_nil (List.mem_singleton.mp hmem)

/-- The last name at the place of a path ends with the last character of the path. -/
theorem place_ends (cwd : Location) (h : endsWithName p = true) (hchars : p.chars = cs ++ [c]) (hc : c ≠ '/') :
    ∃ k n, p.place cwd = k ++ [n ++ [c]] := by
  obtain ⟨segments, n, hbody⟩ := exists_body_eq_concat hchars hc
  obtain ⟨segments', m, hbody', hm⟩ := exists_body_name h (by simpa [endsWithSlash, hchars] using hc)
  obtain ⟨k, hk⟩ := place_of_body cwd hbody' hm
  obtain ⟨-, heq⟩ := List.append_inj' (hbody.symm.trans hbody') rfl
  exact ⟨k, n, by rw [hk, List.singleton_inj.mp heq]⟩

theorem withExtension_ends (cs : List Char) (h : endsWithName (p.withExtension (cs ++ [c])) = true) :
    ∃ ds, (p.withExtension (cs ++ [c])).chars = ds ++ [c] := by
  have hset : ∀ q : Path, endsWithName (q.setExtension (cs ++ [c])) = true →
      ∃ ds, (q.setExtension (cs ++ [c])).chars = ds ++ [c] := by
    intro q hq
    cases hname : q.fileName? with
    | none =>
      obtain ⟨n, hn⟩ := exists_fileName? hq
      simp [setExtension, hname] at hn
    | some n =>
      rw [setExtension, hname]
      dsimp only
      have hends : EndsIn _ ((splitExtension n).1 ++ '.' :: (cs ++ [c])) :=
        endsIn_ofSegments q.isAbsolute (trimmedBody q.isAbsolute q.body).dropLast
      obtain hchars | ⟨ds, hchars⟩ := hends
      · exact ⟨(splitExtension n).1 ++ '.' :: cs, by simp [hchars]⟩
      · exact ⟨ds ++ '/' :: (splitExtension n).1 ++ '.' :: cs, by simp [hchars]⟩
  unfold withExtension at h ⊢
  split at h
  · exact hset _ h
  · exact hset _ h

theorem jsonPath_ends (h : endsWithName p.jsonPath = true) : ∃ ds, p.jsonPath.chars = ds ++ ['n'] := by
  unfold jsonPath at h ⊢
  split at h
  next hyaml =>
    rw [if_pos hyaml]
    exact withExtension_ends ['j', 's', 'o'] h
  next hyaml =>
    rw [if_neg hyaml]
    exact ⟨p.chars ++ ['.', 'j', 's', 'o'], by simp [Path.append]⟩

theorem place_ne_temporary (cwd : Location) (hp : endsWithName p.jsonPath = true)
    (hq : endsWithName (temporary q) = true) :
    p.jsonPath.place cwd ≠ (temporary q).place cwd := by
  obtain ⟨cs, hcs⟩ := jsonPath_ends hp
  obtain ⟨ds, hds⟩ := withExtension_ends ['j', 's', 'o', 'n', '.', 't', 'm'] hq
  obtain ⟨k, n, hk⟩ := place_ends cwd hp hcs (by decide)
  obtain ⟨l, m, hl⟩ := place_ends cwd hq hds (by decide)
  rw [hk, hl]
  intro heq
  obtain ⟨-, hname⟩ := List.append_inj' heq rfl
  obtain ⟨-, hlast⟩ := List.append_inj' (List.singleton_inj.mp hname) rfl
  exact absurd hlast (by decide)

/-! ## Temporary files that are links -/

def HoldsLink (t : FileTree) (cwd : Location) (p : Path) : Prop :=
  ∃ l target, t.walk false cwd p = .ok l ∧ t.node? l = some (.link target)

/-- A text that takes the place of a file is its content then, exactly if no link is at the temporary path once the
directories are made. A link there is written through, and takes the place of the file itself. -/
theorem replace_content_iff {t : FileTree} {text : String} (h : t.WellFormed) {cwd : Location}
    (hreplace : (t.replace cwd p text).2 = .ok ()) : ∃ m, (t.prepare cwd p).1.walk false cwd p = .ok m ∧
      ((t.replace cwd p text).1.contentAt? m = some (.text text) ↔
        ¬(t.prepare cwd p).1.HoldsLink cwd (temporary p)) := by
  obtain ⟨t₁, t₂, t₃, hprepare, hwrite, hrename, heq⟩ := replace_ok hreplace
  have hwf := wellFormed_prepare h cwd p
  rw [hprepare] at hwf ⊢
  rw [heq]
  dsimp only at hwf ⊢
  obtain ⟨l, x, hl, hdir, hwf₂, hput⟩ := write_ok hwf hwrite
  have hold : t₁.node? l = none ∨ ∃ c x, t₁.node? l = some (.file c x) := by
    rcases hnode : t₁.node? l with _ | node
    · exact Or.inl rfl
    · cases node with
      | file c x => exact Or.inr ⟨c, x, rfl⟩
      | link target => exact absurd hnode (node?_ne_link_of_walk hl target)
      | directory => exact absurd hnode hdir
  -- the text went through the link, or it stands at the temporary path itself
  obtain ⟨k, hk, -⟩ := bind_ok hrename
  have hk₁ := walk_of_file hk hold hput
  have htemporary : (∃ target, t₁.node? k = some (.link target) ∧ t₂.node? k = some (.link target)) ∨
      (∀ target, t₁.node? k ≠ some (.link target)) ∧ t₂.node? k = some (.file (.text text) x) := by
    by_cases hlink : ∃ target, t₁.node? k = some (.link target)
    · obtain ⟨target, hlink⟩ := hlink
      refine Or.inl ⟨target, hlink, ?_⟩
      rw [hput, if_neg]
      · exact hlink
      · rintro rfl
        exact node?_ne_link_of_walk hl target hlink
    · have hnot : ∀ target, t₁.node? k ≠ some (.link target) := fun target heq => hlink ⟨target, heq⟩
      obtain rfl : k = l := Except.ok.inj ((walk_all_links hk₁ hnot).symm.trans hl)
      exact Or.inr ⟨hnot, by rw [hput, if_pos rfl]⟩
  have hfile : t₂.node? k ≠ some .directory := by
    obtain ⟨_, -, hnode⟩ | ⟨-, hnode⟩ := htemporary <;> simp [hnode]
  obtain ⟨m, hm, -, -, -, hmove⟩ := rename_ok hwf₂ hk hfile hrename
  refine ⟨m, walk_of_file hm hold hput, ?_⟩
  rw [contentAt?_eq_some_iff, hmove, if_pos rfl]
  obtain ⟨target, hlink, hnode⟩ | ⟨hnot, hnode⟩ := htemporary
  · simp only [hnode, Option.some.injEq, reduceCtorEq, exists_false, false_iff, not_not]
    exact ⟨k, target, hk₁, hlink⟩
  · refine iff_of_true ⟨x, hnode⟩ ?_
    rintro ⟨k', target, hk', hlink⟩
    obtain rfl := Except.ok.inj (hk₁.symm.trans hk')
    exact hnot target hlink

end FileTree

end YamlInclude
