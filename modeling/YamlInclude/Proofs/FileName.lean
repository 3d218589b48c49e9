import YamlInclude.Proofs.Written

/-! # File names

The file name of a path is its last name, and only void segments follow it. With another extension that has a dot in
it the path has another file name or none, so a file and the one that its text is written to first are at different
places.
-/

namespace YamlInclude

namespace Path

variable {p q r : Path} {n ext : List Char} {segments voids : List Name}

/-! ## Void segments at the end -/

theorem eq_of_componentOf? {s : List Char} (h : componentOf? s = some (.name n)) : s = n := by
  unfold componentOf? at h
  split at h
  · cases h
  split at h
  · cases h
  · cases h
    rfl

theorem componentsWith_concat_void (absolute : Bool) (hne : segments ≠ []) {s : List Char} (hs : isVoid s = true) :
    componentsWith absolute (segments ++ [s]) = componentsWith absolute segments := by
  have hof (xs : List (List Char)) : componentsOf (xs ++ [s]) = componentsOf xs := by
    simp [componentsOf_concat, componentOf?, hs]
  unfold componentsWith
  split
  · rw [hof]
  · obtain ⟨first, rest, rfl⟩ := List.exists_cons_of_ne_nil hne
    by_cases hfirst : first = ['.']
    · subst hfirst
      exact congrArg (Component.current :: ·) (hof rest)
    · have hplain (xs : List (List Char)) : componentsWith false (first :: xs) = componentsOf (first :: xs) := by
        simp [componentsWith, hfirst]
      exact (hplain (rest ++ [s])).trans ((hof (first :: rest)).trans (hplain rest).symm)

theorem componentsWith_append_void (absolute : Bool) (hne : segments ≠ []) (h : ∀ s ∈ voids, isVoid s = true) :
    componentsWith absolute (segments ++ voids) = componentsWith absolute segments := by
  induction voids using List.reverseRecOn with
  | nil => rw [List.append_nil]
  | append_singleton voids s ih =>
    rw [← List.append_assoc, componentsWith_concat_void absolute (by simp [hne]) (h s (by simp)),
      ih fun m hm => h m (by simp [hm])]

theorem exists_name_of_getLast? (absolute : Bool) (h : (componentsWith absolute segments).getLast? = some (.name n)) :
    ∃ before voids, segments = before ++ n :: voids ∧ (∀ s ∈ voids, isVoid s = true) ∧
      componentOf? n = some (.name n) := by
  induction segments using List.reverseRecOn with
  | nil => cases absolute <;> simp [componentsWith, componentsOf] at h
  | append_singleton segments s ih =>
    by_cases hs : isVoid s = true
    · by_cases hne : segments = []
      · subst hne
        by_cases hdot : s = ['.']
        · subst hdot
          cases absolute <;> simp [componentsWith, componentsOf, componentOf?, isVoid] at h
        · rw [componentsWith_concat _ _ hdot] at h
          cases absolute <;> simp [componentsWith, componentsOf, componentOf?, hs] at h
      · rw [componentsWith_concat_void absolute hne hs] at h
        obtain ⟨before, voids, rfl, hvoids, hn⟩ := ih h
        refine ⟨before, voids ++ [s], by simp, fun m hm => ?_, hn⟩
        rcases List.mem_append.mp hm with hm | hm
        · exact hvoids m hm
        · rwa [List.mem_singleton.mp hm]
    · have hdot : s ≠ ['.'] := by
        rintro rfl
        exact hs rfl
      obtain ⟨c, hc⟩ : ∃ c, componentOf? s = some c := by
        rw [componentOf?, if_neg hs]
        split <;> exact ⟨_, rfl⟩
      rw [componentsWith_concat _ _ hdot, hc] at h
      have hname : c = .name n := by simpa using h
      subst hname
      obtain rfl := eq_of_componentOf? hc
      exact ⟨segments, [], rfl, by simp, hc⟩

theorem exists_body_of_fileName? (h : p.fileName? = some n) :
    ∃ before voids, p.body = before ++ n :: voids ∧ (∀ s ∈ voids, isVoid s = true) ∧ IsName n := by
  have hlast : (componentsWith p.isAbsolute p.body).getLast? = some (.name n) := by
    rw [fileName?, components_eq_body] at h
    split at h
    next heq => rw [heq, Option.some.inj h]
    · cases h
  obtain ⟨before, voids, hbody, hvoids, hn⟩ := exists_name_of_getLast? _ hlast
  refine ⟨before, voids, hbody, hvoids, ?_, hn⟩
  obtain ⟨_, _, -, hslash⟩ := p.exists_body_eq_cons
  exact hslash n (by simp [hbody])

/-- Segments as they follow a path. -/
def trail (segments : List Name) : List Char := segments.flatMap fun s => '/' :: s

theorem trail_concat (segments : List Name) (s : Name) : trail (segments ++ [s]) = trail segments ++ '/' :: s := by
  simp [trail]

theorem isVoid_take {s : List Char} (hs : isVoid s = true) (k : Nat) : isVoid (s.take k) = true := by
  rcases Bool.or_eq_true_iff.mp hs with hs | hs
  · rw [List.isEmpty_iff.mp hs, List.take_nil]
    rfl
  · rw [beq_iff_eq.mp hs]
    cases k with
    | zero => rfl
    | succ k => simp [isVoid]

theorem exists_trail_take (h : ∀ s ∈ voids, isVoid s = true) (k : Nat) :
    ∃ voids', (∀ s ∈ voids', isVoid s = true) ∧ (trail voids).take k = trail voids' := by
  induction voids generalizing k with
  | nil => exact ⟨[], by simp, by simp [trail]⟩
  | cons s voids ih =>
    cases k with
    | zero => exact ⟨[], by simp, by simp [trail]⟩
    | succ k =>
      obtain ⟨voids', hvoids', htake⟩ := ih (fun m hm => h m (List.mem_cons_of_mem _ hm)) (k - s.length)
      refine ⟨s.take k :: voids', fun m hm => ?_, ?_⟩
      · rcases List.mem_cons.mp hm with rfl | hm
        · exact isVoid_take (h s List.mem_cons_self) k
        · exact hvoids' m hm
      · have hcons (t : Name) (ts : List Name) : trail (t :: ts) = '/' :: (t ++ trail ts) := by simp [trail]
        rw [hcons, hcons, List.take_succ_cons, List.take_append, htake]

theorem body_trail (hq : q.chars ≠ []) (h : ∀ s ∈ segments, '/' ∉ s) :
    (ofChars (q.chars ++ trail segments)).body = q.body ++ segments := by
  induction segments using List.reverseRecOn with
  | nil =>
    simp only [trail, List.flatMap_nil, List.append_nil]
    rw [ofChars_chars]
  | append_singleton segments s ih =>
    have ih := ih fun m hm => h m (by simp [hm])
    rw [body_eq, chars_ofChars] at ih ⊢
    rw [trail_concat, ← List.append_assoc, unrooted_append (by simp [hq]), splitChar_append, ih,
      splitChar_of_not_mem (h s (by simp)), List.append_assoc]

theorem noSlash_of_isVoid {s : List Char} (h : isVoid s = true) : '/' ∉ s := by
  rcases Bool.or_eq_true_iff.mp h with hs | hs
  · simp [List.isEmpty_iff.mp hs]
  · simp [beq_iff_eq.mp hs]

theorem chars_child_ne_nil (hn : IsName n) : (q.child n).chars ≠ [] := by
  rw [chars_child hn.noSlash]
  split <;> simp [hn.ne_nil]

/-- Whether a path is a name below another path with void segments behind it. -/
structure Trailed (p q : Path) (n : Name) (voids : List Name) : Prop where
  isName : IsName n
  void : ∀ s ∈ voids, isVoid s = true
  chars : p.chars = (q.child n).chars ++ trail voids

theorem trimVoid_append_void (h : ∀ s ∈ voids, isVoid s = true) : trimVoid (segments ++ voids) = trimVoid segments := by
  have hdrop : voids.reverse.dropWhile isVoid = [] := by
    rw [List.dropWhile_eq_nil_iff]
    exact fun s hs => h s (List.mem_reverse.mp hs)
  rw [trimVoid, List.reverse_append, List.dropWhile_append, hdrop]
  rfl

theorem trimmedBody_append_void (absolute : Bool) (hn : isVoid n = false) (h : ∀ s ∈ voids, isVoid s = true) :
    trimmedBody absolute (segments ++ n :: voids) = segments ++ [n] := by
  have htrim (xs : List Name) : trimVoid (xs ++ voids) = trimVoid xs := trimVoid_append_void h
  rw [← trimmedBody_concat absolute segments hn, ← List.singleton_append, ← List.append_assoc]
  unfold trimmedBody
  cases segments with
  | nil =>
    have hdot : n ≠ ['.'] := by
      rintro rfl
      cases hn
    cases absolute <;> simp [hdot, ← htrim [n]]
  | cons s segments =>
    by_cases hs : s = ['.']
    · subst hs
      cases absolute
      · exact congrArg (['.'] :: ·) (htrim _)
      · exact htrim _
    · cases absolute <;> simp [hs, ← htrim (s :: (segments ++ [n]))]

namespace Trailed

theorem path_eq (h : Trailed p q n voids) : p = ofChars ((q.child n).chars ++ trail voids) :=
  eq_of_chars (h.chars.trans (chars_ofChars _).symm)

theorem isAbsolute (h : Trailed p q n voids) : p.isAbsolute = q.isAbsolute := by
  obtain ⟨c, cs, hcs⟩ := List.exists_cons_of_ne_nil (chars_child_ne_nil (q := q) h.isName)
  rw [← isAbsolute_child (p := q) h.isName.noSlash, Path.isAbsolute, Path.isAbsolute, h.chars, hcs]
  rfl

theorem body (h : Trailed p q n voids) : p.body = q.lead ++ n :: voids := by
  rw [h.path_eq, body_trail (chars_child_ne_nil h.isName) fun s hs => noSlash_of_isVoid (h.void s hs),
    body_child h.isName.noSlash, List.append_assoc, List.singleton_append]

theorem components (h : Trailed p q n voids) : p.components = q.components ++ [.name n] := by
  have hcut : q.lead ++ n :: voids = q.lead ++ [n] ++ voids := by simp
  rw [components_eq_body, h.isAbsolute, h.body, hcut, componentsWith_append_void _ (by simp) h.void,
    componentsWith_concat _ _ h.isName.ne_current, ← components_eq_lead, h.isName.component]
  rfl

theorem fileName? (h : Trailed p q n voids) : p.fileName? = some n := by
  simp [Path.fileName?, h.components]

theorem setExtension (h : Trailed p q n voids) (hext : '/' ∉ ext) :
    p.setExtension ext = q.child ((splitExtension n).1 ++ '.' :: ext) := by
  rw [← setExtension_child h.isName hext, Path.setExtension, Path.setExtension, h.fileName?, fileName?_child h.isName,
    h.isAbsolute, isAbsolute_child h.isName.noSlash, h.body, body_child h.isName.noSlash,
    trimmedBody_append_void _ h.isName.not_isVoid h.void, trimmedBody_concat _ _ h.isName.not_isVoid]

end Trailed

theorem chars_ofSegments_append (absolute : Bool) (hne : segments ≠ []) (more : List Name) :
    (ofSegments absolute (segments ++ more)).chars = (ofSegments absolute segments).chars ++ trail more := by
  induction more using List.reverseRecOn with
  | nil => simp [trail]
  | append_singleton more s ih =>
    rw [ofSegments, chars_ofChars] at ih ⊢
    rw [← List.append_assoc, joinChar_append_singleton (by simp [hne]), trail_concat, ← List.append_assoc, ← ih]
    split <;> rfl

theorem EndsIn.exists_child (h : p.EndsIn n) (hn : '/' ∉ n) : ∃ q, p = child q n := by
  have hopen (base : List Char) (hbase : (ofChars base).isOpen = true) (hchars : p.chars = base ++ n) :
      p = (ofChars base).child n := by
    refine eq_of_chars ?_
    rw [chars_child hn, hbase, if_pos rfl, chars_ofChars, hchars]
  obtain hchars | ⟨cs, hchars⟩ := h
  · exact ⟨_, hopen [] rfl (by simpa using hchars)⟩
  · exact ⟨_, hopen (cs ++ ['/']) (by simp [isOpen]) (by simpa using hchars)⟩

/-- A path with a file name is that name below another path, with void segments behind it. -/
theorem exists_trailed (h : p.fileName? = some n) : ∃ q voids, Trailed p q n voids := by
  obtain ⟨before, voids, hbody, hvoids, hn⟩ := exists_body_of_fileName? h
  have hends : (ofSegments p.isAbsolute (before ++ [n])).EndsIn n := endsIn_ofSegments p.isAbsolute before
  obtain ⟨q, hq⟩ := hends.exists_child hn.noSlash
  refine ⟨q, voids, hn, hvoids, ?_⟩
  have hcut : before ++ n :: voids = before ++ [n] ++ voids := by simp
  rw [← hq, ← chars_ofSegments_append _ (by simp), ← hcut, ← hbody, ofSegments_body]

/-! ## Other extensions -/

theorem splitExtension_none {stem : List Char} (h : splitExtension n = (stem, none)) : stem = n := by
  unfold splitExtension at h
  dsimp only at h
  split at h
  · exact (Prod.mk.inj h).1.symm
  · cases h

theorem dot_not_mem_extension {stem e : List Char} (h : splitExtension n = (stem, some e)) : '.' ∉ e := by
  unfold splitExtension at h
  dsimp only at h
  split at h
  · cases h
  · obtain ⟨-, he⟩ := Prod.mk.inj h
    rw [← Option.some.inj he, List.mem_reverse]
    intro hmem
    simpa using List.mem_takeWhile_imp hmem

theorem splitExtension_append {stem e : List Char} (hstem : stem ≠ []) (he : '.' ∉ e) :
    splitExtension (stem ++ '.' :: e) = (stem, some e) := by
  have htake : ((stem ++ '.' :: e).reverse.takeWhile (· != '.')).reverse = e := by
    have hall : ∀ c ∈ e.reverse, (c != '.') = true := fun c hc =>
      bne_iff_ne.mpr fun heq => he (heq ▸ List.mem_reverse.mp hc)
    rw [List.reverse_append, List.reverse_cons, List.append_assoc, List.takeWhile_append_of_pos hall]
    simp
  unfold splitExtension
  rw [htake]
  have hlength : (stem ++ '.' :: e).length - e.length - 1 = stem.length := by simp; omega
  dsimp only
  have hlong : e.length ≠ (stem ++ '.' :: e).length := by simp; omega
  rw [hlength, List.take_left' rfl, decide_eq_false hlong, List.isEmpty_eq_false_iff.mpr hstem]
  rfl

theorem fileName?_setExtension (h : p.fileName? = some n) (hn : IsName ((splitExtension n).1 ++ '.' :: ext)) :
    (p.setExtension ext).fileName? = some ((splitExtension n).1 ++ '.' :: ext) := by
  rw [setExtension, h]
  exact (endsIn_ofSegments _ _).fileName? hn

theorem isName_of_stem {stem e : List Char} (hstem : stem ≠ []) (hslash : '/' ∉ stem ++ '.' :: e)
    (hup : stem ++ '.' :: e ≠ ['.', '.']) : IsName (stem ++ '.' :: e) := by
  have hvoid : isVoid (stem ++ '.' :: e) = false := by
    obtain ⟨d, ds, hds⟩ := List.exists_cons_of_ne_nil hstem
    simp [isVoid, hds]
  exact ⟨hslash, by rw [componentOf?, hvoid, if_neg Bool.false_ne_true, if_neg hup]⟩

/-- A path that loses as many characters as its extension has loses a part of what follows its file name, or all of
that and an end of the extension. The dot before the extension stays. -/
theorem Trailed.cut {stem e : List Char} (h : Trailed p q n voids) (hsplit : splitExtension n = (stem, some e))
    (hcut : r = ofChars (p.chars.take (p.chars.length - e.length))) :
    (∃ voids', Trailed r q n voids') ∨
      (trail voids).length < e.length ∧ r = q.child (stem ++ '.' :: e.take (trail voids).length) := by
  obtain ⟨hname, -⟩ := splitExtension_some hsplit
  by_cases hshort : e.length ≤ (trail voids).length
  · obtain ⟨voids', hvoids', htake⟩ := exists_trail_take h.void ((trail voids).length - e.length)
    refine Or.inl ⟨voids', h.isName, hvoids', ?_⟩
    rw [hcut, chars_ofChars, h.chars, List.length_append, Nat.add_sub_assoc hshort, List.take_length_add_append, htake]
  · let k := (trail voids).length
    have hm : n = stem ++ '.' :: e.take k ++ e.drop k := by
      rw [hname, List.append_assoc, List.cons_append, List.take_append_drop]
    have hlength : p.chars.length - e.length = (q.child n).chars.length - (e.drop k).length := by
      rw [h.chars, List.length_append, List.length_drop]
      omega
    refine Or.inr ⟨Nat.lt_of_not_le hshort, ?_⟩
    rw [hcut, hlength, h.chars, List.take_append_of_le_length (Nat.sub_le _ _), hm]
    exact cut_child (hm ▸ h.isName.noSlash)

/-- A path that loses as many characters as its extension has keeps the stem of its file name, unless what is left of
the name is a step to the directory above. -/
theorem fileName?_cut {stem e : List Char} (h : p.fileName? = some n) (hsplit : splitExtension n = (stem, some e))
    (hcut : r = ofChars (p.chars.take (p.chars.length - e.length))) :
    r.fileName? = none ∨ ∃ m, r.fileName? = some m ∧ (splitExtension m).1 = stem := by
  obtain ⟨q, voids, htrailed⟩ := exists_trailed h
  obtain ⟨hname, hstem⟩ := splitExtension_some hsplit
  obtain ⟨voids', hr⟩ | ⟨-, hr⟩ := htrailed.cut hsplit hcut
  · exact Or.inr ⟨n, hr.fileName?, by rw [hsplit]⟩
  · generalize hk : (trail voids).length = k at hr
    by_cases hup : stem ++ '.' :: e.take k = ['.', '.']
    · refine Or.inl ?_
      rw [hr, hup, fileName?, components_child (c := .parent) (by decide) rfl]
      simp
    · have hslash : '/' ∉ stem ++ '.' :: e.take k := by
        intro hmem
        refine htrailed.isName.noSlash (hname ▸ ?_)
        rw [← List.take_append_drop k e, ← List.cons_append, ← List.append_assoc]
        exact List.mem_append_left _ hmem
      refine Or.inr ⟨_, hr ▸ fileName?_child (isName_of_stem hstem hslash hup), ?_⟩
      rw [splitExtension_append hstem fun hmem => dot_not_mem_extension hsplit (List.mem_of_mem_take hmem)]

/-- With an extension that has a dot in it a path has another file name or none. -/
theorem fileName?_withExtension_ne (h : p.fileName? = some n) (hslash : '/' ∉ ext) (hdot : '.' ∈ ext)
    (hletter : ∃ c ∈ ext, c ≠ '.') : (p.withExtension ext).fileName? ≠ some n := by
  obtain ⟨_, _, htrailed⟩ := exists_trailed h
  have hn := htrailed.isName
  have hset {r : Path} {m stem : List Char} (hr : r.fileName? = some m) (hm : (splitExtension m).1 = stem)
      (hstem : '/' ∉ stem) : (r.setExtension ext).fileName? = some (stem ++ '.' :: ext) := by
    subst hm
    obtain ⟨c, hc, hletter⟩ := hletter
    exact fileName?_setExtension hr
      (isName_append hstem (by simp [hslash]) ⟨c, List.mem_cons_of_mem _ hc, hletter⟩)
  unfold withExtension
  rw [extension?, h, Option.bind_some]
  rcases hsplit : splitExtension n with ⟨stem, _ | e⟩
  · obtain rfl := splitExtension_none hsplit
    dsimp only
    rw [hset h (by rw [hsplit]) hn.noSlash]
    intro heq
    simpa using congrArg List.length (Option.some.inj heq)
  · obtain ⟨hname, -⟩ := splitExtension_some hsplit
    have hstem : '/' ∉ stem := fun hmem => hn.noSlash (hname ▸ List.mem_append_left _ hmem)
    dsimp only
    obtain hnone | ⟨m, hm, hstem'⟩ := fileName?_cut h hsplit rfl
    · rw [setExtension, hnone]
      simp [hnone]
    · rw [hset hm hstem' hstem]
      intro heq
      have he := (List.cons.inj (List.append_cancel_left ((Option.some.inj heq).trans hname))).2
      exact dot_not_mem_extension hsplit (he ▸ hdot)

/-! ## Places -/

theorem foldl_enter_of_void (h : ∀ s ∈ voids, isVoid s = true) (here : Location) : voids.foldl enter here = here := by
  induction voids with
  | nil => rfl
  | cons s voids ih =>
    rw [List.foldl_cons, enter, if_pos (h s List.mem_cons_self), ih fun m hm => h m (List.mem_cons_of_mem _ hm)]

theorem exists_place_of_fileName? (cwd : Location) (h : p.fileName? = some n) : ∃ k, p.place cwd = k ++ [n] := by
  obtain ⟨before, voids, hbody, hvoids, hn⟩ := exists_body_of_fileName? h
  rw [place, hbody, List.foldl_append, List.foldl_cons, foldl_enter_of_void hvoids, enter_of_isName hn]
  exact ⟨_, rfl⟩

end Path

namespace FileTree

open YamlInclude.Path

variable {p : Path} {n : Name}

theorem fileName?_temporary_ne (h : p.fileName? = some n) : (temporary p).fileName? ≠ some n :=
  fileName?_withExtension_ne h (by decide) (by decide) ⟨'j', by decide, by decide⟩

theorem temporary_place_ne (cwd : Location) (h : p.fileName? = some n) (htemporary : endsWithName (temporary p) = true) :
    (temporary p).place cwd ≠ p.place cwd := by
  obtain ⟨m, hm⟩ := exists_fileName? htemporary
  obtain ⟨k, hk⟩ := exists_place_of_fileName? cwd h
  obtain ⟨l, hl⟩ := exists_place_of_fileName? cwd hm
  rw [hk, hl]
  intro heq
  obtain ⟨-, hname⟩ := List.append_inj' heq rfl
  exact fileName?_temporary_ne h (hm.trans (congrArg some (List.singleton_inj.mp hname)))

end FileTree

end YamlInclude
