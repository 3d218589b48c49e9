import YamlInclude.Proofs.Normal

/-! # Folding dots

Folded segments lead from any place to where the segments themselves lead. So normal forms stay as they are, and a
path that is joined to another one has the normal form that their normal forms have when they are joined.
-/

namespace YamlInclude

theorem replicate_append_inj {α : Type} {x : α} {i j : Nat} {xs ys : List α} (hxs : x ∉ xs) (hys : x ∉ ys) :
    List.replicate i x ++ xs = List.replicate j x ++ ys ↔ i = j ∧ xs = ys := by
  constructor
  · intro h
    induction i generalizing j with
    | zero =>
      cases j with
      | zero => exact ⟨rfl, h⟩
      | succ j => exact absurd (by rw [show xs = _ from h]; simp [List.replicate_succ]) hxs
    | succ i ih =>
      cases j with
      | zero => exact absurd (by rw [show ys = _ from h.symm]; simp [List.replicate_succ]) hys
      | succ j =>
        obtain ⟨rfl, heq⟩ := ih (List.cons.inj h).2
        exact ⟨rfl, heq⟩
  · rintro ⟨rfl, rfl⟩
    rfl

namespace Path

variable {p q r : Path} {absolute inner : Bool} {here done segments names : List Name} {s n : Name} {l : Location}

/-! ## Folds -/

theorem foldSegment_of_isVoid (h : isVoid s = true) : foldSegment absolute done s = done := if_pos h

theorem foldSegment_of_ne (h : isVoid s = false) (hup : s ≠ ['.', '.']) : foldSegment absolute done s = s :: done := by
  unfold foldSegment
  rw [h, if_neg Bool.false_ne_true, if_neg hup]

theorem foldSegment_of_isName (h : IsName n) : foldSegment absolute done n = n :: done :=
  foldSegment_of_ne h.not_isVoid h.ne_parent

theorem foldSegment_parent_cons (h : s ≠ ['.', '.']) : foldSegment absolute (s :: done) ['.', '.'] = done := by
  simp [foldSegment, isVoid, h]

theorem foldl_foldSegment_of_isName (h : ∀ n ∈ names, IsName n) :
    names.foldl (foldSegment absolute) done = names.reverse ++ done := by
  induction names generalizing done with
  | nil => rfl
  | cons n names ih =>
    rw [List.foldl_cons, foldSegment_of_isName (h n List.mem_cons_self), ih fun m hm => h m (List.mem_cons_of_mem _ hm)]
    simp

theorem foldSegment_cases (absolute : Bool) (done : List Name) (s : Name) :
    foldSegment absolute done s = s :: done ∧ isVoid s = false ∨ ∀ n ∈ foldSegment absolute done s, n ∈ done := by
  by_cases hvoid : isVoid s = true
  · exact Or.inr (by simp [foldSegment_of_isVoid hvoid])
  by_cases hup : s = ['.', '.']
  · subst hup
    rcases done with _ | ⟨t, done⟩
    · cases absolute
      · exact Or.inl ⟨rfl, rfl⟩
      · exact Or.inr (by simp [foldSegment, isVoid])
    · by_cases ht : t = ['.', '.']
      · subst ht
        exact Or.inl ⟨rfl, rfl⟩
      · rw [foldSegment_parent_cons ht]
        exact Or.inr fun n => List.mem_cons_of_mem _
  · exact Or.inl ⟨foldSegment_of_ne (Bool.eq_false_iff.mpr hvoid) hup, Bool.eq_false_iff.mpr hvoid⟩

theorem foldl_foldSegment_of_isVoid (h : ∀ s ∈ segments, isVoid s = true) :
    segments.foldl (foldSegment absolute) done = done := by
  induction segments with
  | nil => rfl
  | cons s segments ih =>
    rw [List.foldl_cons, foldSegment_of_isVoid (h s List.mem_cons_self), ih fun t ht => h t (List.mem_cons_of_mem _ ht)]

theorem length_foldSegment_le (absolute : Bool) (done : List Name) (s : Name) :
    (foldSegment absolute done s).length ≤ done.length + 1 := by
  unfold foldSegment
  split
  · exact Nat.le_succ _
  · split
    · split
      · split
        · exact Nat.le_refl _
        · exact Nat.le_add_right_of_le (Nat.le_succ _)
      · split <;> simp
    · exact Nat.le_refl _

theorem mem_foldl_foldSegment (h : n ∈ segments.foldl (foldSegment absolute) done) :
    n ∈ done ∨ n ∈ segments ∧ isVoid n = false := by
  induction segments generalizing done with
  | nil => exact Or.inl h
  | cons s segments ih =>
    obtain hn | ⟨hn, hvoid⟩ := ih h
    · obtain ⟨heq, hvoid⟩ | hdone := foldSegment_cases absolute done s
      · rw [heq] at hn
        rcases List.mem_cons.mp hn with rfl | hn
        · exact Or.inr ⟨List.mem_cons_self, hvoid⟩
        · exact Or.inl hn
      · exact Or.inl (hdone n hn)
    · exact Or.inr ⟨List.mem_cons_of_mem _ hn, hvoid⟩

theorem mem_foldSegments (h : n ∈ foldSegments absolute segments) : n ∈ segments ∧ isVoid n = false := by
  obtain hn | hn := mem_foldl_foldSegment (List.mem_reverse.mp h)
  · exact nomatch hn
  · exact hn

/-- One more segment leads from where the folded ones lead to where they lead with it folded in. A fold that stops at
the root is followed from the root only. -/
theorem foldl_foldSegment (hroot : inner = true → foldSegment absolute here ['.', '.'] = here)
    (hdone : ∀ n ∈ done, isVoid n = false) (s : Name) :
    (foldSegment inner done s).reverse.foldl (foldSegment absolute) here =
      foldSegment absolute (done.reverse.foldl (foldSegment absolute) here) s := by
  have hcons (s : Name) : (s :: done).reverse.foldl (foldSegment absolute) here =
      foldSegment absolute (done.reverse.foldl (foldSegment absolute) here) s := by simp
  by_cases hvoid : isVoid s = true
  · rw [foldSegment_of_isVoid hvoid, foldSegment_of_isVoid hvoid]
  by_cases hup : s = ['.', '.']
  · subst hup
    rcases done with _ | ⟨t, done⟩
    · cases inner
      · rfl
      · exact (hroot rfl).symm
    · by_cases ht : t = ['.', '.']
      · subst ht
        exact hcons _
      · -- the name before the step goes away in both
        rw [foldSegment_parent_cons ht, List.reverse_cons, List.foldl_append, List.foldl_cons, List.foldl_nil,
          foldSegment_of_ne (hdone t List.mem_cons_self) ht, foldSegment_parent_cons ht]
  · rw [foldSegment_of_ne (Bool.eq_false_iff.mpr hvoid) hup]
    exact hcons s

theorem foldl_foldl_foldSegment (hroot : inner = true → foldSegment absolute here ['.', '.'] = here)
    (hdone : ∀ n ∈ done, isVoid n = false) (segments : List Name) :
    (segments.foldl (foldSegment inner) done).reverse.foldl (foldSegment absolute) here =
      segments.foldl (foldSegment absolute) (done.reverse.foldl (foldSegment absolute) here) := by
  induction segments generalizing done with
  | nil => rfl
  | cons s segments ih =>
    have hfolded : ∀ n ∈ foldSegment inner done s, isVoid n = false := by
      intro n hn
      obtain hn | ⟨-, hvoid⟩ : n ∈ done ∨ n ∈ [s] ∧ isVoid n = false := mem_foldl_foldSegment hn
      · exact hdone n hn
      · exact hvoid
    rw [List.foldl_cons, ih hfolded, foldl_foldSegment hroot hdone, List.foldl_cons]

theorem foldl_foldSegments (hroot : inner = true → foldSegment absolute here ['.', '.'] = here)
    (segments : List Name) :
    (foldSegments inner segments).foldl (foldSegment absolute) here = segments.foldl (foldSegment absolute) here :=
  foldl_foldl_foldSegment hroot (by simp) segments

/-! ## Normal forms -/

def folded (p : Path) : List Name := foldSegments p.isAbsolute p.body

theorem foldl_folded (hroot : p.isAbsolute = true → foldSegment absolute here ['.', '.'] = here) :
    p.folded.foldl (foldSegment absolute) here = p.body.foldl (foldSegment absolute) here :=
  foldl_foldSegments hroot p.body

theorem noSlash_of_mem_body (h : n ∈ p.body) : '/' ∉ n := by
  rw [body_eq] at h
  exact not_mem_of_mem_splitChar h

theorem mem_folded (h : n ∈ p.folded) : '/' ∉ n ∧ isVoid n = false := by
  obtain ⟨hn, hvoid⟩ := mem_foldSegments h
  exact ⟨noSlash_of_mem_body hn, hvoid⟩

theorem isAbsolute_ofSegments (absolute : Bool) (hne : segments ≠ []) (h : ∀ n ∈ segments, '/' ∉ n ∧ isVoid n = false) :
    (ofSegments absolute segments).isAbsolute = absolute := by
  cases absolute with
  | true => simp [ofSegments, isAbsolute]
  | false =>
    obtain ⟨n, rest, rfl⟩ := List.exists_cons_of_ne_nil hne
    obtain ⟨hslash, hvoid⟩ := h n List.mem_cons_self
    obtain ⟨c, cs, rfl⟩ : ∃ c cs, n = c :: cs := List.exists_cons_of_ne_nil (by rintro rfl; cases hvoid)
    have hjoin : ∃ ds, joinChar '/' ((c :: cs) :: rest) = c :: ds := by
      cases rest with
      | nil => exact ⟨cs, rfl⟩
      | cons m rest => exact ⟨_, rfl⟩
    obtain ⟨ds, hds⟩ := hjoin
    simpa [ofSegments, isAbsolute, hds] using Ne.symm (List.ne_of_not_mem_cons hslash)

theorem body_ofSegments (absolute : Bool) (hne : segments ≠ []) (h : ∀ n ∈ segments, '/' ∉ n ∧ isVoid n = false) :
    (ofSegments absolute segments).body = segments := by
  have hsplit := splitChar_joinChar hne fun n hn => (h n hn).1
  rw [body, isAbsolute_ofSegments absolute hne h]
  cases absolute <;> simp [ofSegments, hsplit]

theorem normalize_of_folded (h : p.folded ≠ []) : p.normalize = ofSegments p.isAbsolute p.folded := by
  unfold normalize
  split
  next hfold => exact absurd hfold h
  · rfl

theorem normalize_of_folded_nil (h : p.folded = []) :
    p.normalize = if p.isAbsolute then ofChars ['/'] else ofChars ['.'] := by
  unfold normalize
  rw [folded] at h
  rw [h]
  cases p.isAbsolute <;> rfl

@[simp] theorem isAbsolute_normalize (p : Path) : p.normalize.isAbsolute = p.isAbsolute := by
  by_cases h : p.folded = []
  · rw [normalize_of_folded_nil h]
    cases p.isAbsolute <;> simp [isAbsolute]
  · rw [normalize_of_folded h, isAbsolute_ofSegments _ h fun n => mem_folded]

theorem foldl_body_normalize (hroot : p.isAbsolute = true → foldSegment absolute here ['.', '.'] = here) :
    p.normalize.body.foldl (foldSegment absolute) here = p.body.foldl (foldSegment absolute) here := by
  rw [← foldl_folded hroot]
  by_cases h : p.folded = []
  · have hbody : p.normalize.body = [if p.isAbsolute then [] else ['.']] := by
      rw [normalize_of_folded_nil h]
      cases p.isAbsolute <;> rfl
    rw [hbody, h]
    refine foldSegment_of_isVoid ?_
    split <;> rfl
  · rw [normalize_of_folded h, body_ofSegments _ h fun n => mem_folded]

theorem folded_path (h : ∀ n ∈ l, IsName n) : l.path.folded = l := by
  have habs := isAbsolute_path l
  by_cases hl : l = []
  · subst hl
    rfl
  · rw [folded, habs, body_path h hl, foldSegments, foldl_foldSegment_of_isName h]
    simp

theorem foldSegments_body_normalize (p : Path) :
    foldSegments p.isAbsolute p.normalize.body = foldSegments p.isAbsolute p.body :=
  congrArg List.reverse (foldl_body_normalize fun h => by rw [h]; rfl)

@[simp] theorem folded_normalize (p : Path) : p.normalize.folded = p.folded := by
  rw [folded, isAbsolute_normalize, foldSegments_body_normalize, folded]

theorem normalize_eq_iff : p.normalize = q.normalize ↔ p.isAbsolute = q.isAbsolute ∧ p.folded = q.folded := by
  constructor
  · intro h
    rw [← isAbsolute_normalize p, ← folded_normalize p, h]
    simp
  · rintro ⟨habs, hfold⟩
    by_cases h : p.folded = []
    · rw [normalize_of_folded_nil h, normalize_of_folded_nil (hfold ▸ h), habs]
    · rw [normalize_of_folded h, normalize_of_folded (hfold ▸ h), habs, hfold]

@[simp] theorem normalize_normalize (p : Path) : p.normalize.normalize = p.normalize :=
  normalize_eq_iff.mpr ⟨isAbsolute_normalize p, folded_normalize p⟩

/-! ## Joined paths -/

theorem foldl_lead (p : Path) :
    p.lead.foldl (foldSegment absolute) here = p.body.foldl (foldSegment absolute) here := by
  cases hopen : p.isOpen with
  | false => rw [lead, hopen, if_neg Bool.false_ne_true]
  | true =>
    rw [body_of_isOpen hopen, List.foldl_append, List.foldl_cons, List.foldl_nil, foldSegment_of_isVoid rfl]

theorem folded_join (h : q.isAbsolute = false) :
    (p.join q).folded = (q.body.foldl (foldSegment p.isAbsolute) p.folded.reverse).reverse := by
  rw [folded, isAbsolute_join_of_relative h, body_join h, foldSegments, List.foldl_append, foldl_lead, folded,
    foldSegments, List.reverse_reverse]

theorem folded_child (h : '/' ∉ n) : (p.child n).folded = (foldSegment p.isAbsolute p.folded.reverse n).reverse := by
  have hbody : (ofChars n).body = [n] := by
    rw [body_eq, chars_ofChars, unrooted_of_not_mem h, splitChar_of_not_mem h]
  rw [child, folded_join (isAbsolute_ofChars h), hbody, List.foldl_cons, List.foldl_nil]

/-- Paths are joined like their normal forms. -/
theorem normalize_join (h : q.isAbsolute = false) :
    (p.join q).normalize = (p.normalize.join q.normalize).normalize := by
  have hq : q.normalize.isAbsolute = false := by rw [isAbsolute_normalize, h]
  refine normalize_eq_iff.mpr ⟨?_, ?_⟩
  · rw [isAbsolute_join_of_relative h, isAbsolute_join_of_relative hq, isAbsolute_normalize]
  · rw [folded_join h, folded_join hq, isAbsolute_normalize, folded_normalize,
      foldl_body_normalize fun habs => by simp [h] at habs]

/-! ## Steps up -/

/-- Whether segments, last first, are names and then steps up, which a path below the root has none of. -/
def IsFolded (absolute : Bool) (done : List Name) : Prop :=
  ∃ ups names, done = names ++ List.replicate ups ['.', '.'] ∧ (∀ n ∈ names, IsName n) ∧ (absolute = true → ups = 0)

theorem IsFolded.foldSegment (h : IsFolded absolute done) (hs : '/' ∉ s) :
    IsFolded absolute (foldSegment absolute done s) := by
  obtain ⟨ups, names, rfl, hnames, hroot⟩ := h
  by_cases hvoid : isVoid s = true
  · rw [foldSegment_of_isVoid hvoid]
    exact ⟨ups, names, rfl, hnames, hroot⟩
  by_cases hup : s = ['.', '.']
  · subst hup
    rcases names with _ | ⟨n, names⟩
    · rcases ups with _ | ups
      · cases absolute
        · exact ⟨1, [], rfl, hnames, by simp⟩
        · exact ⟨0, [], rfl, hnames, by simp⟩
      · exact ⟨ups + 2, [], rfl, hnames, fun habs => by simpa using hroot habs⟩
    · rw [List.cons_append, foldSegment_parent_cons (hnames n List.mem_cons_self).ne_parent]
      exact ⟨ups, names, rfl, fun m hm => hnames m (List.mem_cons_of_mem _ hm), hroot⟩
  · rw [foldSegment_of_ne (Bool.eq_false_iff.mpr hvoid) hup]
    refine ⟨ups, s :: names, rfl, fun n hn => ?_, hroot⟩
    rcases List.mem_cons.mp hn with rfl | hn
    · exact ⟨hs, by rw [componentOf?, if_neg hvoid, if_neg hup]⟩
    · exact hnames n hn

theorem IsFolded.foldl (h : IsFolded absolute done) (hsegments : ∀ s ∈ segments, '/' ∉ s) :
    IsFolded absolute (segments.foldl (Path.foldSegment absolute) done) := by
  induction segments generalizing done with
  | nil => exact h
  | cons s segments ih =>
    exact ih (h.foldSegment (hsegments s List.mem_cons_self)) fun s hs => hsegments s (List.mem_cons_of_mem _ hs)

theorem exists_folded_eq (p : Path) : ∃ ups names, p.folded = List.replicate ups ['.', '.'] ++ names ∧
    (∀ n ∈ names, IsName n) ∧ (p.isAbsolute = true → ups = 0) := by
  have hnil : IsFolded p.isAbsolute [] := ⟨0, [], rfl, by simp, fun _ => rfl⟩
  obtain ⟨ups, names, hfold, hnames, hroot⟩ := hnil.foldl fun s => noSlash_of_mem_body (p := p)
  refine ⟨ups, names.reverse, ?_, by simpa using hnames, hroot⟩
  rw [folded, foldSegments, hfold, List.reverse_append, List.reverse_replicate]

theorem foldl_replicate_up {ups : Nat} (hnames : ∀ n ∈ names, n ≠ ['.', '.']) (hups : ups ≤ names.length) :
    (List.replicate ups ['.', '.']).foldl (foldSegment absolute) (names ++ done) = names.drop ups ++ done := by
  induction ups generalizing names with
  | zero => rfl
  | succ ups ih =>
    obtain ⟨n, names, rfl⟩ := List.exists_cons_of_length_pos (Nat.lt_of_lt_of_le ups.succ_pos hups)
    rw [List.replicate_succ, List.foldl_cons, List.cons_append, foldSegment_parent_cons (hnames n List.mem_cons_self),
      ih (fun m hm => hnames m (List.mem_cons_of_mem _ hm)) (Nat.le_of_succ_le_succ hups), List.drop_succ_cons]

theorem foldl_replicate_up_start (absolute : Bool) (ups more : Nat) (hroot : absolute = true → more = 0) :
    (List.replicate ups ['.', '.']).foldl (foldSegment absolute) (List.replicate more ['.', '.']) =
      List.replicate (if absolute then 0 else more + ups) ['.', '.'] := by
  induction ups generalizing more with
  | zero =>
    cases absolute with
    | true => rw [hroot rfl]; rfl
    | false => rfl
  | succ ups ih =>
    rw [List.replicate_succ, List.foldl_cons]
    cases absolute with
    | true =>
      rw [hroot rfl]
      exact ih 0 (fun _ => rfl)
    | false =>
      have hstep : foldSegment false (List.replicate more ['.', '.']) ['.', '.'] =
          List.replicate (more + 1) ['.', '.'] := by
        cases more <;> rfl
      rw [hstep, ih (more + 1) (by simp)]
      simp only [Bool.false_eq_true, if_false]
      rw [Nat.add_right_comm, Nat.add_assoc]

end Path

end YamlInclude
