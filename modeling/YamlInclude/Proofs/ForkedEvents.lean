import YamlInclude.Proofs.FlowDepth

/-! # Events of tokens that part

Tokens are alike up to a place where one list ends a block or the text, and the other goes on. Then the events are alike
up to the end of that block.
-/

namespace YamlInclude.Yaml

/-- Two ways in which tokens go on from one place: a block ends or has one more key, the text ends or a block begins, or
a plain scalar ends the text. -/
inductive Fork : Located Token → List (Located Token) → Located Token → List (Located Token) → Prop
  | key {t u : Located Token} {ts us : List (Located Token)} (hstart : t.start = u.start) (ht : t.value = .blockEnd)
      (hu : u.value = .key) : Fork t ts u us
  | block {t u : Located Token} {us : List (Located Token)} (hstart : t.start = u.start) (ht : t.value = .streamEnd)
      (hu : u.value = .blockMappingStart) : Fork t [] u us
  | plain {t e : Located Token} {text : String} (ht : t.value = .scalar text true) (he : e.value = .streamEnd) :
      Fork t [e] t [e]

namespace Fork

variable {t u : Located Token} {ts us : List (Located Token)}

theorem start_eq (h : Fork t ts u us) : t.start = u.start := by
  cases h with
  | key hstart | block hstart => exact hstart
  | plain => rfl

/-- No way begins with a token that a state of the grammar looks out for, apart from those that a fork names. -/
theorem ne_left (h : Fork t ts u us) {v : Token} (hend : v ≠ .blockEnd) (hstream : v ≠ .streamEnd)
    (hscalar : ∀ text, v ≠ .scalar text true) : t.value ≠ v := by
  rintro rfl
  cases h with
  | key _ ht => exact hend ht
  | block _ ht => exact hstream ht
  | plain ht => exact hscalar _ ht

theorem ne_right (h : Fork t ts u us) {v : Token} (hkey : v ≠ .key) (hblock : v ≠ .blockMappingStart)
    (hscalar : ∀ text, v ≠ .scalar text true) : u.value ≠ v := by
  rintro rfl
  cases h with
  | key _ _ hu => exact hkey hu
  | block _ _ hu => exact hblock hu
  | plain ht => exact hscalar _ ht

theorem opener?_ne (h : Fork t ts u us) (e : Expect) : e.opener? ≠ some t.value := by
  intro heq
  cases e <;> first | cases heq | exact absurd (Option.some.inj heq).symm (h.ne_left nofun nofun nofun)

end Fork

namespace Grammar

def withTokens (g : Grammar) (ts : List (Located Token)) (failure : Option SyntaxError) : Grammar :=
  { g with tokens := ts, failure }

theorem withTokens_pop (g : Grammar) (ts : List (Located Token)) (failure : Option SyntaxError) :
    (g.withTokens ts failure).pop = g.pop.withTokens ts failure := by
  unfold pop withTokens
  dsimp only
  split <;> rfl

/-- A machine that expects no first document later. -/
def Begun (g : Grammar) : Prop := ∀ e ∈ g.stack, e ≠ .documentStart true

variable {g : Grammar} {t u q : Located Token} {ts us p qs : List (Located Token)} {f f' : Option SyntaxError}
  {m : Mark}

/-- Results of a step on tokens that part. -/
inductive Parted (t : Located Token) (ts : List (Located Token)) (u : Located Token) (us : List (Located Token))
    (a b : Marked × Grammar) : Prop
  /-- The same event, and the place where the tokens part is still to come. -/
  | same (g : Grammar) (p : List (Located Token)) (f f' : Option SyntaxError) (hbegun : g.Begun)
      (hstate : g.state = .documentStart true → a.1.event = .streamEnd) (hevent : a.1 = b.1)
      (ha : a.2 = g.withTokens (p ++ t :: ts) f) (hb : b.2 = g.withTokens (p ++ u :: us) f')
  /-- The end of a block mapping, and one more key of it. -/
  | closed (g : Grammar) (opened : Mark) (f f' : Option SyntaxError) (ht : t.value = .blockEnd)
      (ha : a = (⟨.mappingEnd, t.start⟩, (g.withTokens ts f).pop))
      (hb : (g.withTokens (u :: us) f').blockKey opened = .ok b)
  /-- The last scalar of the text. -/
  | last (properties : Properties) (text : String) (plain : Bool) (e : Located Token)
      (ha : a.1.event = .scalar properties text plain) (he : e.value = .streamEnd) (htokens : a.2.tokens = [e])

abbrev Parts (t : Located Token) (ts : List (Located Token)) (u : Located Token) (us : List (Located Token))
    (x y : Step) : Prop :=
  Both (Parted t ts u us) x y

theorem both_peek {α β : Type} {post : α → β → Prop} {k : Located Token → Except (Option SyntaxError) α}
    {k' : Located Token → Except (Option SyntaxError) β} (hnil : p = [] → Both post (k t) (k' u))
    (hcons : ∀ q qs, p = q :: qs → Both post (k q) (k' q)) :
    Both post ((g.withTokens (p ++ t :: ts) f).peek >>= k) ((g.withTokens (p ++ u :: us) f').peek >>= k') := by
  cases p with
  | nil => exact hnil rfl
  | cons q qs => exact hcons q qs rfl

theorem parts_event (hg : g.Begun) (hstate : g.state ≠ .documentStart true) (event : Event) :
    Parts t ts u us (.ok (⟨event, m⟩, g.withTokens (p ++ t :: ts) f))
      (.ok (⟨event, m⟩, g.withTokens (p ++ u :: us) f')) :=
  Both.ok (Parted.same g p f f' hg (fun h => absurd h hstate) rfl rfl rfl)

theorem parts_pop (hg : g.Begun) (event : Event) :
    Parts t ts u us (.ok (⟨event, m⟩, (g.withTokens (p ++ t :: ts) f).pop))
      (.ok (⟨event, m⟩, (g.withTokens (p ++ u :: us) f').pop)) := by
  have hpop : g.pop.Begun ∧ g.pop.state ≠ .documentStart true := by
    unfold pop
    split
    next e rest hstack =>
      have := List.forall_mem_cons.mp (hstack ▸ hg : ∀ x ∈ e :: rest, x ≠ .documentStart true)
      exact ⟨this.2, this.1⟩
    · exact ⟨hg, nofun⟩
  rw [withTokens_pop, withTokens_pop]
  exact parts_event hpop.1 hpop.2 event

theorem parts_expect (hg : g.Begun) {e : Expect} (he : e ≠ .documentStart true) (event : Event) :
    Parts t ts u us (.ok (⟨event, m⟩, (g.withTokens (p ++ t :: ts) f).expect e))
      (.ok (⟨event, m⟩, (g.withTokens (p ++ u :: us) f').expect e)) :=
  parts_event (g := g.expect e) hg he event

theorem Begun.push (hg : g.Begun) {e : Expect} (he : e ≠ .documentStart true) : (g.push e).Begun :=
  List.forall_mem_cons.mpr ⟨he, hg⟩

/-! ## Nodes -/

/-- No node begins with the end of a block or of the text, or with a key. -/
theorem node_fails (g : Grammar) (ts : List (Located Token)) (f : Option SyntaxError)
    (ht : t.value = .blockEnd ∨ t.value = .streamEnd ∨ t.value = .key) (block indentless : Bool) :
    ∃ e, (g.withTokens (t :: ts) f).node block indentless = .error e := by
  obtain ⟨v, start, stop⟩ := t
  cases block <;> cases indentless <;> obtain rfl | rfl | rfl := ht <;> exact ⟨_, rfl⟩

theorem node_scalar {text : String} {plain : Bool} (ht : t.value = .scalar text plain) (block indentless : Bool) :
    (g.withTokens (t :: ts) f).node block indentless =
      .ok (⟨.scalar .none text plain, t.start⟩, (g.withTokens ts f).pop) := by
  obtain ⟨v, start, stop⟩ := t
  obtain rfl := ht
  rfl

theorem parts_last {properties : Properties} {text : String} {plain : Bool} {g : Grammar} {e : Located Token} {y : Step}
    (he : e.value = .streamEnd) (htokens : g.tokens = [e]) :
    Parts t ts u us (.ok (⟨.scalar properties text plain, m⟩, g)) y := by
  rintro _ b ⟨⟩ -
  exact .last _ _ _ e rfl he htokens

theorem parts_node_nil (hfork : Fork t ts u us) {block indentless : Bool} {y : Step} :
    Parts t ts u us ((g.withTokens (t :: ts) f).node block indentless) y := by
  cases hfork with
  | key _ ht =>
    obtain ⟨e, he⟩ := node_fails g ts f (Or.inl ht) block indentless
    rw [he]
    exact Both.error_left
  | block _ ht =>
    obtain ⟨e, he⟩ := node_fails g [] f (Or.inr (Or.inl ht)) block indentless
    rw [he]
    exact Both.error_left
  | plain ht he =>
    rw [node_scalar ht]
    exact parts_last he (by rw [tokens_pop]; rfl)

theorem both_nodeHead (hfork : Fork t ts u us) :
    Both (fun a b => a.1 = b.1 ∧ ∃ p', a.2 = g.withTokens (p' ++ t :: ts) f ∧ b.2 = g.withTokens (p' ++ u :: us) f')
      (g.withTokens (q :: qs ++ t :: ts) f).nodeHead (g.withTokens (q :: qs ++ u :: us) f').nodeHead := by
  refine both_peek (p := q :: qs) nofun fun _ _ heq => ?_
  obtain ⟨rfl, rfl⟩ := List.cons.inj heq
  split
  next a hq =>
    refine both_peek (p := qs) (fun hnil => ?_) fun r rs heq => ?_
    · subst hnil
      split
      next h => exact absurd h (hfork.ne_left nofun nofun nofun)
      split
      next h => exact absurd h (hfork.ne_right nofun nofun nofun)
      exact Both.ok ⟨rfl, [], rfl, rfl⟩
    · subst heq
      split
      · exact Both.ok ⟨rfl, rs, rfl, rfl⟩
      · exact Both.ok ⟨rfl, r :: rs, rfl, rfl⟩
  next hq =>
    refine both_peek (p := qs) (fun hnil => ?_) fun r rs heq => ?_
    · subst hnil
      split
      next h => exact absurd h (hfork.ne_left nofun nofun nofun)
      split
      next h => exact absurd h (hfork.ne_right nofun nofun nofun)
      exact Both.ok ⟨rfl, [], rfl, rfl⟩
    · subst heq
      split
      · exact Both.ok ⟨rfl, rs, rfl, rfl⟩
      · exact Both.ok ⟨rfl, r :: rs, rfl, rfl⟩
  · exact Both.ok ⟨rfl, q :: qs, rfl, rfl⟩

theorem both_resolveTag (g : Grammar) (head : NodeHead) :
    Both (· = ·) ((g.withTokens ts f).resolveTag head) ((g.withTokens us f').resolveTag head) := by
  rintro a b ha hb
  exact Except.ok.inj (ha.symm.trans hb)

theorem parts_nodeContent (hfork : Fork t ts u us) (hg : g.Begun) (block indentless : Bool) (head : NodeHead)
    (tag : Option Tag) :
    Parts t ts u us ((g.withTokens (p ++ t :: ts) f).nodeContent block indentless head tag)
      ((g.withTokens (p ++ u :: us) f').nodeContent block indentless head tag) := by
  refine both_peek (fun hnil => ?_) fun q qs hcons => ?_
  · subst hnil
    cases hfork with
    | key hstart ht hu =>
      rw [ht, hu]
      dsimp only
      have hno {b : Bool} {v w : Token} (h : (v == w) = false) : ¬(b && v == w) = true := by simp [h]
      rw [if_neg (hno rfl), if_neg (hno rfl), if_neg (hno rfl), if_neg (hno rfl), if_neg (hno rfl), if_neg (hno rfl)]
      exact Both.ite Iff.rfl (fun _ => parts_pop (p := []) hg _) fun _ => Both.error_left
    | block hstart ht hu =>
      rw [ht]
      dsimp only
      have hno {b : Bool} {v w : Token} (h : (v == w) = false) : ¬(b && v == w) = true := by simp [h]
      rw [if_neg (hno rfl), if_neg (hno rfl), if_neg (hno rfl)]
      split
      · exact parts_last ht (by rw [tokens_pop]; rfl)
      · exact Both.error_left
    | plain ht he =>
      rw [ht]
      exact parts_last he (by rw [tokens_pop]; rfl)
  · subst hcons
    dsimp only
    split
    · exact parts_pop (p := qs) hg _
    · exact parts_expect (p := q :: qs) hg (by nofun) _
    · exact parts_expect (p := q :: qs) hg (by nofun) _
    · refine Both.ite Iff.rfl (fun _ => parts_expect (p := q :: qs) hg (by nofun) _) fun _ => ?_
      refine Both.ite Iff.rfl (fun _ => parts_expect (p := q :: qs) hg (by nofun) _) fun _ => ?_
      refine Both.ite Iff.rfl (fun _ => parts_expect (p := q :: qs) hg (by nofun) _) fun _ => ?_
      exact Both.ite Iff.rfl (fun _ => parts_pop (p := q :: qs) hg _) fun _ => Both.error_left

theorem parts_node (hfork : Fork t ts u us) (hg : g.Begun) (block indentless : Bool) :
    Parts t ts u us ((g.withTokens (p ++ t :: ts) f).node block indentless)
      ((g.withTokens (p ++ u :: us) f').node block indentless) := by
  cases p with
  | nil => exact parts_node_nil hfork
  | cons q qs =>
    refine both_peek (p := q :: qs) nofun fun _ _ heq => ?_
    obtain ⟨rfl, rfl⟩ := List.cons.inj heq
    split
    · exact parts_pop (p := qs) hg _
    · refine (both_nodeHead hfork).bind ?_
      rintro ⟨head, _⟩ ⟨_, _⟩ ⟨rfl, p', rfl, rfl⟩
      refine (both_resolveTag g head).bind ?_
      rintro tag _ rfl
      exact parts_nodeContent hfork hg block indentless head tag

theorem parts_nodeAfter (hfork : Fork t ts u us) (hg : g.Begun) {e e' : Expect} (he : e ≠ .documentStart true)
    (he' : e' ≠ .documentStart true) {missing : Located Token → Bool} {place : Located Token → Mark}
    (hstream : t.value = .streamEnd → missing t = false)
    (hscalar : ∀ text, t.value = .scalar text true → missing t = false) (hplace : place t = place u)
    {block indentless : Bool} :
    Parts t ts u us
      ((g.withTokens (p ++ t :: ts) f).peek >>= fun w =>
        if missing w then ((g.withTokens (p ++ t :: ts) f).expect e).emptyScalar (place w)
        else ((g.withTokens (p ++ t :: ts) f).push e').node block indentless)
      ((g.withTokens (p ++ u :: us) f').peek >>= fun w =>
        if missing w then ((g.withTokens (p ++ u :: us) f').expect e).emptyScalar (place w)
        else ((g.withTokens (p ++ u :: us) f').push e').node block indentless) := by
  refine both_peek (fun hnil => ?_) fun q qs hcons => ?_
  · subst hnil
    split
    next hm =>
      split
      · rw [hplace]
        exact parts_expect (p := []) hg he _
      · have hu : u.value = .key := by
          cases hfork with
          | key _ _ hu => exact hu
          | block _ ht => cases hm.symm.trans (hstream ht)
          | plain ht => cases hm.symm.trans (hscalar _ ht)
        obtain ⟨e, hfails⟩ := node_fails (g.push e') us f' (Or.inr (Or.inr hu)) block indentless
        change Parts t ts u us _ ((withTokens (g.push e') (u :: us) f').node block indentless)
        rw [hfails]
        exact Both.error_right
    · exact parts_node_nil (g := g.push e') hfork
  · subst hcons
    refine Both.ite Iff.rfl (fun _ => parts_expect (p := q :: qs) hg he _) fun _ => ?_
    exact parts_node (g := g.push e') (p := q :: qs) hfork (hg.push he') block indentless

/-! ## Documents -/

theorem both_directives (hfork : Fork t ts u us) {n n' : Nat} (hn : p.length < n) (hn' : p.length < n')
    (versioned : Bool) :
    Both (fun a b => ∃ (g' : Grammar) (p' : List (Located Token)), g'.stack = g.stack ∧
        a = g'.withTokens (p' ++ t :: ts) f ∧ b = g'.withTokens (p' ++ u :: us) f')
      (directives n (g.withTokens (p ++ t :: ts) f) versioned)
      (directives n' (g.withTokens (p ++ u :: us) f') versioned) := by
  induction p generalizing g n n' versioned with
  | nil =>
    obtain _ | n := n
    · cases hn
    obtain _ | n' := n'
    · cases hn'
    refine both_peek (p := []) (fun _ => ?_) fun _ _ h => nomatch h
    split
    next h => exact absurd h (hfork.ne_left nofun nofun nofun)
    next h => exact absurd h (hfork.ne_left nofun nofun nofun)
    split
    next h => exact absurd h (hfork.ne_right nofun nofun nofun)
    next h => exact absurd h (hfork.ne_right nofun nofun nofun)
    exact Both.ok ⟨{ g with handles := g.handles ++ defaultHandles }, [], rfl, rfl, rfl⟩
  | cons q qs ih =>
    obtain _ | n := n
    · cases hn
    obtain _ | n' := n'
    · cases hn'
    replace hn := Nat.lt_of_succ_lt_succ hn
    replace hn' := Nat.lt_of_succ_lt_succ hn'
    refine both_peek (p := q :: qs) nofun fun _ _ heq => ?_
    obtain ⟨rfl, rfl⟩ := List.cons.inj heq
    split
    · exact Both.ite Iff.rfl (fun _ => Both.error_left) fun _ =>
        Both.ite Iff.rfl (fun _ => Both.error_left) fun _ => ih hn hn' true
    next h target _ =>
      exact Both.ite Iff.rfl (fun _ => Both.error_left) fun _ =>
        ih (g := { g with handles := g.handles ++ [(h, target)] }) hn hn' versioned
    · exact Both.ok ⟨{ g with handles := g.handles ++ defaultHandles }, q :: qs, rfl, rfl, rfl⟩

theorem skipDocumentEnds_withTokens (h : t.value ≠ .documentEnd) : (g.withTokens (p ++ t :: ts) f).skipDocumentEnds =
    g.withTokens ((p.dropWhile fun q => q.value == .documentEnd) ++ t :: ts) f := by
  have hdrop : (p ++ t :: ts).dropWhile (fun q => q.value == .documentEnd) =
      (p.dropWhile fun q => q.value == .documentEnd) ++ t :: ts := by
    induction p with
    | nil => rw [List.nil_append, List.dropWhile_cons_of_neg (by simpa using h)]; rfl
    | cons q qs ih =>
      rw [List.cons_append, List.dropWhile_cons, List.dropWhile_cons, ih]
      split <;> rfl
  exact congrArg (g.withTokens · f) hdrop

theorem parts_documentStart (hfork : Fork t ts u us) (hg : g.Begun) {implicit : Bool}
    (hstate : g.state = .documentStart implicit) (hfirst : implicit = true → p = [] → t.value ≠ .streamEnd) :
    Parts t ts u us ((g.withTokens (p ++ t :: ts) f).documentStart implicit)
      ((g.withTokens (p ++ u :: us) f').documentStart implicit) := by
  have hkeep : ∃ p',
      (if implicit then g.withTokens (p ++ t :: ts) f else (g.withTokens (p ++ t :: ts) f).skipDocumentEnds) =
        g.withTokens (p' ++ t :: ts) f ∧
      (if implicit then g.withTokens (p ++ u :: us) f' else (g.withTokens (p ++ u :: us) f').skipDocumentEnds) =
        g.withTokens (p' ++ u :: us) f' ∧ (implicit = true → p' = [] → t.value ≠ .streamEnd) := by
    cases implicit with
    | true => exact ⟨p, rfl, rfl, hfirst⟩
    | false =>
      exact ⟨_, skipDocumentEnds_withTokens (hfork.ne_left nofun nofun nofun),
        skipDocumentEnds_withTokens (hfork.ne_right nofun nofun nofun), nofun⟩
  unfold documentStart
  dsimp only
  revert hkeep
  generalize (if implicit then g.withTokens (p ++ t :: ts) f
    else (g.withTokens (p ++ t :: ts) f).skipDocumentEnds) = left
  generalize (if implicit then g.withTokens (p ++ u :: us) f'
    else (g.withTokens (p ++ u :: us) f').skipDocumentEnds) = right
  rintro ⟨p', rfl, rfl, hfirst'⟩
  have hnext (p : List (Located Token)) {m : Mark} : Parts t ts u us
      (do let g ← directives ((g.withTokens (p ++ t :: ts) f).tokens.length + 1) (g.withTokens (p ++ t :: ts) f) false
          let u ← g.peek
          if u.value == .documentStart then
            .ok (⟨.documentStart, m⟩, (g.skip.push .documentEnd).expect .documentContent)
          else fail .noDocumentStart u.start none)
      (do let g ← directives ((g.withTokens (p ++ u :: us) f').tokens.length + 1) (g.withTokens (p ++ u :: us) f') false
          let u ← g.peek
          if u.value == .documentStart then
            .ok (⟨.documentStart, m⟩, (g.skip.push .documentEnd).expect .documentContent)
          else fail .noDocumentStart u.start none) := by
    have hlength (ts : List (Located Token)) (f : Option SyntaxError) :
        p.length < (g.withTokens (p ++ ts) f).tokens.length + 1 := by
      simp only [withTokens, List.length_append]
      omega
    refine (both_directives hfork (hlength _ _) (hlength _ _) false).bind ?_
    rintro _ _ ⟨g', p', hstack, rfl, rfl⟩
    have hg' : g'.Begun := fun e he => hg e (hstack ▸ he)
    refine both_peek (fun hnil => ?_) fun q qs hcons => ?_
    · exact Both.ite_left (fun h => absurd (eq_of_beq h) (hfork.ne_left nofun nofun nofun)) fun _ => Both.error_left
    · subst hcons
      refine Both.ite Iff.rfl (fun _ => ?_) fun _ => Both.error_left
      exact parts_expect (g := g'.push .documentEnd) (p := qs) (hg'.push (by nofun)) (by nofun) _
  have himplicit (p : List (Located Token)) {m : Mark} : Parts t ts u us
      (.ok (⟨.documentStart, m⟩,
        (push { g.withTokens (p ++ t :: ts) f with handles := defaultHandles } .documentEnd).expect .blockNode))
      (.ok (⟨.documentStart, m⟩,
        (push { g.withTokens (p ++ u :: us) f' with handles := defaultHandles } .documentEnd).expect .blockNode)) :=
    parts_expect (g := push { g with handles := defaultHandles } .documentEnd)
      (Begun.push (g := { g with handles := _ }) hg (by nofun)) (by nofun) _
  refine both_peek (fun hnil => ?_) fun q qs hcons => ?_
  · subst hnil
    rw [hfork.start_eq]
    cases hfork with
    | key hstart ht hu =>
      rw [ht, hu]
      refine Both.ite (by decide) (fun h => absurd (eq_of_beq h) nofun) fun _ => ?_
      exact Both.ite Iff.rfl (fun _ => himplicit []) fun _ => hnext []
    | block hstart ht hu =>
      cases implicit with
      | true => exact absurd ht (hfirst' rfl rfl)
      | false =>
        obtain ⟨v, start, stop⟩ := u
        obtain rfl := hu
        exact Both.error_right
    | plain ht =>
      rw [ht]
      refine Both.ite Iff.rfl (fun h => absurd (eq_of_beq h) nofun) fun _ => ?_
      exact Both.ite Iff.rfl (fun _ => himplicit []) fun _ => hnext []
  · subst hcons
    refine Both.ite Iff.rfl (fun hend => ?_) fun _ => ?_
    · exact Both.ok (Parted.same g qs none none hg (fun _ => rfl) rfl rfl rfl)
    · exact Both.ite Iff.rfl (fun _ => himplicit (q :: qs)) fun _ => hnext (q :: qs)

theorem parts_documentContent (hfork : Fork t ts u us) (hg : g.Begun) :
    Parts t ts u us (g.withTokens (p ++ t :: ts) f).documentContent
      (g.withTokens (p ++ u :: us) f').documentContent := by
  refine both_peek (fun hnil => ?_) fun q qs hcons => ?_
  · subst hnil
    split
    next h => exact absurd h (hfork.ne_left nofun nofun nofun)
    next h => exact absurd h (hfork.ne_left nofun nofun nofun)
    next h => exact absurd h (hfork.ne_left nofun nofun nofun)
    next h => exact absurd h (hfork.ne_left nofun nofun nofun)
    next h =>
      obtain rfl : ts = [] := by
        cases hfork with
        | key _ ht => cases ht.symm.trans h
        | block => rfl
        | plain ht => cases ht.symm.trans h
      exact parts_last h (by rw [tokens_pop]; rfl)
    · exact parts_node_nil hfork
  · subst hcons
    split
    iterate 5 exact parts_pop (p := q :: qs) hg _
    exact parts_node (p := q :: qs) hfork hg true false

theorem parts_documentEnd (hfork : Fork t ts u us) (hg : g.Begun) :
    Parts t ts u us (g.withTokens (p ++ t :: ts) f).documentEnd (g.withTokens (p ++ u :: us) f').documentEnd := by
  refine both_peek (fun hnil => ?_) fun q qs hcons => ?_
  · subst hnil
    dsimp only
    have ht : (t.value == .documentEnd) = false := beq_eq_false_iff_ne.mpr (hfork.ne_left nofun nofun nofun)
    have hu : (u.value == .documentEnd) = false := beq_eq_false_iff_ne.mpr (hfork.ne_right nofun nofun nofun)
    rw [ht, hu, hfork.start_eq]
    exact parts_event (g := { g with handles := [], state := .documentStart false }) (p := []) hg nofun _
  · subst hcons
    dsimp only
    split
    · exact parts_event (g := { g with handles := [], state := .documentStart false }) (p := qs) hg nofun _
    · exact parts_event (g := { g with handles := [], state := .documentStart false }) (p := q :: qs) hg nofun _

/-! ## Block collections -/

theorem parts_blockEntry (hfork : Fork t ts u us) (hg : g.Begun) (opened : Mark) :
    Parts t ts u us ((g.withTokens (p ++ t :: ts) f).blockEntry opened)
      ((g.withTokens (p ++ u :: us) f').blockEntry opened) := by
  refine both_peek (fun hnil => ?_) fun q qs hcons => ?_
  · subst hnil
    cases hfork with
    | key _ ht hu =>
      rw [ht, hu]
      exact Both.error_right
    | block _ ht =>
      rw [ht]
      exact Both.error_left
    | plain ht =>
      rw [ht]
      exact Both.error_left
  · subst hcons
    split
    · exact parts_nodeAfter (p := qs) hfork hg (by nofun) (by nofun) (fun h => by rw [h]; rfl)
        (fun _ h => by rw [h]; rfl) rfl
    · exact parts_pop (p := qs) hg _
    · exact Both.error_left

theorem parts_indentlessEntry (hfork : Fork t ts u us) (hg : g.Begun) :
    Parts t ts u us (g.withTokens (p ++ t :: ts) f).indentlessEntry
      (g.withTokens (p ++ u :: us) f').indentlessEntry := by
  refine both_peek (fun hnil => ?_) fun q qs hcons => ?_
  · subst hnil
    split
    next h => exact absurd h (hfork.ne_left nofun nofun nofun)
    split
    next h => exact absurd h (hfork.ne_right nofun nofun nofun)
    rw [hfork.start_eq]
    exact parts_pop (p := []) hg _
  · subst hcons
    split
    · exact parts_nodeAfter (p := qs) hfork hg (by nofun) (by nofun) (fun h => by rw [h]; rfl)
        (fun _ h => by rw [h]; rfl) rfl
    · exact parts_pop (p := q :: qs) hg _

theorem parts_blockKey (hfork : Fork t ts u us) (hg : g.Begun) (opened : Mark) :
    Parts t ts u us ((g.withTokens (p ++ t :: ts) f).blockKey opened)
      ((g.withTokens (p ++ u :: us) f').blockKey opened) := by
  cases p with
  | nil =>
    cases hfork with
    | key hstart ht hu =>
      have hleft : (g.withTokens (t :: ts) f).blockKey opened =
          .ok (⟨.mappingEnd, t.start⟩, (g.withTokens ts f).pop) := by
        obtain ⟨v, start, stop⟩ := t
        obtain rfl := ht
        rfl
      intro a b ha hb
      exact .closed g opened f f' ht (Except.ok.inj (ha.symm.trans hleft)) hb
    | block _ ht =>
      refine both_peek (p := []) (fun _ => ?_) fun _ _ h => nomatch h
      rw [ht]
      exact Both.error_left
    | plain ht =>
      refine both_peek (p := []) (fun _ => ?_) fun _ _ h => nomatch h
      rw [ht]
      exact Both.error_left
  | cons q qs =>
    refine both_peek (p := q :: qs) nofun fun _ _ heq => ?_
    obtain ⟨rfl, rfl⟩ := List.cons.inj heq
    split
    · exact parts_nodeAfter (p := qs) hfork hg (by nofun) (by nofun) (fun h => by rw [h]; rfl)
        (fun _ h => by rw [h]; rfl) rfl
    · exact parts_pop (p := qs) hg _
    · exact Both.error_left

theorem parts_blockValue (hfork : Fork t ts u us) (hg : g.Begun) (opened : Mark) :
    Parts t ts u us ((g.withTokens (p ++ t :: ts) f).blockValue opened)
      ((g.withTokens (p ++ u :: us) f').blockValue opened) := by
  refine both_peek (fun hnil => ?_) fun q qs hcons => ?_
  · subst hnil
    split
    next h => exact absurd h (hfork.ne_left nofun nofun nofun)
    split
    next h => exact absurd h (hfork.ne_right nofun nofun nofun)
    rw [hfork.start_eq]
    exact parts_expect (p := []) hg (by nofun) _
  · subst hcons
    split
    · exact parts_nodeAfter (p := qs) hfork hg (by nofun) (by nofun) (fun h => by rw [h]; rfl)
        (fun _ h => by rw [h]; rfl) rfl
    · exact parts_expect (p := q :: qs) hg (by nofun) _

/-! ## Flow collections -/

theorem parts_item (hfork : Fork t ts u us) (hg : g.Begun) {last : Token} {event : Event} {first : Bool}
    {entry : Grammar → Located Token → Step} {problem : Problem} {context : Context × Mark} (hlast : t.value ≠ last)
    (hfirst : ∀ y, Parts t ts u us (entry (g.withTokens (t :: ts) f) t) y)
    (hentry : ∀ q qs, Parts t ts u us (entry (g.withTokens (q :: qs ++ t :: ts) f) q)
      (entry (g.withTokens (q :: qs ++ u :: us) f') q)) :
    Parts t ts u us ((g.withTokens (p ++ t :: ts) f).item last event first entry problem context)
      ((g.withTokens (p ++ u :: us) f').item last event first entry problem context) := by
  refine both_peek (fun hnil => ?_) fun q qs hcons => ?_
  · subst hnil
    refine Both.ite_left (fun h => absurd (eq_of_beq h) hlast) fun _ => Both.ite_left (fun _ => hfirst _) fun _ => ?_
    exact Both.ite_left (fun h => absurd (eq_of_beq h) (hfork.ne_left nofun nofun nofun)) fun _ => Both.error_left
  · subst hcons
    refine Both.ite Iff.rfl (fun _ => parts_pop (p := qs) hg _) fun _ => ?_
    refine Both.ite Iff.rfl (fun _ => hentry q qs) fun _ => Both.ite Iff.rfl (fun _ => ?_) fun _ => Both.error_left
    refine both_peek (fun hnil => ?_) fun r rs hrest => ?_
    · subst hnil
      exact hfirst _
    · subst hrest
      exact hentry r rs

theorem parts_flowEntry (hfork : Fork t ts u us) (hg : g.Begun) (opened : Mark) (first : Bool) :
    Parts t ts u us ((g.withTokens (p ++ t :: ts) f).flowEntry opened first)
      ((g.withTokens (p ++ u :: us) f').flowEntry opened first) := by
  rw [flowEntry_eq, flowEntry_eq]
  refine parts_item hfork hg (hfork.ne_left nofun nofun nofun) (fun y => ?_) fun q qs => ?_
  · unfold sequenceItem
    split
    next h => exact absurd h (hfork.ne_left nofun nofun nofun)
    next h => exact absurd h (hfork.ne_left nofun nofun nofun)
    exact parts_node_nil (g := g.push (.flowEntry opened false)) hfork
  · unfold sequenceItem
    split
    · exact parts_expect (p := qs) hg (by nofun) _
    · exact parts_pop (p := qs) hg _
    · exact parts_node (g := g.push (.flowEntry opened false)) (p := q :: qs) hfork (hg.push (by nofun)) false false

theorem parts_pairKey (hfork : Fork t ts u us) (hg : g.Begun) (opened : Mark) :
    Parts t ts u us ((g.withTokens (p ++ t :: ts) f).pairKey opened)
      ((g.withTokens (p ++ u :: us) f').pairKey opened) := by
  refine both_peek (fun hnil => ?_) fun q qs hcons => ?_
  · subst hnil
    split
    next h => exact absurd h (hfork.ne_left nofun nofun nofun)
    next h => exact absurd h (hfork.ne_left nofun nofun nofun)
    next h => exact absurd h (hfork.ne_left nofun nofun nofun)
    exact parts_node_nil (g := g.push (.pairValue opened)) hfork
  · subst hcons
    split
    iterate 3 exact parts_expect (p := qs) hg (by nofun) _
    exact parts_node (g := g.push (.pairValue opened)) (p := q :: qs) hfork (hg.push (by nofun)) false false

theorem parts_itemValue (hfork : Fork t ts u us) (hg : g.Begun) {last : Token} {next : Expect}
    (hlast : t.value ≠ last) (hnext : next ≠ .documentStart true) :
    Parts t ts u us ((g.withTokens (p ++ t :: ts) f).itemValue last next)
      ((g.withTokens (p ++ u :: us) f').itemValue last next) := by
  refine both_peek (fun hnil => ?_) fun q qs hcons => ?_
  · subst hnil
    have ht : (t.value == .value) = false := beq_eq_false_iff_ne.mpr (hfork.ne_left nofun nofun nofun)
    have hu : (u.value == .value) = false := beq_eq_false_iff_ne.mpr (hfork.ne_right nofun nofun nofun)
    rw [ht, hu, hfork.start_eq]
    exact parts_expect (p := []) hg hnext _
  · subst hcons
    have hmissing {v : Token} (hv : t.value = v) (hentry : v ≠ .flowEntry) :
        (t.value == .flowEntry || t.value == last) = false :=
      Bool.or_eq_false_iff.mpr ⟨beq_eq_false_iff_ne.mpr (hv ▸ hentry), beq_eq_false_iff_ne.mpr hlast⟩
    refine Both.ite Iff.rfl (fun _ => ?_) fun _ => parts_expect (p := q :: qs) hg hnext _
    exact parts_nodeAfter (p := qs) hfork hg hnext hnext (fun h => hmissing h nofun) (fun _ h => hmissing h nofun)
      hfork.start_eq

theorem parts_pairValue (hfork : Fork t ts u us) (hg : g.Begun) (opened : Mark) :
    Parts t ts u us ((g.withTokens (p ++ t :: ts) f).pairValue opened)
      ((g.withTokens (p ++ u :: us) f').pairValue opened) := by
  rw [pairValue_eq, pairValue_eq]
  exact parts_itemValue hfork hg (hfork.ne_left nofun nofun nofun) nofun

theorem parts_pairEnd (hfork : Fork t ts u us) (hg : g.Begun) (opened : Mark) :
    Parts t ts u us ((g.withTokens (p ++ t :: ts) f).pairEnd opened)
      ((g.withTokens (p ++ u :: us) f').pairEnd opened) := by
  refine both_peek (fun hnil => ?_) fun q qs hcons => ?_
  · subst hnil
    rw [hfork.start_eq]
    exact parts_expect (p := []) hg (by nofun) _
  · subst hcons
    exact parts_expect (p := q :: qs) hg (by nofun) _

theorem parts_flowKey (hfork : Fork t ts u us) (hg : g.Begun) (opened : Mark) (first : Bool) :
    Parts t ts u us ((g.withTokens (p ++ t :: ts) f).flowKey opened first)
      ((g.withTokens (p ++ u :: us) f').flowKey opened first) := by
  rw [flowKey_eq, flowKey_eq]
  refine parts_item hfork hg (hfork.ne_left nofun nofun nofun) (fun y => ?_) fun q qs => ?_
  · unfold mappingItem
    split
    next h => exact absurd h (hfork.ne_left nofun nofun nofun)
    next h => exact absurd h (hfork.ne_left nofun nofun nofun)
    exact parts_node_nil (g := g.push (.flowNoValue opened)) hfork
  · unfold mappingItem
    split
    · exact parts_nodeAfter (p := qs) hfork hg (by nofun) (by nofun) (fun h => by rw [h]; rfl)
        (fun _ h => by rw [h]; rfl) hfork.start_eq
    · exact parts_pop (p := qs) hg _
    · exact parts_node (g := g.push (.flowNoValue opened)) (p := q :: qs) hfork (hg.push (by nofun)) false false

theorem parts_flowValue (hfork : Fork t ts u us) (hg : g.Begun) (opened : Mark) :
    Parts t ts u us ((g.withTokens (p ++ t :: ts) f).flowValue opened)
      ((g.withTokens (p ++ u :: us) f').flowValue opened) := by
  rw [flowValue_eq, flowValue_eq]
  exact parts_itemValue hfork hg (hfork.ne_left nofun nofun nofun) nofun

theorem parts_flowNoValue (hfork : Fork t ts u us) (hg : g.Begun) (opened : Mark) :
    Parts t ts u us
      ((g.withTokens (p ++ t :: ts) f).peek >>= fun w =>
        ((g.withTokens (p ++ t :: ts) f).expect (.flowKey opened false)).emptyScalar w.start)
      ((g.withTokens (p ++ u :: us) f').peek >>= fun w =>
        ((g.withTokens (p ++ u :: us) f').expect (.flowKey opened false)).emptyScalar w.start) := by
  refine both_peek (fun hnil => ?_) fun q qs hcons => ?_
  · subst hnil
    rw [hfork.start_eq]
    exact parts_expect (p := []) hg (by nofun) _
  · subst hcons
    exact parts_expect (p := q :: qs) hg (by nofun) _

/-! ## Steps -/

theorem parts_opening (hopen : p ≠ []) {k : Mark × Grammar → Step}
    (hk : ∀ p m, Parts t ts u us (k (m, g.withTokens (p ++ t :: ts) f)) (k (m, g.withTokens (p ++ u :: us) f'))) :
    Parts t ts u us ((g.withTokens (p ++ t :: ts) f).opening >>= k)
      ((g.withTokens (p ++ u :: us) f').opening >>= k) := by
  cases p with
  | nil => exact absurd rfl hopen
  | cons q qs => exact hk qs q.start

/-- A step makes the same event of tokens that part later, or it is the one at which they part. -/
theorem parts_step (hfork : Fork t ts u us) (hg : g.Begun) (hopen : g.state.opener? ≠ none → p ≠ [])
    (hfirst : g.state = .documentStart true → p = [] → t.value ≠ .streamEnd) :
    Parts t ts u us (g.withTokens (p ++ t :: ts) f).step (g.withTokens (p ++ u :: us) f').step := by
  have hstate (ts : List (Located Token)) (f : Option SyntaxError) : (g.withTokens ts f).state = g.state := rfl
  unfold step
  rw [hstate, hstate]
  cases hexpect : g.state with
  | documentStart implicit => exact parts_documentStart hfork hg hexpect fun h => hfirst (h ▸ hexpect)
  | documentContent => exact parts_documentContent hfork hg
  | documentEnd => exact parts_documentEnd hfork hg
  | blockNode => exact parts_node hfork hg true false
  | blockFirstEntry =>
    exact parts_opening (hopen (by rw [hexpect]; nofun)) fun p m => parts_blockEntry hfork hg m
  | blockEntry m => exact parts_blockEntry hfork hg m
  | indentlessEntry => exact parts_indentlessEntry hfork hg
  | blockFirstKey => exact parts_opening (hopen (by rw [hexpect]; nofun)) fun p m => parts_blockKey hfork hg m
  | blockKey m => exact parts_blockKey hfork hg m
  | blockValue m => exact parts_blockValue hfork hg m
  | flowFirstEntry =>
    exact parts_opening (hopen (by rw [hexpect]; nofun)) fun p m => parts_flowEntry hfork hg m true
  | flowEntry m first => exact parts_flowEntry hfork hg m first
  | pairKey m => exact parts_pairKey hfork hg m
  | pairValue m => exact parts_pairValue hfork hg m
  | pairEnd m => exact parts_pairEnd hfork hg m
  | flowFirstKey => exact parts_opening (hopen (by rw [hexpect]; nofun)) fun p m => parts_flowKey hfork hg m true
  | flowKey m first => exact parts_flowKey hfork hg m first
  | flowValue m => exact parts_flowValue hfork hg m
  | flowNoValue m => exact parts_flowNoValue hfork hg m

/-! ## Runs -/

/-- Events that come to the end of the text. -/
def Reaches (ms : List Marked) : Prop := ∃ m ∈ ms, m.event = .streamEnd

theorem Reaches.of_cons {e : Marked} {ms : List Marked} (h : Reaches (e :: ms)) (he : e.event ≠ .streamEnd) :
    Reaches ms := by
  obtain ⟨m, hm, hend⟩ := h
  obtain rfl | hm := List.mem_cons.mp hm
  · exact absurd hend he
  · exact ⟨m, hm, hend⟩

theorem not_reaches_nil : ¬Reaches [] := nofun

theorem run_of_reaches {n : Nat} (h : Reaches (run n g).1) :
    ∃ k r, n = k + 1 ∧ g.step = .ok r ∧ (run n g).1 = r.1 :: (run k r.2).1 := by
  cases n with
  | zero => exact absurd h not_reaches_nil
  | succ k =>
    unfold run at h
    cases hx : g.step with
    | error e =>
      rw [hx] at h
      exact absurd h not_reaches_nil
    | ok r => exact ⟨k, r, rfl, rfl, by rw [run, hx]⟩

theorem step_nil (h : g.tokens = []) : ∃ e, g.step = .error e := by
  obtain ⟨tokens, failure, state, stack, handles⟩ := g
  obtain rfl := h
  cases state with
  | documentStart implicit => cases implicit <;> exact ⟨_, rfl⟩
  | _ => exact ⟨_, rfl⟩

theorem run_nil (h : g.tokens = []) (n : Nat) : (run n g).1 = [] := by
  cases n with
  | zero => rfl
  | succ n =>
    obtain ⟨e, he⟩ := step_nil h
    rw [run, he]

/-- At the end of the text only some events are left. -/
theorem step_last {e : Located Token} (htokens : g.tokens = [e]) (he : e.value = .streamEnd) :
    Gives (fun r => (r.1.event = .mappingEnd → ∃ m, g.state = .pairEnd m) ∧
      (r.1.event = .documentEnd → g.state = .documentEnd)) g.step := by
  obtain ⟨tokens, failure, state, stack, handles⟩ := g
  obtain ⟨v, start, stop⟩ := e
  obtain rfl := htokens
  obtain rfl := he
  cases state with
  | documentStart implicit => cases implicit <;> exact ⟨nofun, nofun⟩
  | flowEntry m first => cases first <;> exact trivial
  | flowKey m first => cases first <;> exact trivial
  | pairEnd m => exact ⟨fun _ => ⟨m, rfl⟩, nofun⟩
  | documentEnd => exact ⟨nofun, fun _ => rfl⟩
  | _ => first | exact trivial | exact ⟨nofun, nofun⟩

theorem run_last {e : Located Token} {n : Nat} (hready : g.Ready) (htokens : g.tokens = [e]) (he : e.value = .streamEnd)
    (hend : Reaches (run n g).1) : ∀ m ∈ (run n g).1, m.event ≠ .mappingEnd := by
  induction n generalizing g with
  | zero => exact absurd hend not_reaches_nil
  | succ n ih =>
    obtain ⟨k, r, hk, hstep, hrun⟩ := run_of_reaches hend
    obtain rfl : n = k := Nat.succ.inj hk
    obtain ⟨-, hready', hnil⟩ := (emits_step hready).of_eq_ok hstep
    obtain ⟨hsuffix, -⟩ := (takes_step hready).of_eq_ok hstep
    have hdepth : g.depth = 0 := by
      have hzero := (run_closes (n + 1) hready hend).2
      rwa [htokens, flowDepth_cons, he, flowDepth_nil] at hzero
    have hne : r.1.event ≠ .mappingEnd := by
      intro hmapping
      obtain ⟨m, hstate⟩ := ((step_last htokens he).of_eq_ok hstep).1 hmapping
      have hone : 1 + openFlows g.stack = 0 := by
        change openFlows (g.state :: g.stack) = 0 at hdepth
        rwa [hstate] at hdepth
      omega
    rw [hrun] at hend ⊢
    refine List.forall_mem_cons.mpr ⟨hne, ?_⟩
    by_cases hlast : r.1.event = .streamEnd
    · rw [run_nil (hnil hlast)]
      exact nofun
    · have hrest := hend.of_cons hlast
      rw [htokens] at hsuffix
      obtain hsame | hgone := List.suffix_cons_iff.mp hsuffix
      · exact ih hready' hsame hrest
      · rw [run_nil (List.suffix_nil.mp hgone)] at hrest
        exact absurd hrest not_reaches_nil

/-- Events of tokens that part are alike up to the end of a block mapping, or up to a last scalar. -/
inductive PartedRuns (t : Located Token) (ts : List (Located Token)) (u : Located Token) (us : List (Located Token))
    (ms ms' : List Marked) : Prop
  /-- A block mapping ends, or goes on with a key. -/
  | closed (ns : List Marked) (g : Grammar) (opened : Mark) (f f' : Option SyntaxError) (n n' : Nat)
      (b : Marked × Grammar) (ht : t.value = .blockEnd) (hready : (g.withTokens ts f).pop.Ready)
      (hb : (g.withTokens (u :: us) f').blockKey opened = .ok b)
      (hms : ms = ns ++ ⟨.mappingEnd, t.start⟩ :: (run n (g.withTokens ts f).pop).1)
      (hms' : ms' = ns ++ b.1 :: (run n' b.2).1)
      (hend : Reaches (run n (g.withTokens ts f).pop).1) (hend' : Reaches (b.1 :: (run n' b.2).1))
  /-- A scalar is the last node. -/
  | last (ns : List Marked) (m : Marked) (g : Grammar) (n : Nat) (e : Located Token) (properties : Properties)
      (text : String) (plain : Bool) (hm : m.event = .scalar properties text plain) (hready : g.Ready)
      (htokens : g.tokens = [e]) (he : e.value = .streamEnd) (hms : ms = ns ++ m :: (run n g).1)
      (hend : Reaches (run n g).1)

theorem PartedRuns.cons {ms ms' : List Marked} (h : PartedRuns t ts u us ms ms') (m : Marked) :
    PartedRuns t ts u us (m :: ms) (m :: ms') := by
  cases h with
  | closed ns g opened f f' n n' b ht hready hb hms hms' hend hend' =>
    exact .closed (m :: ns) g opened f f' n n' b ht hready hb (by rw [hms]; rfl) (by rw [hms']; rfl) hend hend'
  | last ns m' g n e properties text plain hm hready htokens he hms hend =>
    exact .last (m :: ns) m' g n e properties text plain hm hready htokens he (by rw [hms]; rfl) hend

theorem parts_run (hfork : Fork t ts u us) {n n' : Nat} (hready : (g.withTokens (p ++ t :: ts) f).Ready) (hg : g.Begun)
    (hfirst : g.state = .documentStart true → p = [] → t.value ≠ .streamEnd)
    (hend : Reaches (run n (g.withTokens (p ++ t :: ts) f)).1)
    (hend' : Reaches (run n' (g.withTokens (p ++ u :: us) f')).1) :
    PartedRuns t ts u us (run n (g.withTokens (p ++ t :: ts) f)).1 (run n' (g.withTokens (p ++ u :: us) f')).1 := by
  induction n generalizing g p f f' n' with
  | zero => exact absurd hend not_reaches_nil
  | succ n ih =>
    obtain ⟨k, a, hk, hstep, hrun⟩ := run_of_reaches hend
    obtain rfl : n = k := Nat.succ.inj hk
    obtain ⟨n', b, rfl, hstep', hrun'⟩ := run_of_reaches hend'
    have hopen : g.state.opener? ≠ none → p ≠ [] := by
      rintro hopens rfl
      obtain ⟨v, hv⟩ := Option.ne_none_iff_exists'.mp hopens
      have hhead : t.value = v := by simpa [withTokens] using hready.opener v hv
      exact hfork.opener?_ne g.state (hhead ▸ hv)
    obtain ⟨-, hready', hnil⟩ := (emits_step hready).of_eq_ok hstep
    rw [hrun] at hend ⊢
    rw [hrun'] at hend' ⊢
    cases parts_step hfork hg hopen hfirst a b hstep hstep' with
    | same g' p' f₁ f₁' hbegun hstate hevent ha hb =>
      have hmore : a.1.event ≠ .streamEnd := by
        intro hlast
        have := hnil hlast
        rw [ha] at this
        simp [withTokens] at this
      rw [ha] at hend hready' ⊢
      rw [hb, ← hevent] at hend' ⊢
      exact (ih hready' hbegun (fun h => absurd (hstate h) hmore) (hend.of_cons hmore) (hend'.of_cons hmore)).cons a.1
    | closed g' opened f₁ f₁' ht ha hb =>
      subst ha
      exact .closed [] g' opened f₁ f₁' n n' b ht hready' hb rfl rfl (hend.of_cons nofun) hend'
    | last properties text plain e ha he htokens =>
      exact .last [] a.1 a.2 n e properties text plain ha hready' htokens he rfl
        (hend.of_cons (by rw [ha]; nofun))

end Grammar

end YamlInclude.Yaml
