import YamlInclude.Proofs.Tokens
import YamlInclude.Yaml.Event.Grammar

/-! # Events carry the anchors of tokens

Each step takes some tokens and makes one event, which has the anchor among them if there is one. So the events of
a text that is read to its end have the anchors of its tokens, in their order.
-/

namespace YamlInclude.Yaml

def Event.anchor? : Event → Option String
  | .scalar p _ _ | .sequenceStart p | .mappingStart p => p.anchor
  | _ => none

def anchors (ts : List (Located Token)) : List String := ts.filterMap (·.value.anchor?)

@[simp] theorem anchors_nil : anchors [] = [] := rfl

@[simp] theorem anchors_cons (t : Located Token) (ts : List (Located Token)) :
    anchors (t :: ts) = t.value.anchor?.toList ++ anchors ts := by
  cases h : t.value.anchor? <;> simp [anchors, h]

theorem anchors_cons_of_isOrdinary {t : Located Token} (h : t.value.isOrdinary = true) (ts : List (Located Token)) :
    anchors (t :: ts) = anchors ts := by
  simp [Token.anchor?_of_isOrdinary h]

/-- The token that an expectation of the first part of a collection takes for granted. -/
def Expect.opener? : Expect → Option Token
  | .blockFirstEntry => some .blockSequenceStart
  | .blockFirstKey => some .blockMappingStart
  | .flowFirstEntry => some .flowSequenceStart
  | .flowFirstKey => some .flowMappingStart
  | _ => none

theorem Expect.isOrdinary_of_opener? {e : Expect} {t : Token} (h : e.opener? = some t) : t.isOrdinary = true := by
  cases e <;> cases h <;> rfl

namespace Grammar

variable {g : Grammar} {t : Located Token} {ts : List (Located Token)} {e : Expect} {as : List String} {m : Mark}

/-- The tokens end as they should, and what is expected later takes no token for granted. -/
structure Sane (g : Grammar) : Prop where
  ended : Ended g.failure g.tokens
  stack : ∀ e ∈ g.stack, e.opener? = none

/-- A machine whose next token is as the state takes it for granted. -/
structure Ready (g : Grammar) : Prop where
  sane : g.Sane
  opener : ∀ t, g.state.opener? = some t → g.tokens.head?.map (·.value) = some t

@[simp] theorem tokens_pop : g.pop.tokens = g.tokens := by
  unfold pop
  split <;> rfl

namespace Sane

theorem skip (h : g.Sane) : g.skip.Sane where
  ended := by
    obtain ⟨hended, -⟩ := h
    unfold Grammar.skip
    cases hts : g.tokens with
    | nil => trivial
    | cons t ts => exact (hts ▸ hended : Ended g.failure (t :: ts)).2.2
  stack := h.stack

theorem push (h : g.Sane) (he : e.opener? = none) : (g.push e).Sane :=
  ⟨h.ended, List.forall_mem_cons.mpr ⟨he, h.stack⟩⟩

theorem expect (h : g.Sane) (he : e.opener? = none) : (g.expect e).Ready :=
  ⟨⟨h.ended, h.stack⟩, fun t ht => by cases he.symm.trans ht⟩

theorem expectOpen (h : g.Sane) (hcons : g.tokens = t :: ts) (he : e.opener? = some t.value) : (g.expect e).Ready :=
  ⟨⟨h.ended, h.stack⟩, fun u hu => by simpa [Grammar.expect, hcons] using he.symm.trans hu⟩

theorem pop (h : g.Sane) : g.pop.Ready := by
  unfold Grammar.pop
  split
  next e rest hstack =>
    obtain ⟨he, hrest⟩ := List.forall_mem_cons.mp (hstack ▸ h.stack)
    exact ⟨⟨h.ended, hrest⟩, fun t ht => by cases he.symm.trans ht⟩
  · exact ⟨⟨h.ended, h.stack⟩, nofun⟩

end Sane

theorem Sane.skip_ne_nil (h : g.Sane) (hcons : g.tokens = t :: ts) (ht : t.value ≠ .streamEnd)
    (hnone : g.skip.failure = none) : g.skip.tokens ≠ [] := fun hnil =>
  ht ((hcons ▸ h.ended : Ended g.failure (t :: ts)).2.1 hnone (by simpa [Grammar.skip, hcons] using hnil))

theorem anchors_skip (hcons : g.tokens = t :: ts) (ht : t.value.isOrdinary = true) :
    anchors g.tokens = anchors g.skip.tokens := by
  rw [hcons, anchors_cons_of_isOrdinary ht, skip, hcons]
  rfl

/-- An error is real unless no anchors were to come. -/
abbrev Reads {α : Type} (as : List String) (post : α → Prop) (x : Except (Option SyntaxError) α) : Prop :=
  Ends (fun e => e = none → as = []) post x

/-- A step whose event and later tokens have these anchors. -/
abbrev Emits (as : List String) (x : Step) : Prop :=
  Reads as (fun r => as = r.1.event.anchor?.toList ++ anchors r.2.tokens ∧ r.2.Ready ∧
    (r.1.event = .streamEnd → r.2.tokens = [])) x

@[simp] theorem emits_fail {p : Problem} {context : Option (Context × Mark)} : Emits as (fail p m context) := nofun

theorem emits_event {event : Event} (has : as = anchors g.tokens) (hanchor : event.anchor? = none)
    (hne : event ≠ .streamEnd) (hg : g.Ready) : Emits as (.ok (⟨event, m⟩, g)) :=
  ⟨by simp [has, hanchor], hg, fun h => absurd h hne⟩

theorem emits_emptyScalar (has : as = anchors g.tokens) (hg : g.Ready) : Emits as (g.emptyScalar m) :=
  emits_event has rfl nofun hg

theorem emits_last (hs : g.Sane) (hcons : g.tokens = t :: ts) (ht : t.value.isOrdinary = true) {event : Event}
    (hanchor : event.anchor? = none) (hne : event ≠ .streamEnd) :
    Emits (anchors g.tokens) (.ok (⟨event, m⟩, g.skip.pop)) :=
  emits_event (by rw [tokens_pop, anchors_skip hcons ht]) hanchor hne hs.skip.pop

section Peek

variable {α : Type} {post : α → Prop} {f : Located Token → Except (Option SyntaxError) α}

theorem reads_peek_of (has : g.tokens = [] → g.failure = none → as = [])
    (hf : ∀ t ts, g.tokens = t :: ts → Reads as post (f t)) : Reads as post (g.peek >>= f) := by
  unfold peek
  cases hts : g.tokens with
  | nil => exact has hts
  | cons t ts => exact hf t ts hts

theorem reads_peek (hf : ∀ t ts, g.tokens = t :: ts → Reads (anchors g.tokens) post (f t)) :
    Reads (anchors g.tokens) post (g.peek >>= f) :=
  reads_peek_of (fun hnil _ => by rw [hnil]; rfl) hf

theorem reads_peek_skip (hs : g.Sane) (hcons : g.tokens = t :: ts) (ht : t.value ≠ .streamEnd)
    (hf : ∀ u us, g.skip.tokens = u :: us → Reads as post (f u)) : Reads as post (g.skip.peek >>= f) :=
  reads_peek_of (fun hnil hnone => absurd hnil (hs.skip_ne_nil hcons ht hnone)) hf

end Peek

/-! ## Nodes -/

theorem reads_nodeHead (hs : g.Sane) :
    Reads (anchors g.tokens) (fun r => anchors g.tokens = r.1.anchor.toList ++ anchors r.2.tokens ∧ r.2.Sane ∧
      (r.2.failure = none → r.2.tokens ≠ [])) g.nodeHead := by
  refine reads_peek fun t ts hcons => ?_
  split
  next a ht =>
    have hname : anchors g.tokens = [a] ++ anchors g.skip.tokens := by
      simp [skip, hcons, ht, Token.anchor?]
    refine reads_peek_skip hs hcons (by simp [ht]) fun u us hus => ?_
    split
    next h s hu =>
      exact ⟨by rw [hname, anchors_skip hus (by rw [hu]; rfl)]; rfl, hs.skip.skip,
        hs.skip.skip_ne_nil hus (by simp [hu])⟩
    · exact ⟨hname, hs.skip, fun _ => by simp [hus]⟩
  next h s ht =>
    have hname : anchors g.tokens = anchors g.skip.tokens := anchors_skip hcons (by rw [ht]; rfl)
    refine reads_peek_skip hs hcons (by simp [ht]) fun u us hus => ?_
    split
    next a hu =>
      refine ⟨?_, hs.skip.skip, hs.skip.skip_ne_nil hus (by simp [hu])⟩
      rw [hname, hus, anchors_cons, hu, Token.anchor?, skip, hus]
      rfl
    · exact ⟨hname, hs.skip, fun _ => by simp [hus]⟩
  · exact ⟨rfl, hs, fun _ => by simp [hcons]⟩

theorem reads_resolveTag (head : NodeHead) : Reads as (fun _ => True) (g.resolveTag head) := by
  unfold resolveTag
  split
  · trivial
  · refine .ite (fun _ => trivial) fun _ => ?_
    split
    · trivial
    · exact nofun

theorem emits_nodeContent (hs : g.Sane) (hne : g.failure = none → g.tokens ≠ []) (block indentless : Bool)
    (head : NodeHead) (tag : Option Tag) :
    Emits (head.anchor.toList ++ anchors g.tokens) (g.nodeContent block indentless head tag) := by
  refine reads_peek_of (fun hnil hnone => absurd hnil (hne hnone)) fun t ts hcons => ?_
  dsimp only
  split
  next text plain ht =>
    refine ⟨?_, hs.skip.pop, nofun⟩
    rw [tokens_pop, anchors_skip hcons (by rw [ht]; rfl)]
    rfl
  next ht => exact ⟨rfl, hs.expectOpen hcons (by rw [ht]; rfl), nofun⟩
  next ht => exact ⟨rfl, hs.expectOpen hcons (by rw [ht]; rfl), nofun⟩
  · refine .ite (fun _ => ⟨rfl, hs.expect rfl, nofun⟩) fun _ => ?_
    refine .ite (fun h => ⟨rfl, hs.expectOpen hcons ?_, nofun⟩) fun _ => ?_
    · rw [eq_of_beq (Bool.and_eq_true_iff.mp h).2]; rfl
    refine .ite (fun h => ⟨rfl, hs.expectOpen hcons ?_, nofun⟩) fun _ => ?_
    · rw [eq_of_beq (Bool.and_eq_true_iff.mp h).2]; rfl
    exact .ite (fun _ => ⟨by rw [tokens_pop]; rfl, hs.pop, nofun⟩) fun _ => emits_fail

theorem emits_node (hs : g.Sane) (block indentless : Bool) : Emits (anchors g.tokens) (g.node block indentless) := by
  refine reads_peek fun t ts hcons => ?_
  split
  next ht => exact emits_last hs hcons (by rw [ht]; rfl) rfl nofun
  · refine (reads_nodeHead hs).bind fun r ⟨hanchors, hsane, hne⟩ => ?_
    refine (reads_resolveTag r.1).bind fun tag _ => ?_
    rw [hanchors]
    exact emits_nodeContent hsane hne block indentless r.1 tag

/-- A node after an indicator, or an empty scalar where what comes next shows that it is missing. -/
theorem emits_nodeAfter (hs : g.Sane) (hcons : g.tokens = t :: ts) (ht : t.value.isOrdinary = true)
    (he : e.opener? = none) {missing : Located Token → Bool} {place : Located Token → Mark} {block indentless : Bool} :
    Emits (anchors g.tokens) (g.skip.peek >>= fun u =>
      if missing u then (g.skip.expect e).emptyScalar (place u) else (g.skip.push e).node block indentless) := by
  rw [anchors_skip hcons ht]
  exact reads_peek fun u us hus => .ite (fun _ => emits_emptyScalar rfl (hs.skip.expect he)) fun _ =>
    emits_node (hs.skip.push he) block indentless

/-! ## Documents -/

theorem reads_directives (fuel : Nat) (versioned : Bool) (hs : g.Sane) :
    Reads (anchors g.tokens) (fun g' => anchors g.tokens = anchors g'.tokens ∧ g'.Sane)
      (directives fuel g versioned) := by
  induction fuel generalizing g versioned with
  | zero => exact ⟨rfl, hs⟩
  | succ fuel ih =>
    refine reads_peek fun t ts hcons => ?_
    split
    next ht =>
      rw [anchors_skip hcons (by rw [ht]; rfl)]
      refine .ite (fun _ => nofun) fun _ => .ite (fun _ => nofun) fun _ => ih true hs.skip
    next h target ht =>
      rw [anchors_skip hcons (by rw [ht]; rfl)]
      refine .ite (fun _ => nofun) fun _ => ih versioned (g := { g.skip with handles := _ }) ⟨hs.skip.ended, hs.stack⟩
    · exact ⟨rfl, hs.ended, hs.stack⟩

theorem Sane.skipDocumentEnds (hs : g.Sane) : g.skipDocumentEnds.Sane where
  ended := by
    have hdrop (ts : List (Located Token)) (h : Ended g.failure ts) :
        Ended g.failure (ts.dropWhile fun t => t.value == .documentEnd) := by
      induction ts with
      | nil => exact h
      | cons t ts ih =>
        rw [List.dropWhile_cons]
        split
        · exact ih h.2.2
        · exact h
    exact hdrop g.tokens hs.ended
  stack := hs.stack

theorem anchors_skipDocumentEnds (g : Grammar) : anchors g.skipDocumentEnds.tokens = anchors g.tokens := by
  have hdrop (ts : List (Located Token)) :
      anchors (ts.dropWhile fun t => t.value == .documentEnd) = anchors ts := by
    induction ts with
    | nil => rfl
    | cons t ts ih =>
      rw [List.dropWhile_cons]
      split
      next ht => rw [ih, anchors_cons_of_isOrdinary (by rw [eq_of_beq ht]; rfl)]
      · rfl
  exact hdrop g.tokens

theorem emits_documentStart (hs : g.Sane) (hstate : g.state.opener? = none) (implicit : Bool) :
    Emits (anchors g.tokens) (g.documentStart implicit) := by
  have hkeep : Sane (if implicit then g else g.skipDocumentEnds) ∧
      anchors g.tokens = anchors (if implicit then g else g.skipDocumentEnds).tokens ∧
      (if implicit then g else g.skipDocumentEnds).state = g.state := by
    cases implicit with
    | true => exact ⟨hs, rfl, rfl⟩
    | false => exact ⟨hs.skipDocumentEnds, (anchors_skipDocumentEnds g).symm, rfl⟩
  unfold documentStart
  dsimp only
  revert hkeep
  generalize (if implicit then g else g.skipDocumentEnds) = g₁
  rintro ⟨hs₁, hanchors, hstate₁⟩
  rw [← hstate₁] at hstate
  rw [hanchors]
  refine reads_peek fun t ts hcons => .ite (fun ht => ?_) fun _ => .ite (fun _ => ?_) fun _ => ?_
  · have hnil : ts = [] := (hcons ▸ hs₁.ended : Ended g₁.failure (t :: ts)).1 (eq_of_beq ht)
    have hskip : g₁.skip.tokens = [] := by simp [skip, hcons, hnil]
    refine ⟨?_, ⟨⟨?_, hs₁.stack⟩, fun t ht => by cases hstate.symm.trans ht⟩, fun _ => hskip⟩
    · rw [hskip, hcons, hnil, anchors_cons, eq_of_beq ht]
      rfl
    · rw [hskip]
      trivial
  · have hhandles : Sane { g₁ with handles := defaultHandles } := ⟨hs₁.ended, hs₁.stack⟩
    exact emits_event rfl rfl nofun ((hhandles.push rfl).expect rfl)
  · refine (reads_directives _ _ hs₁).bind fun g₂ ⟨hanchors₂, hs₂⟩ => ?_
    rw [hanchors₂]
    refine reads_peek fun u us hus => .ite (fun hu => ?_) fun _ => emits_fail
    rw [anchors_skip hus (by rw [eq_of_beq hu]; rfl)]
    exact emits_event rfl rfl nofun ((hs₂.skip.push rfl).expect rfl)

theorem emits_documentContent (hs : g.Sane) : Emits (anchors g.tokens) g.documentContent := by
  refine reads_peek fun t ts hcons => ?_
  have hempty : Emits (anchors g.tokens) (g.pop.emptyScalar t.start) :=
    emits_emptyScalar (by rw [tokens_pop]) hs.pop
  split
  iterate 5 exact hempty
  exact emits_node hs true false

theorem emits_documentEnd (hs : g.Sane) : Emits (anchors g.tokens) g.documentEnd := by
  refine reads_peek fun t ts hcons => ?_
  dsimp only
  split
  next ht =>
    rw [anchors_skip hcons (by rw [eq_of_beq ht]; rfl)]
    exact emits_event rfl rfl nofun ⟨⟨hs.skip.ended, hs.skip.stack⟩, nofun⟩
  · exact emits_event rfl rfl nofun ⟨⟨hs.ended, hs.stack⟩, nofun⟩

/-! ## Block collections -/

theorem emits_blockEntry (hs : g.Sane) (opened : Mark) : Emits (anchors g.tokens) (g.blockEntry opened) := by
  refine reads_peek fun t ts hcons => ?_
  split
  next ht => exact emits_nodeAfter hs hcons (by rw [ht]; rfl) rfl
  next ht => exact emits_last hs hcons (by rw [ht]; rfl) rfl nofun
  · exact emits_fail

theorem emits_indentlessEntry (hs : g.Sane) : Emits (anchors g.tokens) g.indentlessEntry := by
  refine reads_peek fun t ts hcons => ?_
  split
  next ht => exact emits_nodeAfter hs hcons (by rw [ht]; rfl) rfl
  · exact emits_event (by rw [tokens_pop]) rfl nofun hs.pop

theorem emits_blockKey (hs : g.Sane) (opened : Mark) : Emits (anchors g.tokens) (g.blockKey opened) := by
  refine reads_peek fun t ts hcons => ?_
  split
  next ht => exact emits_nodeAfter hs hcons (by rw [ht]; rfl) rfl
  next ht => exact emits_last hs hcons (by rw [ht]; rfl) rfl nofun
  · exact emits_fail

theorem emits_blockValue (hs : g.Sane) (opened : Mark) : Emits (anchors g.tokens) (g.blockValue opened) := by
  refine reads_peek fun t ts hcons => ?_
  split
  next ht => exact emits_nodeAfter hs hcons (by rw [ht]; rfl) rfl
  · exact emits_emptyScalar rfl (hs.expect rfl)

/-! ## Flow collections -/

theorem emits_flowEntry (hs : g.Sane) (opened : Mark) (first : Bool) :
    Emits (anchors g.tokens) (g.flowEntry opened first) := by
  refine reads_peek fun t ts hcons => ?_
  extract_lets close entry
  have hentry {g : Grammar} {t : Located Token} {ts : List (Located Token)} (hs : g.Sane)
      (hcons : g.tokens = t :: ts) : Emits (anchors g.tokens) (entry g t) := by
    unfold entry
    split
    next ht =>
      rw [anchors_skip hcons (by rw [ht]; rfl)]
      exact emits_event rfl rfl nofun (hs.skip.expect rfl)
    next ht => exact emits_last hs hcons (by rw [ht]; rfl) rfl nofun
    · exact emits_node (hs.push rfl) false false
  refine .ite (fun ht => emits_last hs hcons (by rw [eq_of_beq ht]; rfl) rfl nofun) fun _ => ?_
  refine .ite (fun _ => hentry hs hcons) fun _ => .ite (fun ht => ?_) fun _ => emits_fail
  rw [anchors_skip hcons (by rw [eq_of_beq ht]; rfl)]
  exact reads_peek fun u us hus => hentry hs.skip hus

theorem emits_pairKey (hs : g.Sane) (opened : Mark) : Emits (anchors g.tokens) (g.pairKey opened) := by
  refine reads_peek fun t ts hcons => ?_
  have hempty (ht : t.value.isOrdinary = true) :
      Emits (anchors g.tokens) ((g.skip.expect (.pairValue opened)).emptyScalar t.stop) :=
    anchors_skip hcons ht ▸ emits_emptyScalar rfl (hs.skip.expect rfl)
  split
  next ht => exact hempty (by rw [ht]; rfl)
  next ht => exact hempty (by rw [ht]; rfl)
  next ht => exact hempty (by rw [ht]; rfl)
  · exact emits_node (hs.push rfl) false false

theorem emits_pairValue (hs : g.Sane) (opened : Mark) : Emits (anchors g.tokens) (g.pairValue opened) := by
  refine reads_peek fun t ts hcons => .ite (fun ht => ?_) fun _ => emits_emptyScalar rfl (hs.expect rfl)
  exact emits_nodeAfter hs hcons (by rw [eq_of_beq ht]; rfl) rfl

theorem emits_pairEnd (hs : g.Sane) (opened : Mark) : Emits (anchors g.tokens) (g.pairEnd opened) :=
  reads_peek fun _ _ _ => emits_event rfl rfl nofun (hs.expect rfl)

theorem emits_flowKey (hs : g.Sane) (opened : Mark) (first : Bool) :
    Emits (anchors g.tokens) (g.flowKey opened first) := by
  refine reads_peek fun t ts hcons => ?_
  extract_lets close entry
  have hentry {g : Grammar} {t : Located Token} {ts : List (Located Token)} (hs : g.Sane)
      (hcons : g.tokens = t :: ts) : Emits (anchors g.tokens) (entry g t) := by
    unfold entry
    split
    next ht => exact emits_nodeAfter hs hcons (by rw [ht]; rfl) rfl
    next ht => exact emits_last hs hcons (by rw [ht]; rfl) rfl nofun
    · exact emits_node (hs.push rfl) false false
  refine .ite (fun ht => emits_last hs hcons (by rw [eq_of_beq ht]; rfl) rfl nofun) fun _ => ?_
  refine .ite (fun _ => hentry hs hcons) fun _ => .ite (fun ht => ?_) fun _ => emits_fail
  rw [anchors_skip hcons (by rw [eq_of_beq ht]; rfl)]
  exact reads_peek fun u us hus => hentry hs.skip hus

theorem emits_flowValue (hs : g.Sane) (opened : Mark) : Emits (anchors g.tokens) (g.flowValue opened) := by
  refine reads_peek fun t ts hcons => .ite (fun ht => ?_) fun _ => emits_emptyScalar rfl (hs.expect rfl)
  exact emits_nodeAfter hs hcons (by rw [eq_of_beq ht]; rfl) rfl

/-! ## Runs -/

theorem emits_opening (hg : g.Ready) {u : Token} (hstate : g.state.opener? = some u) {f : Mark × Grammar → Step}
    (hf : ∀ m, Emits (anchors g.skip.tokens) (f (m, g.skip))) : Emits (anchors g.tokens) (g.opening >>= f) := by
  have hhead := hg.opener u hstate
  cases hcons : g.tokens with
  | nil => simp [hcons] at hhead
  | cons t ts =>
    obtain rfl : t.value = u := by simpa [hcons] using hhead
    rw [← hcons, anchors_skip hcons (Expect.isOrdinary_of_opener? hstate)]
    unfold opening peek
    rw [hcons]
    exact hf t.start

/-- A step makes an event with the anchor among the tokens that it takes. -/
theorem emits_step (hg : g.Ready) : Emits (anchors g.tokens) g.step := by
  have hs := hg.sane
  unfold step
  cases hstate : g.state with
  | documentStart implicit => exact emits_documentStart hs (by rw [hstate]; rfl) implicit
  | documentContent => exact emits_documentContent hs
  | documentEnd => exact emits_documentEnd hs
  | blockNode => exact emits_node hs true false
  | blockFirstEntry => exact emits_opening hg (by rw [hstate]; rfl) fun m => emits_blockEntry hs.skip m
  | blockEntry m => exact emits_blockEntry hs m
  | indentlessEntry => exact emits_indentlessEntry hs
  | blockFirstKey => exact emits_opening hg (by rw [hstate]; rfl) fun m => emits_blockKey hs.skip m
  | blockKey m => exact emits_blockKey hs m
  | blockValue m => exact emits_blockValue hs m
  | flowFirstEntry => exact emits_opening hg (by rw [hstate]; rfl) fun m => emits_flowEntry hs.skip m true
  | flowEntry m first => exact emits_flowEntry hs m first
  | pairKey m => exact emits_pairKey hs m
  | pairValue m => exact emits_pairValue hs m
  | pairEnd m => exact emits_pairEnd hs m
  | flowFirstKey => exact emits_opening hg (by rw [hstate]; rfl) fun m => emits_flowKey hs.skip m true
  | flowKey m first => exact emits_flowKey hs m first
  | flowValue m => exact emits_flowValue hs m
  | flowNoValue m => exact reads_peek fun _ _ _ => emits_emptyScalar rfl (hs.expect rfl)

theorem filterMap_anchor?_cons (m : Marked) (ms : List Marked) :
    (m :: ms).filterMap (·.event.anchor?) = m.event.anchor?.toList ++ ms.filterMap (·.event.anchor?) := by
  cases h : m.event.anchor? <;> simp [h]

theorem anchors_run_prefix (fuel : Nat) (hg : g.Ready) :
    (run fuel g).1.filterMap (·.event.anchor?) <+: anchors g.tokens := by
  induction fuel generalizing g with
  | zero => exact List.nil_prefix
  | succ fuel ih =>
    have hstep := emits_step hg
    unfold run
    cases hx : g.step with
    | error e => exact List.nil_prefix
    | ok r =>
      obtain ⟨hanchors, hg', -⟩ : Emits _ (.ok r) := hx ▸ hstep
      rw [hanchors, filterMap_anchor?_cons]
      exact (List.prefix_append_right_inj _).mpr (ih hg')

/-- The events of a run to the end of the text have all anchors of the tokens. -/
theorem anchors_run (fuel : Nat) (hg : g.Ready)
    (hend : (run fuel g).2 = none ∨ ∃ m ∈ (run fuel g).1, m.event = .streamEnd) :
    (run fuel g).1.filterMap (·.event.anchor?) = anchors g.tokens := by
  induction fuel generalizing g with
  | zero => simp [run] at hend
  | succ fuel ih =>
    have hstep := emits_step hg
    unfold run at hend ⊢
    cases hx : g.step with
    | error e =>
      rw [hx] at hend hstep
      obtain he | ⟨_, hmem, -⟩ := hend
      · exact (hstep he).symm
      · cases hmem
    | ok r =>
      rw [hx] at hend
      obtain ⟨hanchors, hg', hlast⟩ : Emits _ (.ok r) := hx ▸ hstep
      have hrest : (run fuel r.2).1.filterMap (·.event.anchor?) = anchors r.2.tokens := by
        obtain hnone | ⟨m, hmem, hm⟩ := hend
        · exact ih hg' (Or.inl hnone)
        · obtain rfl | hmem := List.mem_cons.mp hmem
          · -- nothing is left after the end of the text
            have hprefix := anchors_run_prefix fuel hg'
            rw [hlast hm] at hprefix ⊢
            exact List.prefix_nil.mp hprefix
          · exact ih hg' (Or.inr ⟨m, hmem, hm⟩)
      rw [hanchors, filterMap_anchor?_cons, hrest]

end Grammar

theorem anchors_eventsOf {ts : List (Located Token)} {failure : Option SyntaxError} (h : Ended failure ts)
    (hend : (eventsOf ts failure).2 = none ∨ ∃ m ∈ (eventsOf ts failure).1, m.event = .streamEnd) :
    (eventsOf ts failure).1.filterMap (·.event.anchor?) = anchors ts :=
  Grammar.anchors_run (g := .start ts failure) _ ⟨⟨h, nofun⟩, nofun⟩ hend

end YamlInclude.Yaml
