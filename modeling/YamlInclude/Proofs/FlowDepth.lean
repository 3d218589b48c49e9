import YamlInclude.Proofs.Events
import YamlInclude.Proofs.Appended

/-! # Flow collections of tokens

The scanner counts the flow collections that are open, and so does the grammar: both by the brackets among the tokens.
So events that come to the end of a text leave no flow collection open there, and the tokens come to the end as well.
-/

namespace YamlInclude.Yaml

def Token.depthAfter (d : Nat) : Token → Nat
  | .flowSequenceStart | .flowMappingStart => d + 1
  | .flowSequenceEnd | .flowMappingEnd => d - 1
  | _ => d

/-- A token that is no bracket of a flow collection, and not the end of the text. -/
def Token.isFlat : Token → Bool
  | .flowSequenceStart | .flowMappingStart | .flowSequenceEnd | .flowMappingEnd | .streamEnd => false
  | _ => true

theorem Token.depthAfter_of_isFlat {t : Token} (h : t.isFlat = true) (d : Nat) : t.depthAfter d = d := by
  cases t <;> first | rfl | cases h

theorem Token.ne_streamEnd_of_isFlat {t : Token} (h : t.isFlat = true) : t ≠ .streamEnd := by
  rintro rfl
  cases h

def flowDepth (d : Nat) (ts : List (Located Token)) : Nat := ts.foldl (fun d t => t.value.depthAfter d) d

variable {t : Located Token} {ts us : List (Located Token)} {d : Nat}

@[simp] theorem flowDepth_nil (d : Nat) : flowDepth d [] = d := rfl

@[simp] theorem flowDepth_cons (d : Nat) (t : Located Token) (ts : List (Located Token)) :
    flowDepth d (t :: ts) = flowDepth (t.value.depthAfter d) ts := rfl

@[simp] theorem flowDepth_append (d : Nat) (ts us : List (Located Token)) :
    flowDepth d (ts ++ us) = flowDepth (flowDepth d ts) us := List.foldl_append

theorem flowDepth_insertIdx (ht : t.value.isFlat = true) (ts : List (Located Token)) (n d : Nat) :
    flowDepth d (ts.insertIdx n t) = flowDepth d ts := by
  induction ts generalizing n d with
  | nil => cases n <;> simp [Token.depthAfter_of_isFlat ht]
  | cons u us ih => cases n <;> simp [Token.depthAfter_of_isFlat ht, ih]

theorem flowDepth_mono {d' : Nat} (h : d ≤ d') (ts : List (Located Token)) : flowDepth d ts ≤ flowDepth d' ts := by
  induction ts generalizing d d' with
  | nil => exact h
  | cons t ts ih =>
    refine ih (?_ : t.value.depthAfter d ≤ t.value.depthAfter d')
    unfold Token.depthAfter
    split <;> omega

/-- The end of a text is among tokens. -/
def Completes (ts : List (Located Token)) : Prop := ∃ t ∈ ts, t.value = .streamEnd

theorem Completes.of_suffix (h : Completes us) (hus : us <:+ ts) : Completes ts :=
  h.imp fun _ ⟨ht, he⟩ => ⟨hus.subset ht, he⟩

theorem Completes.of_cons {t : Located Token} {ts : List (Located Token)} (h : Completes (t :: ts))
    (ht : t.value ≠ .streamEnd) : Completes ts := by
  obtain ⟨u, hu, hend⟩ := h
  obtain rfl | hu := List.mem_cons.mp hu
  · exact absurd hend ht
  · exact ⟨u, hu, hend⟩

theorem Completes.of_append {W ts : List (Located Token)} (h : Completes (W ++ ts))
    (hW : ∀ t ∈ W, t.value ≠ .streamEnd) : Completes ts := by
  obtain ⟨u, hu, hend⟩ := h
  obtain hu | hu := List.mem_append.mp hu
  · exact absurd hend (hW u hu)
  · exact ⟨u, hu, hend⟩

theorem not_completes_nil : ¬Completes [] := nofun

theorem gives_true {ε α : Type} (x : Except ε α) : Gives (fun _ => True) x := by cases x <;> trivial

namespace Scanner

variable {s s₁ : Scanner} {text : List Char}

/-- Indentations that grow from that of no block. -/
def Nested : Int → List Int → Prop
  | i, [] => i = -1
  | i, j :: js => j < i ∧ Nested j js

/-- A scanner before the end of a text whose indentations grow, with as many levels of keys as flow collections are
open after its tokens. -/
structure Balanced (d : Nat) (s : Scanner) : Prop where
  nested : Nested s.indent s.outer
  keys : s.keys.length = flowDepth d s.waiting + 1
  unended : ∀ t ∈ s.waiting, t.value ≠ .streamEnd
  unfinished : s.finished = false

theorem Balanced.dropStaleKeys (h : s.Balanced d) : Gives (Balanced d) s.dropStaleKeys := by
  unfold Scanner.dropStaleKeys
  dsimp only
  split
  · exact gives_failIn
  · exact { h with keys := by simpa using h.keys }

theorem Balanced.dropKey (h : s.Balanced d) : Gives (Balanced d) s.dropKey := by
  unfold Scanner.dropKey
  split
  next k rest hkeys => exact .ite (fun _ => gives_failIn) fun _ => { h with keys := by simpa [hkeys] using h.keys }
  · exact h

theorem Balanced.saveKey (h : s.Balanced d) : Gives (Balanced d) s.saveKey :=
  .ite (fun _ => h) fun _ => h.dropKey.bind fun a ha => { ha with
    keys := by
      have := ha.keys
      simp only [List.length_cons, List.length_drop]
      omega }

theorem Balanced.insert (h : s.Balanced d) (ht : t.value.isFlat = true) (n : Nat)
    {keys : List (Option KeyCandidate)} (hkeys : keys.length = s.keys.length) :
    Balanced d { s with waiting := s.waiting.insertIdx n t, keys } where
  nested := h.nested
  keys := by
    dsimp only
    rw [hkeys, flowDepth_insertIdx ht, h.keys]
  unended u hu := by
    obtain rfl | hu := List.eq_or_mem_of_mem_insertIdx hu
    · exact Token.ne_streamEnd_of_isFlat ht
    · exact h.unended u hu
  unfinished := h.unfinished

theorem Balanced.push (h : s.Balanced d) (ht : t.value.isFlat = true) : (s.push t).Balanced d where
  nested := h.nested
  keys := by simpa [Scanner.push, Token.depthAfter_of_isFlat ht] using h.keys
  unended u hu := by
    obtain hu | rfl := by simpa [Scanner.push] using hu
    · exact h.unended u hu
    · exact Token.ne_streamEnd_of_isFlat ht
  unfinished := h.unfinished

theorem Balanced.openBlock (h : s.Balanced d) (column : Nat) {t : Token} (ht : t.isFlat = true) (m : Mark)
    (position : Option Nat) : (s.openBlock column t m position).Balanced d := by
  unfold Scanner.openBlock
  split
  · exact h
  next hdeep =>
    have hnested : Nested column (s.indent :: s.outer) := by
      simp only [Bool.or_eq_true, decide_eq_true_eq, not_or, Int.not_le] at hdeep
      exact ⟨hdeep.2, h.nested⟩
    cases position with
    | none => exact { h.push (t := ⟨t, m, m⟩) ht with nested := hnested }
    | some n => exact { h.insert (t := ⟨t, m, m⟩) ht (n - s.released) rfl with nested := hnested }

theorem Balanced.closeBlocks (h : s.Balanced d) (column : Int) : (s.closeBlocks column).Balanced d := by
  have hgo (indent : Int) (outer : List Int) (waiting : List (Located Token))
      (h : Balanced d { s with indent, outer, waiting }) :
      let r := closeBlocks.go s column indent outer waiting
      Balanced d { s with indent := r.1, outer := r.2.1, waiting := r.2.2 } := by
    induction outer generalizing indent waiting with
    | nil => exact h
    | cons i is ih =>
      unfold closeBlocks.go
      split
      · exact ih _ _ { h.push (t := ⟨.blockEnd, s.mark, s.mark⟩) rfl with nested := h.nested.2 }
      · exact h
  unfold Scanner.closeBlocks
  split
  · exact h
  · exact hgo s.indent s.outer s.waiting h

theorem Balanced.skipToToken (n : Nat) (h : s.Balanced d) : (skipToToken n s).Balanced d := by
  induction n generalizing s with
  | zero => exact h
  | succ n ih =>
    unfold Scanner.skipToToken
    dsimp only
    split
    · exact ih { h with }
    · exact { h with }

theorem Balanced.settle (h : s.Balanced d) : Gives (Balanced d) s.settle :=
  (h.skipToToken _).dropStaleKeys.bind fun _ ha => ha.closeBlocks _

theorem Balanced.read (h : s.Balanced d) (ht : t.value.isFlat = true) (c : Cursor) (keyAllowed : Bool) :
    Balanced d { s.push t with cursor := c, keyAllowed } := { h.push ht with }

/-! ## Steps that read a token -/

abbrev ReadsFlat (x : Except SyntaxError (Located Token × Cursor)) : Prop := Gives (·.1.value.isFlat = true) x

theorem scanAnchor_flat (c : Cursor) : ReadsFlat (scanAnchor c) := (gives_true _).bind fun _ _ => rfl

theorem scanAlias_flat (c : Cursor) : ReadsFlat (scanAlias c) := (gives_true _).bind fun _ _ => rfl

theorem scanTag_flat (flow : Bool) (c : Cursor) : ReadsFlat (scanTag flow c) :=
  (gives_true _).bind fun _ _ => .ite (fun _ => rfl) fun _ => gives_failIn

theorem scanQuoted_flat (single : Bool) (c : Cursor) : ReadsFlat (scanQuoted single c) :=
  (gives_true _).bind fun _ _ => rfl

theorem scanPlain_flat (flow : Bool) (indent : Int) (c : Cursor) :
    Gives (·.1.value.isFlat = true) (scanPlain flow indent c) :=
  (gives_true _).bind fun _ _ => rfl

theorem scanBlock_flat (literal : Bool) (parent : Int) (c : Cursor) : ReadsFlat (scanBlock literal parent c) :=
  (gives_true _).bind fun _ _ => .ite (fun _ => gives_failIn) fun _ =>
    (gives_true _).bind fun _ _ => (gives_true _).bind fun _ _ => rfl

theorem scanDirective_flat (c : Cursor) : ReadsFlat (scanDirective c) := by
  have hbody (name : List Char) (since : Mark) (c : Cursor) :
      Gives (·.1.isFlat = true) (scanDirectiveBody name since c) := by
    refine .ite (fun _ => ?_) fun _ => .ite (fun _ => ?_) fun _ => gives_failIn
    · exact (gives_true _).bind fun _ _ => .ite (fun _ => gives_failIn) fun _ => (gives_true _).bind fun _ _ => rfl
    · exact (gives_true _).bind fun _ _ => .ite (fun _ => gives_failIn) fun _ =>
        (gives_true _).bind fun _ _ => .ite (fun _ => rfl) fun _ => gives_failIn
  exact .ite (fun _ => gives_failIn) fun _ => .ite (fun _ => gives_failIn) fun _ => (hbody _ _ _).bind fun _ hr =>
    .ite (fun _ => hr) fun _ => gives_failIn

namespace Balanced

theorem fetchDirective (h : s.Balanced d) : Gives (Balanced d) s.fetchDirective :=
  (h.closeBlocks _).dropKey.bind fun _ ha => (scanDirective_flat _).bind fun _ hr => ha.read hr _ _

theorem fetchDocumentMarker (h : s.Balanced d) {t : Token} (ht : t.isFlat = true) :
    Gives (Balanced d) (s.fetchDocumentMarker t) :=
  (h.closeBlocks _).dropKey.bind fun _ ha => ha.read (t := ⟨t, _, _⟩) ht _ _

theorem bracket (h : s.Balanced d) {t : Token} (ht : t ≠ .streamEnd) (n : Nat) (keyAllowed : Bool)
    {keys : List (Option KeyCandidate)} (hkeys : keys.length = t.depthAfter (flowDepth d s.waiting) + 1) :
    Balanced d { s.pushIndicator t n with keys, keyAllowed } where
  nested := h.nested
  keys := by simpa [pushIndicator, Scanner.push] using hkeys
  unended u hu := by
    obtain hu | rfl := by simpa [pushIndicator, Scanner.push] using hu
    · exact h.unended u hu
    · exact ht
  unfinished := h.unfinished

theorem fetchFlowStart (h : s.Balanced d) {t : Token} (ht : t ≠ .streamEnd) (hdepth : ∀ d, t.depthAfter d = d + 1) :
    Gives (Balanced d) (s.fetchFlowStart t) :=
  h.saveKey.bind fun _ ha => ha.bracket ht 1 true (by rw [List.length_cons, ha.keys, hdepth])

theorem fetchFlowEnd (h : s.Balanced d) {t : Token} (ht : t ≠ .streamEnd) (hdepth : ∀ d, t.depthAfter d = d - 1) :
    Gives (Balanced d) (s.fetchFlowEnd t) := by
  refine h.dropKey.bind fun a ha => ha.bracket ht 1 false ?_
  have hkeys := ha.keys
  rw [hdepth]
  split
  next hflow =>
    simp only [inFlow, decide_eq_true_eq] at hflow
    rw [List.length_drop]
    omega
  next hflow =>
    simp only [inFlow, decide_eq_true_eq] at hflow
    omega

theorem fetchFlowEntry (h : s.Balanced d) : Gives (Balanced d) s.fetchFlowEntry :=
  h.dropKey.bind fun _ ha => ha.read (t := ⟨.flowEntry, _, _⟩) rfl _ _

theorem fetchBlockEntry (h : s.Balanced d) : Gives (Balanced d) s.fetchBlockEntry :=
  .ite (fun _ => trivial) fun _ => (h.openBlock _ rfl _ _).dropKey.bind fun _ ha =>
    ha.read (t := ⟨.blockEntry, _, _⟩) rfl _ _

theorem fetchKey (h : s.Balanced d) : Gives (Balanced d) s.fetchKey :=
  .ite (fun _ => trivial) fun _ => (h.openBlock _ rfl _ _).dropKey.bind fun _ ha =>
    ha.read (t := ⟨.key, _, _⟩) rfl _ _

theorem fetchValue (h : s.Balanced d) : Gives (Balanced d) s.fetchValue := by
  unfold Scanner.fetchValue
  split
  next k rest hkeys =>
    have hkeyed : Balanced d { s with
        waiting := s.waiting.insertIdx (k.token - s.released) ⟨.key, k.mark, k.mark⟩, keys := none :: rest } :=
      h.insert (t := ⟨.key, k.mark, k.mark⟩) rfl _ (by rw [hkeys]; rfl)
    exact (hkeyed.openBlock _ rfl _ _).read (t := ⟨.value, _, _⟩) rfl _ _
  · exact .ite (fun _ => trivial) fun _ => (h.openBlock _ rfl _ _).read (t := ⟨.value, _, _⟩) rfl _ _

theorem fetchNode (h : s.Balanced d) {scan : Cursor → Except SyntaxError (Located Token × Cursor)}
    (hscan : ∀ c, ReadsFlat (scan c)) : Gives (Balanced d) (s.fetchNode scan) :=
  h.saveKey.bind fun _ ha => (hscan _).bind fun _ hr => ha.read hr _ _

theorem fetchBlockScalar (h : s.Balanced d) (literal : Bool) : Gives (Balanced d) (s.fetchBlockScalar literal) :=
  h.dropKey.bind fun _ ha => (scanBlock_flat _ _ _).bind fun _ hr => ha.read hr _ _

theorem fetchPlain (h : s.Balanced d) : Gives (Balanced d) s.fetchPlain :=
  h.saveKey.bind fun _ ha => (scanPlain_flat _ _ _).bind fun _ hr => ha.read hr _ _

theorem fetchHere (h : s.Balanced d) (c : Char) (cs : List Char) : Gives (Balanced d) (s.fetchHere c cs) := by
  unfold Scanner.fetchHere
  refine .ite (fun _ => h.fetchDirective) fun _ => ?_
  refine .ite (fun _ => h.fetchDocumentMarker rfl) fun _ => ?_
  refine .ite (fun _ => h.fetchDocumentMarker rfl) fun _ => ?_
  refine .ite (fun _ => h.fetchFlowStart nofun fun _ => rfl) fun _ => ?_
  refine .ite (fun _ => h.fetchFlowStart nofun fun _ => rfl) fun _ => ?_
  refine .ite (fun _ => h.fetchFlowEnd nofun fun _ => rfl) fun _ => ?_
  refine .ite (fun _ => h.fetchFlowEnd nofun fun _ => rfl) fun _ => ?_
  refine .ite (fun _ => h.fetchFlowEntry) fun _ => ?_
  refine .ite (fun _ => h.fetchBlockEntry) fun _ => ?_
  refine .ite (fun _ => h.fetchKey) fun _ => ?_
  refine .ite (fun _ => h.fetchValue) fun _ => ?_
  refine .ite (fun _ => h.fetchNode scanAlias_flat) fun _ => ?_
  refine .ite (fun _ => h.fetchNode scanAnchor_flat) fun _ => ?_
  refine .ite (fun _ => h.fetchNode (scanTag_flat _)) fun _ => ?_
  refine .ite (fun _ => h.fetchBlockScalar _) fun _ => ?_
  refine .ite (fun _ => h.fetchBlockScalar _) fun _ => ?_
  refine .ite (fun _ => h.fetchNode (scanQuoted_flat _)) fun _ => ?_
  refine .ite (fun _ => h.fetchNode (scanQuoted_flat _)) fun _ => ?_
  exact .ite (fun _ => h.fetchPlain) fun _ => gives_failIn

end Balanced

end Scanner

/-! ## Events -/

/-- Whether an expectation is inside a flow collection that its frame stands for. -/
def Expect.flowDepth : Expect → Nat
  | .flowEntry _ _ | .pairKey _ | .pairValue _ | .pairEnd _ | .flowKey _ _ | .flowValue _ | .flowNoValue _ => 1
  | _ => 0

/-- How many flow collections of the current document are open where this is expected. -/
def openFlows : List Expect → Nat
  | [] => 0
  | .documentStart _ :: _ => 0
  | .documentEnd :: _ => 0
  | e :: es => e.flowDepth + openFlows es

namespace Grammar

variable {g : Grammar} {m : Mark} {e : Expect} {n : Nat}

def depth (g : Grammar) : Nat := openFlows (g.state :: g.stack)

theorem depth_pop (g : Grammar) : g.pop.depth = openFlows g.stack := by
  unfold pop depth
  split
  next e rest hstack => rw [hstack]
  next hstack => rw [hstack]; rfl

def Pending (g : Grammar) : Prop := g.failure = none → Completes g.tokens

/-- A part of a step. It finds no token only if no end of the text was to come. -/
abbrev Finds {α : Type} (g : Grammar) (post : α → Prop) (x : Except (Option SyntaxError) α) : Prop :=
  Ends (fun e => e = none → ¬g.Pending) post x

/-- A step that takes some tokens, where `d` flow collections are open. The tokens that are left lead to no less depth:
the depth grows where a closing bracket is taken for the missing key of a pair. At the end of the text no flow
collection is open. -/
abbrev Takes (d : Nat) (g : Grammar) (x : Step) : Prop :=
  Finds g (fun r => r.2.tokens <:+ g.tokens ∧
    flowDepth d g.tokens ≤ flowDepth r.2.depth r.2.tokens ∧
    (r.1.event = .streamEnd → r.2.depth = 0 ∧ Completes g.tokens) ∧
    (r.1.event ≠ .streamEnd → g.Pending → r.2.Pending)) x

theorem Takes.after {g' : Grammar} {x : Step} {d' : Nat} (h : Takes d g' x) (hsuffix : g'.tokens <:+ g.tokens)
    (hpending : g.Pending → g'.Pending) (hd : flowDepth d' g.tokens ≤ flowDepth d g'.tokens) : Takes d' g x := by
  cases x with
  | error e => exact fun he hg => h he (hpending hg)
  | ok r =>
    obtain ⟨hsuffix', hle, hend, hpending'⟩ := h
    exact ⟨hsuffix'.trans hsuffix, Nat.le_trans hd hle, fun he => ⟨(hend he).1, (hend he).2.of_suffix hsuffix⟩,
      fun hne hg => hpending' hne (hpending hg)⟩

theorem Pending.skip (h : g.Pending) (hcons : g.tokens = t :: ts) (ht : t.value ≠ .streamEnd) : g.skip.Pending := by
  intro hnone
  have hts : g.skip.tokens = ts := by rw [Grammar.skip, hcons]; rfl
  rw [hts]
  exact (hcons ▸ h hnone : Completes (t :: ts)).of_cons ht

theorem flowDepth_skip (hcons : g.tokens = t :: ts) (d : Nat) :
    flowDepth (t.value.depthAfter d) g.skip.tokens = flowDepth d g.tokens := by
  rw [hcons, skip, hcons]
  rfl

theorem Takes.skip {x : Step} (hcons : g.tokens = t :: ts) (ht : t.value ≠ .streamEnd)
    (h : Takes (t.value.depthAfter d) g.skip x) : Takes d g x :=
  h.after (List.drop_suffix 1 g.tokens) (fun hg => hg.skip hcons ht) (Nat.le_of_eq (flowDepth_skip hcons d).symm)

structure Skips (g g' : Grammar) : Prop where
  stack : g'.stack = g.stack
  suffix : g'.tokens <:+ g.tokens
  pending : g.Pending → g'.Pending
  depth : ∀ d, flowDepth d g.tokens = flowDepth d g'.tokens

theorem Skips.refl (g : Grammar) : g.Skips g := ⟨rfl, List.suffix_refl _, id, fun _ => rfl⟩

theorem Skips.trans {g' g'' : Grammar} (h : g.Skips g') (h' : g'.Skips g'') : g.Skips g'' :=
  ⟨h'.stack.trans h.stack, h'.suffix.trans h.suffix, h'.pending ∘ h.pending, fun d => (h.depth d).trans (h'.depth d)⟩

theorem skips_skip (hcons : g.tokens = t :: ts) (ht : t.value.isFlat = true) : g.Skips g.skip where
  stack := rfl
  suffix := List.drop_suffix 1 g.tokens
  pending h := h.skip hcons (Token.ne_streamEnd_of_isFlat ht)
  depth d := by rw [← flowDepth_skip hcons, Token.depthAfter_of_isFlat ht]

theorem Skips.takes {g' : Grammar} {x : Step} (hg : g.Skips g') (h : Takes d g' x) : Takes d g x :=
  h.after hg.suffix hg.pending (Nat.le_of_eq (hg.depth d))

section Peek

variable {α : Type} {post : α → Prop} {x : Except (Option SyntaxError) α}
  {f : Located Token → Except (Option SyntaxError) α}

theorem Skips.finds {g' : Grammar} (hg : g.Skips g') (h : Finds g' post x) : Finds g post x := by
  cases x with
  | error e => exact fun he hpending => h he (hg.pending hpending)
  | ok a => exact h

theorem finds_peek (hf : ∀ t ts, g.tokens = t :: ts → Finds g post (f t)) : Finds g post (g.peek >>= f) := by
  unfold peek
  cases hts : g.tokens with
  | nil => exact fun hnone hpending => not_completes_nil (hts ▸ hpending hnone)
  | cons t ts => exact hf t ts hts

end Peek

theorem takes_event {event : Event} (h : g.depth = d) (hne : event ≠ .streamEnd) : Takes d g (.ok (⟨event, m⟩, g)) :=
  ⟨List.suffix_refl _, Nat.le_of_eq (by rw [h]), fun he => absurd he hne, fun _ => id⟩

theorem takes_emptyScalar (h : g.depth = d) : Takes d g (g.emptyScalar m) := takes_event h nofun

@[simp] theorem takes_fail {p : Problem} {context : Option (Context × Mark)} : Takes d g (fail p m context) := nofun

theorem takes_expect (he : openFlows (e :: g.stack) = d) : Takes d g ((g.expect e).emptyScalar m) :=
  takes_emptyScalar (g := g.expect e) he

theorem takes_pop {event : Event} (hne : event ≠ .streamEnd) :
    Takes (openFlows g.stack) g (.ok (⟨event, m⟩, g.pop)) := by
  refine ⟨by simp only [tokens_pop, List.suffix_refl], Nat.le_of_eq ?_, fun he => absurd he hne, fun _ hg => ?_⟩
  · rw [← depth_pop, tokens_pop]
  · unfold pop
    split <;> exact hg

theorem takes_last (hcons : g.tokens = t :: ts) {u : Token} (hu : t.value = u) (hend : u ≠ .streamEnd) {event : Event}
    (hne : event ≠ .streamEnd) (hdepth : u.depthAfter d = openFlows g.stack) :
    Takes d g (.ok (⟨event, m⟩, g.skip.pop)) := by
  subst hu
  exact Takes.skip hcons hend (hdepth ▸ takes_pop (g := g.skip) hne)

/-! ### Nodes -/

theorem finds_nodeHead (g : Grammar) : Finds g (fun r => g.Skips r.2) g.nodeHead := by
  refine finds_peek fun t ts hcons => ?_
  split
  next a ht =>
    have hfirst := skips_skip hcons (by rw [ht]; rfl)
    refine hfirst.finds (finds_peek fun u us hus => ?_)
    split
    next hu => exact hfirst.trans (skips_skip hus (by rw [hu]; rfl))
    · exact hfirst
  next ht =>
    have hfirst := skips_skip hcons (by rw [ht]; rfl)
    refine hfirst.finds (finds_peek fun u us hus => ?_)
    split
    next hu => exact hfirst.trans (skips_skip hus (by rw [hu]; rfl))
    · exact hfirst
  · exact Skips.refl g

theorem finds_resolveTag (g : Grammar) (head : NodeHead) : Finds g (fun _ => True) (g.resolveTag head) := by
  unfold resolveTag
  split
  · trivial
  · refine .ite (fun _ => trivial) fun _ => ?_
    split
    · trivial
    · exact nofun

theorem takes_nodeContent (g : Grammar) (block indentless : Bool) (head : NodeHead) (tag : Option Tag) :
    Takes (openFlows g.stack) g (g.nodeContent block indentless head tag) := by
  have hexpect {e : Expect} (he : e.flowDepth + openFlows g.stack = openFlows (e :: g.stack)) (h0 : e.flowDepth = 0) :
      (g.expect e).depth = openFlows g.stack := by
    change openFlows (e :: g.stack) = openFlows g.stack
    rw [← he, h0, Nat.zero_add]
  refine finds_peek fun t ts hcons => ?_
  dsimp only
  split
  next ht => exact takes_last hcons ht nofun nofun rfl
  next ht => exact takes_event (g := g.expect .flowFirstEntry) (hexpect rfl rfl) nofun
  next ht => exact takes_event (g := g.expect .flowFirstKey) (hexpect rfl rfl) nofun
  · refine .ite (fun _ => takes_event (g := g.expect .indentlessEntry) (hexpect rfl rfl) nofun) fun _ => ?_
    refine .ite (fun _ => takes_event (g := g.expect .blockFirstEntry) (hexpect rfl rfl) nofun) fun _ => ?_
    refine .ite (fun _ => takes_event (g := g.expect .blockFirstKey) (hexpect rfl rfl) nofun) fun _ => ?_
    exact .ite (fun _ => takes_pop nofun) fun _ => takes_fail

theorem takes_node (g : Grammar) (block indentless : Bool) :
    Takes (openFlows g.stack) g (g.node block indentless) := by
  refine finds_peek fun t ts hcons => ?_
  split
  next ht => exact takes_last hcons ht nofun nofun rfl
  · refine (finds_nodeHead g).bind fun r hr => ?_
    obtain ⟨head, g'⟩ := r
    rw [← hr.stack]
    refine hr.takes ((finds_resolveTag g' head).bind fun tag _ => takes_nodeContent g' block indentless head tag)

theorem takes_nodeAfter (hcons : g.tokens = t :: ts) (ht : t.value.isFlat = true) {e e' : Expect}
    (he : openFlows (e :: g.stack) = d) (he' : openFlows (e' :: g.stack) = d) {missing : Located Token → Bool}
    {place : Located Token → Mark} {block indentless : Bool} :
    Takes d g (g.skip.peek >>= fun u =>
      if missing u then (g.skip.expect e).emptyScalar (place u) else (g.skip.push e').node block indentless) := by
  refine (skips_skip hcons ht).takes (finds_peek fun u us hus => ?_)
  refine .ite (fun _ => takes_expect (g := g.skip) he) fun _ => ?_
  rw [← he']
  exact takes_node (g.skip.push e') block indentless

/-! ### Documents -/

theorem finds_directives (fuel : Nat) (versioned : Bool) (g : Grammar) :
    Finds g (fun g' => g.Skips g') (directives fuel g versioned) := by
  induction fuel generalizing g versioned with
  | zero => exact Skips.refl g
  | succ fuel ih =>
    have hnext {t : Located Token} {ts : List (Located Token)} (hcons : g.tokens = t :: ts)
        (ht : t.value.isFlat = true) {handles : List (String × List UInt8)} {versioned : Bool} :
        Finds g (fun g' => g.Skips g') (directives fuel { g.skip with handles } versioned) := by
      have hskips : g.Skips { g.skip with handles } := { skips_skip hcons ht with }
      exact (hskips.finds (ih versioned { g.skip with handles })).imp fun _ hrest => hskips.trans hrest
    refine finds_peek fun t ts hcons => ?_
    split
    next ht => exact .ite (fun _ => nofun) fun _ => .ite (fun _ => nofun) fun _ => hnext hcons (by rw [ht]; rfl)
    next ht => exact .ite (fun _ => nofun) fun _ => hnext hcons (by rw [ht]; rfl)
    · exact ⟨rfl, List.suffix_refl _, id, fun _ => rfl⟩

theorem skips_skipDocumentEnds (g : Grammar) : g.Skips g.skipDocumentEnds where
  stack := rfl
  suffix := List.dropWhile_suffix _
  pending h hnone := by
    obtain ⟨t, ht, hend⟩ := h hnone
    rw [← List.takeWhile_append_dropWhile (p := fun t => t.value == .documentEnd) (l := g.tokens)] at ht
    obtain ht | ht := List.mem_append.mp ht
    · have hmarker := (List.all_eq_true.mp List.all_takeWhile) t ht
      simp [hend] at hmarker
    · exact ⟨t, ht, hend⟩
  depth d := by
    have hdrop (ts : List (Located Token)) :
        flowDepth d ts = flowDepth d (ts.dropWhile fun t => t.value == .documentEnd) := by
      induction ts with
      | nil => rfl
      | cons t ts ih =>
        rw [List.dropWhile_cons]
        split
        next ht => rw [← ih, flowDepth_cons, eq_of_beq ht]; rfl
        · rfl
    exact hdrop g.tokens

theorem takes_documentStart {implicit : Bool} (hstate : g.state = .documentStart implicit) :
    Takes 0 g (g.documentStart implicit) := by
  have hkeep : g.Skips (if implicit then g else g.skipDocumentEnds) ∧
      (if implicit then g else g.skipDocumentEnds).state = .documentStart implicit := by
    cases implicit with
    | true => exact ⟨Skips.refl g, hstate⟩
    | false => exact ⟨g.skips_skipDocumentEnds, hstate⟩
  unfold documentStart
  dsimp only
  revert hkeep
  generalize (if implicit then g else g.skipDocumentEnds) = g₁
  rintro ⟨hskips, hstate₁⟩
  refine hskips.takes (finds_peek fun t ts hcons => .ite (fun ht => ?_) fun _ => .ite (fun _ => ?_) fun _ => ?_)
  · have hdone : Grammar.depth { g₁.skip with failure := none } = 0 := by
      change openFlows (g₁.state :: g₁.stack) = 0
      rw [hstate₁]
      rfl
    refine ⟨List.drop_suffix 1 _, Nat.le_of_eq ?_, fun _ => ⟨hdone, t, by simp [hcons], eq_of_beq ht⟩,
      fun hne => absurd rfl hne⟩
    rw [hdone, ← flowDepth_skip hcons, eq_of_beq ht]
    rfl
  · exact takes_event (g := expect (push { g₁ with handles := defaultHandles } .documentEnd) .blockNode) rfl nofun
  · refine (finds_directives _ _ g₁).bind fun g₂ hg₂ => ?_
    refine hg₂.takes (finds_peek fun u us hus => .ite (fun hu => ?_) fun _ => takes_fail)
    exact (skips_skip hus (by rw [eq_of_beq hu]; rfl)).takes
      (takes_event (g := (g₂.skip.push .documentEnd).expect .documentContent) rfl nofun)

theorem takes_documentContent (g : Grammar) : Takes (openFlows g.stack) g g.documentContent := by
  refine finds_peek fun t ts hcons => ?_
  have hempty : Takes (openFlows g.stack) g (g.pop.emptyScalar t.start) := takes_pop nofun
  split
  iterate 5 exact hempty
  exact takes_node g true false

theorem takes_documentEnd (g : Grammar) : Takes 0 g g.documentEnd := by
  refine finds_peek fun t ts hcons => ?_
  dsimp only
  split
  next ht =>
    exact (skips_skip hcons (by rw [eq_of_beq ht]; rfl)).takes
      (takes_event (g := { g.skip with handles := [], state := .documentStart false }) rfl nofun)
  · exact takes_event (g := { g with handles := [], state := .documentStart false }) rfl nofun

/-! ### Block collections -/

theorem takes_blockEntry (g : Grammar) (opened : Mark) :
    Takes (openFlows g.stack) g (g.blockEntry opened) := by
  refine finds_peek fun t ts hcons => ?_
  split
  next ht => exact takes_nodeAfter hcons (by rw [ht]; rfl) (Nat.zero_add _) (Nat.zero_add _)
  next ht => exact takes_last hcons ht nofun nofun rfl
  · exact takes_fail

theorem takes_indentlessEntry (g : Grammar) : Takes (openFlows g.stack) g g.indentlessEntry := by
  refine finds_peek fun t ts hcons => ?_
  split
  next ht => exact takes_nodeAfter hcons (by rw [ht]; rfl) (Nat.zero_add _) (Nat.zero_add _)
  · exact takes_pop nofun

theorem takes_blockKey (g : Grammar) (opened : Mark) : Takes (openFlows g.stack) g (g.blockKey opened) := by
  refine finds_peek fun t ts hcons => ?_
  split
  next ht => exact takes_nodeAfter hcons (by rw [ht]; rfl) (Nat.zero_add _) (Nat.zero_add _)
  next ht => exact takes_last hcons ht nofun nofun rfl
  · exact takes_fail

theorem takes_blockValue (g : Grammar) (opened : Mark) :
    Takes (openFlows g.stack) g (g.blockValue opened) := by
  refine finds_peek fun t ts hcons => ?_
  split
  next ht => exact takes_nodeAfter hcons (by rw [ht]; rfl) (Nat.zero_add _) (Nat.zero_add _)
  · exact takes_expect (Nat.zero_add _)

/-! ### Flow collections -/

/-- An item of a flow collection, behind a separator unless it is the first one, or the end of the collection. -/
def item (g : Grammar) (last : Token) (event : Event) (first : Bool) (entry : Grammar → Located Token → Step)
    (problem : Problem) (context : Context × Mark) : Step := do
  let t ← g.peek
  if t.value == last then .ok (⟨event, t.start⟩, g.skip.pop)
  else if first then entry g t
  else if t.value == .flowEntry then entry g.skip (← g.skip.peek)
  else fail problem t.start (some context)

def sequenceItem (opened : Mark) (g : Grammar) (t : Located Token) : Step :=
  match t.value with
  | .key => .ok (⟨.mappingStart .none, t.start⟩, g.skip.expect (.pairKey opened))
  | .flowSequenceEnd => .ok (⟨.sequenceEnd, t.start⟩, g.skip.pop)
  | _ => (g.push (.flowEntry opened false)).node false false

def mappingItem (opened : Mark) (g : Grammar) (t : Located Token) : Step :=
  match t.value with
  | .key => do
    let g := g.skip
    let u ← g.peek
    if u.value == .value || u.value == .flowEntry || u.value == .flowMappingEnd then
      (g.expect (.flowValue opened)).emptyScalar u.start
    else (g.push (.flowValue opened)).node false false
  | .flowMappingEnd => .ok (⟨.mappingEnd, t.start⟩, g.skip.pop)
  | _ => (g.push (.flowNoValue opened)).node false false

theorem flowEntry_eq (g : Grammar) (opened : Mark) (first : Bool) : g.flowEntry opened first =
    g.item .flowSequenceEnd .sequenceEnd first (sequenceItem opened) .noSequenceSeparator (.flowSequence, opened) := rfl

theorem flowKey_eq (g : Grammar) (opened : Mark) (first : Bool) : g.flowKey opened first =
    g.item .flowMappingEnd .mappingEnd first (mappingItem opened) .noMappingSeparator (.flowMapping, opened) := rfl

def itemValue (g : Grammar) (last : Token) (next : Expect) : Step := do
  let t ← g.peek
  if t.value == .value then
    let u ← g.skip.peek
    if u.value == .flowEntry || u.value == last then (g.skip.expect next).emptyScalar u.start
    else (g.skip.push next).node false false
  else (g.expect next).emptyScalar t.start

theorem pairValue_eq (g : Grammar) (opened : Mark) :
    g.pairValue opened = g.itemValue .flowSequenceEnd (.pairEnd opened) := rfl

theorem flowValue_eq (g : Grammar) (opened : Mark) :
    g.flowValue opened = g.itemValue .flowMappingEnd (.flowKey opened false) := rfl

theorem takes_item {last : Token} {event : Event} {first : Bool} {entry : Grammar → Located Token → Step}
    {problem : Problem} {context : Context × Mark} (hlast : last ≠ .streamEnd) (hevent : event ≠ .streamEnd)
    (hdepth : last.depthAfter (1 + openFlows g.stack) = openFlows g.stack)
    (hentry : ∀ {g' : Grammar} {t : Located Token} {ts : List (Located Token)}, g'.stack = g.stack →
      g'.tokens = t :: ts → Takes (1 + openFlows g.stack) g' (entry g' t)) :
    Takes (1 + openFlows g.stack) g (g.item last event first entry problem context) := by
  refine finds_peek fun t ts hcons => .ite (fun ht => takes_last hcons (eq_of_beq ht) hlast hevent hdepth) fun _ => ?_
  refine .ite (fun _ => hentry rfl hcons) fun _ => .ite (fun ht => ?_) fun _ => takes_fail
  exact (skips_skip hcons (by rw [eq_of_beq ht]; rfl)).takes (finds_peek fun u us hus => hentry rfl hus)

theorem takes_flowEntry (g : Grammar) (opened : Mark) (first : Bool) :
    Takes (1 + openFlows g.stack) g (g.flowEntry opened first) := by
  rw [flowEntry_eq]
  refine takes_item nofun nofun (Nat.add_sub_cancel_left 1 _) fun {g' t ts} hstack hcons => ?_
  rw [← hstack]
  unfold sequenceItem
  split
  next ht =>
    exact (skips_skip hcons (by rw [ht]; rfl)).takes (takes_event (g := g'.skip.expect (.pairKey opened)) rfl nofun)
  next ht => exact takes_last hcons ht nofun nofun (Nat.add_sub_cancel_left 1 _)
  · exact takes_node (g'.push (.flowEntry opened false)) false false

theorem takes_pairKey (g : Grammar) (opened : Mark) :
    Takes (1 + openFlows g.stack) g (g.pairKey opened) := by
  refine finds_peek fun t ts hcons => ?_
  have hempty {u : Token} (hu : t.value = u) (hend : u ≠ .streamEnd)
      (hdepth : u.depthAfter (1 + openFlows g.stack) ≤ 1 + openFlows g.stack) :
      Takes (1 + openFlows g.stack) g ((g.skip.expect (.pairValue opened)).emptyScalar t.stop) := by
    subst hu
    refine (takes_expect (g := g.skip) (d := 1 + openFlows g.stack) rfl).after (List.drop_suffix 1 _)
      (fun h => h.skip hcons hend) ?_
    rw [← flowDepth_skip hcons]
    exact flowDepth_mono hdepth _
  split
  next ht => exact hempty ht nofun (Nat.le_refl _)
  next ht => exact hempty ht nofun (Nat.le_refl _)
  next ht => exact hempty ht nofun (Nat.sub_le _ 1)
  · exact takes_node (g.push (.pairValue opened)) false false

theorem takes_itemValue {last : Token} {next : Expect} (hnext : openFlows (next :: g.stack) = d) :
    Takes d g (g.itemValue last next) := by
  refine finds_peek fun t ts hcons => .ite (fun ht => ?_) fun _ => takes_expect hnext
  exact takes_nodeAfter hcons (by rw [eq_of_beq ht]; rfl) hnext hnext

theorem takes_pairValue (g : Grammar) (opened : Mark) : Takes (1 + openFlows g.stack) g (g.pairValue opened) := by
  rw [pairValue_eq]
  exact takes_itemValue rfl

theorem takes_flowValue (g : Grammar) (opened : Mark) : Takes (1 + openFlows g.stack) g (g.flowValue opened) := by
  rw [flowValue_eq]
  exact takes_itemValue rfl

theorem takes_pairEnd (g : Grammar) (opened : Mark) : Takes (1 + openFlows g.stack) g (g.pairEnd opened) :=
  finds_peek fun _ _ _ => takes_event (g := g.expect (.flowEntry opened false)) rfl nofun

theorem takes_flowKey (g : Grammar) (opened : Mark) (first : Bool) :
    Takes (1 + openFlows g.stack) g (g.flowKey opened first) := by
  rw [flowKey_eq]
  refine takes_item nofun nofun (Nat.add_sub_cancel_left 1 _) fun {g' t ts} hstack hcons => ?_
  rw [← hstack]
  unfold mappingItem
  split
  next ht => exact takes_nodeAfter hcons (by rw [ht]; rfl) rfl rfl
  next ht => exact takes_last hcons ht nofun nofun (Nat.add_sub_cancel_left 1 _)
  · exact takes_node (g'.push (.flowNoValue opened)) false false

/-! ### Runs -/

theorem takes_opening (hg : g.Ready) {u : Token} (hstate : g.state.opener? = some u) {f : Mark × Grammar → Step}
    (hf : ∀ m, Takes (u.depthAfter d) g.skip (f (m, g.skip))) : Takes d g (g.opening >>= f) := by
  have hend : u ≠ .streamEnd := Token.ne_streamEnd_of_isOrdinary (Expect.isOrdinary_of_opener? hstate)
  have hopening : Finds g (fun r => g.tokens ≠ [] ∧ r.2 = g.skip) g.opening :=
    finds_peek fun t ts hcons => ⟨by simp [hcons], rfl⟩
  refine hopening.bind ?_
  rintro ⟨m, g'⟩ ⟨hne, rfl⟩
  obtain ⟨t, ts, hcons⟩ := List.exists_cons_of_ne_nil hne
  have hhead := hg.opener u hstate
  obtain rfl : t.value = u := by simpa [hcons] using hhead
  exact Takes.skip hcons hend (hf m)

/-- A step takes the brackets that it needs. -/
theorem takes_step (hg : g.Ready) : Takes g.depth g g.step := by
  have outside {x : Step} (h : openFlows (g.state :: g.stack) = 0 + openFlows g.stack)
      (hx : Takes (openFlows g.stack) g x) : Takes g.depth g x := by
    rw [depth, h, Nat.zero_add]
    exact hx
  have inside {x : Step} (h : openFlows (g.state :: g.stack) = 1 + openFlows g.stack)
      (hx : Takes (1 + openFlows g.stack) g x) : Takes g.depth g x := by
    rw [depth, h]
    exact hx
  have apart {x : Step} (h : openFlows (g.state :: g.stack) = 0) (hx : Takes 0 g x) : Takes g.depth g x := by
    rw [depth, h]
    exact hx
  have opened {x : Step} (hx : Takes (1 + openFlows g.skip.stack) g.skip x) :
      Takes (openFlows g.stack + 1) g.skip x := by
    rw [Nat.add_comm]
    exact hx
  unfold step
  cases hstate : g.state with
  | documentStart implicit => exact apart (by rw [hstate]; rfl) (takes_documentStart hstate)
  | documentContent => exact outside (by rw [hstate]; rfl) (takes_documentContent g)
  | documentEnd => exact apart (by rw [hstate]; rfl) (takes_documentEnd g)
  | blockNode => exact outside (by rw [hstate]; rfl) (takes_node g true false)
  | blockFirstEntry =>
    exact outside (by rw [hstate]; rfl)
      (takes_opening hg (u := .blockSequenceStart) (by rw [hstate]; rfl) fun m => takes_blockEntry g.skip m)
  | blockEntry m => exact outside (by rw [hstate]; rfl) (takes_blockEntry g m)
  | indentlessEntry => exact outside (by rw [hstate]; rfl) (takes_indentlessEntry g)
  | blockFirstKey =>
    exact outside (by rw [hstate]; rfl)
      (takes_opening hg (u := .blockMappingStart) (by rw [hstate]; rfl) fun m => takes_blockKey g.skip m)
  | blockKey m => exact outside (by rw [hstate]; rfl) (takes_blockKey g m)
  | blockValue m => exact outside (by rw [hstate]; rfl) (takes_blockValue g m)
  | flowFirstEntry =>
    exact outside (by rw [hstate]; rfl)
      (takes_opening hg (u := .flowSequenceStart) (by rw [hstate]; rfl) fun m => opened (takes_flowEntry g.skip m true))
  | flowEntry m first => exact inside (by rw [hstate]; rfl) (takes_flowEntry g m first)
  | pairKey m => exact inside (by rw [hstate]; rfl) (takes_pairKey g m)
  | pairValue m => exact inside (by rw [hstate]; rfl) (takes_pairValue g m)
  | pairEnd m => exact inside (by rw [hstate]; rfl) (takes_pairEnd g m)
  | flowFirstKey =>
    exact outside (by rw [hstate]; rfl)
      (takes_opening hg (u := .flowMappingStart) (by rw [hstate]; rfl) fun m => opened (takes_flowKey g.skip m true))
  | flowKey m first => exact inside (by rw [hstate]; rfl) (takes_flowKey g m first)
  | flowValue m => exact inside (by rw [hstate]; rfl) (takes_flowValue g m)
  | flowNoValue m => exact inside (by rw [hstate]; rfl) (finds_peek fun _ _ _ => takes_expect rfl)

/-- Where the events of tokens come to the end of the text, the tokens do, and no flow collection is left open. -/
theorem run_closes (fuel : Nat) (hg : g.Ready) (hend : ∃ m ∈ (run fuel g).1, m.event = .streamEnd) :
    Completes g.tokens ∧ flowDepth g.depth g.tokens = 0 := by
  induction fuel generalizing g with
  | zero => simp [run] at hend
  | succ fuel ih =>
    unfold run at hend
    cases hx : g.step with
    | error e => simp [hx] at hend
    | ok r =>
      obtain ⟨-, hg', hnil⟩ : Emits _ (.ok r) := hx ▸ emits_step hg
      obtain ⟨hsuffix, hle, hdone, -⟩ : Takes _ _ (.ok r) := hx ▸ takes_step hg
      rw [hx] at hend
      obtain ⟨m, hm, he⟩ := hend
      obtain rfl | hm := List.mem_cons.mp hm
      · rw [hnil he, (hdone he).1] at hle
        exact ⟨(hdone he).2, Nat.le_zero.mp hle⟩
      · obtain ⟨hcompletes, hzero⟩ := ih hg' ⟨m, hm, he⟩
        rw [hzero] at hle
        exact ⟨hcompletes.of_suffix hsuffix, Nat.le_zero.mp hle⟩

/-- Events without an error after them come to the end of the text, if the tokens do. -/
theorem run_ends (fuel : Nat) (hg : g.Ready) (hpending : g.Pending) (hnone : (run fuel g).2 = none) :
    ∃ m ∈ (run fuel g).1, m.event = .streamEnd := by
  induction fuel generalizing g with
  | zero => cases hnone
  | succ fuel ih =>
    unfold run at hnone ⊢
    cases hx : g.step with
    | error e =>
      rw [hx] at hnone
      exact absurd hpending ((hx ▸ takes_step hg : Takes _ _ (.error e)) hnone)
    | ok r =>
      obtain ⟨-, hg', -⟩ : Emits _ (.ok r) := hx ▸ emits_step hg
      obtain ⟨-, -, -, hlater⟩ : Takes _ _ (.ok r) := hx ▸ takes_step hg
      rw [hx] at hnone
      by_cases he : r.1.event = .streamEnd
      · exact ⟨r.1, List.mem_cons_self, he⟩
      · obtain ⟨m, hm, hend⟩ := ih hg' (hlater he hpending) hnone
        exact ⟨m, List.mem_cons_of_mem _ hm, hend⟩

end Grammar

end YamlInclude.Yaml
