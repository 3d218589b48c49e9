import YamlInclude.Proofs.Scan
import Mathlib.Data.List.InsertIdx

/-! # The tokens of a text and its ampersands

Every anchor token stands in the text as it is named, and a token that takes up text from an ampersand on is an
anchor. The token for the end of the text comes last, and it does come unless an error ends the tokens.
-/

namespace YamlInclude.Yaml

/-- An anchor token stands in the text, and a token at an ampersand is an anchor token. -/
structure Faithful (text : List Char) (t : Located Token) : Prop where
  stands : ∀ name, t.value.anchor? = some name → t.start.index < t.stop.index ∧
    name.toList.all isNameChar = true ∧ AnchorAt text name.toList endsName t.start.index
  named : t.start.index < t.stop.index → text[t.start.index]? = some '&' → ∃ name, t.value.anchor? = some name

/-- An ordinary token that takes up no text. -/
def IsMark (t : Located Token) : Prop := t.start = t.stop ∧ t.value.isOrdinary = true

/-- The end of the text is the last of these tokens, and it is there unless an error follows them. -/
def Ended (failure : Option SyntaxError) : List (Located Token) → Prop
  | [] => True
  | t :: ts => (t.value = .streamEnd → ts = []) ∧ (failure = none → ts = [] → t.value = .streamEnd) ∧ Ended failure ts

variable {text : List Char} {t : Located Token} {ts : List (Located Token)}

theorem Faithful.of_isMark (h : IsMark t) : Faithful text t where
  stands name hname := by simp [Token.anchor?_of_isOrdinary h.2] at hname
  named hwidth := absurd hwidth (by simp [h.1])

theorem Faithful.of_isOrdinary (h : t.value.isOrdinary = true) (hne : text[t.start.index]? ≠ some '&') :
    Faithful text t where
  stands name hname := by simp [Token.anchor?_of_isOrdinary h] at hname
  named _ hamp := absurd hamp hne

theorem ended_append (h : ∀ t ∈ ts, t.value ≠ .streamEnd) (ht : t.value = .streamEnd) : Ended none (ts ++ [t]) := by
  induction ts with
  | nil => exact ⟨fun _ => rfl, fun _ _ => ht, trivial⟩
  | cons u us ih =>
    obtain ⟨hu, hus⟩ := List.forall_mem_cons.mp h
    exact ⟨fun he => absurd he hu, by simp, ih hus⟩

namespace Scanner

variable {s s₁ s₂ : Scanner} {c : Cursor}

/-! ## Steps that read nothing -/

/-- A scanner that waits with further marks at the same place. -/
structure Prepares (s s' : Scanner) : Prop where
  cursor : s'.cursor = s.cursor
  finished : s'.finished = s.finished
  waiting : ∀ t ∈ s'.waiting, t ∈ s.waiting ∨ IsMark t

namespace Prepares

theorem of_waiting_eq (hcursor : s₁.cursor = s.cursor) (hfinished : s₁.finished = s.finished)
    (hwaiting : s₁.waiting = s.waiting) : s.Prepares s₁ :=
  ⟨hcursor, hfinished, fun _ ht => Or.inl (hwaiting ▸ ht)⟩

theorem of_insertIdx {n : Nat} (ht : IsMark t) (hcursor : s₁.cursor = s.cursor)
    (hfinished : s₁.finished = s.finished) (hwaiting : s₁.waiting = s.waiting.insertIdx n t) : s.Prepares s₁ := by
  refine ⟨hcursor, hfinished, fun u hu => ?_⟩
  obtain rfl | hu := List.eq_or_mem_of_mem_insertIdx (hwaiting ▸ hu)
  · exact Or.inr ht
  · exact Or.inl hu

theorem refl (s : Scanner) : s.Prepares s := of_waiting_eq rfl rfl rfl

theorem trans (h₁ : s.Prepares s₁) (h₂ : s₁.Prepares s₂) : s.Prepares s₂ where
  cursor := h₂.cursor.trans h₁.cursor
  finished := h₂.finished.trans h₁.finished
  waiting t ht := (h₂.waiting t ht).elim (h₁.waiting t) Or.inr

end Prepares

theorem dropStaleKeys_prepares (s : Scanner) : Gives s.Prepares s.dropStaleKeys := by
  unfold dropStaleKeys
  dsimp only
  split
  · trivial
  · exact .of_waiting_eq rfl rfl rfl

theorem dropKey_prepares (s : Scanner) : Gives s.Prepares s.dropKey := by
  unfold dropKey
  split
  · exact .ite (fun _ => trivial) fun _ => .of_waiting_eq rfl rfl rfl
  · exact .refl s

theorem saveKey_prepares (s : Scanner) : Gives s.Prepares s.saveKey :=
  .ite (fun _ => .refl s) fun _ => s.dropKey_prepares.bind fun _ h => h.trans (.of_waiting_eq rfl rfl rfl)

theorem openBlock_prepares (s : Scanner) (column : Nat) {t : Token} (ht : t.isOrdinary = true) (m : Mark)
    (position : Option Nat) : s.Prepares (s.openBlock column t m position) := by
  unfold openBlock
  split
  · exact .refl s
  · cases position with
    | none =>
      refine ⟨rfl, rfl, fun u hu => ?_⟩
      obtain hu | rfl := by simpa using hu
      · exact Or.inl hu
      · exact Or.inr ⟨rfl, ht⟩
    | some n => exact .of_insertIdx ⟨rfl, ht⟩ rfl rfl rfl

theorem closeBlocks_prepares (s : Scanner) (column : Int) : s.Prepares (s.closeBlocks column) := by
  have hgo (indent : Int) (outer : List Int) (waiting : List (Located Token)) :
      ∀ t ∈ (closeBlocks.go s column indent outer waiting).2.2, t ∈ waiting ∨ IsMark t := by
    induction outer generalizing indent waiting with
    | nil => exact fun t ht => Or.inl ht
    | cons i is ih =>
      unfold closeBlocks.go
      split
      · intro t ht
        obtain ht | ht := ih _ _ t ht
        · obtain ht | rfl := by simpa using ht
          · exact Or.inl ht
          · exact Or.inr ⟨rfl, rfl⟩
        · exact Or.inr ht
      · exact fun t ht => Or.inl ht
  unfold closeBlocks
  split
  · exact .refl s
  · exact ⟨rfl, rfl, hgo _ _ _⟩

/-! ## Steps that read a token -/

structure Open (text : List Char) (s : Scanner) : Prop where
  isIn : s.cursor.IsIn text
  unfinished : s.finished = false
  waiting : ∀ t ∈ s.waiting, Faithful text t ∧ t.value ≠ .streamEnd

structure Closed (text : List Char) (s : Scanner) : Prop where
  finished : s.finished = true
  waiting : ∀ t ∈ s.waiting, Faithful text t
  ended : Ended none s.waiting

/-- A scanner with faithful tokens, one at least. -/
def Fetched (text : List Char) (s : Scanner) : Prop := (s.Open text ∨ s.Closed text) ∧ s.waiting ≠ []

/-- No ampersand stands at the place of a scanner. -/
def Apart (text : List Char) (s : Scanner) : Prop := text[s.mark.index]? ≠ some '&'

theorem Prepares.apart (h : s.Prepares s₁) (hs : s.Apart text) : s₁.Apart text := by
  unfold Apart mark
  rw [h.cursor]
  exact hs

namespace Open

theorem prepare (hs : s.Open text) (h : s.Prepares s₁) : s₁.Open text where
  isIn := h.cursor ▸ hs.isIn
  unfinished := h.finished.trans hs.unfinished
  waiting t ht := (h.waiting t ht).elim (hs.waiting t) fun hmark =>
    ⟨.of_isMark hmark, Token.ne_streamEnd_of_isOrdinary hmark.2⟩

theorem read (hs : s.Open text) {keyAllowed : Bool} {keys : List (Option KeyCandidate)} (ht : Faithful text t)
    (hne : t.value ≠ .streamEnd) (hc : c.IsIn text) :
    Fetched text { s.push t with cursor := c, keyAllowed, keys } := by
  refine ⟨Or.inl ⟨hc, hs.unfinished, fun u hu => ?_⟩, by simp [push]⟩
  obtain hu | rfl := by simpa [push] using hu
  · exact hs.waiting u hu
  · exact ⟨ht, hne⟩

theorem readOrdinary (hs : s.Open text) (hapart : s.Apart text) {keyAllowed : Bool}
    {keys : List (Option KeyCandidate)} {x : Except SyntaxError (Located Token × Cursor)}
    (hx : ReadsAt text s.mark x) :
    Gives (Fetched text) (x >>= fun r => .ok { s.push r.1 with cursor := r.2, keyAllowed, keys }) :=
  hx.bind fun _ ⟨hstart, hordinary, hc⟩ =>
    hs.read (.of_isOrdinary hordinary (hstart ▸ hapart)) (Token.ne_streamEnd_of_isOrdinary hordinary) hc

theorem indicate (hs : s.Open text) (hapart : s.Apart text) {keyAllowed : Bool} {keys : List (Option KeyCandidate)}
    {t : Token} (ht : t.isOrdinary = true) (n : Nat) :
    Fetched text { s.pushIndicator t n with keyAllowed, keys } :=
  hs.read (.of_isOrdinary (t := ⟨t, s.mark, _⟩) ht hapart) (Token.ne_streamEnd_of_isOrdinary ht) (hs.isIn.skip n)

theorem fetchDirective (hs : s.Open text) (hapart : s.Apart text) : Gives (Fetched text) s.fetchDirective :=
  (dropKey_prepares _).bind fun _ h =>
    have hp := (s.closeBlocks_prepares (-1)).trans h
    (hs.prepare hp).readOrdinary (hp.apart hapart) (scanDirective_readsAt (hs.prepare hp).isIn)

theorem fetchDocumentMarker (hs : s.Open text) (hapart : s.Apart text) {t : Token} (ht : t.isOrdinary = true) :
    Gives (Fetched text) (s.fetchDocumentMarker t) :=
  (dropKey_prepares _).bind fun _ h =>
    have hp := (s.closeBlocks_prepares (-1)).trans h
    (hs.prepare hp).indicate (hp.apart hapart) ht 3

theorem fetchFlowStart (hs : s.Open text) (hapart : s.Apart text) {t : Token} (ht : t.isOrdinary = true) :
    Gives (Fetched text) (s.fetchFlowStart t) :=
  s.saveKey_prepares.bind fun _ hp => (hs.prepare hp).indicate (hp.apart hapart) ht 1

theorem fetchFlowEnd (hs : s.Open text) (hapart : s.Apart text) {t : Token} (ht : t.isOrdinary = true) :
    Gives (Fetched text) (s.fetchFlowEnd t) :=
  s.dropKey_prepares.bind fun _ hp => (hs.prepare hp).indicate (hp.apart hapart) ht 1

theorem fetchFlowEntry (hs : s.Open text) (hapart : s.Apart text) : Gives (Fetched text) s.fetchFlowEntry :=
  s.dropKey_prepares.bind fun _ hp => (hs.prepare hp).indicate (hp.apart hapart) rfl 1

theorem fetchBlockEntry (hs : s.Open text) (hapart : s.Apart text) : Gives (Fetched text) s.fetchBlockEntry :=
  .ite (fun _ => trivial) fun _ => (dropKey_prepares _).bind fun _ h =>
    have hp := (s.openBlock_prepares _ rfl _ _).trans h
    (hs.prepare hp).indicate (hp.apart hapart) rfl 1

theorem fetchKey (hs : s.Open text) (hapart : s.Apart text) : Gives (Fetched text) s.fetchKey :=
  .ite (fun _ => trivial) fun _ => (dropKey_prepares _).bind fun _ h =>
    have hp := (s.openBlock_prepares _ rfl _ _).trans h
    (hs.prepare hp).indicate (hp.apart hapart) rfl 1

theorem fetchValue (hs : s.Open text) (hapart : s.Apart text) : Gives (Fetched text) s.fetchValue := by
  unfold Scanner.fetchValue
  split
  next k rest _ =>
    have hkey : s.Prepares { s with
        waiting := s.waiting.insertIdx (k.token - s.released) ⟨.key, k.mark, k.mark⟩, keys := none :: rest } :=
      .of_insertIdx ⟨rfl, rfl⟩ rfl rfl rfl
    have hp := hkey.trans (openBlock_prepares _ k.mark.column (t := .blockMappingStart) rfl k.mark (some k.token))
    exact (hs.prepare hp).indicate (hp.apart hapart) rfl 1
  · refine .ite (fun _ => trivial) fun _ => ?_
    have hp := s.openBlock_prepares s.mark.column (t := .blockMappingStart) rfl s.mark none
    exact (hs.prepare hp).indicate (hp.apart hapart) rfl 1

theorem fetchNode (hs : s.Open text) (hapart : s.Apart text)
    {scan : Cursor → Except SyntaxError (Located Token × Cursor)}
    (hscan : ∀ c : Cursor, c.IsIn text → ReadsAt text c.mark (scan c)) : Gives (Fetched text) (s.fetchNode scan) :=
  s.saveKey_prepares.bind fun _ hp =>
    (hs.prepare hp).readOrdinary (hp.apart hapart) (hscan _ (hs.prepare hp).isIn)

theorem fetchBlockScalar (hs : s.Open text) (hapart : s.Apart text) {literal : Bool} :
    Gives (Fetched text) (s.fetchBlockScalar literal) :=
  s.dropKey_prepares.bind fun _ hp =>
    (hs.prepare hp).readOrdinary (hp.apart hapart) (scanBlock_readsAt (hs.prepare hp).isIn)

theorem fetchPlain (hs : s.Open text) (hapart : s.Apart text) : Gives (Fetched text) s.fetchPlain :=
  s.saveKey_prepares.bind fun _ hp => (scanPlain_gives (hs.prepare hp).isIn).bind fun _ ⟨hstart, hordinary, hc⟩ =>
    (hs.prepare hp).read (.of_isOrdinary hordinary (hstart ▸ hp.apart hapart))
      (Token.ne_streamEnd_of_isOrdinary hordinary) hc

theorem fetchAnchor (hs : s.Open text) {cs : List Char} (hrest : s.cursor.rest = '&' :: cs) :
    Gives (Fetched text) (s.fetchNode scanAnchor) := by
  refine s.saveKey_prepares.bind fun s₁ hp => (scanAnchor_gives (hp.cursor ▸ hrest) (hs.prepare hp).isIn).bind ?_
  rintro ⟨⟨_, start, stop⟩, c⟩ ⟨⟨name, rfl, hname, hat⟩, rfl, hwidth, hc⟩
  refine (hs.prepare hp).read ⟨fun n hn => ?_, fun _ _ => ⟨name, rfl⟩⟩ nofun hc
  obtain rfl := Option.some.inj hn
  exact ⟨hwidth, hname, hat⟩

theorem fetchStreamEnd (hs : s.Open text) (hend : s.cursor.rest = []) : Gives (Fetched text) s.fetchStreamEnd := by
  refine (dropKey_prepares _).bind fun s₁ h => ?_
  have hmoved : Open text { s with cursor := ⟨[], if s.mark.column = 0 then s.mark
      else ⟨s.mark.index, s.mark.line + 1, 0⟩⟩ } := by
    refine ⟨hs.isIn.advance (n := 0) hend.symm ?_, hs.unfinished, hs.waiting⟩
    split <;> rfl
  have hs₁ := hmoved.prepare ((closeBlocks_prepares _ (-1)).trans h)
  refine ⟨Or.inr ⟨rfl, fun t ht => ?_, ended_append (fun t ht => (hs₁.waiting t ht).2) rfl⟩, by simp [pushHere, push]⟩
  obtain ht | rfl := by simpa [pushHere, push] using ht
  · exact (hs₁.waiting t ht).1
  · exact { stands := nofun, named := fun hwidth => absurd hwidth (Nat.lt_irrefl _) }

theorem skipToToken (fuel : Nat) (hs : s.Open text) : (skipToToken fuel s).Open text := by
  induction fuel generalizing s with
  | zero => exact hs
  | succ fuel ih =>
    have hmark : (skipByteOrderMark s.cursor).IsIn text := by
      unfold skipByteOrderMark
      split
      · exact hs.isIn.skip 1
      · exact hs.isIn
    unfold Scanner.skipToToken
    dsimp only
    split
    · exact ih ⟨(hmark.skipWhile _).skipComment.skipBreak, hs.unfinished, hs.waiting⟩
    · exact ⟨(hmark.skipWhile _).skipComment, hs.unfinished, hs.waiting⟩

theorem settle (hs : s.Open text) : Gives (Open text) s.settle :=
  (dropStaleKeys_prepares _).bind fun _ h => (hs.skipToToken _).prepare (h.trans (closeBlocks_prepares _ _))

theorem fetchHere (hs : s.Open text) {c : Char} {cs : List Char} (hrest : s.cursor.rest = c :: cs) :
    Gives (Fetched text) (s.fetchHere c cs) := by
  have hhere : text[s.mark.index]? = some c := by
    rw [← List.head?_drop, mark, ← hs.isIn, hrest, List.head?_cons]
  by_cases hc : c = '&'
  · subst hc
    have hanchor : s.fetchHere '&' cs = s.fetchNode scanAnchor := by
      have hmarker {m : Char} (hm : ('&' == m) = false) : atMarker m ('&' :: cs) = false := by
        unfold atMarker
        split
        next heq =>
          obtain ⟨rfl, -⟩ := List.cons.inj heq
          simp [hm]
        · rfl
      simp [Scanner.fetchHere, hmarker]
    exact hanchor ▸ hs.fetchAnchor hrest
  · have hapart : s.Apart text := by
      unfold Apart
      simpa [hhere] using hc
    unfold Scanner.fetchHere
    refine .ite (fun _ => hs.fetchDirective hapart) fun _ => ?_
    refine .ite (fun _ => hs.fetchDocumentMarker hapart rfl) fun _ => ?_
    refine .ite (fun _ => hs.fetchDocumentMarker hapart rfl) fun _ => ?_
    refine .ite (fun _ => hs.fetchFlowStart hapart rfl) fun _ => ?_
    refine .ite (fun _ => hs.fetchFlowStart hapart rfl) fun _ => ?_
    refine .ite (fun _ => hs.fetchFlowEnd hapart rfl) fun _ => ?_
    refine .ite (fun _ => hs.fetchFlowEnd hapart rfl) fun _ => ?_
    refine .ite (fun _ => hs.fetchFlowEntry hapart) fun _ => ?_
    refine .ite (fun _ => hs.fetchBlockEntry hapart) fun _ => ?_
    refine .ite (fun _ => hs.fetchKey hapart) fun _ => ?_
    refine .ite (fun _ => hs.fetchValue hapart) fun _ => ?_
    refine .ite (fun _ => hs.fetchNode hapart fun _ => scanAlias_readsAt) fun _ => ?_
    refine .ite (fun hamp => absurd (eq_of_beq hamp) hc) fun _ => ?_
    refine .ite (fun _ => hs.fetchNode hapart fun _ => scanTag_readsAt) fun _ => ?_
    refine .ite (fun _ => hs.fetchBlockScalar hapart) fun _ => ?_
    refine .ite (fun _ => hs.fetchBlockScalar hapart) fun _ => ?_
    refine .ite (fun _ => hs.fetchNode hapart fun _ => scanQuoted_readsAt) fun _ => ?_
    refine .ite (fun _ => hs.fetchNode hapart fun _ => scanQuoted_readsAt) fun _ => ?_
    exact .ite (fun _ => hs.fetchPlain hapart) fun _ => trivial

theorem fetch (hs : s.Open text) : Gives (Fetched text) s.fetch := by
  refine hs.settle.bind fun s₁ hs₁ => ?_
  split
  next hend => exact hs₁.fetchStreamEnd hend
  next hrest => exact hs₁.fetchHere hrest

end Open

/-! ## Runs -/

/-- Tokens that a scanner has released, and the error after them: they are faithful and end as they should. Without
any token or error the scanner is at the end of the text. -/
structure Released (text : List Char) (s : Scanner) (r : List (Located Token) × Option SyntaxError) : Prop where
  faithful : ∀ t ∈ r.1, Faithful text t
  ended : Ended r.2 r.1
  exhausted : r.2 = none → r.1 = [] → s.finished = true ∧ s.waiting = []

theorem Released.of_error (text : List Char) (s : Scanner) (e : SyntaxError) : Released text s ([], some e) where
  faithful := nofun
  ended := trivial
  exhausted := nofun

theorem run_of_finished (fuel : Nat) (hfinished : s.finished = true) (hnil : s.waiting = []) : (run fuel s).1 = [] := by
  cases fuel with
  | zero => rfl
  | succ fuel => simp [run, hnil, hfinished]

theorem release (hs : s.Open text ∨ s.Closed text) (hp : s.Prepares s₁) (hcons : s.waiting = t :: ts) (n : Nat) :
    Open text { s₁ with waiting := ts, released := n } ∨ Closed text { s₁ with waiting := ts, released := n } := by
  obtain hs | hs := hs
  · exact Or.inl ⟨(hs.prepare hp).isIn, (hs.prepare hp).unfinished, (List.forall_mem_cons.mp (hcons ▸ hs.waiting)).2⟩
  · exact Or.inr ⟨hp.finished.trans hs.finished, (List.forall_mem_cons.mp (hcons ▸ hs.waiting)).2,
      (hcons ▸ hs.ended : Ended none (t :: ts)).2.2⟩

theorem Released.cons {fuel : Nat} (hs : s.Open text ∨ s.Closed text) (hcons : s.waiting = t :: ts)
    (hfinished : s₁.finished = s.finished) (hwaiting : s₁.waiting = ts) (h : Released text s₁ (run fuel s₁)) :
    Released text s (t :: (run fuel s₁).1, (run fuel s₁).2) := by
  have hfirst : Faithful text t := by
    have ht : t ∈ s.waiting := hcons ▸ List.mem_cons_self
    exact hs.elim (fun h => (h.waiting t ht).1) (fun h => h.waiting t ht)
  refine ⟨List.forall_mem_cons.mpr ⟨hfirst, h.faithful⟩, ⟨fun hend => ?_, fun hnone hnil => ?_, h.ended⟩, nofun⟩
  · obtain hs | hs := hs
    · exact absurd hend (hs.waiting t (hcons ▸ List.mem_cons_self)).2
    · have hlast := (hcons ▸ hs.ended : Ended none (t :: ts)).1 hend
      exact run_of_finished fuel (hfinished.trans hs.finished) (hwaiting.trans hlast)
  · obtain ⟨hdone, hts⟩ := h.exhausted hnone hnil
    obtain hs | hs := hs
    · exact absurd (hdone.symm.trans (hfinished.trans hs.unfinished)) nofun
    · exact (hcons ▸ hs.ended : Ended none (t :: ts)).2.1 rfl (hwaiting ▸ hts)

/-- What a run releases is faithful and ends as it should. -/
theorem run_released (fuel : Nat) (hs : s.Open text ∨ s.Closed text) : Released text s (run fuel s) := by
  induction fuel generalizing s with
  | zero => exact .of_error _ _ _
  | succ fuel ih =>
    have hfetch {s' r : Scanner} (h : s'.Open text) (hr : s'.fetch = .ok r) : Released text s (run fuel r) := by
      obtain ⟨hstate, hwaiting⟩ := h.fetch.of_eq_ok hr
      have hrest := ih hstate
      exact ⟨hrest.faithful, hrest.ended, fun hnone hnil => absurd (hrest.exhausted hnone hnil).2 hwaiting⟩
    unfold run
    split
    next hnil =>
      split
      next hfinished => exact ⟨nofun, trivial, fun _ _ => ⟨hfinished, hnil⟩⟩
      next hfinished =>
        split
        · exact .of_error _ _ _
        next hr => exact hfetch (hs.resolve_right fun h => hfinished h.finished) hr
    next t ts hcons =>
      split
      · exact .of_error _ _ _
      next s' hs' =>
        have hp : s.Prepares s' := s.dropStaleKeys_prepares.of_eq_ok hs'
        split
        next hkey =>
          have hopen : s.Open text := hs.resolve_right fun h => by simp [hp.finished, h.finished] at hkey
          split
          · exact .of_error _ _ _
          next hr => exact hfetch (hopen.prepare hp) hr
        · exact .cons hs hcons hp.finished rfl (ih (release hs hp hcons _))

end Scanner

/-- The tokens of a text are faithful, and end as they should. -/
theorem tokens_faithful (text : List Char) :
    (∀ t ∈ (tokens text).1, Faithful text t) ∧ Ended (tokens text).2 (tokens text).1 := by
  unfold tokens
  split
  · exact ⟨nofun, trivial⟩
  · have h := Scanner.run_released (s := .start text) (8 * text.length + 16) (Or.inl ⟨rfl, rfl, nofun⟩)
    exact ⟨h.faithful, h.ended⟩

end YamlInclude.Yaml
