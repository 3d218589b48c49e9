import YamlInclude.Proofs.AppendedScan
import YamlInclude.Proofs.Tokens

/-! # Steps of a scanner with more text behind

A scanner makes the same step in a text that ends with a line break and in the same text with more behind it, as long
as it is inside the text: it ends up at the same place with the same tokens.
-/

namespace YamlInclude.Yaml

namespace Cursor

variable {c : Cursor} {p : Char → Bool}

theorem length_skipWhile_le (p : Char → Bool) (c : Cursor) : (c.skipWhile p).rest.length ≤ c.rest.length :=
  (List.dropWhile_suffix p).length_le

theorem length_skipComment_le (c : Cursor) : c.skipComment.rest.length ≤ c.rest.length := by
  unfold skipComment
  split
  · exact length_skipWhile_le _ c
  · exact Nat.le_refl _

theorem length_skipBreak_lt (h : c.rest.head?.any isBreak = true) : c.skipBreak.rest.length < c.rest.length := by
  obtain ⟨rest, m⟩ := c
  unfold skipBreak
  split
  next r heq =>
    obtain rfl : rest = _ := heq
    simp only [List.length_cons]
    omega
  next b r _ heq =>
    obtain rfl : rest = _ := heq
    rw [if_pos (show isBreak b = true from h)]
    exact Nat.lt_succ_self _
  next heq =>
    obtain rfl : rest = _ := heq
    cases h

end Cursor

namespace Scanner

open Cursor

variable {more bs : List Char} {s s₁ a b : Scanner} {t : Token} {m : Mark}

def append (s : Scanner) (more : List Char) : Scanner := { s with cursor := s.cursor.append more }

@[simp] theorem append_cursor (s : Scanner) (more : List Char) : (s.append more).cursor = s.cursor.append more := rfl

@[simp] theorem append_keys (s : Scanner) (more : List Char) : (s.append more).keys = s.keys := rfl

@[simp] theorem append_inFlow (s : Scanner) (more : List Char) : (s.append more).inFlow = s.inFlow := rfl

@[simp] theorem append_keyAllowed (s : Scanner) (more : List Char) : (s.append more).keyAllowed = s.keyAllowed := rfl

@[simp] theorem append_mark (s : Scanner) (more : List Char) : (s.append more).mark = s.mark := rfl

/-! ## Steps that read nothing -/

theorem both_dropStaleKeys (s : Scanner) (more : List Char) :
    Both (fun a b => b = a.append more) s.dropStaleKeys (s.append more).dropStaleKeys := by
  unfold dropStaleKeys
  dsimp only
  rw [append_keys, append_mark]
  split
  · exact Both.error_left
  · exact .ok rfl

theorem both_dropKey (s : Scanner) (more : List Char) :
    Both (fun a b => b = a.append more) s.dropKey (s.append more).dropKey := by
  unfold dropKey
  rw [append_keys]
  split
  · exact .ite Iff.rfl (fun _ => both_failIn) fun _ => .ok rfl
  · exact .ok rfl

theorem both_saveKey (s : Scanner) (more : List Char) :
    Both (fun a b => b = a.append more) s.saveKey (s.append more).saveKey := by
  refine .ite Iff.rfl (fun _ => .ok rfl) fun _ => (both_dropKey s more).bind fun a _ h => ?_
  subst h
  exact .ok rfl

theorem openBlock_append (s : Scanner) (column : Nat) (t : Token) (m : Mark) (position : Option Nat)
    (more : List Char) :
    (s.append more).openBlock column t m position = (s.openBlock column t m position).append more := by
  unfold openBlock
  rw [append_inFlow]
  change (if (s.inFlow || decide ((column : Int) ≤ s.indent)) = true then _ else _) = _
  split <;> rfl

theorem closeBlocks_append (s : Scanner) (column : Int) (more : List Char) :
    (s.append more).closeBlocks column = (s.closeBlocks column).append more := by
  have hgo (indent : Int) (outer : List Int) (waiting : List (Located Token)) :
      closeBlocks.go (s.append more) column indent outer waiting = closeBlocks.go s column indent outer waiting := by
    induction outer generalizing indent waiting with
    | nil => rfl
    | cons i is ih =>
      unfold closeBlocks.go
      split
      · exact ih _ _
      · rfl
  unfold closeBlocks
  rw [append_inFlow]
  split
  · rfl
  · rw [hgo]
    rfl

def NoKey (s : Scanner) : Prop := ∀ k rest, s.keys ≠ some k :: rest

/-- A scanner at the same place, which waits for no more keys. -/
structure Stays (s s' : Scanner) : Prop where
  cursor : s'.cursor = s.cursor
  keyAllowed : s'.keyAllowed = s.keyAllowed
  inFlow : s'.inFlow = s.inFlow
  noKey : s.NoKey → s'.NoKey

theorem dropStaleKeys_stays (s : Scanner) : Gives s.Stays s.dropStaleKeys := by
  unfold dropStaleKeys
  dsimp only
  split
  · exact gives_failIn
  · refine ⟨rfl, rfl, by simp [inFlow], fun h k rest hkeys => ?_⟩
    obtain ⟨k', rest', hkeys', hk, -⟩ := List.map_eq_cons_iff.mp hkeys
    cases k' with
    | none => simp at hk
    | some k' => exact h k' rest' hkeys'

theorem closeBlocks_stays (s : Scanner) (column : Int) : s.Stays (s.closeBlocks column) := by
  unfold closeBlocks
  split
  · exact ⟨rfl, rfl, rfl, id⟩
  · exact ⟨rfl, rfl, rfl, id⟩

theorem dropKey_noKey (s : Scanner) : Gives NoKey s.dropKey := by
  unfold dropKey
  split
  · exact .ite (fun _ => gives_failIn) fun _ k rest hkeys => nomatch hkeys
  next hne => exact hne

/-- A scanner inside a text that ends with a line break, or at its end, where a key is allowed or none is waited for. -/
def Placed (s : Scanner) : Prop :=
  EndsLine s.cursor.rest ∨
    s.cursor.rest = [] ∧ s.cursor.mark.column = 0 ∧ (s.inFlow = true ∨ s.keyAllowed = true ∨ s.NoKey)

theorem Placed.endsLine (h : s.Placed) (hne : s.cursor.rest ≠ []) : EndsLine s.cursor.rest :=
  h.resolve_right fun h => hne h.1

theorem Placed.stays (h : s.Placed) (hs : s.Stays s₁) : s₁.Placed := by
  unfold Placed
  rw [hs.cursor, hs.keyAllowed, hs.inFlow]
  exact h.imp_right fun ⟨hnil, hcolumn, hkey⟩ => ⟨hnil, hcolumn, hkey.imp_right (.imp_right hs.noKey)⟩

/-- The cursor after the white space and the comment of its line. -/
def atToken (tabs : Bool) (c : Cursor) : Cursor :=
  ((skipByteOrderMark c).skipWhile fun c => c == ' ' || (tabs && c == '\t')).skipComment

theorem skipToToken_succ (n : Nat) (s : Scanner) :
    skipToToken (n + 1) s =
      let c := atToken (s.inFlow || !s.keyAllowed) s.cursor
      if c.rest.head?.any isBreak then
        skipToToken n { s with cursor := c.skipBreak, keyAllowed := s.keyAllowed || !s.inFlow }
      else { s with cursor := c } := rfl

theorem skipByteOrderMark_append {c : Cursor} (h : EndsLine c.rest) (more : List Char) :
    skipByteOrderMark (c.append more) = (skipByteOrderMark c).append more := by
  unfold skipByteOrderMark
  rw [append_rest, h.head?_append, Cursor.append_mark]
  split
  · exact skip_one_append h more
  · rfl

theorem skipByteOrderMark_endsLine {c : Cursor} (h : EndsLine c.rest) : EndsLine (skipByteOrderMark c).rest := by
  unfold skipByteOrderMark
  split
  next hmark => exact skip_endsLine h hmark.2 (by decide)
  · exact h

theorem length_skipByteOrderMark_le (c : Cursor) : (skipByteOrderMark c).rest.length ≤ c.rest.length := by
  unfold skipByteOrderMark
  split
  · simp [Cursor.skip]
  · exact Nat.le_refl _

theorem length_atToken_le (tabs : Bool) (c : Cursor) : (atToken tabs c).rest.length ≤ c.rest.length :=
  Nat.le_trans (length_skipComment_le _) (Nat.le_trans (length_skipWhile_le _ _) (length_skipByteOrderMark_le c))

theorem atToken_append (tabs : Bool) {c : Cursor} (h : EndsLine c.rest) (more : List Char) :
    atToken tabs (c.append more) = (atToken tabs c).append more ∧ EndsLine (atToken tabs c).rest := by
  have hmark := skipByteOrderMark_endsLine h
  have hlf : (fun c => c == ' ' || (tabs && c == '\t')) '\n' = false := by simp
  have hblank : EndsLine ((skipByteOrderMark c).skipWhile fun c => c == ' ' || (tabs && c == '\t')).rest :=
    skipWhile_endsLine hmark hlf
  unfold atToken
  rw [skipByteOrderMark_append h, skipWhile_append hmark hlf, skipComment_append hblank]
  exact ⟨rfl, skipComment_endsLine hblank⟩

theorem atToken_eq (tabs : Bool) {c : Cursor} (h : c.rest = [] ∨ c.rest.head? = some '_') : atToken tabs c = c := by
  obtain ⟨rest, m⟩ := c
  obtain h | h := h
  · obtain rfl : rest = [] := h
    simp [atToken, skipByteOrderMark, Cursor.skipWhile, Cursor.skipComment, Mark.skip]
  · obtain ⟨cs, rfl⟩ := List.head?_eq_some_iff.mp h
    simp [atToken, skipByteOrderMark, Cursor.skipWhile, Cursor.skipComment, Mark.skip]

/-- The white space before a token is skipped up to the end of the text, where the added text begins. -/
theorem skipToToken_append (n n' : Nat) (hn : s.cursor.rest.length < n) (hn' : s.cursor.rest.length < n')
    (h : s.Placed) :
    skipToToken n' (s.append ('_' :: bs)) = (skipToToken n s).append ('_' :: bs) ∧ (skipToToken n s).Placed := by
  induction n generalizing s n' with
  | zero => cases hn
  | succ n ih =>
    cases n' with
    | zero => cases hn'
    | succ n' =>
      rw [skipToToken_succ, skipToToken_succ, append_inFlow, append_keyAllowed, append_cursor]
      dsimp only
      obtain hline | ⟨hnil, hplace⟩ := h
      · have hlength := length_atToken_le (s.inFlow || !s.keyAllowed) s.cursor
        obtain ⟨happend, hrest⟩ := atToken_append (s.inFlow || !s.keyAllowed) hline ('_' :: bs)
        rw [happend, append_rest, hrest.head?_append]
        split
        next hbreak =>
          have hlt := Nat.lt_of_lt_of_le (length_skipBreak_lt hbreak) hlength
          rw [skipBreak_append hrest]
          refine ih (s := { s with cursor := _, keyAllowed := s.keyAllowed || !s.inFlow }) n'
            (Nat.lt_of_lt_of_le hlt (Nat.le_of_lt_succ hn)) (Nat.lt_of_lt_of_le hlt (Nat.le_of_lt_succ hn'))
            ((skipBreak_inLines hrest).imp_right fun ⟨hnil, hcolumn⟩ => ⟨hnil, hcolumn, ?_⟩)
          cases hflow : s.inFlow with
          | true => exact Or.inl hflow
          | false => exact Or.inr (Or.inl (by simp))
        · exact ⟨rfl, Or.inl hrest⟩
      · have hthere : (s.cursor.append ('_' :: bs)).rest.head? = some '_' := by
          rw [append_rest, hnil]
          rfl
        rw [atToken_eq _ (Or.inl hnil), atToken_eq _ (Or.inr hthere), hthere, hnil]
        exact ⟨rfl, Or.inr ⟨hnil, hplace⟩⟩

def Aligned (more : List Char) (a b : Scanner) : Prop := b = a.append more ∧ a.Placed

theorem both_settle (h : s.Placed) : Both (Aligned ('_' :: bs)) s.settle (s.append ('_' :: bs)).settle := by
  have hlength : s.cursor.rest.length < (s.append ('_' :: bs)).cursor.rest.length + 1 := by
    change _ < (s.cursor.rest ++ '_' :: bs).length + 1
    rw [List.length_append]
    omega
  obtain ⟨hskip, hplaced⟩ := @skipToToken_append bs s _ _ (Nat.lt_succ_self _) hlength h
  unfold settle
  rw [hskip]
  refine ((both_dropStaleKeys _ _).and_left (dropStaleKeys_stays _)).bind fun a _ ⟨ha, hstays⟩ => ?_
  subst ha
  rw [closeBlocks_append]
  exact .ok ⟨rfl, (hplaced.stays hstays).stays (closeBlocks_stays _ _)⟩

/-! ## Steps that read a token -/

section Fetch

variable {c : Char} {cs : List Char} {ts : List (Located Token)}

theorem pushIndicator_append {n : Nat} (hn : n ≤ s.cursor.rest.length) (t : Token) (more : List Char) :
    (s.append more).pushIndicator t n = (s.pushIndicator t n).append more := by
  unfold pushIndicator
  rw [append_cursor, skip_append hn]
  rfl

/-- A place inside the text with a character that is no line break. -/
structure AtChar (s : Scanner) (c : Char) : Prop where
  endsLine : EndsLine s.cursor.rest
  head : s.cursor.rest.head? = some c
  ne_lf : c ≠ '\n'

theorem AtChar.prepare (h : s.AtChar c) (hp : s.Prepares s₁) : s₁.AtChar c where
  endsLine := hp.cursor ▸ h.endsLine
  head := hp.cursor ▸ h.head
  ne_lf := h.ne_lf

theorem AtChar.skip (h : s.AtChar c) : EndsLine (s.cursor.skip 1).rest := skip_endsLine h.endsLine h.head h.ne_lf

theorem AtChar.indicate (h : s.AtChar c) (t : Token) (keyAllowed : Bool) (keys : List (Option KeyCandidate)) :
    Aligned more { s.pushIndicator t 1 with keyAllowed, keys }
      { (s.append more).pushIndicator t 1 with keyAllowed, keys } := by
  rw [pushIndicator_append (List.length_pos_iff.mpr h.endsLine.ne_nil)]
  exact ⟨rfl, Or.inl h.skip⟩

section Keys

variable {post : Scanner → Scanner → Prop} {f g : Scanner → Except SyntaxError Scanner}

theorem AtChar.afterSaveKey (h : s.AtChar c) (hf : ∀ a, a.AtChar c → Both post (f a) (g (a.append more))) :
    Both post (s.saveKey >>= f) ((s.append more).saveKey >>= g) := by
  refine ((both_saveKey s more).and_left s.saveKey_prepares).bind fun a _ ⟨ha, hp⟩ => ?_
  subst ha
  exact hf a (h.prepare hp)

theorem AtChar.afterDropKey (h : s.AtChar c) (hf : ∀ a, a.AtChar c → Both post (f a) (g (a.append more))) :
    Both post (s.dropKey >>= f) ((s.append more).dropKey >>= g) := by
  refine ((both_dropKey s more).and_left s.dropKey_prepares).bind fun a _ ⟨ha, hp⟩ => ?_
  subst ha
  exact hf a (h.prepare hp)

end Keys

theorem both_fetchDirective (h : s.AtChar c) :
    Both (Aligned more) s.fetchDirective (s.append more).fetchDirective := by
  unfold fetchDirective
  rw [closeBlocks_append]
  refine (((both_dropKey _ _).and_left (dropKey_prepares _)).and_left (dropKey_noKey _)).bind
    fun a _ ⟨⟨ha, hp⟩, hkey⟩ => ?_
  subst ha
  have hat := (h.prepare (s.closeBlocks_prepares _)).prepare hp
  refine (scanDirective_append hat.endsLine hat.head hat.ne_lf more).upTo fun t after hlines => ?_
  exact .ok ⟨rfl, hlines.imp_right fun ⟨hnil, hcolumn⟩ => ⟨hnil, hcolumn, Or.inr (Or.inr hkey)⟩⟩

theorem atMarker_skip {mark : Char} (hmark : mark ≠ '\n') (h : EndsLine cs) (hat : atMarker mark cs = true) :
    3 ≤ cs.length ∧ EndsLine (cs.drop 3) := by
  unfold atMarker at hat
  split at hat
  next a b c rest =>
    simp only [Bool.and_eq_true, beq_iff_eq] at hat
    obtain ⟨⟨⟨rfl, rfl⟩, rfl⟩, -⟩ := hat
    exact ⟨by simp, ((h.of_cons hmark).of_cons hmark).of_cons hmark⟩
  next => cases hat

theorem both_fetchDocumentMarker (h : s.AtChar c) (mark : Char) (hmark : mark ≠ '\n')
    (hat : atMarker mark s.cursor.rest = true) (t : Token) :
    Both (Aligned more) (s.fetchDocumentMarker t) ((s.append more).fetchDocumentMarker t) := by
  unfold fetchDocumentMarker
  rw [closeBlocks_append]
  refine ((both_dropKey _ _).and_left (dropKey_prepares _)).bind fun a _ ⟨ha, hp⟩ => ?_
  subst ha
  have hcursor : a.cursor = s.cursor := ((s.closeBlocks_prepares _).trans hp).cursor
  obtain ⟨hlength, hline⟩ := atMarker_skip hmark h.endsLine hat
  rw [pushIndicator_append (by rw [hcursor]; exact hlength)]
  exact .ok ⟨rfl, Or.inl (show EndsLine (a.cursor.skip 3).rest by rw [hcursor]; exact hline)⟩

theorem both_fetchFlowStart (h : s.AtChar c) (t : Token) :
    Both (Aligned more) (s.fetchFlowStart t) ((s.append more).fetchFlowStart t) :=
  h.afterSaveKey fun _ ha => .ok (ha.indicate t _ _)

theorem both_fetchFlowEnd (h : s.AtChar c) (t : Token) :
    Both (Aligned more) (s.fetchFlowEnd t) ((s.append more).fetchFlowEnd t) :=
  h.afterDropKey fun _ ha => .ok (ha.indicate t _ _)

theorem both_fetchFlowEntry (h : s.AtChar c) :
    Both (Aligned more) s.fetchFlowEntry (s.append more).fetchFlowEntry :=
  h.afterDropKey fun _ ha => .ok (ha.indicate _ _ _)

theorem both_fail {α β : Type} {p : Problem} {post : α → β → Prop} {y : Except SyntaxError β} :
    Both post (s.fail p : Except SyntaxError α) y := Both.error_left

theorem both_fetchBlockEntry (h : s.AtChar c) :
    Both (Aligned more) s.fetchBlockEntry (s.append more).fetchBlockEntry := by
  refine .ite Iff.rfl (fun _ => both_fail) fun _ => ?_
  rw [append_mark, openBlock_append]
  exact (h.prepare (s.openBlock_prepares _ rfl _ _)).afterDropKey fun _ ha => .ok (ha.indicate _ _ _)

theorem both_fetchKey (h : s.AtChar c) : Both (Aligned more) s.fetchKey (s.append more).fetchKey := by
  refine .ite Iff.rfl (fun _ => both_fail) fun _ => ?_
  rw [append_mark, openBlock_append]
  exact (h.prepare (s.openBlock_prepares _ rfl _ _)).afterDropKey fun _ ha => .ok (ha.indicate _ _ _)

/-- The scanner with a token for the key that a candidate turns out to be. -/
def withKey (s : Scanner) (k : KeyCandidate) (rest : List (Option KeyCandidate)) : Scanner :=
  { s with waiting := s.waiting.insertIdx (k.token - s.released) ⟨.key, k.mark, k.mark⟩, keys := none :: rest }

theorem withKey_prepares (s : Scanner) (k : KeyCandidate) (rest : List (Option KeyCandidate)) :
    s.Prepares (s.withKey k rest) :=
  .of_insertIdx (t := ⟨.key, k.mark, k.mark⟩) ⟨rfl, rfl⟩ rfl rfl rfl

theorem fetchValue_of_key {k : KeyCandidate} {rest : List (Option KeyCandidate)} (h : s.keys = some k :: rest) :
    s.fetchValue = .ok
      { ((s.withKey k rest).openBlock k.mark.column .blockMappingStart k.mark
          (some k.token)).pushIndicator .value 1 with
        keyAllowed := false } := by
  unfold fetchValue
  rw [h]
  rfl

theorem fetchValue_of_noKey (h : s.NoKey) :
    s.fetchValue =
      if !s.inFlow && !s.keyAllowed then s.fail .valueNotAllowed
      else
        let s := s.openBlock s.mark.column .blockMappingStart s.mark none
        .ok { s.pushIndicator .value 1 with keyAllowed := !s.inFlow } := by
  unfold fetchValue
  split
  next k rest hkeys => exact absurd hkeys (h k rest)
  · rfl

theorem both_fetchValue (h : s.AtChar c) : Both (Aligned more) s.fetchValue (s.append more).fetchValue := by
  by_cases hkey : s.NoKey
  · rw [fetchValue_of_noKey hkey, fetchValue_of_noKey (s := s.append more) hkey, append_mark, openBlock_append]
    exact .ite Iff.rfl (fun _ => both_fail) fun _ =>
      .ok ((h.prepare (s.openBlock_prepares _ rfl _ _)).indicate _ _ _)
  · obtain ⟨k, rest, hkeys⟩ : ∃ k rest, s.keys = some k :: rest := by simpa [NoKey] using hkey
    rw [fetchValue_of_key hkeys, fetchValue_of_key (s := s.append more) hkeys]
    have hkeyed : (s.append more).withKey k rest = (s.withKey k rest).append more := rfl
    rw [hkeyed, openBlock_append]
    exact .ok ((h.prepare ((s.withKey_prepares k rest).trans (openBlock_prepares _ _ rfl _ _))).indicate _ _ _)

theorem both_fetchNode (h : s.AtChar c) {scan : Cursor → Except SyntaxError (Located Token × Cursor)}
    (hscan : ∀ d : Cursor, EndsLine d.rest → d.rest.head? = some c →
      Both (Within more) (scan d) (scan (d.append more))) :
    Both (Aligned more) (s.fetchNode scan) ((s.append more).fetchNode scan) := by
  refine h.afterSaveKey fun a hat => ?_
  exact (hscan a.cursor hat.endsLine hat.head).within fun _ _ hline => .ok ⟨rfl, Or.inl hline⟩

theorem both_fetchBlockScalar (hmore : Begins more) (h : s.AtChar c) (literal : Bool) :
    Both (Aligned more) (s.fetchBlockScalar literal) ((s.append more).fetchBlockScalar literal) := by
  refine h.afterDropKey fun a hat => ?_
  refine (scanBlock_append hmore hat.endsLine hat.head hat.ne_lf).upTo fun t after hlines => ?_
  exact .ok ⟨rfl, hlines.imp_right fun ⟨hnil, hcolumn⟩ => ⟨hnil, hcolumn, Or.inr (Or.inl rfl)⟩⟩

/-- A plain scalar was read up to the end of a text, where it may go on. -/
structure Unclosed (s : Scanner) : Prop where
  nil : s.cursor.rest = []
  shallow : s.inFlow = true ∨ s.indent < 0
  last : ∃ ts t text, s.waiting = ts ++ [t] ∧ t.value = .scalar text true

theorem both_fetchPlain (hmore : Begins more) (h : s.AtChar c) :
    Both (fun a b => Aligned more a b ∨ a.Unclosed) s.fetchPlain (s.append more).fetchPlain := by
  refine h.afterSaveKey fun a hat => ?_
  refine (scanPlain_append hmore hat.endsLine).bind fun r _ hr => .ok ?_
  obtain ⟨rfl, hlines, hbroken⟩ | ⟨⟨text, htext⟩, hnil, hshallow⟩ := hr
  · refine Or.inl ⟨rfl, ?_⟩
    obtain hline | hbroken := hbroken
    · exact Or.inl hline
    · exact hlines.imp_right fun ⟨hnil, hcolumn⟩ => ⟨hnil, hcolumn, Or.inr (Or.inl hbroken)⟩
  · exact Or.inr ⟨hnil, hshallow.imp_right fun hle => by dsimp only [push]; omega, _, _, text, rfl, htext⟩

theorem fetchHere_lf (s : Scanner) (cs : List Char) : Gives (fun _ => False) (s.fetchHere '\n' cs) := by
  have hplain : startsPlain s.inFlow ('\n' :: cs) = false := by simp [startsPlain, isBreak]
  simp [fetchHere, atMarker_of_ne, hplain]

theorem startsPlain_append (flow : Bool) (h : EndsLine cs) (more : List Char) :
    startsPlain flow (c :: (cs ++ more)) = startsPlain flow (c :: cs) := by
  unfold startsPlain
  dsimp only
  rw [h.head?_append, h.atGap_append]

theorem both_fetchHere (hmore : Begins more) (hrest : s.cursor.rest = c :: cs) (hline : EndsLine (c :: cs)) :
    Both (fun a b => Aligned more a b ∨ a.Unclosed) (s.fetchHere c cs) ((s.append more).fetchHere c (cs ++ more)) := by
  by_cases hc : c = '\n'
  · subst hc
    exact fun a _ ha _ => ((fetchHere_lf s cs).of_eq_ok ha).elim
  have h : s.AtChar c := ⟨hrest ▸ hline, by rw [hrest]; rfl, hc⟩
  have hcs := hline.of_cons hc
  have hmarker {m : Char} (hm : m ≠ '\n') : atMarker m (c :: (cs ++ more)) = atMarker m (c :: cs) :=
    hline.atMarker_append hm more
  have aligned {x y : Except SyntaxError Scanner} (hxy : Both (Aligned more) x y) :
      Both (fun a b => Aligned more a b ∨ a.Unclosed) x y := fun a b ha hb => Or.inl (hxy a b ha hb)
  unfold fetchHere
  dsimp only
  rw [append_inFlow, append_mark, hmarker (by decide), hmarker (by decide), hcs.atGap_append,
    startsPlain_append s.inFlow hcs more]
  refine .ite Iff.rfl (fun _ => aligned (both_fetchDirective h)) fun _ => ?_
  refine .ite Iff.rfl (fun hdash => aligned (both_fetchDocumentMarker h '-' (by decide) ?_ _)) fun _ => ?_
  · rw [hrest]
    exact (Bool.and_eq_true_iff.mp hdash).2
  refine .ite Iff.rfl (fun hdot => aligned (both_fetchDocumentMarker h '.' (by decide) ?_ _)) fun _ => ?_
  · rw [hrest]
    exact (Bool.and_eq_true_iff.mp hdot).2
  refine .ite Iff.rfl (fun _ => aligned (both_fetchFlowStart h _)) fun _ => ?_
  refine .ite Iff.rfl (fun _ => aligned (both_fetchFlowStart h _)) fun _ => ?_
  refine .ite Iff.rfl (fun _ => aligned (both_fetchFlowEnd h _)) fun _ => ?_
  refine .ite Iff.rfl (fun _ => aligned (both_fetchFlowEnd h _)) fun _ => ?_
  refine .ite Iff.rfl (fun _ => aligned (both_fetchFlowEntry h)) fun _ => ?_
  refine .ite Iff.rfl (fun _ => aligned (both_fetchBlockEntry h)) fun _ => ?_
  refine .ite Iff.rfl (fun _ => aligned (both_fetchKey h)) fun _ => ?_
  refine .ite Iff.rfl (fun _ => aligned (both_fetchValue h)) fun _ => ?_
  refine .ite Iff.rfl (fun _ => aligned (both_fetchNode h fun d hd hat => scanAlias_append hd hat hc more)) fun _ => ?_
  refine .ite Iff.rfl (fun _ => aligned (both_fetchNode h fun d hd hat => scanAnchor_append hd hat hc more)) fun _ => ?_
  refine .ite Iff.rfl (fun htag => aligned (both_fetchNode h fun d hd hat =>
    scanTag_append hd (eq_of_beq htag ▸ hat) more)) fun _ => ?_
  refine .ite Iff.rfl (fun _ => aligned (both_fetchBlockScalar hmore h true)) fun _ => ?_
  refine .ite Iff.rfl (fun _ => aligned (both_fetchBlockScalar hmore h false)) fun _ => ?_
  refine .ite Iff.rfl (fun _ => aligned (both_fetchNode h fun d hd hat =>
    scanQuoted_append hmore hd hat hc)) fun _ => ?_
  refine .ite Iff.rfl (fun _ => aligned (both_fetchNode h fun d hd hat =>
    scanQuoted_append hmore hd hat hc)) fun _ => ?_
  exact .ite Iff.rfl (fun _ => both_fetchPlain hmore h) fun _ => both_failIn

end Fetch

end Scanner

end YamlInclude.Yaml
