import YamlInclude.Proofs.AppendedRun
import YamlInclude.Include.Anchor
import YamlInclude.Proofs.Traced

/-! # Tokens of an added entry

A text ends with a line break, and an entry with an alias stands behind it. The tokens of both texts are the same up
to the place where the first one ends: there its blocks are closed, and the entry goes on with the block of the root or
opens another one. A plain scalar that comes last may take up the entry.
-/

namespace YamlInclude.Yaml

def entryText (x : List Char) : List Char := Anchor.sentinel.toList ++ (':' :: ' ' :: '*' :: (x ++ ['\n']))

variable {x : List Char} {m : Mark}

theorem entryText_eq (x : List Char) : entryText x = '_' :: (entryText x).tail := rfl

theorem entryText_begins (x : List Char) : Begins (entryText x) := ⟨_, _, entryText_eq x, rfl, rfl⟩

theorem scanPlain_entry (x : List Char) (indent : Int) (m : Mark) :
    scanPlain false indent ⟨entryText x, m⟩ =
      .ok (⟨.scalar Anchor.sentinel true, m, m.skip 16⟩, ⟨':' :: ' ' :: '*' :: (x ++ ['\n']), m.skip 16⟩, false) := by
  have hmark : atDocumentMarker ⟨entryText x, m⟩ = false := Bool.and_false _
  have hword : plainWord false (entryText x) =
      (Anchor.sentinel.toList, ':' :: ' ' :: '*' :: (x ++ ['\n']), .regular) := by
    rfl
  unfold scanPlain
  dsimp only
  rw [plainWords]
  rw [hmark, hword]
  rfl

theorem scanAlias_name (hx : x.all isNameChar = true) (hne : x ≠ []) (m : Mark) :
    scanAlias ⟨'*' :: (x ++ ['\n']), m⟩ =
      .ok (⟨.alias (String.ofList x), m, (m.skip 1).skip x.length⟩, ⟨['\n'], (m.skip 1).skip x.length⟩) := by
  have htake : (x ++ ['\n']).takeWhile isNameChar = x := by
    rw [List.takeWhile_append_of_pos (List.all_eq_true.mp hx)]
    exact List.append_nil x
  have hdrop : (x ++ ['\n']).dropWhile isNameChar = ['\n'] := by
    rw [List.dropWhile_append_of_pos (List.all_eq_true.mp hx)]
    rfl
  have hempty : x.isEmpty = false := List.isEmpty_eq_false_iff.mpr hne
  simp [scanAlias, scanName, Cursor.skip, Cursor.skipWhile, htake, hdrop, hempty, endsName, atGap, isBreak]
  rfl

namespace Scanner

open Cursor

variable {s s₁ a b : Scanner} {c : Cursor} {d n : Nat} {cs : List Char} {W : List (Located Token)}

theorem fetchHere_underscore (s : Scanner) (cs : List Char) : s.fetchHere '_' cs = s.fetchPlain := by
  have hplain : startsPlain s.inFlow ('_' :: cs) = true := by
    simp [startsPlain, isBreak, isBlankChar, isIndicator]
  simp [fetchHere, atMarker_of_ne, hplain]

theorem fetchHere_colon (s : Scanner) (cs : List Char) : s.fetchHere ':' (' ' :: cs) = s.fetchValue := by
  simp [fetchHere, atMarker_of_ne, atGap, isBlankChar]

theorem fetchHere_star (s : Scanner) (cs : List Char) : s.fetchHere '*' cs = s.fetchNode scanAlias := by
  simp [fetchHere, atMarker_of_ne]

theorem saveKey_eq (hkeys : s.keys.length = 1) :
    Gives (fun a => s.keyAllowed = false ∧ a = s ∨
      ∃ r, a = { s with keys := [some ⟨s.released + s.waiting.length, s.mark, r⟩] }) s.saveKey := by
  refine .ite (fun hallowed => Or.inl ⟨by simpa using hallowed, rfl⟩) fun _ => ?_
  have hdrop : Gives (fun a => a.keys.drop 1 = [] ∧ ∃ keys, a = { s with keys }) s.dropKey := by
    have hnil : s.keys.drop 1 = [] := List.drop_eq_nil_iff.mpr (Nat.le_of_eq hkeys)
    unfold dropKey
    split
    next k rest hs =>
      rw [hs] at hnil
      exact .ite (fun _ => gives_failIn) fun _ => ⟨hnil, _, rfl⟩
    · exact ⟨hnil, s.keys, rfl⟩
  refine hdrop.bind fun a ⟨hnil, keys, ha⟩ => Or.inr ⟨!s.inFlow && s.indent == (s.mark.column : Int), ?_⟩
  rw [hnil, ha]

theorem fetchPlain_entry (hcursor : s.cursor = ⟨entryText x, m⟩) (hkeys : s.keys.length = 1) :
    Gives (fun b => ∃ keys, b = { s with
        cursor := ⟨':' :: ' ' :: '*' :: (x ++ ['\n']), m.skip 16⟩
        waiting := s.waiting ++ [⟨.scalar Anchor.sentinel true, m, m.skip 16⟩]
        keyAllowed := false
        keys } ∧
      (s.keyAllowed = false ∧ keys = s.keys ∨ ∃ r, keys = [some ⟨s.released + s.waiting.length, m, r⟩]))
      s.fetchPlain := by
  have hflow : s.inFlow = false := by simp [inFlow, hkeys]
  refine (saveKey_eq hkeys).bind fun a ha => ?_
  obtain ⟨hallowed, rfl⟩ | ⟨r, rfl⟩ := ha
  · rw [hflow, hcursor, scanPlain_entry]
    exact ⟨_, rfl, Or.inl ⟨hallowed, rfl⟩⟩
  · have hflow' : inFlow { s with keys := [some ⟨s.released + s.waiting.length, s.mark, r⟩] } = false := rfl
    rw [hflow']
    dsimp only
    rw [hcursor, scanPlain_entry]
    exact ⟨_, rfl, Or.inr ⟨r, by rw [mark, hcursor]; rfl⟩⟩

theorem settle_of_skip (hskip : skipToToken (s.cursor.rest.length + 1) s = s₁)
    (hindent : s₁.inFlow = true ∨ s₁.indent ≤ s₁.mark.column) :
    Gives (fun a => a = { s₁ with keys := s₁.freshKeys }) s.settle := by
  unfold settle
  rw [hskip]
  refine dropStaleKeys_eq.bind fun a ha => ?_
  subst ha
  obtain hflow | hindent := hindent
  · have hflow' : inFlow { s₁ with keys := s₁.freshKeys } = true := by simpa [inFlow, freshKeys] using hflow
    rw [closeBlocks, hflow']
    exact rfl
  · exact closeBlocks_of_le (s := { s₁ with keys := s₁.freshKeys }) hindent

theorem settle_of_atToken (hc : atToken (s.inFlow || !s.keyAllowed) s.cursor = c)
    (hbreak : c.rest.head?.any isBreak = false) (hindent : s.indent ≤ c.mark.column) :
    Gives (fun a => a = { s with cursor := c, keys := freshKeys { s with cursor := c } }) s.settle := by
  have hskip : skipToToken (s.cursor.rest.length + 1) s = { s with cursor := c } := by
    rw [skipToToken_succ]
    dsimp only
    rw [hc, hbreak]
    rfl
  exact settle_of_skip hskip (Or.inr hindent)

/-- A scanner in a block after a token, at the end of which no token waits to become a key. -/
structure Settled (s : Scanner) : Prop where
  keys : s.keys = [none]
  indent : s.indent = 0
  nested : Nested s.indent s.outer
  unfinished : s.finished = false
  unended : ∀ t ∈ s.waiting, t.value ≠ .streamEnd

theorem Settled.freshKeys (h : s.Settled) : s.freshKeys = [none] := by
  rw [Scanner.freshKeys, h.keys]
  rfl

theorem Settled.awaits (h : s.Settled) (hw : Awaits s W s₁) :
    s₁.Settled ∧ s₁.cursor = s.cursor ∧ s₁.keyAllowed = s.keyAllowed ∧ s.waiting = W ++ s₁.waiting := by
  obtain ⟨⟨V, keys, hwaiting, rfl, hkeys⟩, -⟩ := hw
  have hnone : keys = [none] := hkeys.elim (·.trans h.freshKeys) fun hk => hk.2.trans h.keys
  exact ⟨{ h with keys := hnone, unended := fun t ht => h.unended t (hwaiting ▸ List.mem_append_right _ ht) },
    rfl, rfl, hwaiting⟩

theorem Settled.inFlow (h : s.Settled) : s.inFlow = false := by simp [Scanner.inFlow, h.keys]

theorem Settled.fetch_end (h : s.Settled) (hrest : s.cursor.rest = ['\n']) :
    Gives (fun a => a.finished = true ∧ ∃ m, a.waiting = s.waiting ++ [⟨.blockEnd, m, m⟩, ⟨.streamEnd, m, m⟩])
      s.fetch := by
  obtain ⟨⟨rest, m⟩, indent, outer, keyAllowed, keys, released, waiting, finished⟩ := s
  obtain rfl : rest = ['\n'] := hrest
  obtain rfl : keys = [none] := h.keys
  obtain rfl : indent = 0 := h.indent
  have hskip : skipToToken 2 ⟨⟨['\n'], m⟩, 0, outer, keyAllowed, [none], released, waiting, finished⟩ =
      ⟨⟨[], m.newLine 1⟩, 0, outer, keyAllowed || true, [none], released, waiting, finished⟩ := by
    simp [skipToToken_succ, atToken, skipByteOrderMark, Cursor.skipWhile, Cursor.skipComment, Cursor.skipBreak,
      isBreak, Mark.skip, Scanner.inFlow]
  refine (settle_of_skip hskip (Or.inr (Int.le_refl 0))).bind fun a ha => ?_
  subst ha
  have hend := fetchStreamEnd_waiting (s := ⟨⟨[], m.newLine 1⟩, 0, outer, keyAllowed || true, [none], released, waiting,
    finished⟩) h.nested rfl (Int.le_refl 0)
  refine hend.imp fun a ha => ?_
  obtain ⟨hfinished, hwaiting⟩ := ha
  exact ⟨hfinished, _, by simpa [rootEnd] using hwaiting⟩

theorem Settled.fetch_alias (h : s.Settled) (hallowed : s.keyAllowed = false)
    (hrest : s.cursor.rest = ' ' :: '*' :: (x ++ ['\n'])) (hx : x.all isNameChar = true) (hne : x ≠ []) :
    Gives (fun a => a.Settled ∧ a.cursor.rest = ['\n'] ∧
      ∃ m m', a.waiting = s.waiting ++ [⟨.alias (String.ofList x), m, m'⟩]) s.fetch := by
  obtain ⟨⟨rest, m⟩, indent, outer, keyAllowed, keys, released, waiting, finished⟩ := s
  obtain rfl : rest = ' ' :: '*' :: (x ++ ['\n']) := hrest
  obtain rfl : keys = [none] := h.keys
  obtain rfl : indent = 0 := h.indent
  obtain rfl : keyAllowed = false := hallowed
  have hc : atToken true ⟨' ' :: '*' :: (x ++ ['\n']), m⟩ = ⟨'*' :: (x ++ ['\n']), m.skip 1⟩ := by
    simp [atToken, skipByteOrderMark, Cursor.skipWhile, Cursor.skipComment]
  refine (settle_of_atToken (s := ⟨⟨' ' :: '*' :: (x ++ ['\n']), m⟩, 0, outer, false, [none], released, waiting,
    finished⟩) hc rfl (Int.natCast_nonneg _)).bind fun a ha => ?_
  subst ha
  dsimp only
  rw [fetchHere_star]
  unfold fetchNode saveKey
  dsimp only
  rw [if_pos (by rfl)]
  change Gives _ (scanAlias ⟨'*' :: (x ++ ['\n']), m.skip 1⟩ >>= _)
  rw [scanAlias_name hx hne]
  refine ⟨⟨rfl, rfl, h.nested, h.unfinished, ?_⟩, rfl, _, _, rfl⟩
  intro t ht
  obtain ht | rfl := by simpa [push] using ht
  · exact h.unended t ht
  · simp

theorem insertIdx_append {α : Type} (xs : List α) (y z : α) (ys : List α) :
    (xs ++ z :: ys).insertIdx xs.length y = xs ++ y :: z :: ys := by
  induction xs with
  | nil => rfl
  | cons x xs ih => rw [List.cons_append, List.length_cons, List.insertIdx_succ_cons, ih, List.cons_append]

def opensRoot (indent : Int) : List Token := if indent = 0 then [] else [.blockMappingStart]

theorem fetch_colon {V : List (Located Token)} {t : Located Token} {k : KeyCandidate}
    (hnested : Nested s.indent s.outer) (hindent : s.indent ≤ 0) (hunfinished : s.finished = false)
    (hunended : ∀ t ∈ s.waiting, t.value ≠ .streamEnd)
    (hcursor : s.cursor = ⟨':' :: ' ' :: '*' :: (x ++ ['\n']), k.mark.skip 16⟩) (hcolumn : k.mark.column = 0)
    (hkeys : s.keys = [some k]) (hwaiting : s.waiting = V ++ [t]) (htoken : k.token - s.released = V.length) :
    Gives (fun a => a.Settled ∧ a.keyAllowed = false ∧ a.cursor.rest = ' ' :: '*' :: (x ++ ['\n']) ∧
      ∃ us, a.waiting = V ++ us ∧ us.map (·.value) = opensRoot s.indent ++ [.key, t.value, .value] ∧
        us.head?.map (·.start) = some k.mark) s.fetch := by
  obtain ⟨cursor, indent, outer, keyAllowed, keys, released, waiting, finished⟩ := s
  dsimp only at hnested hindent hunfinished hunended hcursor hkeys hwaiting htoken
  subst hcursor hkeys hwaiting
  have hc : atToken (!keyAllowed) ⟨':' :: ' ' :: '*' :: (x ++ ['\n']), k.mark.skip 16⟩ =
      ⟨':' :: ' ' :: '*' :: (x ++ ['\n']), k.mark.skip 16⟩ := by
    simp [atToken, skipByteOrderMark, Cursor.skipWhile, Cursor.skipComment, Mark.skip]
  have hfresh : Scanner.freshKeys ⟨⟨':' :: ' ' :: '*' :: (x ++ ['\n']), k.mark.skip 16⟩, indent, outer, keyAllowed,
      [some k], released, V ++ [t], finished⟩ = [some k] := by
    simp [Scanner.freshKeys, isStale, mark, Mark.skip]
  refine (settle_of_atToken (s := ⟨⟨':' :: ' ' :: '*' :: (x ++ ['\n']), k.mark.skip 16⟩, indent, outer, keyAllowed,
    [some k], released, V ++ [t], finished⟩) hc rfl ?_).bind fun a ha => ?_
  · have : (0 : Int) ≤ (k.mark.skip 16).column := Int.natCast_nonneg _
    exact Int.le_trans hindent this
  subst ha
  dsimp only
  rw [hfresh, fetchHere_colon, fetchValue_of_key rfl]
  have hkeyed : (V ++ [t]).insertIdx (k.token - released) ⟨.key, k.mark, k.mark⟩ =
      V ++ [⟨.key, k.mark, k.mark⟩, t] := by
    rw [htoken, insertIdx_append]
  have hopened : (V ++ [⟨.key, k.mark, k.mark⟩, t]).insertIdx (k.token - released)
      ⟨.blockMappingStart, k.mark, k.mark⟩ =
      V ++ [⟨.blockMappingStart, k.mark, k.mark⟩, ⟨.key, k.mark, k.mark⟩, t] := by
    rw [htoken, insertIdx_append]
  have hunended' (us : List (Located Token)) {v : Located Token} (hus : ∀ u ∈ us, u.value ≠ .streamEnd)
      (hv : v.value ≠ .streamEnd) : ∀ u ∈ V ++ us ++ [v], u.value ≠ .streamEnd := by
    intro u hu
    rcases List.mem_append.mp hu with hu | hu
    · exact (List.mem_append.mp hu).elim (fun hu => hunended u (List.mem_append_left _ hu)) (hus u)
    · exact List.mem_singleton.mp hu ▸ hv
  have ht : t.value ≠ .streamEnd := hunended t (by simp)
  have hroot : Nested 0 [-1] := ⟨by decide, rfl⟩
  obtain ⟨rfl, rfl⟩ | ⟨rfl, rfl⟩ := hnested.of_nonpos hindent
  · have hopen : openBlock (withKey ⟨⟨':' :: ' ' :: '*' :: (x ++ ['\n']), k.mark.skip 16⟩, -1, [], keyAllowed, [some k],
        released, V ++ [t], finished⟩ k []) k.mark.column .blockMappingStart k.mark (some k.token) =
        ⟨⟨':' :: ' ' :: '*' :: (x ++ ['\n']), k.mark.skip 16⟩, 0, [-1], keyAllowed, [none], released,
          V ++ [⟨.blockMappingStart, k.mark, k.mark⟩, ⟨.key, k.mark, k.mark⟩, t], finished⟩ := by
      simp [openBlock, withKey, Scanner.inFlow, hcolumn, hkeyed, hopened]
    rw [hopen]
    refine ⟨⟨rfl, rfl, hroot, hunfinished, ?_⟩, rfl, rfl, _, List.append_assoc _ _ _, rfl, rfl⟩
    exact hunended' _ (by simp [ht]) (by simp)
  · have hopen : openBlock (withKey ⟨⟨':' :: ' ' :: '*' :: (x ++ ['\n']), k.mark.skip 16⟩, 0, [-1], keyAllowed,
        [some k], released, V ++ [t], finished⟩ k []) k.mark.column .blockMappingStart k.mark (some k.token) =
        ⟨⟨':' :: ' ' :: '*' :: (x ++ ['\n']), k.mark.skip 16⟩, 0, [-1], keyAllowed, [none], released,
          V ++ [⟨.key, k.mark, k.mark⟩, t], finished⟩ := by
      simp [openBlock, withKey, Scanner.inFlow, hcolumn, hkeyed]
    rw [hopen]
    refine ⟨⟨rfl, rfl, hroot, hunfinished, ?_⟩, rfl, rfl, _, List.append_assoc _ _ _, rfl, rfl⟩
    exact hunended' _ (by simp [ht]) (by simp)

theorem Settled.run_alias (h : s.Settled) (hallowed : s.keyAllowed = false)
    (hrest : s.cursor.rest = ' ' :: '*' :: (x ++ ['\n'])) (hx : x.all isNameChar = true) (hne : x ≠ [])
    (hrun : Completes (run n s).1) :
    ∃ us, (run n s).1 = s.waiting ++ us ∧ us.map (·.value) = [.alias (String.ofList x), .blockEnd, .streamEnd] := by
  obtain ⟨W₁, s₁, a₁, n₁, hw₁, ha₁, hrun₁⟩ := run_next h.unfinished h.unended hrun
  obtain ⟨hs₁, hcursor₁, hallowed₁, hwaiting₁⟩ := h.awaits hw₁
  rw [hrun₁] at hrun ⊢
  obtain ⟨hset₁, hrest₁, m, m', hpush₁⟩ :=
    (hs₁.fetch_alias (hallowed₁.trans hallowed) (hcursor₁ ▸ hrest) hx hne).of_eq_ok ha₁
  replace hrun := hrun.of_append fun t ht => h.unended t (hwaiting₁ ▸ List.mem_append_left _ ht)
  obtain ⟨W₂, s₂, a₂, n₂, hw₂, ha₂, hrun₂⟩ := run_next hset₁.unfinished hset₁.unended hrun
  obtain ⟨hs₂, hcursor₂, -, hwaiting₂⟩ := hset₁.awaits hw₂
  rw [hrun₂] at hrun ⊢
  obtain ⟨hfinished, e, hpush₂⟩ := (hs₂.fetch_end (hcursor₂ ▸ hrest₁)).of_eq_ok ha₂
  replace hrun := hrun.of_append fun t ht => hset₁.unended t (hwaiting₂ ▸ List.mem_append_left _ ht)
  have hend : a₂.waiting = (s₂.waiting ++ [⟨.blockEnd, e, e⟩]) ++ [⟨.streamEnd, e, e⟩] := by simp [hpush₂]
  have hbefore : ∀ t ∈ s₂.waiting ++ [⟨.blockEnd, e, e⟩], t.value ≠ .streamEnd := by
    intro t ht
    obtain ht | rfl := by simpa using ht
    · exact hs₂.unended t ht
    · exact nofun
  refine ⟨[⟨.alias (String.ofList x), m, m'⟩, ⟨.blockEnd, e, e⟩, ⟨.streamEnd, e, e⟩], ?_, rfl⟩
  rw [run_exhausted hfinished hend hbefore hrun, hpush₂, hwaiting₁, List.append_assoc, ← List.append_assoc W₂,
    ← hwaiting₂, hpush₁]
  simp

theorem fetch_colon_fails (hcursor : s.cursor = ⟨':' :: ' ' :: '*' :: (x ++ ['\n']), m.skip 16⟩)
    (hindent : s.indent ≤ 0) (hkeys : s.keys = [none]) (hallowed : s.keyAllowed = false) :
    Gives (fun _ => False) s.fetch := by
  obtain ⟨cursor, indent, outer, keyAllowed, keys, released, waiting, finished⟩ := s
  dsimp only at hindent hcursor hkeys hallowed
  subst hcursor hkeys hallowed
  have hc : atToken true ⟨':' :: ' ' :: '*' :: (x ++ ['\n']), m.skip 16⟩ =
      ⟨':' :: ' ' :: '*' :: (x ++ ['\n']), m.skip 16⟩ := by
    simp [atToken, skipByteOrderMark, Cursor.skipWhile, Cursor.skipComment, Mark.skip]
  refine (settle_of_atToken (s := ⟨⟨':' :: ' ' :: '*' :: (x ++ ['\n']), m.skip 16⟩, indent, outer, false,
    [none], released, waiting, finished⟩) hc rfl ?_).bind fun a ha => ?_
  · have : (0 : Int) ≤ (m.skip 16).column := Int.natCast_nonneg _
    exact Int.le_trans hindent this
  subst ha
  dsimp only
  rw [fetchHere_colon]
  exact trivial

theorem run_entry {W : List (Located Token)} {t : Located Token} (hnested : Nested s.indent s.outer)
    (hindent : s.indent ≤ 0) (hunfinished : s.finished = false) (hunended : ∀ t ∈ s.waiting, t.value ≠ .streamEnd)
    (hcursor : s.cursor = ⟨':' :: ' ' :: '*' :: (x ++ ['\n']), m.skip 16⟩) (hcolumn : m.column = 0)
    (hallowed : s.keyAllowed = false) (hwaiting : s.waiting = W ++ [t])
    (hkeys : s.keys = [none] ∨ ∃ r, s.keys = [some ⟨s.released + W.length, m, r⟩])
    (hx : x.all isNameChar = true) (hne : x ≠ []) (hrun : Completes (run n s).1) :
    ∃ us, (run n s).1 = W ++ us ∧ us.head?.map (·.start) = some m ∧ us.map (·.value) = opensRoot s.indent ++
      [.key, t.value, .value, .alias (String.ofList x), .blockEnd, .streamEnd] := by
  obtain ⟨W₁, s₁, a, n₁, hw, ha, hrun₁⟩ := run_next hunfinished hunended hrun
  obtain ⟨⟨V, keys, hsplit, hs₁, hfresh⟩, hheld⟩ := hw
  rw [hrun₁] at hrun ⊢
  obtain hnone | ⟨r, hkey⟩ := hkeys
  · have hkeys : keys = [none] := by
      obtain hfresh | ⟨-, hsame⟩ := hfresh
      · rw [hfresh, freshKeys, hnone]
        rfl
      · rw [hsame, hnone]
    subst hs₁
    exact ((fetch_colon_fails (s := { s with waiting := V, released := s.released + W₁.length, keys }) hcursor hindent
      hkeys hallowed).of_eq_ok ha).elim
  · have hkeys : keys = [some ⟨s.released + W.length, m, r⟩] := by
      obtain hfresh | ⟨-, hsame⟩ := hfresh
      · rw [hfresh, freshKeys, hkey, mark, hcursor]
        simp [isStale, Mark.skip]
      · rw [hsame, hkey]
    have hle : W₁.length ≤ W.length := by
      by_contra hlt
      exact hheld ⟨s.released + W.length, m, r⟩ (by simp [hs₁, hkeys]) W.length (by omega) rfl
    obtain ⟨V', rfl, rfl⟩ : ∃ V', W = W₁ ++ V' ∧ V = V' ++ [t] := by
      obtain ⟨V', rfl, hV⟩ | ⟨V', rfl, hV⟩ := List.append_eq_append_iff.mp (hwaiting.symm.trans hsplit)
      · obtain rfl : V' = [] := by
          rw [List.length_append] at hle
          exact List.length_eq_zero_iff.mp (by omega)
        exact ⟨[], by simp, by simpa using hV.symm⟩
      · exact ⟨V', rfl, hV⟩
    subst hs₁
    obtain ⟨hset, hallowed', hrest, us₁, hpush, hvalues, hstart⟩ := (fetch_colon
      (s := { s with waiting := V' ++ [t], released := s.released + W₁.length, keys }) hnested hindent hunfinished
      (fun t ht => hunended t (hsplit ▸ List.mem_append_right _ ht)) hcursor hcolumn hkeys rfl
      (by simp only [List.length_append]; omega)).of_eq_ok ha
    replace hrun := hrun.of_append fun t ht => hunended t (hsplit ▸ List.mem_append_left _ ht)
    obtain ⟨us₂, hus₂, hvalues₂⟩ := hset.run_alias hallowed' hrest hx hne hrun
    refine ⟨us₁ ++ us₂, ?_, ?_, ?_⟩
    · rw [hus₂, hpush]
      simp
    · cases us₁ with
      | nil => cases hstart
      | cons u us₁ => exact hstart
    · rw [List.map_append, hvalues, hvalues₂, List.append_assoc]
      rfl

/-! ## A text and the text with an entry behind it -/

theorem dropKey_length (s : Scanner) : Gives (fun a => a.keys.length = s.keys.length) s.dropKey := by
  unfold dropKey
  split
  next hs => exact .ite (fun _ => gives_failIn) fun _ => by simp [hs]
  · rfl

theorem closeBlocks_keys (s : Scanner) (column : Int) : (s.closeBlocks column).keys = s.keys := by
  unfold closeBlocks
  split <;> rfl

theorem fetchStreamEnd_length (s : Scanner) : Gives (fun a => a.keys.length = s.keys.length) s.fetchStreamEnd :=
  (dropKey_length _).bind fun _ ha => ha.trans (congrArg List.length (closeBlocks_keys _ _))

theorem Balanced.run_end (h : s.Balanced d) (hindent : s.inFlow = true ∨ s.indent ≤ 0) (ha : s.fetchStreamEnd = .ok a)
    (hrun : Completes (run n a).1) (hdepth : flowDepth d (run n a).1 = 0) :
    s.keys.length = 1 ∧ s.indent ≤ 0 ∧
      (run n a).1 =
        s.waiting ++ rootEnd s.indent (endMark s.mark) ++ [⟨.streamEnd, endMark s.mark, endMark s.mark⟩] := by
  obtain ⟨hfinished, hkeys, V, u, hwaiting, hu, hV⟩ := h.fetchStreamEnd.of_eq_ok ha
  have hall := run_exhausted hfinished hwaiting hV hrun
  rw [hall] at hdepth
  have hlength := (fetchStreamEnd_length s).of_eq_ok ha
  rw [hkeys, hdepth] at hlength
  have hflow : s.inFlow = false := by simp [inFlow, ← hlength]
  have hle : s.indent ≤ 0 := hindent.resolve_left (by rw [hflow]; exact Bool.false_ne_true)
  exact ⟨hlength.symm, hle, hall.trans ((fetchStreamEnd_waiting h.nested hflow hle).of_eq_ok ha).2⟩

theorem settle_nil (hnil : s.cursor.rest = []) (hindent : s.inFlow = true ∨ s.indent ≤ s.mark.column) :
    Gives (fun a => a = { s with keys := s.freshKeys }) s.settle := by
  refine settle_of_skip ?_ hindent
  rw [skipToToken_succ]
  dsimp only
  rw [atToken_eq _ (Or.inl hnil), hnil]
  rfl

theorem Awaits.keys_length (hw : Awaits s W s₁) : s₁.keys.length = s.keys.length := by
  obtain ⟨⟨V, keys, hsplit, rfl, hkeys⟩, -⟩ := hw
  obtain rfl | ⟨-, rfl⟩ := hkeys
  · exact List.length_map _
  · rfl

theorem Awaits.balanced (hw : Awaits s W s₁) (h : s.Balanced d) : s₁.Balanced (flowDepth d W) := by
  have hlength := hw.keys_length
  obtain ⟨⟨V, keys, hsplit, rfl, -⟩, -⟩ := hw
  refine ⟨h.nested, ?_, fun t ht => h.unended t (hsplit ▸ List.mem_append_right _ ht), h.unfinished⟩
  rw [hlength, h.keys, hsplit, flowDepth_append]

/-- A plain scalar that reaches the end of a text is its last token, if no flow collection is open there. -/
theorem Unclosed.run_end (hu : s.Unclosed) (h : s.Balanced d) (hrun : Completes (run n s).1)
    (hdepth : flowDepth d (run n s).1 = 0) :
    ∃ W t text e, (run n s).1 = W ++ [t, e] ∧ t.value = .scalar text true ∧ e.value = .streamEnd := by
  obtain ⟨W₁, s₁, a, n₁, hw, ha, hrun₁⟩ := run_next h.unfinished h.unended hrun
  have hb := hw.balanced h
  have hflow : s₁.inFlow = s.inFlow := by rw [inFlow, inFlow, hw.keys_length]
  obtain ⟨⟨V, keys, hsplit, hs₁, hkeys⟩, -⟩ := hw
  have hnil : s₁.cursor.rest = [] := by rw [hs₁]; exact hu.nil
  have hindent : s₁.inFlow = true ∨ s₁.indent < 0 := by
    rw [hflow, hs₁]
    exact hu.shallow
  obtain ⟨a', hset, ha⟩ := bind_ok ha
  have hplace : (0 : Int) ≤ s₁.mark.column := Int.natCast_nonneg _
  obtain rfl := (settle_nil hnil (hindent.imp_right fun hlt => by omega)).of_eq_ok hset
  rw [hrun₁] at hrun hdepth ⊢
  replace hrun := hrun.of_append fun t ht => h.unended t (hsplit ▸ List.mem_append_left _ ht)
  rw [flowDepth_append] at hdepth
  dsimp only at ha
  rw [hnil] at ha
  have hfresh : inFlow { s₁ with keys := s₁.freshKeys } = s₁.inFlow := by simp [inFlow, freshKeys]
  obtain ⟨hkeys, -, hend⟩ := Balanced.run_end (hb.settle.of_eq_ok hset)
    (by rw [hfresh]; exact hindent.imp_right Int.le_of_lt) ha hrun hdepth
  have hclosed : s₁.inFlow = false := by
    rw [← hfresh, inFlow, hkeys]
    rfl
  have hshallow : s₁.indent < 0 := hindent.resolve_left (by rw [hclosed]; exact Bool.false_ne_true)
  obtain ⟨ts, t, text, hlast, htext⟩ := hu.last
  refine ⟨ts, t, text, ⟨.streamEnd, endMark s₁.mark, endMark s₁.mark⟩, ?_, htext, rfl⟩
  rw [hend]
  dsimp only
  rw [rootEnd, if_neg (Int.ne_of_lt hshallow), List.append_nil, ← List.append_assoc, hs₁, ← hsplit, hlast,
    List.append_assoc]
  rfl

/-- The tokens of a text and those of the text with an entry behind it part at the end of the text: the entry goes on
with the block of the root, or begins another one. A plain scalar may go on with the entry as well. -/
inductive Parts (x : List Char) (ts ts' : List (Located Token)) : Prop
  /-- The entry belongs to the block of the root. -/
  | entry {W : List (Located Token)} {t e u : Located Token} {us : List (Located Token)}
      (hts : ts = W ++ [t, e]) (hts' : ts' = W ++ u :: us) (hstart : t.start = u.start) (ht : t.value = .blockEnd)
      (he : e.value = .streamEnd) (hus : (u :: us).map (·.value) =
        [.key, .scalar Anchor.sentinel true, .value, .alias (String.ofList x), .blockEnd, .streamEnd])
  /-- The entry opens a block. -/
  | block {W : List (Located Token)} {e u : Located Token} {us : List (Located Token)}
      (hts : ts = W ++ [e]) (hts' : ts' = W ++ u :: us) (hstart : e.start = u.start) (he : e.value = .streamEnd)
      (hu : u.value = .blockMappingStart)
  /-- A plain scalar comes last. -/
  | plain {W : List (Located Token)} {t e : Located Token} {text : String} (hts : ts = W ++ [t, e])
      (ht : t.value = .scalar text true) (he : e.value = .streamEnd)

theorem Parts.cons {ts ts' : List (Located Token)} (h : Parts x ts ts') (t : Located Token) :
    Parts x (t :: ts) (t :: ts') := by
  cases h with
  | @entry W _ _ _ _ hts hts' hstart ht he hus =>
    exact .entry (W := t :: W) (by rw [hts]; rfl) (by rw [hts']; rfl) hstart ht he hus
  | @block W _ _ _ hts hts' hstart he hu =>
    exact .block (W := t :: W) (by rw [hts]; rfl) (by rw [hts']; rfl) hstart he hu
  | @plain W _ _ _ hts ht he => exact .plain (W := t :: W) (by rw [hts]; rfl) ht he

theorem Balanced.parts (h : s.Balanced d) (hplaced : s.Placed) (hnil : s.cursor.rest = [])
    (hindent : s.inFlow = true ∨ s.indent ≤ 0) (hx : x.all isNameChar = true) (hne : x ≠ []) {n' : Nat}
    (ha : s.fetchStreamEnd = .ok a) (hb : (s.append (entryText x)).fetchPlain = .ok b)
    (hrun : Completes (run n a).1) (hrun' : Completes (run n' b).1) (hdepth : flowDepth d (run n a).1 = 0) :
    Parts x (run n a).1 (run n' b).1 := by
  obtain ⟨hkeys, hle, hend⟩ := h.run_end hindent ha hrun hdepth
  have hcolumn : s.cursor.mark.column = 0 := (hplaced.resolve_left fun hline => hline.ne_nil hnil).2.1
  have hcursor : (s.append (entryText x)).cursor = ⟨entryText x, s.mark⟩ := by
    rw [append_cursor, Cursor.append, hnil]
    rfl
  obtain ⟨keys, rfl, hkey⟩ := (fetchPlain_entry hcursor hkeys).of_eq_ok hb
  have hcandidate : keys = [none] ∨ ∃ r, keys = [some ⟨s.released + s.waiting.length, s.mark, r⟩] := by
    refine hkey.imp_left fun hkept => ?_
    obtain ⟨hallowed, hsame⟩ := hkept
    obtain ⟨k, hk⟩ := List.length_eq_one_iff.mp hkeys
    have hnone : s.NoKey := by
      obtain ⟨-, -, hflow | hallowed' | hnone⟩ := hplaced.resolve_left fun hline => hline.ne_nil hnil
      · simp [inFlow, hkeys] at hflow
      · cases hallowed.symm.trans hallowed'
      · exact hnone
    cases k with
    | none => exact hsame.trans hk
    | some k => exact absurd hk (hnone k [])
  have hunended : ∀ t ∈ s.waiting ++ [(⟨.scalar Anchor.sentinel true, s.mark, s.mark.skip 16⟩ : Located Token)],
      t.value ≠ .streamEnd := by
    intro t ht
    obtain ht | rfl := by simpa using ht
    · exact h.unended t ht
    · simp
  obtain ⟨us, hus, hstart, hvalues⟩ := run_entry (s := { s with
      cursor := ⟨':' :: ' ' :: '*' :: (x ++ ['\n']), s.mark.skip 16⟩
      waiting := s.waiting ++ [⟨.scalar Anchor.sentinel true, s.mark, s.mark.skip 16⟩]
      keyAllowed := false
      keys }) h.nested hle h.unfinished hunended rfl hcolumn rfl rfl hcandidate hx hne hrun'
  have hmark : endMark s.mark = s.mark := if_pos hcolumn
  rw [hmark] at hend
  obtain _ | ⟨u, us⟩ := us
  · cases hstart
  have hu : s.mark = u.start := (Option.some.inj hstart).symm
  obtain ⟨hroot, -⟩ | ⟨hroot, -⟩ := h.nested.of_nonpos hle
  · rw [rootEnd, if_neg (by rw [hroot]; decide), List.append_nil] at hend
    dsimp only at hvalues
    rw [opensRoot, if_neg (by rw [hroot]; decide)] at hvalues
    exact .block hend hus hu rfl (List.cons.inj hvalues).1
  · rw [rootEnd, if_pos hroot, List.append_assoc] at hend
    dsimp only at hvalues
    rw [opensRoot, if_pos hroot] at hvalues
    exact .entry hend hus hu rfl rfl hvalues

theorem Balanced.settle_indent (h : s.Balanced d) :
    Gives (fun a => a.inFlow = true ∨ a.indent ≤ a.mark.column) s.settle := by
  refine ((h.skipToToken _).dropStaleKeys).bind fun a ha => ?_
  have hkeys := closeBlocks_keys a a.mark.column
  have hmark : (a.closeBlocks a.mark.column).mark = a.mark := by rw [mark, (closeBlocks_prepares _ _).cursor, mark]
  cases hflow : a.inFlow with
  | true => exact Or.inl (by rw [inFlow, hkeys]; exact hflow)
  | false =>
    refine Or.inr ?_
    rw [hmark]
    have hplace : (0 : Int) ≤ a.mark.column := Int.natCast_nonneg _
    exact closeBlocks_indent_le ha.nested hflow (by omega)

theorem Balanced.parts_fetch (h : s.Balanced d) (hplaced : s.Placed) (hx : x.all isNameChar = true) (hne : x ≠ [])
    {n' : Nat} (ha : s.fetch = .ok a) (hb : (s.append (entryText x)).fetch = .ok b)
    (hrun : Completes (run n a).1) (hrun' : Completes (run n' b).1) (hdepth : flowDepth d (run n a).1 = 0)
    (ih : b = a.append (entryText x) → a.Placed → a.Balanced d → Parts x (run n a).1 (run n' b).1) :
    Parts x (run n a).1 (run n' b).1 := by
  obtain ⟨s₁, hs₁, ha⟩ := bind_ok ha
  obtain ⟨s₁', hs₁', hb⟩ := bind_ok hb
  have hsettle := @both_settle (entryText x).tail s hplaced
  rw [← entryText_eq] at hsettle
  obtain ⟨rfl, hplaced₁⟩ := hsettle s₁ s₁' hs₁ hs₁'
  have hbalanced := h.settle.of_eq_ok hs₁
  cases hrest : s₁.cursor.rest with
  | nil =>
    have hcolumn : s₁.mark.column = 0 := (hplaced₁.resolve_left fun hline => hline.ne_nil hrest).2.1
    have hindent := h.settle_indent.of_eq_ok hs₁
    rw [hcolumn] at hindent
    rw [hrest] at ha
    have hthere : (s₁.append (entryText x)).cursor.rest = '_' :: (entryText x).tail := by
      rw [append_cursor, append_rest, hrest, List.nil_append, ← entryText_eq]
    rw [hthere] at hb
    dsimp only at hb
    rw [fetchHere_underscore] at hb
    exact hbalanced.parts hplaced₁ hrest hindent hx hne ha hb hrun hrun' hdepth
  | cons c cs =>
    have hline : EndsLine (c :: cs) := hrest ▸ hplaced₁.endsLine (by simp [hrest])
    rw [hrest] at ha
    have hthere : (s₁.append (entryText x)).cursor.rest = c :: (cs ++ entryText x) := by
      rw [append_cursor, append_rest, hrest, List.cons_append]
    rw [hthere] at hb
    have hnext := (hbalanced.fetchHere c cs).of_eq_ok ha
    obtain ⟨rfl, hplaced'⟩ | hunclosed := both_fetchHere (entryText_begins x) hrest hline a b ha hb
    · exact ih rfl hplaced' hnext
    · obtain ⟨W, t, text, e, hts, ht, he⟩ := hunclosed.run_end hnext hrun hdepth
      exact .plain hts ht he

theorem Balanced.parts_run {n' : Nat} (h : s.Balanced d) (hplaced : s.Placed) (hx : x.all isNameChar = true)
    (hne : x ≠ []) (hrun : Completes (run n s).1) (hrun' : Completes (run n' (s.append (entryText x))).1)
    (hdepth : flowDepth d (run n s).1 = 0) : Parts x (run n s).1 (run n' (s.append (entryText x))).1 := by
  induction n generalizing s n' d with
  | zero => exact absurd hrun not_completes_nil
  | succ n ih =>
    obtain ⟨n', rfl⟩ := hrun'.fuel
    have hfirst' := run_first hrun'
    cases run_first hrun with
    | @fetch a hwaiting hfinished ha hstep =>
      cases hfirst' with
      | @fetch b _ _ hb hstep' =>
        rw [hstep] at hrun hdepth ⊢
        rw [hstep'] at hrun' ⊢
        exact h.parts_fetch hplaced hx hne ha hb hrun hrun' hdepth fun hsame hplaced' hbalanced => by
          subst hsame
          exact ih hbalanced hplaced' hrun hrun' hdepth
      | fetchKey hcons => cases hwaiting.symm.trans hcons
      | release hcons => cases hwaiting.symm.trans hcons
    | @fetchKey t ts s₁ a hwaiting hs₁ hkey hfinished ha hstep =>
      have hbalanced := h.dropStaleKeys.of_eq_ok hs₁
      have hplaced₁ := hplaced.stays ((dropStaleKeys_stays s).of_eq_ok hs₁)
      cases hfirst' with
      | fetch hnil => cases hnil.symm.trans hwaiting
      | @fetchKey _ _ s₁' b _ hs₁' _ _ hb hstep' =>
        obtain rfl := both_dropStaleKeys s _ s₁ s₁' hs₁ hs₁'
        rw [hstep] at hrun hdepth ⊢
        rw [hstep'] at hrun' ⊢
        exact hbalanced.parts_fetch hplaced₁ hx hne ha hb hrun hrun' hdepth fun hsame hplaced' hbalanced' => by
          subst hsame
          exact ih hbalanced' hplaced' hrun hrun' hdepth
      | @release _ _ s₁' _ hs₁' hkey' =>
        obtain rfl := both_dropStaleKeys s _ s₁ s₁' hs₁ hs₁'
        change (s₁.firstMayBeKey && !s₁.finished) = false at hkey'
        simp [hkey, hfinished] at hkey'
    | @release t ts s₁ hwaiting hs₁ hkey hstep =>
      have hbalanced := h.dropStaleKeys.of_eq_ok hs₁
      have hplaced₁ := hplaced.stays ((dropStaleKeys_stays s).of_eq_ok hs₁)
      cases hfirst' with
      | fetch hnil => cases hnil.symm.trans hwaiting
      | @fetchKey _ _ s₁' b _ hs₁' hkey' hfinished' _ _ =>
        obtain rfl := both_dropStaleKeys s _ s₁ s₁' hs₁ hs₁'
        change s₁.firstMayBeKey = true at hkey'
        change s₁.finished = false at hfinished'
        simp [hkey', hfinished'] at hkey
      | @release t' ts' s₁' hwaiting' hs₁' _ hstep' =>
        obtain rfl := both_dropStaleKeys s _ s₁ s₁' hs₁ hs₁'
        obtain ⟨rfl, rfl⟩ := List.cons.inj (hwaiting.symm.trans hwaiting')
        have hwaiting₁ : s₁.waiting = t :: ts := by
          rw [(dropStaleKeys_eq.of_eq_ok hs₁ : s₁ = _)]
          exact hwaiting
        have ht : t.value ≠ .streamEnd := hbalanced.unended t (by simp [hwaiting₁])
        have hreleased : Balanced (t.value.depthAfter d) (s₁.releaseTo ts) := by
          refine ⟨hbalanced.nested, ?_, fun u hu => hbalanced.unended u (by simp [hwaiting₁, show u ∈ ts from hu]),
            hbalanced.unfinished⟩
          have hkeys := hbalanced.keys
          rw [hwaiting₁, flowDepth_cons] at hkeys
          exact hkeys
        rw [hstep] at hrun hdepth ⊢
        rw [hstep'] at hrun' ⊢
        have hplaced' : (s₁.releaseTo ts).Placed := hplaced₁
        exact (ih hreleased hplaced' (hrun.of_cons ht) (hrun'.of_cons ht) hdepth).cons t

end Scanner

end YamlInclude.Yaml
