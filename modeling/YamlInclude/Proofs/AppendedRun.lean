import YamlInclude.Proofs.AppendedTokens
import YamlInclude.Proofs.FlowDepth

/-! # Runs of a scanner to the end of a text

What a run does first if it comes to the end of the text, and which tokens it releases before it reads on. At the end
of the text the blocks are closed, of which one at most is open at the indentation of a root.
-/

namespace YamlInclude.Yaml

theorem Completes.fuel {n : Nat} {s : Scanner} (h : Completes (s.run n).1) : ∃ m, n = m + 1 := by
  cases n with
  | zero => exact absurd h not_completes_nil
  | succ m => exact ⟨m, rfl⟩

namespace Scanner

variable {s s₁ a b : Scanner} {d n : Nat} {i : Int} {js : List Int} {V : List (Located Token)} {u : Located Token}

theorem Nested.neg_one_le (h : Nested i js) : -1 ≤ i := by
  induction js generalizing i with
  | nil => exact Int.le_of_eq h.symm
  | cons j js ih =>
    have := ih h.2
    have := h.1
    omega

theorem Nested.of_nonpos (h : Nested i js) (hi : i ≤ 0) : i = -1 ∧ js = [] ∨ i = 0 ∧ js = [-1] := by
  cases js with
  | nil => exact Or.inl ⟨h, rfl⟩
  | cons j js =>
    obtain ⟨hlt, hnested⟩ := h
    have hj := hnested.neg_one_le
    obtain rfl : j = -1 := by omega
    obtain rfl : i = 0 := by omega
    cases js with
    | nil => exact Or.inr ⟨rfl, rfl⟩
    | cons k js =>
      have := hnested.1
      have := hnested.2.neg_one_le
      omega

theorem closeBlocks_of_le {column : Int} (h : s.indent ≤ column) : s.closeBlocks column = s := by
  obtain ⟨cursor, indent, outer, keyAllowed, keys, released, waiting, finished⟩ := s
  unfold closeBlocks
  split
  · rfl
  · cases outer with
    | nil => rfl
    | cons i is =>
      unfold closeBlocks.go
      rw [if_neg (Int.not_lt.mpr h)]

theorem closeBlocks_indent_le (h : Nested s.indent s.outer) (hflow : s.inFlow = false) {column : Int}
    (hcolumn : -1 ≤ column) : (s.closeBlocks column).indent ≤ column := by
  have hgo (indent : Int) (outer : List Int) (waiting : List (Located Token)) (h : Nested indent outer) :
      (closeBlocks.go s column indent outer waiting).1 ≤ column := by
    induction outer generalizing indent waiting with
    | nil =>
      obtain rfl : indent = -1 := h
      exact hcolumn
    | cons i is ih =>
      unfold closeBlocks.go
      split
      · exact ih _ _ h.2
      next hle => exact Int.not_lt.mp hle
  unfold closeBlocks
  rw [hflow]
  exact hgo _ _ _ h

/-! ## The end of a text -/

theorem dropKey_waiting (s : Scanner) : Gives (fun a => a.waiting = s.waiting ∧ a.mark = s.mark) s.dropKey := by
  unfold dropKey
  split
  · exact .ite (fun _ => gives_failIn) fun _ => ⟨rfl, rfl⟩
  · exact ⟨rfl, rfl⟩

structure Exhausted (d : Nat) (s : Scanner) : Prop where
  finished : s.finished = true
  keys : s.keys.length = flowDepth d s.waiting + 1
  ended : ∃ V u, s.waiting = V ++ [u] ∧ u.value = .streamEnd ∧ ∀ t ∈ V, t.value ≠ .streamEnd

theorem Balanced.fetchStreamEnd (h : s.Balanced d) : Gives (Exhausted d) s.fetchStreamEnd := by
  have hmoved : Balanced d { s with cursor := ⟨[], if s.mark.column = 0 then s.mark
      else ⟨s.mark.index, s.mark.line + 1, 0⟩⟩ } := { h with }
  refine (hmoved.closeBlocks _).dropKey.bind fun a ha => ⟨rfl, ?_, _, _, rfl, rfl, ha.unended⟩
  simpa [pushHere, Scanner.push, Token.depthAfter] using ha.keys

/-- The token that closes the block of the root, if one is open. -/
def rootEnd (indent : Int) (m : Mark) : List (Located Token) := if indent = 0 then [⟨.blockEnd, m, m⟩] else []

/-- The place that the end of a text is given: the beginning of a line. -/
def endMark (m : Mark) : Mark := if m.column = 0 then m else ⟨m.index, m.line + 1, 0⟩

theorem fetchStreamEnd_waiting (h : Nested s.indent s.outer) (hflow : s.inFlow = false) (hindent : s.indent ≤ 0) :
    Gives (fun a => a.finished = true ∧ a.waiting =
      s.waiting ++ rootEnd s.indent (endMark s.mark) ++ [⟨.streamEnd, endMark s.mark, endMark s.mark⟩])
      s.fetchStreamEnd := by
  have hclosed : (closeBlocks { s with cursor := ⟨[], endMark s.mark⟩ } (-1)).waiting =
      s.waiting ++ rootEnd s.indent (endMark s.mark) := by
    have hflow' : inFlow { s with cursor := ⟨[], endMark s.mark⟩ } = false := hflow
    unfold closeBlocks
    rw [hflow']
    obtain ⟨hi, ho⟩ | ⟨hi, ho⟩ := h.of_nonpos hindent
    · simp [hi, ho, closeBlocks.go, rootEnd]
    · simp [hi, ho, closeBlocks.go, rootEnd, mark]
  have hplace : (closeBlocks { s with cursor := ⟨[], endMark s.mark⟩ } (-1)).mark = endMark s.mark := by
    rw [mark, (closeBlocks_prepares _ _).cursor]
  refine (dropKey_waiting _).bind fun a ha => ⟨rfl, ?_⟩
  obtain ⟨hwaiting, hmark⟩ := ha
  change a.waiting ++ [⟨.streamEnd, a.mark, a.mark⟩] = _
  rw [hwaiting, hmark]
  exact congr (congrArg _ hclosed) (by rw [← hplace]; rfl)

/-! ## Runs -/

def releaseTo (s : Scanner) (ts : List (Located Token)) : Scanner :=
  { s with waiting := ts, released := s.released + 1 }

/-- What a run does first if it comes to the end of the text. -/
inductive First (n : Nat) (s : Scanner) : Prop
  /-- It reads on, as no token waits. -/
  | fetch {a : Scanner} (hwaiting : s.waiting = []) (hfinished : s.finished = false) (ha : s.fetch = .ok a)
      (hrun : (run (n + 1) s).1 = (run n a).1)
  /-- It reads on, as the first token may be a key. -/
  | fetchKey {t : Located Token} {ts : List (Located Token)} {s₁ a : Scanner} (hwaiting : s.waiting = t :: ts)
      (hs₁ : s.dropStaleKeys = .ok s₁) (hkey : s₁.firstMayBeKey = true) (hfinished : s₁.finished = false)
      (ha : s₁.fetch = .ok a) (hrun : (run (n + 1) s).1 = (run n a).1)
  /-- It releases the first token. -/
  | release {t : Located Token} {ts : List (Located Token)} {s₁ : Scanner} (hwaiting : s.waiting = t :: ts)
      (hs₁ : s.dropStaleKeys = .ok s₁) (hkey : (s₁.firstMayBeKey && !s₁.finished) = false)
      (hrun : (run (n + 1) s).1 = t :: (run n (s₁.releaseTo ts)).1)

theorem run_first (h : Completes (run (n + 1) s).1) : First n s := by
  cases hwaiting : s.waiting with
  | nil =>
    cases hfinished : s.finished with
    | true => simp [run, hwaiting, hfinished, not_completes_nil] at h
    | false =>
      cases ha : s.fetch with
      | error e => simp [run, hwaiting, hfinished, ha, not_completes_nil] at h
      | ok a => exact .fetch hwaiting hfinished ha (by simp [run, hwaiting, hfinished, ha])
  | cons t ts =>
    cases hs₁ : s.dropStaleKeys with
    | error e => simp [run, hwaiting, hs₁, not_completes_nil] at h
    | ok s₁ =>
      cases hkey : s₁.firstMayBeKey && !s₁.finished with
      | false => exact .release hwaiting hs₁ hkey (by simp [run, hwaiting, hs₁, hkey, releaseTo])
      | true =>
        obtain ⟨hfirst, hfinished⟩ := Bool.and_eq_true_iff.mp hkey
        cases ha : s₁.fetch with
        | error e => simp [run, hwaiting, hs₁, hkey, ha, not_completes_nil] at h
        | ok a =>
          exact .fetchKey hwaiting hs₁ hfirst (by simpa using hfinished) ha (by simp [run, hwaiting, hs₁, hkey, ha])

theorem run_exhausted (hfinished : s.finished = true) (hwaiting : s.waiting = V ++ [u])
    (hV : ∀ t ∈ V, t.value ≠ .streamEnd) (hrun : Completes (run n s).1) : (run n s).1 = s.waiting := by
  induction V generalizing s n with
  | nil =>
    obtain ⟨m, rfl⟩ := hrun.fuel
    cases run_first hrun with
    | fetch hnil => simp [hnil] at hwaiting
    | fetchKey _ hs₁ _ hunfinished =>
      simp [(s.dropStaleKeys_prepares.of_eq_ok hs₁).finished, hfinished] at hunfinished
    | @release t ts s₁ hcons hs₁ _ hstep =>
      obtain ⟨rfl, rfl⟩ := List.cons.inj (hcons.symm.trans hwaiting)
      have hdone : (s₁.releaseTo []).finished = true :=
        (s.dropStaleKeys_prepares.of_eq_ok hs₁).finished.trans hfinished
      rw [hstep, hwaiting, run_of_finished m hdone rfl]
      rfl
  | cons t V ih =>
    obtain ⟨ht, hrest⟩ := List.forall_mem_cons.mp hV
    obtain ⟨m, rfl⟩ := hrun.fuel
    cases run_first hrun with
    | fetch hnil => simp [hnil] at hwaiting
    | fetchKey _ hs₁ _ hunfinished =>
      simp [(s.dropStaleKeys_prepares.of_eq_ok hs₁).finished, hfinished] at hunfinished
    | @release _ _ s₁ hcons hs₁ _ hstep =>
      obtain ⟨rfl, rfl⟩ := List.cons.inj (hcons.symm.trans hwaiting)
      rw [hstep] at hrun ⊢
      have hdone : (s₁.releaseTo (V ++ [u])).finished = true :=
        (s.dropStaleKeys_prepares.of_eq_ok hs₁).finished.trans hfinished
      rw [hwaiting]
      exact congrArg _ (ih hdone rfl hrest (hrun.of_cons ht))

def freshKeys (s : Scanner) : List (Option KeyCandidate) :=
  s.keys.map fun k => if k.any (isStale s.mark) then none else k

theorem dropStaleKeys_eq : Gives (fun a => a = { s with keys := s.freshKeys }) s.dropStaleKeys := by
  unfold dropStaleKeys
  dsimp only
  split
  · exact gives_failIn
  · rfl

theorem freshKeys_freshKeys (hmark : s₁.mark = s.mark) (hkeys : s₁.keys = s.freshKeys) :
    s₁.freshKeys = s.freshKeys := by
  unfold freshKeys at hkeys ⊢
  rw [hmark, hkeys, List.map_map]
  refine List.map_congr_left fun k _ => ?_
  simp only [Function.comp_apply]
  split
  · rfl
  · rfl

/-- The scanner after some tokens were released, which is about to read the next one. -/
structure Awaits (s : Scanner) (W : List (Located Token)) (s₁ : Scanner) : Prop where
  eq : ∃ V keys, s.waiting = W ++ V ∧
    s₁ = { s with waiting := V, released := s.released + W.length, keys } ∧
    (keys = s.freshKeys ∨ W = [] ∧ keys = s.keys)
  held : ∀ k, some k ∈ s₁.keys → ∀ i < W.length, k.token ≠ s.released + i

theorem run_next (hfinished : s.finished = false) (hunended : ∀ t ∈ s.waiting, t.value ≠ .streamEnd)
    (hrun : Completes (run n s).1) :
    ∃ W s₁ a m, Awaits s W s₁ ∧ s₁.fetch = .ok a ∧ (run n s).1 = W ++ (run m a).1 := by
  induction n generalizing s with
  | zero => exact absurd hrun not_completes_nil
  | succ n ih =>
    cases run_first hrun with
    | @fetch a hnil _ ha hstep =>
      exact ⟨[], s, a, n, ⟨⟨s.waiting, s.keys, rfl, rfl, Or.inr ⟨rfl, rfl⟩⟩, fun _ _ _ hi => nomatch hi⟩, ha, hstep⟩
    | @fetchKey t ts s₁ a hcons hs₁ _ _ ha hstep =>
      obtain rfl := dropStaleKeys_eq.of_eq_ok hs₁
      exact ⟨[], _, a, n, ⟨⟨s.waiting, _, rfl, rfl, Or.inl rfl⟩, fun _ _ _ hi => nomatch hi⟩, ha, hstep⟩
    | @release t ts s₁ hcons hs₁ hkey hstep =>
      obtain rfl := dropStaleKeys_eq.of_eq_ok hs₁
      rw [hcons] at hunended
      obtain ⟨ht, hts⟩ := List.forall_mem_cons.mp hunended
      rw [hstep] at hrun
      obtain ⟨W, s₂, a, m, ⟨⟨V, keys, hwaiting, rfl, hkeys⟩, hheld⟩, ha, hnext⟩ :=
        ih (s := releaseTo { s with keys := s.freshKeys } ts) hfinished hts (hrun.of_cons ht)
      have hfresh : keys = s.freshKeys :=
        hkeys.elim (fun h => h.trans (freshKeys_freshKeys rfl rfl)) fun h => h.2
      have hreleased : s.released + (t :: W).length = s.released + 1 + W.length := by
        rw [List.length_cons]
        omega
      refine ⟨t :: W, _, a, m, ⟨⟨V, keys, ?_, rfl, Or.inl hfresh⟩, fun k hk i hi => ?_⟩, ?_, ?_⟩
      · rw [hcons, List.cons_append]
        exact congrArg _ hwaiting
      · obtain _ | i := i
        · have hfirst : firstMayBeKey { s with keys := s.freshKeys } = false := by simpa [hfinished] using hkey
          have hnone := List.any_eq_false.mp hfirst (some k) (hfresh ▸ hk)
          simpa using hnone
        · have := hheld k hk i (Nat.lt_of_succ_lt_succ hi)
          simp only [releaseTo] at this
          omega
      · rw [hreleased]
        exact ha
      · rw [hstep, hnext, List.cons_append]

end Scanner

end YamlInclude.Yaml
