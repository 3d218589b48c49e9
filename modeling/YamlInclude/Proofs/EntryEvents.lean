import YamlInclude.Proofs.EntryTokens
import YamlInclude.Proofs.ForkedEvents
import YamlInclude.Proofs.AnchorScan

/-! # Events of a text with an entry behind it

A text is read as a block mapping at the left edge, and an entry with an alias stands behind it. Where the events of the
longer text come to its end, they are those of the text with a scalar and an alias before the mapping ends.
-/

namespace YamlInclude.Yaml

variable {text x : List Char}

theorem tokens_of_completes (h : Completes (tokens text).1) :
    (tokens text).1 = (Scanner.run (8 * text.length + 16) (Scanner.start text)).1 := by
  unfold tokens at h ⊢
  split at h
  · exact absurd h not_completes_nil
  · rfl

/-- The tokens of a text that ends with a line break, and those of the text with an entry behind it. -/
theorem parts_tokens (htext : EndsLine text) (hx : x.all isNameChar = true) (hne : x ≠ [])
    (hrun : Completes (tokens text).1) (hrun' : Completes (tokens (text ++ entryText x)).1)
    (hdepth : flowDepth 0 (tokens text).1 = 0) :
    Scanner.Parts x (tokens text).1 (tokens (text ++ entryText x)).1 := by
  have htokens := tokens_of_completes hrun
  have htokens' := tokens_of_completes hrun'
  rw [htokens] at hrun hdepth ⊢
  rw [htokens'] at hrun' ⊢
  have hbalanced : (Scanner.start text).Balanced 0 := ⟨rfl, rfl, nofun, rfl⟩
  exact hbalanced.parts_run (Or.inl htext) hx hne hrun hrun' hdepth

theorem eq_of_append_cons_eq {α : Type} {xs xs' ys ys' : List α} {y : α} (h : xs ++ y :: ys = xs' ++ y :: ys')
    (hys : y ∉ ys) (hys' : y ∉ ys') : xs = xs' ∧ ys = ys' := by
  obtain ⟨as, has, htail⟩ | ⟨as, has, htail⟩ := List.append_eq_append_iff.mp h
  · cases as with
    | nil => exact ⟨by simpa using has.symm, (List.cons.inj htail).2⟩
    | cons a as =>
      rw [(List.cons.inj htail).2] at hys
      simp at hys
  · cases as with
    | nil => exact ⟨by simpa using has, (List.cons.inj htail).2.symm⟩
    | cons a as =>
      rw [(List.cons.inj htail).2] at hys'
      simp at hys'

namespace Grammar

variable {g : Grammar} {t u e : Located Token} {us : List (Located Token)} {f f' : Option SyntaxError}

theorem run_of_step {n : Nat} {m : Marked} {g' : Grammar} (hstep : g.step = .ok (m, g')) (hend : Reaches (run n g).1) :
    ∃ k, (run n g).1 = m :: (run k g').1 := by
  obtain ⟨k, r, -, hr, hrun⟩ := run_of_reaches hend
  obtain rfl := Except.ok.inj (hstep.symm.trans hr)
  exact ⟨k, hrun⟩

/-- The events of an entry that goes on a block mapping, up to the end of the text. -/
theorem run_entry {n : Nat} {b : Marked × Grammar} {opened : Mark} (hvalues : us.map (·.value) =
      [.key, .scalar Anchor.sentinel true, .value, .alias (String.ofList x), .blockEnd, .streamEnd])
    (hstate : g.pop.state = .documentEnd) (hb : (g.withTokens us f).blockKey opened = .ok b)
    (hend : Reaches (b.1 :: (run n b.2).1)) :
    (b.1 :: (run n b.2).1).map (·.event) = [.scalar .none Anchor.sentinel true, .alias (String.ofList x), .mappingEnd,
      .documentEnd, .streamEnd] := by
  simp only [List.map_eq_cons_iff, List.map_eq_nil_iff] at hvalues
  obtain ⟨⟨_, s₁, e₁⟩, _, rfl, rfl, ⟨_, s₂, e₂⟩, _, rfl, rfl, ⟨_, s₃, e₃⟩, _, rfl, rfl, ⟨_, s₄, e₄⟩, _, rfl, rfl,
    ⟨_, s₅, e₅⟩, _, rfl, rfl, ⟨_, s₆, e₆⟩, _, rfl, rfl, rfl⟩ := hvalues
  obtain rfl : b = (⟨.scalar .none Anchor.sentinel true, s₂⟩, (g.expect (.blockValue opened)).withTokens
      [⟨.value, s₃, e₃⟩, ⟨.alias (String.ofList x), s₄, e₄⟩, ⟨.blockEnd, s₅, e₅⟩, ⟨.streamEnd, s₆, e₆⟩] f) :=
    (Except.ok.inj hb).symm
  have halias : ((g.expect (.blockValue opened)).withTokens [⟨.value, s₃, e₃⟩, ⟨.alias (String.ofList x), s₄, e₄⟩,
      ⟨.blockEnd, s₅, e₅⟩, ⟨.streamEnd, s₆, e₆⟩] f).step = .ok (⟨.alias (String.ofList x), s₄⟩,
        (g.expect (.blockKey opened)).withTokens [⟨.blockEnd, s₅, e₅⟩, ⟨.streamEnd, s₆, e₆⟩] f) := rfl
  have hclose : ((g.expect (.blockKey opened)).withTokens [⟨.blockEnd, s₅, e₅⟩, ⟨.streamEnd, s₆, e₆⟩] f).step =
      .ok (⟨.mappingEnd, s₅⟩, g.pop.withTokens [⟨.streamEnd, s₆, e₆⟩] f) := by
    have hpop : (g.expect (.blockKey opened)).pop = g.pop := by
      unfold pop
      exact rfl
    rw [← hpop, ← withTokens_pop]
    rfl
  have hdocument : (g.pop.withTokens [⟨.streamEnd, s₆, e₆⟩] f).step = .ok (⟨.documentEnd, s₆⟩,
      withTokens { g.pop with handles := [], state := .documentStart false } [⟨.streamEnd, s₆, e₆⟩] f) := by
    unfold step
    rw [show (g.pop.withTokens [⟨.streamEnd, s₆, e₆⟩] f).state = .documentEnd from hstate]
    rfl
  have hstream :
      (withTokens { g.pop with handles := [], state := .documentStart false } [⟨.streamEnd, s₆, e₆⟩] f).step =
      .ok (⟨.streamEnd, s₆⟩, withTokens { g.pop with handles := [], state := .documentStart false } [] none) := rfl
  replace hend := hend.of_cons nofun
  obtain ⟨n, h₁⟩ := run_of_step halias hend
  replace hend := (h₁ ▸ hend).of_cons nofun
  obtain ⟨n, h₂⟩ := run_of_step hclose hend
  replace hend := (h₂ ▸ hend).of_cons nofun
  obtain ⟨n, h₃⟩ := run_of_step hdocument hend
  replace hend := (h₃ ▸ hend).of_cons nofun
  obtain ⟨n, h₄⟩ := run_of_step hstream hend
  rw [h₁, h₂, h₃, h₄, run_nil rfl]
  rfl

theorem mappingEnd_notMem_run {n : Nat} (hready : g.Ready) (htokens : g.tokens = [e]) (he : e.value = .streamEnd)
    (hend : Reaches (run n g).1) : .mappingEnd ∉ (run n g).1.map (·.event) := by
  intro hmem
  obtain ⟨m, hm, hmapping⟩ := List.mem_map.mp hmem
  exact run_last hready htokens he hend m hm hmapping

theorem run_closed {ns : List Marked} {ms : List Event} {m : Mark} {n : Nat} (hready : g.Ready)
    (htokens : g.tokens = [e]) (he : e.value = .streamEnd) (hend : Reaches (run n g).1)
    (hevents : (ns ++ ⟨.mappingEnd, m⟩ :: (run n g).1).map (·.event) = ms ++ [.mappingEnd, .documentEnd, .streamEnd]) :
    ns.map (·.event) = ms ∧ g.state = .documentEnd := by
  have hno := mappingEnd_notMem_run hready htokens he hend
  rw [List.map_append, List.map_cons] at hevents
  obtain ⟨hns, hrest⟩ := eq_of_append_cons_eq hevents hno (by simp)
  refine ⟨hns, ?_⟩
  obtain ⟨k, r, -, hstep, hrun⟩ := run_of_reaches hend
  rw [hrun, List.map_cons] at hrest
  exact ((step_last htokens he).of_eq_ok hstep).2 (List.cons.inj hrest).1

theorem not_last {ns : List Marked} {ms : List Event} {m : Marked} {n : Nat} {properties : Properties} {text : String}
    {plain : Bool} (hm : m.event = .scalar properties text plain) (hready : g.Ready) (htokens : g.tokens = [e])
    (he : e.value = .streamEnd) (hend : Reaches (run n g).1) :
    (ns ++ m :: (run n g).1).map (·.event) ≠ ms ++ [.mappingEnd, .documentEnd, .streamEnd] := by
  intro hevents
  have hno := mappingEnd_notMem_run hready htokens he hend
  rw [List.map_append, List.map_cons, hm] at hevents
  obtain ⟨as, has, htail⟩ | ⟨as, has, htail⟩ := List.append_eq_append_iff.mp hevents
  · cases as with
    | nil => cases (List.cons.inj htail).1
    | cons a as =>
      rw [(List.cons.inj htail).2] at hno
      simp at hno
  · have hmem : Event.scalar properties text plain ∈ [Event.mappingEnd, .documentEnd, .streamEnd] := by
      rw [htail]
      simp
    simp at hmem

end Grammar

theorem Grammar.start_ready {ts : List (Located Token)} {f : Option SyntaxError} (h : Ended f ts) :
    (Grammar.start ts f).Ready :=
  ⟨⟨h, nofun⟩, nofun⟩

theorem not_documentStart {n : Nat} {e : Located Token} {f : Option SyntaxError} {ms : List Event}
    (he : e.value = .streamEnd) :
    (Grammar.run n (.start [e] f)).1.map (·.event) ≠ .documentStart :: ms := by
  obtain ⟨v, start, stop⟩ := e
  obtain rfl := he
  cases n with
  | zero => exact nofun
  | succ n =>
    intro h
    cases (List.cons.inj h).1

/-- A text that ends with a line break and whose root is a mapping, with an entry behind it that is read to the end:
the entry goes on that mapping. -/
theorem events_entry (htext : EndsLine text) (hx : x.all isNameChar = true) (hne : x ≠ []) (ms : List Event)
    (hevents : (eventsOf (tokens text).1 (tokens text).2).1.map (·.event) =
      .documentStart :: ms ++ [.mappingEnd, .documentEnd, .streamEnd])
    (hend' : Grammar.Reaches (eventsOf (tokens (text ++ entryText x)).1 (tokens (text ++ entryText x)).2).1) :
    (eventsOf (tokens (text ++ entryText x)).1 (tokens (text ++ entryText x)).2).1.map (·.event) =
      .documentStart :: ms ++ [.scalar .none Anchor.sentinel true, .alias (String.ofList x), .mappingEnd, .documentEnd,
        .streamEnd] := by
  have hended := (tokens_faithful text).2
  have hended' := (tokens_faithful (text ++ entryText x)).2
  have hend : Grammar.Reaches (eventsOf (tokens text).1 (tokens text).2).1 := by
    have hlast : .streamEnd ∈ (eventsOf (tokens text).1 (tokens text).2).1.map (·.event) := by rw [hevents]; simp
    obtain ⟨m, hm, he⟩ := List.mem_map.mp hlast
    exact ⟨m, hm, he⟩
  obtain ⟨hcompletes, hdepth⟩ := Grammar.run_closes _ (Grammar.start_ready hended) hend
  obtain ⟨hcompletes', -⟩ := Grammar.run_closes _ (Grammar.start_ready hended') hend'
  have hparts := parts_tokens htext hx hne hcompletes hcompletes' hdepth
  revert hended hended' hend hend' hevents
  generalize (tokens text).2 = f
  generalize (tokens (text ++ entryText x)).2 = f'
  generalize (tokens text).1 = ts at hparts ⊢
  generalize (tokens (text ++ entryText x)).1 = ts' at hparts ⊢
  unfold eventsOf
  intro hevents hend' hended hended' hend
  have hready := Grammar.start_ready hended
  have hbegun : (Grammar.start [] none).Begun := nofun
  cases hparts with
  | @entry W t e u us hts hts' hstart ht he hus =>
    subst hts hts'
    have hfork : Fork t [e] u us := .key hstart ht (List.cons.inj hus).1
    have hfirst : t.value ≠ .streamEnd := by rw [ht]; nofun
    cases Grammar.parts_run (g := .start [] none) hfork hready hbegun (fun _ _ => hfirst) hend hend' with
    | closed ns g opened f f' n n' b _ hready hb hms hms' hend hend' =>
      obtain ⟨hns, hstate⟩ := Grammar.run_closed hready (by rw [Grammar.tokens_pop]; rfl) he hend (hms ▸ hevents)
      rw [Grammar.withTokens_pop] at hstate
      refine (congrArg (List.map (·.event)) hms').trans ?_
      rw [List.map_append, hns, Grammar.run_entry hus hstate hb hend']
    | last ns m g n e properties text plain hm hready htokens he hms hend =>
      exact absurd (hms ▸ hevents) (Grammar.not_last hm hready htokens he hend)
  | @block W e u us hts hts' hstart he hu =>
    subst hts hts'
    have hfork : Fork e [] u us := .block hstart he hu
    have hfirst (hW : W = []) : e.value ≠ .streamEnd := by
      subst hW
      exact absurd hevents (not_documentStart he)
    cases Grammar.parts_run (g := .start [] none) hfork hready hbegun (fun _ => hfirst) hend hend' with
    | closed _ _ _ _ _ _ _ _ ht => cases he.symm.trans ht
    | last ns m g n e properties text plain hm hready htokens he hms hend =>
      exact absurd (hms ▸ hevents) (Grammar.not_last hm hready htokens he hend)
  | @plain W t e text hts ht he =>
    subst hts
    have hfork : Fork t [e] t [e] := .plain ht he
    have hfirst : t.value ≠ .streamEnd := by rw [ht]; nofun
    cases Grammar.parts_run (g := .start [] none) hfork hready hbegun (fun _ _ => hfirst) hend hend with
    | closed _ _ _ _ _ _ _ _ hblock => cases ht.symm.trans hblock
    | last ns m g n e properties text plain hm hready htokens he hms hend =>
      exact absurd (hms ▸ hevents) (Grammar.not_last hm hready htokens he hend)

end YamlInclude.Yaml
