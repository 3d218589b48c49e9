import YamlInclude.Yaml.Token.Stream

/-! # Scans of a text

A scan reads one token at its cursor. The token begins there, and the cursor after it counts the characters of the
text that are behind it. No scan but the one for anchors makes an anchor token.
-/

namespace YamlInclude.Yaml

/-- A result is as `post` says, or an error is as `failed` says. -/
def Ends {ε α : Type} (failed : ε → Prop) (post : α → Prop) : Except ε α → Prop
  | .ok a => post a
  | .error e => failed e

namespace Ends

variable {ε α β : Type} {failed : ε → Prop} {post mid : α → Prop} {next : β → Prop} {x : Except ε α}
  {f : α → Except ε β}

@[simp] theorem ok_iff {a : α} : Ends failed post (.ok a) ↔ post a := Iff.rfl

@[simp] theorem error_iff {e : ε} : Ends failed post (.error e) ↔ failed e := Iff.rfl

theorem bind (h : Ends failed mid x) (hf : ∀ a, mid a → Ends failed next (f a)) : Ends failed next (x >>= f) := by
  cases x with
  | ok a => exact hf a h
  | error e => exact h

theorem ite {p : Prop} [Decidable p] {y : Except ε α} (hx : p → Ends failed post x) (hy : ¬p → Ends failed post y) :
    Ends failed post (if p then x else y) := by
  split
  next hp => exact hx hp
  next hp => exact hy hp

theorem of_eq_ok {a : α} (h : Ends failed post x) (hx : x = .ok a) : post a := by
  subst hx
  exact h

end Ends

/-- If it succeeds, its result is as `post` says. -/
abbrev Gives {ε α : Type} (post : α → Prop) (x : Except ε α) : Prop := Ends (fun _ => True) post x

@[simp] theorem gives_failIn {α : Type} {post : α → Prop} {context : Context} {since m : Mark} {p : Problem} :
    Gives post (failIn context since p m : Except SyntaxError α) := trivial

def Token.anchor? : Token → Option String
  | .anchor name => some name
  | _ => none

/-- A token that is neither an anchor nor the end of the text. -/
def Token.isOrdinary : Token → Bool
  | .anchor _ | .streamEnd => false
  | _ => true

theorem Token.anchor?_of_isOrdinary {t : Token} (h : t.isOrdinary = true) : t.anchor? = none := by
  cases t <;> first | rfl | cases h

theorem Token.ne_streamEnd_of_isOrdinary {t : Token} (h : t.isOrdinary = true) : t ≠ .streamEnd := by
  rintro rfl
  cases h

/-- A cursor at a place of a text, with the text from there. -/
def Cursor.IsIn (text : List Char) (c : Cursor) : Prop := c.rest = text.drop c.mark.index

namespace Cursor.IsIn

variable {text : List Char} {c : Cursor}

theorem advance (h : c.IsIn text) {n : Nat} {cs : List Char} {m : Mark} (hcs : cs = c.rest.drop n)
    (hm : m.index = c.mark.index + n) : Cursor.IsIn text ⟨cs, m⟩ := by
  rw [IsIn, hcs, h, List.drop_drop, hm]

theorem skip (h : c.IsIn text) (n : Nat) : (c.skip n).IsIn text := h.advance rfl rfl

theorem skipWhile (h : c.IsIn text) (p : Char → Bool) : (c.skipWhile p).IsIn text := by
  refine h.advance (n := (c.rest.takeWhile p).length) ?_ rfl
  have hcut : (c.rest.takeWhile p ++ c.rest.dropWhile p).drop (c.rest.takeWhile p).length = c.rest.dropWhile p :=
    List.drop_left
  rw [List.takeWhile_append_dropWhile] at hcut
  exact hcut.symm

theorem skipBlanks (h : c.IsIn text) : c.skipBlanks.IsIn text := h.skipWhile _

theorem skipComment (h : c.IsIn text) : c.skipComment.IsIn text := by
  unfold Cursor.skipComment
  split
  · exact h.skipWhile _
  · exact h

theorem skipBreak (h : c.IsIn text) : c.skipBreak.IsIn text := by
  unfold Cursor.skipBreak
  split
  next r hr => exact h.advance (n := 2) (by rw [hr]; rfl) rfl
  next b r _ hr =>
    split
    · exact h.advance (n := 1) (by rw [hr]; rfl) rfl
    · exact h
  · exact h

end Cursor.IsIn

variable {text cs : List Char} {c : Cursor} {m since : Mark} {context : Context}

theorem scanFold_isIn {limit : Int} (f : Fold) (h : Cursor.IsIn text ⟨cs, m⟩) :
    Gives (·.2.IsIn text) (scanFold since limit cs m f) := by
  induction cs, m, f using scanFold.induct limit with
  | case1 m f => exact h
  | case2 cs m f ih => exact ih (h.advance (n := 2) rfl rfl)
  | case3 c cs m f hcr hblank htab => simp [scanFold, *]
  | case4 c cs m f hcr hblank htab ih => simpa [scanFold, *] using ih (h.advance (n := 1) rfl rfl)
  | case5 c cs m f hcr hblank hbreak ih => simpa [scanFold, *] using ih (h.advance (n := 1) rfl rfl)
  | case6 c cs m f hcr hblank hbreak => simp [scanFold, *]

/-! ## Anchors, aliases and tags -/

theorem scanName_isIn (h : c.IsIn text) : Gives (·.2.IsIn text) (scanName context c) :=
  .ite (fun _ => trivial) fun _ => (h.skip 1).skipWhile _

theorem trailingOctets_isIn (n : Nat) (h : c.IsIn text) :
    Gives (·.2.IsIn text) (trailingOctets context since n c) := by
  induction n generalizing c with
  | zero => exact h
  | succ n ih =>
    unfold trailingOctets
    split
    · trivial
    · exact .ite (fun _ => trivial) fun _ => (ih (h.skip 3)).bind fun r hr => hr

theorem scanOctets_isIn (h : c.IsIn text) : Gives (·.2.IsIn text) (scanOctets context since c) := by
  unfold scanOctets
  split
  · trivial
  · split
    · trivial
    · exact (trailingOctets_isIn _ (h.skip 3)).bind fun r hr => hr

theorem uriOctets_isIn (whole : Bool) (fuel : Nat) (h : c.IsIn text) :
    Gives (·.2.IsIn text) (uriOctets whole context since fuel c) := by
  induction fuel generalizing c with
  | zero => simp [uriOctets]
  | succ fuel ih =>
    unfold uriOctets
    split
    · exact h
    · refine .ite (fun _ => h) fun _ => .ite (fun _ => ?_) fun _ => ?_
      · exact (scanOctets_isIn h).bind fun r hr => (ih hr).bind fun q hq => hq
      · exact (ih (h.skip 1)).bind fun q hq => hq

theorem scanUri_isIn {whole directive : Bool} {head : List Char} (h : c.IsIn text) :
    Gives (·.2.IsIn text) (scanUri whole directive head since c) :=
  (uriOctets_isIn whole _ h).bind fun _ hr => .ite (fun _ => trivial) fun _ => hr

theorem scanHandle_isIn {directive : Bool} (h : c.IsIn text) :
    Gives (·.2.IsIn text) (scanHandle directive since c) := by
  have hname := (h.skip 1).skipWhile isNameChar
  refine .ite (fun _ => trivial) fun _ => .ite (fun _ => hname.skip 1) fun _ => ?_
  exact .ite (fun _ => trivial) fun _ => hname

theorem scanTagName_isIn (h : c.IsIn text) : Gives (·.2.IsIn text) (scanTagName since c) := by
  refine .ite (fun _ => ?_) fun _ => ?_
  · exact (scanUri_isIn (h.skip 2)).bind fun r hr => .ite (fun _ => trivial) fun _ => hr.skip 1
  · refine (scanHandle_isIn h).bind fun r hr => .ite (fun _ => ?_) fun _ => ?_
    · exact (scanUri_isIn hr).bind fun q hq => hq
    · exact (scanUri_isIn hr).bind fun q hq => hq

/-! ## Directives -/

theorem scanVersionNumber_isIn (h : c.IsIn text) : Gives (·.2.IsIn text) (scanVersionNumber since c) :=
  .ite (fun _ => trivial) fun _ => .ite (fun _ => trivial) fun _ => h.skipWhile _

theorem scanVersion_gives (h : c.IsIn text) :
    Gives (fun r => r.1.isOrdinary = true ∧ r.2.IsIn text) (scanVersion since c) :=
  (scanVersionNumber_isIn h.skipBlanks).bind fun _ hr => .ite (fun _ => trivial) fun _ =>
    (scanVersionNumber_isIn (hr.skip 1)).bind fun _ hq => ⟨rfl, hq⟩

theorem scanTagDirective_gives (h : c.IsIn text) :
    Gives (fun r => r.1.isOrdinary = true ∧ r.2.IsIn text) (scanTagDirective since c) :=
  (scanHandle_isIn h.skipBlanks).bind fun _ hr => .ite (fun _ => trivial) fun _ =>
    (scanUri_isIn hr.skipBlanks).bind fun _ hq => .ite (fun _ => ⟨rfl, hq⟩) fun _ => trivial

theorem scanDirectiveBody_gives {name : List Char} (h : c.IsIn text) :
    Gives (fun r => r.1.isOrdinary = true ∧ r.2.IsIn text) (scanDirectiveBody name since c) :=
  .ite (fun _ => scanVersion_gives h) fun _ => .ite (fun _ => scanTagDirective_gives h) fun _ => trivial

/-! ## Plain scalars -/

theorem plainWord_rest (flow : Bool) (cs : List Char) :
    (plainWord flow cs).2.1 = cs.drop (plainWord flow cs).1.length := by
  induction cs with
  | nil => rfl
  | cons c cs ih =>
    unfold plainWord
    split
    · rfl
    · split
      · rfl
      · split
        · rfl
        · simpa using ih

theorem plainWords_isIn {flow : Bool} {indent : Int} (fuel : Nat) (gap : Fold) (written : List Char) (stop : Mark)
    (h : c.IsIn text) :
    Gives (·.cursor.IsIn text) (plainWords flow indent since fuel c gap written stop) := by
  induction fuel generalizing c gap written stop with
  | zero => simp [plainWords]
  | succ fuel ih =>
    unfold plainWords
    split
    · exact h
    · have hafter := h.advance (m := c.mark.skip (plainWord flow c.rest).1.length) (plainWord_rest flow c.rest) rfl
      revert hafter
      generalize plainWord flow c.rest = w
      obtain ⟨word, rest, ending⟩ := w
      intro hafter
      dsimp only at hafter ⊢
      split
      · trivial
      · refine .ite (fun _ => ?_) fun _ => hafter
        exact (scanFold_isIn _ hafter).bind fun r hr => .ite (fun _ => hr) fun _ => ih _ _ _ hr

/-! ## Quoted scalars -/

theorem hexDigits_rest {n acc v : Nat} {rest : List Char} (h : hexDigits n acc cs = some (v, rest)) :
    rest = cs.drop n := by
  induction n generalizing acc cs with
  | zero => cases h; rfl
  | succ n ih =>
    cases cs with
    | nil => cases h
    | cons c cs =>
      obtain ⟨d, -, h⟩ := Option.bind_eq_some_iff.mp h
      exact ih h

theorem scanEscape_isIn (hrest : c.rest = '\\' :: cs) (h : c.IsIn text) :
    Gives (·.2.IsIn text) (scanEscape since cs c.mark) := by
  unfold scanEscape
  split
  · trivial
  next d cs =>
    split
    · exact h.advance (n := 2) (by rw [hrest]; rfl) rfl
    · split
      · trivial
      next n _ =>
        split
        · trivial
        next v rest hhex =>
          refine .ite (fun _ => trivial) fun _ => h.advance (n := 2 + n) ?_ rfl
          rw [hexDigits_rest hhex, hrest, Nat.add_comm]
          rfl

theorem quotedWord_isIn (single : Bool) (fuel : Nat) (h : c.IsIn text) :
    Gives (·.2.IsIn text) (quotedWord single since fuel c) := by
  induction fuel generalizing c with
  | zero => simp [quotedWord]
  | succ fuel ih =>
    unfold quotedWord
    refine .ite (fun _ => h) fun _ => ?_
    split
    · exact h
    next d cs hrest =>
      have hnext (n : Nat) := ih (h.skip n)
      refine .ite (fun _ => .ite (fun _ => .ite (fun _ => ?_) fun _ => h) fun _ => ?_) fun _ => ?_
      · exact (hnext 2).bind fun r hr => hr
      · exact (hnext 1).bind fun r hr => hr
      · refine .ite (fun _ => h) fun _ => .ite (fun hescape => ?_) fun _ => ?_
        · obtain rfl := eq_of_beq hescape
          refine .ite (fun _ => (h.skip 1).skipBreak) fun _ => ?_
          exact (scanEscape_isIn hrest h).bind fun r hr => (ih hr).bind fun q hq => hq
        · exact (hnext 1).bind fun r hr => hr

theorem quotedText_isIn (single : Bool) (fuel : Nat) (written : List Char) (h : c.IsIn text) :
    Gives (·.2.IsIn text) (quotedText single since fuel c written) := by
  induction fuel generalizing c written with
  | zero => simp [quotedText]
  | succ fuel ih =>
    unfold quotedText
    refine .ite (fun _ => trivial) fun _ => .ite (fun _ => trivial) fun _ => ?_
    refine (quotedWord_isIn single _ h).bind fun r hr => ?_
    exact .ite (fun _ => hr) fun _ => (scanFold_isIn _ hr).bind fun q hq => ih _ hq

/-! ## Block scalars -/

theorem scanIncrement_isIn (h : c.IsIn text) : Gives (·.2.IsIn text) (scanIncrement since c) := by
  unfold scanIncrement
  split
  · exact .ite (fun _ => trivial) fun _ => .ite (fun _ => h.skip 1) fun _ => h
  · exact h

theorem scanBlockHeader_isIn (h : c.IsIn text) : Gives (·.2.IsIn text) (scanBlockHeader since c) := by
  unfold scanBlockHeader
  split
  · exact (scanIncrement_isIn (h.skip 1)).bind fun r hr => hr
  · refine (scanIncrement_isIn h).bind fun r hr => ?_
    dsimp only
    split
    · exact hr.skip 1
    · exact hr

theorem scanEmptyLines_isIn {indent : Option Nat} (e : EmptyLines) (h : Cursor.IsIn text ⟨cs, m⟩) :
    Gives (·.cursor.IsIn text) (scanEmptyLines since indent cs m e) := by
  induction cs, m, e using scanEmptyLines.induct indent with
  | case1 m e => exact h
  | case2 cs m e m' ih => exact ih (h.advance (n := 2) rfl rfl)
  | case3 c cs m e hcr inside hspace ih => simpa [scanEmptyLines, inside, *] using ih (h.advance (n := 1) rfl rfl)
  | case4 c cs m e hcr inside hspace htab => simp [scanEmptyLines, inside, *]
  | case5 c cs m e hcr inside e' hspace htab hbreak m' ih =>
    simpa [scanEmptyLines, inside, *] using ih (h.advance (n := 1) rfl rfl)
  | case6 c cs m e hcr inside hspace htab hbreak => simp [scanEmptyLines, inside, *]

theorem blockLines_isIn {literal afterBlank : Bool} {indent : Nat} {chomping : Chomping} (fuel : Nat)
    (leading empties written : List Char) (stop : Mark) (h : c.IsIn text) :
    Gives (·.2.IsIn text)
      (blockLines since literal indent chomping fuel c leading empties afterBlank written stop) := by
  induction fuel generalizing c leading empties afterBlank written stop with
  | zero => simp [blockLines]
  | succ fuel ih =>
    unfold blockLines
    refine .ite (fun _ => ?_) fun _ => h
    exact (scanEmptyLines_isIn _ (h.skipWhile _).skipBreak).bind fun e he => ih _ _ _ _ he

/-! ## Tokens -/

/-- A scan that reads an ordinary token at a place. -/
def ReadsAt (text : List Char) (m : Mark) (x : Except SyntaxError (Located Token × Cursor)) : Prop :=
  Gives (fun r => r.1.start = m ∧ r.1.value.isOrdinary = true ∧ r.2.IsIn text) x

theorem scanAlias_readsAt (h : c.IsIn text) : ReadsAt text c.mark (scanAlias c) :=
  (scanName_isIn h).bind fun _ hr => ⟨rfl, rfl, hr⟩

theorem scanTag_readsAt {flow : Bool} (h : c.IsIn text) : ReadsAt text c.mark (scanTag flow c) :=
  (scanTagName_isIn h).bind fun _ hr => .ite (fun _ => ⟨rfl, rfl, hr⟩) fun _ => trivial

theorem scanDirective_readsAt (h : c.IsIn text) : ReadsAt text c.mark (scanDirective c) := by
  refine .ite (fun _ => trivial) fun _ => .ite (fun _ => trivial) fun _ => ?_
  refine (scanDirectiveBody_gives ((h.skip 1).skipWhile _)).bind fun r ⟨hordinary, hr⟩ => ?_
  exact .ite (fun _ => ⟨rfl, hordinary, hr.skipBlanks.skipComment.skipBreak⟩) fun _ => trivial

theorem scanPlain_gives {flow : Bool} {indent : Int} (h : c.IsIn text) :
    Gives (fun r => r.1.start = c.mark ∧ r.1.value.isOrdinary = true ∧ r.2.1.IsIn text) (scanPlain flow indent c) :=
  (plainWords_isIn _ _ _ _ h).bind fun _ hr => ⟨rfl, rfl, hr⟩

theorem scanQuoted_readsAt {single : Bool} (h : c.IsIn text) : ReadsAt text c.mark (scanQuoted single c) :=
  (quotedText_isIn single _ _ (h.skip 1)).bind fun _ hr => ⟨rfl, rfl, hr.skip 1⟩

theorem scanBlock_readsAt {literal : Bool} {parent : Int} (h : c.IsIn text) :
    ReadsAt text c.mark (scanBlock literal parent c) := by
  refine (scanBlockHeader_isIn (h.skip 1)).bind fun r hr => .ite (fun _ => trivial) fun _ => ?_
  refine (scanEmptyLines_isIn _ hr.skipBlanks.skipComment.skipBreak).bind fun e he => ?_
  exact (blockLines_isIn _ _ _ _ _ he).bind fun q hq => ⟨rfl, rfl, hq⟩

/-- `&name` stands at a place of a text, before a rest as `after` says. -/
def AnchorAt (text name : List Char) (after : List Char → Bool) (i : Nat) : Prop :=
  ∃ rest, text.drop i = '&' :: (name ++ rest) ∧ after rest = true

theorem scanName_gives (hrest : c.rest = '&' :: cs) (h : c.IsIn text) :
    Gives (fun r => r.1.toList.all isNameChar = true ∧ AnchorAt text r.1.toList endsName c.mark.index ∧
      c.mark.index < r.2.mark.index ∧ r.2.IsIn text) (scanName context c) := by
  have hcs : (c.skip 1).rest = cs := by simp [Cursor.skip, hrest]
  have hafter : ((c.skip 1).skipWhile isNameChar).rest = cs.dropWhile isNameChar := by
    simp [Cursor.skipWhile, hcs]
  unfold scanName
  simp only [hcs, hafter]
  refine .ite (fun _ => trivial) fun hends => ?_
  refine ⟨by simp, ⟨cs.dropWhile isNameChar, ?_, ?_⟩, ?_, (h.skip 1).skipWhile _⟩
  · rw [← h, hrest, String.toList_ofList, List.takeWhile_append_dropWhile]
  · simp only [Bool.or_eq_true, Bool.not_eq_true', not_or, Bool.not_eq_false] at hends
    exact hends.2
  · simp only [Cursor.skipWhile, Cursor.skip, Mark.skip]
    omega

theorem scanAnchor_gives (hrest : c.rest = '&' :: cs) (h : c.IsIn text) :
    Gives (fun r => (∃ name, r.1.value = .anchor name ∧ name.toList.all isNameChar = true ∧
      AnchorAt text name.toList endsName c.mark.index) ∧
      r.1.start = c.mark ∧ r.1.start.index < r.1.stop.index ∧ r.2.IsIn text) (scanAnchor c) :=
  (scanName_gives hrest h).bind fun r ⟨hname, hat, hwidth, hr⟩ => ⟨⟨r.1, rfl, hname, hat⟩, rfl, hwidth, hr⟩

end YamlInclude.Yaml
