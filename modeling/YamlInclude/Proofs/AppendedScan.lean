import YamlInclude.Proofs.Appended

/-! # Tokens of a text with more behind it

The scans of single tokens give the same result on a text that ends with a line break and on that text with more
behind it. A plain scalar alone may reach the end of the text and go on behind it; what begins the lines after a block
scalar ends that scalar.
-/

namespace YamlInclude.Yaml

open Cursor

variable {more cs : List Char} {c : Cursor} {a b : Char} {m since : Mark} {α β : Type} {context : Context}

theorem EndsLine.lf_of_single (h : EndsLine [a]) : a = '\n' := Option.some.inj h

/-- A carriage return at the end of a text that ends with a line feed has its line feed in the text. -/
theorem EndsLine.crlf_append (h : EndsLine (a :: cs)) (ha : a = '\x0d' → cs.head? ≠ some '\n') (more : List Char) :
    a = '\x0d' → (cs ++ more).head? ≠ some '\n' := by
  rintro rfl
  rw [(h.of_cons (by decide)).head?_append]
  exact ha rfl

theorem EndsLine.inLines_tail (h : EndsLine (a :: cs)) (hm : m.column = 0) : Cursor.InLines ⟨cs, m⟩ :=
  h.tail.imp_right fun hnil => ⟨hnil, hm⟩

theorem crlf_of_not (h : ¬(a = '\x0d' → cs.head? ≠ some '\n')) : a = '\x0d' ∧ ∃ cs', cs = '\n' :: cs' := by
  obtain ⟨ha, hhead⟩ := Classical.not_imp.mp h
  exact ⟨ha, List.head?_eq_some_iff.mp (Classical.not_not.mp hhead)⟩

/-! ## White space -/

theorem scanFold_cons {limit : Int} {f : Fold} (h : a = '\x0d' → cs.head? ≠ some '\n') :
    scanFold since limit (a :: cs) m f =
      if isBlankChar a then
        if f.broken && m.column < limit && a == '\t' then failIn .plainScalar since .tabInIndentation m
        else scanFold since limit cs (m.skip 1) (f.pushBlank a)
      else if isBreak a then scanFold since limit cs (m.newLine 1) (f.pushBreak a)
      else .ok (f, ⟨a :: cs, m⟩) := by
  rw [scanFold.eq_def]
  split
  next heq => cases heq
  next heq =>
    obtain ⟨rfl, rfl⟩ := List.cons.inj heq
    exact absurd rfl (h rfl)
  next heq =>
    obtain ⟨rfl, rfl⟩ := List.cons.inj heq
    rfl

theorem scanFold_append (hmore : Begins more) {limit : Int} (f : Fold) (h : Cursor.InLines ⟨cs, m⟩) :
    Both (UpTo more) (scanFold since limit cs m f) (scanFold since limit (cs ++ more) m f) := by
  induction hn : cs.length using Nat.strongRecOn generalizing cs m f with | _ n ih =>
  obtain rfl | ⟨a, cs, rfl⟩ : cs = [] ∨ ∃ a cs', cs = a :: cs' := by cases cs <;> simp
  · obtain ⟨b, bs, rfl, hblank, hbreak, hb⟩ := hmore.cons
    rw [List.nil_append, scanFold_cons hb, hblank, hbreak]
    exact .ok ⟨rfl, h⟩
  have hline := h.endsLine (by simp)
  have hnext {cs' : List Char} (f : Fold) {m' : Mark} (hlt : cs'.length < (a :: cs).length)
      (h : Cursor.InLines ⟨cs', m'⟩) := ih cs'.length (hn ▸ hlt) f h rfl
  by_cases hcr : a = '\x0d' → cs.head? ≠ some '\n'
  · rw [List.cons_append, scanFold_cons hcr, scanFold_cons (hline.crlf_append hcr more)]
    refine .ite Iff.rfl (fun hblank => .ite Iff.rfl (fun _ => both_failIn) fun _ => ?_) fun _ =>
      .ite Iff.rfl (fun _ => ?_) fun _ => .ok ⟨rfl, h⟩
    · exact hnext _ (by simp) (Or.inl (hline.of_cons (by rintro rfl; cases hblank)))
    · exact hnext _ (by simp) (hline.inLines_tail rfl)
  · obtain ⟨rfl, cs, rfl⟩ := crlf_of_not hcr
    exact @hnext cs (f.pushBreak '\n') (m.newLine 2) (by simp only [List.length_cons]; omega)
      ((hline.of_cons (by decide)).inLines_tail rfl)

theorem scanFold_broken {limit : Int} (f : Fold) (h : EndsLine cs ∨ f.broken = true) :
    Gives (fun r => EndsLine r.2.rest ∨ r.1.broken = true) (scanFold since limit cs m f) := by
  have hpush (f : Fold) (a : Char) : (f.pushBreak a).broken = true := by
    unfold Fold.pushBreak
    split
    next hbroken => exact hbroken
    · rfl
  induction cs, m, f using scanFold.induct limit with
  | case1 m f => exact h
  | case2 cs m f ih => exact ih (Or.inr (hpush f _))
  | case3 a cs m f hcr hblank htab => simp [scanFold, *]
  | case4 a cs m f hcr hblank htab ih =>
    have hrest : EndsLine cs ∨ (f.pushBlank a).broken = true := by
      refine h.imp (·.of_cons (by rintro rfl; cases hblank)) fun hbroken => ?_
      rw [Fold.pushBlank, if_pos hbroken]
      exact hbroken
    have := ih hrest
    simp [scanFold, *]
  | case5 a cs m f hcr hblank hbreak ih =>
    have := ih (Or.inr (hpush f a))
    simp [scanFold, *]
  | case6 a cs m f hcr hblank hbreak => simp [scanFold, *]

/-! ## Anchors, aliases and tags -/

theorem EndsLine.endsName_append (h : EndsLine cs) (more : List Char) : endsName (cs ++ more) = endsName cs := by
  cases cs with
  | nil => cases h
  | cons c cs => rfl

theorem scanName_append (h : EndsLine c.rest) (hhead : c.rest.head? = some a) (ha : a ≠ '\n') (more : List Char) :
    Both (Within more) (scanName context c) (scanName context (c.append more)) := by
  have hskip := skip_endsLine h hhead ha
  have hafter : EndsLine ((c.skip 1).skipWhile isNameChar).rest := skipWhile_endsLine hskip rfl
  unfold scanName
  dsimp only
  rw [skip_one_append h, skipWhile_append hskip rfl, append_rest, append_rest, hskip.takeWhile_append rfl,
    hafter.endsName_append]
  exact .ite Iff.rfl (fun _ => both_failIn) fun _ => .ok ⟨rfl, hafter⟩

theorem scanAnchor_append (h : EndsLine c.rest) (hhead : c.rest.head? = some a) (ha : a ≠ '\n') (more : List Char) :
    Both (Within more) (scanAnchor c) (scanAnchor (c.append more)) :=
  (scanName_append h hhead ha more).within fun _ _ hline => .ok ⟨rfl, hline⟩

theorem scanAlias_append (h : EndsLine c.rest) (hhead : c.rest.head? = some a) (ha : a ≠ '\n') (more : List Char) :
    Both (Within more) (scanAlias c) (scanAlias (c.append more)) :=
  (scanName_append h hhead ha more).within fun _ _ hline => .ok ⟨rfl, hline⟩

theorem octet?_append {o : Nat} (h : EndsLine cs) (ho : octet? cs = some o) (more : List Char) :
    octet? (cs ++ more) = some o ∧ 3 ≤ cs.length ∧ EndsLine (cs.drop 3) := by
  unfold octet? at ho
  split at ho
  next a b cs =>
    have hdigit (d : Char) {v : Nat} (hd : digitValue? d = some v) : d ≠ '\n' := by
      rintro rfl
      cases hd
    obtain ⟨u, hu, ho'⟩ := Option.bind_eq_some_iff.mp ho
    obtain ⟨v, hv, -⟩ := Option.bind_eq_some_iff.mp ho'
    exact ⟨ho, by simp, ((h.of_cons (by decide)).of_cons (hdigit _ hu)).of_cons (hdigit _ hv)⟩
  next => cases ho

theorem trailingOctets_append (n : Nat) (h : EndsLine c.rest) (more : List Char) :
    Both (Within more) (trailingOctets context since n c) (trailingOctets context since n (c.append more)) := by
  induction n generalizing c with
  | zero => exact .ok ⟨rfl, h⟩
  | succ n ih =>
    unfold trailingOctets
    cases ho : octet? c.rest with
    | none => exact both_failIn
    | some o =>
      obtain ⟨ho', hlength, hline⟩ := octet?_append h ho more
      rw [append_rest, ho']
      refine .ite Iff.rfl (fun _ => both_failIn) fun _ => ?_
      rw [skip_append hlength]
      exact (ih hline).within fun os c hline => .ok ⟨rfl, hline⟩

theorem scanOctets_append (h : EndsLine c.rest) (more : List Char) :
    Both (Within more) (scanOctets context since c) (scanOctets context since (c.append more)) := by
  unfold scanOctets
  cases ho : octet? c.rest with
  | none => exact both_failIn
  | some o =>
    obtain ⟨ho', hlength, hline⟩ := octet?_append h ho more
    rw [append_rest, ho']
    dsimp only
    split
    · exact both_failIn
    · rw [skip_append hlength]
      exact (trailingOctets_append _ hline more).within fun _ _ hline => .ok ⟨rfl, hline⟩

theorem isUriChar_lf (whole : Bool) : isUriChar whole '\n' = false := by cases whole <;> rfl

theorem uriOctets_append (whole : Bool) (fuel fuel' : Nat) (h : EndsLine c.rest) (more : List Char) :
    Both (Within more) (uriOctets whole context since fuel c) (uriOctets whole context since fuel' (c.append more)) := by
  induction fuel generalizing c fuel' with
  | zero => exact both_failIn
  | succ fuel ih =>
    cases fuel' with
    | zero => exact Both.error_right
    | succ fuel' =>
      unfold uriOctets
      rw [append_rest]
      cases hrest : c.rest with
      | nil => exact absurd hrest h.ne_nil
      | cons d cs =>
        refine .ite Iff.rfl (fun _ => .ok ⟨rfl, h⟩) fun hchar => .ite Iff.rfl (fun _ => ?_) fun _ => ?_
        · refine (scanOctets_append h more).within fun e c hline => ?_
          exact (ih fuel' hline).within fun rest c hline => .ok ⟨rfl, hline⟩
        · have hd : d ≠ '\n' := by
            rintro rfl
            exact hchar (by rw [isUriChar_lf]; rfl)
          rw [skip_one_append h]
          exact (ih fuel' (skip_endsLine h (by rw [hrest]; rfl) hd)).within fun rest c hline => .ok ⟨rfl, hline⟩

theorem scanUri_append {whole directive : Bool} {head : List Char} (h : EndsLine c.rest) (more : List Char) :
    Both (Within more) (scanUri whole directive head since c) (scanUri whole directive head since (c.append more)) := by
  refine (uriOctets_append whole _ _ h more).within fun cs after hline => ?_
  exact .ite Iff.rfl (fun _ => both_failIn) fun _ => .ok ⟨rfl, hline⟩

theorem scanHandle_append {directive : Bool} (h : EndsLine c.rest) (more : List Char) :
    Both (Within more) (scanHandle directive since c) (scanHandle directive since (c.append more)) := by
  unfold scanHandle
  dsimp only
  rw [append_rest, h.head?_append]
  refine .ite Iff.rfl (fun _ => both_failIn) fun hhead => ?_
  have hskip := skip_endsLine h (a := '!') (by simpa using hhead) (by decide)
  have hafter : EndsLine ((c.skip 1).skipWhile isNameChar).rest := skipWhile_endsLine hskip rfl
  rw [skip_one_append h, skipWhile_append hskip rfl, append_rest, append_rest, hskip.takeWhile_append rfl,
    hafter.head?_append]
  refine .ite Iff.rfl (fun hmark => ?_) fun _ => .ite Iff.rfl (fun _ => both_failIn) fun _ => .ok ⟨rfl, hafter⟩
  rw [skip_one_append hafter]
  exact .ok ⟨rfl, skip_endsLine hafter hmark (by decide)⟩

theorem scanTagName_append (h : EndsLine c.rest) (hhead : c.rest.head? = some '!') (more : List Char) :
    Both (Within more) (scanTagName since c) (scanTagName since (c.append more)) := by
  obtain ⟨cs, hrest⟩ := List.head?_eq_some_iff.mp hhead
  have hcs : EndsLine cs := (hrest ▸ h : EndsLine ('!' :: cs)).of_cons (by decide)
  have hsecond : (c.append more).rest[1]? = c.rest[1]? := by
    have := hcs.head?_append more
    rw [append_rest, hrest]
    simpa [List.head?_eq_getElem?] using this
  unfold scanTagName
  rw [hsecond]
  refine .ite Iff.rfl (fun hangle => ?_) fun _ => ?_
  · have hlength : 2 ≤ c.rest.length := by
      obtain ⟨hlt, -⟩ := List.getElem?_eq_some_iff.mp hangle
      exact hlt
    have hskip : EndsLine (c.skip 2).rest := by
      cases cs with
      | nil => exact absurd rfl hcs.ne_nil
      | cons d cs =>
        obtain rfl : d = '<' := by simpa [hrest] using hangle
        simpa [Cursor.skip, hrest] using hcs.of_cons (by decide)
    rw [skip_append hlength]
    refine (scanUri_append hskip more).within fun suffix after hline => ?_
    dsimp only
    rw [append_rest, hline.head?_append, skip_one_append hline]
    refine .ite Iff.rfl (fun _ => both_failIn) fun hclose => .ok ⟨rfl, ?_⟩
    exact skip_endsLine hline (a := '>') (by simpa using hclose) (by decide)
  · refine (scanHandle_append h more).within fun handle after hline => .ite Iff.rfl (fun _ => ?_) fun _ => ?_
    · exact (scanUri_append hline more).within fun suffix after hline => .ok ⟨rfl, hline⟩
    · exact (scanUri_append hline more).within fun suffix after hline => .ok ⟨rfl, hline⟩

theorem scanTag_append {flow : Bool} (h : EndsLine c.rest) (hhead : c.rest.head? = some '!') (more : List Char) :
    Both (Within more) (scanTag flow c) (scanTag flow (c.append more)) := by
  refine (scanTagName_append h hhead more).within fun name after hline => ?_
  dsimp only
  rw [append_rest, hline.atGap_append, hline.head?_append]
  exact .ite Iff.rfl (fun _ => .ok ⟨rfl, hline⟩) fun _ => both_failIn

/-! ## Directives -/

theorem scanVersionNumber_append (h : EndsLine c.rest) (more : List Char) :
    Both (Within more) (scanVersionNumber since c) (scanVersionNumber since (c.append more)) := by
  unfold scanVersionNumber
  dsimp only
  rw [append_rest, h.takeWhile_append rfl, skipWhile_append h rfl]
  exact .ite Iff.rfl (fun _ => both_failIn) fun _ => .ite Iff.rfl (fun _ => both_failIn) fun _ =>
    .ok ⟨rfl, skipWhile_endsLine h rfl⟩

theorem scanVersion_append (h : EndsLine c.rest) (more : List Char) :
    Both (Within more) (scanVersion since c) (scanVersion since (c.append more)) := by
  unfold scanVersion
  rw [skipBlanks_append h]
  refine (scanVersionNumber_append (skipBlanks_endsLine h) more).within fun major after hline => ?_
  dsimp only
  rw [append_rest, hline.head?_append, skip_one_append hline]
  refine .ite Iff.rfl (fun _ => Both.error_left) fun hdot => ?_
  have hskip := skip_endsLine hline (a := '.') (by simpa using hdot) (by decide)
  exact (scanVersionNumber_append hskip more).within fun _ _ hline => .ok ⟨rfl, hline⟩

theorem scanTagDirective_append (h : EndsLine c.rest) (more : List Char) :
    Both (Within more) (scanTagDirective since c) (scanTagDirective since (c.append more)) := by
  unfold scanTagDirective
  rw [skipBlanks_append h]
  refine (scanHandle_append (skipBlanks_endsLine h) more).within fun handle after hline => ?_
  dsimp only
  rw [append_rest, hline.head?_append, skipBlanks_append hline]
  refine .ite Iff.rfl (fun _ => Both.error_left) fun _ => ?_
  refine (scanUri_append (skipBlanks_endsLine hline) more).within fun uri after hline => ?_
  dsimp only
  rw [append_rest, hline.atGap_append]
  exact .ite Iff.rfl (fun _ => .ok ⟨rfl, hline⟩) fun _ => both_failIn

theorem scanDirectiveBody_append {name : List Char} (h : EndsLine c.rest) (more : List Char) :
    Both (Within more) (scanDirectiveBody name since c) (scanDirectiveBody name since (c.append more)) :=
  .ite Iff.rfl (fun _ => scanVersion_append h more) fun _ =>
    .ite Iff.rfl (fun _ => scanTagDirective_append h more) fun _ => both_failIn

theorem scanDirective_append (h : EndsLine c.rest) (hhead : c.rest.head? = some a) (ha : a ≠ '\n')
    (more : List Char) : Both (UpTo more) (scanDirective c) (scanDirective (c.append more)) := by
  have hskip := skip_endsLine h hhead ha
  have hafter : EndsLine ((c.skip 1).skipWhile isNameChar).rest := skipWhile_endsLine hskip rfl
  unfold scanDirective
  dsimp only
  rw [skip_one_append h, skipWhile_append hskip rfl, append_rest, append_rest, hskip.takeWhile_append rfl,
    hafter.atGap_append]
  refine .ite Iff.rfl (fun _ => both_failIn) fun _ => .ite Iff.rfl (fun _ => both_failIn) fun _ => ?_
  refine (scanDirectiveBody_append hafter more).within fun token after hline => ?_
  have hend := skipComment_endsLine (skipBlanks_endsLine hline)
  dsimp only
  rw [skipBlanks_append hline, skipComment_append (skipBlanks_endsLine hline), append_rest, hend.atLineEnd_append]
  refine .ite Iff.rfl (fun _ => .ok ⟨?_, skipBreak_inLines hend⟩) fun _ => both_failIn
  rw [skipBreak_append hend]
  rfl

/-! ## Plain scalars -/

theorem plainWord_append (flow : Bool) (h : EndsLine cs) (more : List Char) :
    plainWord flow (cs ++ more) =
        ((plainWord flow cs).1, (plainWord flow cs).2.1 ++ more, (plainWord flow cs).2.2) ∧
      EndsLine (plainWord flow cs).2.1 := by
  induction cs with
  | nil => cases h
  | cons c cs ih =>
    rw [List.cons_append]
    unfold plainWord
    split
    · exact ⟨rfl, h⟩
    next hgap =>
      have hcs : EndsLine cs := h.of_cons (by rintro rfl; exact hgap rfl)
      rw [hcs.head?_append, hcs.atGap_append]
      split
      · exact ⟨rfl, h⟩
      · split
        · exact ⟨rfl, h⟩
        · obtain ⟨hword, hline⟩ := ih hcs
          rw [hword]
          exact ⟨rfl, hline⟩

theorem atMarker_of_ne {mark : Char} (h : (a == mark) = false) (cs : List Char) : atMarker mark (a :: cs) = false := by
  unfold atMarker
  split
  next heq =>
    obtain ⟨rfl, -⟩ := List.cons.inj heq
    simp [h]
  · rfl

theorem EndsLine.atMarker_append {mark : Char} (h : EndsLine cs) (hmark : mark ≠ '\n') (more : List Char) :
    atMarker mark (cs ++ more) = atMarker mark cs := by
  match cs, h with
  | [a], h =>
    obtain rfl := h.lf_of_single
    have : ('\n' == mark) = false := by simpa using hmark.symm
    match more with
    | [] | [_] => rfl
    | _ :: _ :: _ => simp [atMarker, this]
  | [a, b], h =>
    obtain rfl : b = '\n' := Option.some.inj h
    have : ('\n' == mark) = false := by simpa using hmark.symm
    match more with
    | [] => rfl
    | _ :: _ => simp [atMarker, this]
  | [a, b, c], h =>
    obtain rfl : c = '\n' := Option.some.inj h
    have : ('\n' == mark) = false := by simpa using hmark.symm
    simp [atMarker, this]
  | a :: b :: c :: d :: cs, _ => rfl

theorem atDocumentMarker_append (h : EndsLine c.rest) (more : List Char) :
    atDocumentMarker (c.append more) = atDocumentMarker c := by
  simp only [atDocumentMarker, append_rest, append_mark, h.atMarker_append (by decide : '-' ≠ '\n'),
    h.atMarker_append (by decide : '.' ≠ '\n')]

/-- A plain scalar is read the same way, unless it reaches the end of the text and may go on there. -/
def PlainUpTo (more : List Char) (flow : Bool) (indent : Int) (a b : Plain) : Prop :=
  b = { a with cursor := a.cursor.append more } ∧ a.cursor.InLines ∧ (EndsLine a.cursor.rest ∨ a.broken = true) ∨
    a.cursor.rest = [] ∧ (flow ∨ indent ≤ 0)

theorem plainWords_nil {flow : Bool} {indent : Int} (fuel : Nat) (h : c.rest = []) (gap : Fold) (written : List Char)
    (stop : Mark) : Gives (·.cursor.rest = []) (plainWords flow indent since fuel c gap written stop) := by
  cases fuel with
  | zero => exact gives_failIn
  | succ fuel =>
    unfold plainWords
    rw [h]
    exact .ite (fun _ => h) fun _ => rfl

theorem plainWords_append (hmore : Begins more) {flow : Bool} {indent : Int} (fuel fuel' : Nat) (gap : Fold)
    (written : List Char) (stop : Mark) (h : EndsLine c.rest) :
    Both (PlainUpTo more flow indent) (plainWords flow indent since fuel c gap written stop)
      (plainWords flow indent since fuel' (c.append more) gap written stop) := by
  induction fuel generalizing c gap written stop fuel' with
  | zero => exact both_failIn
  | succ fuel ih =>
    cases fuel' with
    | zero => exact Both.error_right
    | succ fuel' =>
      unfold plainWords
      rw [append_rest, atDocumentMarker_append h, h.head?_append]
      refine .ite Iff.rfl (fun _ => .ok (Or.inl ⟨rfl, Or.inl h, Or.inl h⟩)) fun _ => ?_
      obtain ⟨hword, hline⟩ := plainWord_append flow h more
      rw [hword]
      revert hline
      generalize plainWord flow c.rest = w
      obtain ⟨word, rest, ending⟩ := w
      intro hline
      dsimp only at hline ⊢
      cases ending with
      | unexpectedColon => exact both_failIn
      | regular =>
        dsimp only
        rw [append_mark, hline.atGap_append]
        generalize (if word.isEmpty then (gap, written, stop)
          else (Fold.empty, written ++ gap.text ++ word, c.mark.skip word.length)) = w
        rw [hline.isEmpty_append]
        refine .ite Iff.rfl (fun _ => ?_) fun _ => .ok (Or.inl ⟨rfl, Or.inl hline, Or.inl hline⟩)
        have hfold : Gives (fun r => EndsLine r.2.rest ∨ r.1.broken = true)
            (scanFold since indent rest (c.mark.skip word.length) w.1) := scanFold_broken w.1 (Or.inl hline)
        refine ((scanFold_append hmore w.1 (Or.inl hline)).and_left hfold).bind fun r _ hr => ?_
        obtain ⟨⟨rfl, hlines⟩, hbroken⟩ := hr
        refine .ite Iff.rfl (fun _ => .ok (Or.inl ⟨rfl, hlines, hbroken⟩)) fun hdeep => ?_
        obtain hline | ⟨hnil, hcolumn⟩ := hlines
        · exact ih fuel' r.1 _ _ hline
        · intro a b ha _
          refine Or.inr ⟨(plainWords_nil fuel hnil r.1 w.2.1 w.2.2).of_eq_ok ha, ?_⟩
          rw [hcolumn] at hdeep
          cases flow with
          | true => exact Or.inl rfl
          | false => exact Or.inr (by simpa using hdeep)

/-- A plain scalar is read the same way, or it reaches the end of the text and may go on there. -/
theorem scanPlain_append (hmore : Begins more) {flow : Bool} {indent : Int} (h : EndsLine c.rest) :
    Both (fun a b => b = (a.1, a.2.1.append more, a.2.2) ∧ a.2.1.InLines ∧ (EndsLine a.2.1.rest ∨ a.2.2 = true) ∨
        (∃ text, a.1.value = .scalar text true) ∧ a.2.1.rest = [] ∧ (flow ∨ indent ≤ 0))
      (scanPlain flow indent c) (scanPlain flow indent (c.append more)) := by
  refine (plainWords_append hmore _ _ _ _ _ h).bind fun p q hpq => .ok ?_
  obtain ⟨rfl, hlines, hbroken⟩ | hlost := hpq
  · exact Or.inl ⟨rfl, hlines, hbroken⟩
  · exact Or.inr ⟨⟨_, rfl⟩, hlost⟩

/-! ## Quoted scalars -/

theorem hexDigits_append {n acc v : Nat} {rest : List Char} (h : EndsLine cs)
    (hhex : hexDigits n acc cs = some (v, rest)) (more : List Char) :
    hexDigits n acc (cs ++ more) = some (v, rest ++ more) ∧ EndsLine rest := by
  induction n generalizing acc cs with
  | zero =>
    cases hhex
    exact ⟨rfl, h⟩
  | succ n ih =>
    cases cs with
    | nil => cases hhex
    | cons c cs =>
      obtain ⟨d, hd, hhex⟩ := Option.bind_eq_some_iff.mp hhex
      have hc : c ≠ '\n' := by
        rintro rfl
        cases hd
      obtain ⟨hrest, hline⟩ := ih (h.of_cons hc) hhex
      exact ⟨Option.bind_eq_some_iff.mpr ⟨d, hd, hrest⟩, hline⟩

theorem scanEscape_append (h : EndsLine cs) (more : List Char) :
    Both (Within more) (scanEscape since cs m) (scanEscape since (cs ++ more) m) := by
  cases cs with
  | nil => exact both_failIn
  | cons c cs =>
    rw [List.cons_append]
    unfold scanEscape
    dsimp only
    split
    next d hd => exact .ok ⟨rfl, h.of_cons (by rintro rfl; cases hd)⟩
    · split
      · exact both_failIn
      next n hn =>
        cases hhex : hexDigits n 0 cs with
        | none => exact both_failIn
        | some found =>
          obtain ⟨hmore, hline⟩ := hexDigits_append (h.of_cons (by rintro rfl; cases hn)) hhex more
          rw [hmore]
          exact .ite Iff.rfl (fun _ => both_failIn) fun _ => .ok ⟨rfl, hline⟩

theorem quotedWord_append (single : Bool) (fuel fuel' : Nat) (h : EndsLine c.rest) (more : List Char) :
    Both (UpTo more) (quotedWord single since fuel c) (quotedWord single since fuel' (c.append more)) := by
  induction fuel generalizing c fuel' with
  | zero => exact both_failIn
  | succ fuel ih =>
    cases fuel' with
    | zero => exact Both.error_right
    | succ fuel' =>
      unfold quotedWord
      rw [append_rest, h.atGap_append]
      refine .ite Iff.rfl (fun _ => .ok ⟨rfl, Or.inl h⟩) fun hgap => ?_
      cases hrest : c.rest with
      | nil => exact absurd hrest h.ne_nil
      | cons d cs =>
        have hhead : c.rest.head? = some d := by rw [hrest]; rfl
        have hd : d ≠ '\n' := by
          rintro rfl
          exact hgap (by rw [hrest]; rfl)
        have hcs : EndsLine cs := (hrest ▸ h : EndsLine (d :: cs)).of_cons hd
        have hone := skip_endsLine h hhead hd
        rw [List.cons_append]
        dsimp only
        rw [hcs.head?_append, skip_one_append h]
        refine .ite Iff.rfl (fun _ => .ite Iff.rfl (fun _ => .ite Iff.rfl (fun hquote => ?_) fun _ =>
          .ok ⟨rfl, Or.inl h⟩) fun _ => ?_) fun _ => .ite Iff.rfl (fun _ => .ok ⟨rfl, Or.inl h⟩) fun _ =>
            .ite Iff.rfl (fun _ => .ite Iff.rfl (fun _ => ?_) fun _ => ?_) fun _ => ?_
        · obtain ⟨cs, rfl⟩ := List.head?_eq_some_iff.mp hquote
          rw [skip_append (by simp [hrest])]
          have hskip : EndsLine (c.skip 2).rest := by
            simpa [Cursor.skip, hrest] using hcs.of_cons (by decide)
          exact (ih fuel' hskip).upTo fun word c hlines => .ok ⟨rfl, hlines⟩
        · exact (ih fuel' hone).upTo fun word c hlines => .ok ⟨rfl, hlines⟩
        · rw [skipBreak_append hone]
          exact .ok ⟨rfl, skipBreak_inLines hone⟩
        · refine (scanEscape_append hcs more).within fun e c hline => ?_
          exact (ih fuel' hline).upTo fun word c hlines => .ok ⟨rfl, hlines⟩
        · exact (ih fuel' hone).upTo fun word c hlines => .ok ⟨rfl, hlines⟩

theorem quotedText_nil (single : Bool) (fuel : Nat) (h : c.rest = []) (written : List Char) :
    Gives (fun _ => False) (quotedText single since fuel c written) := by
  cases fuel with
  | zero => exact gives_failIn
  | succ fuel =>
    unfold quotedText
    exact .ite (fun _ => gives_failIn) fun _ => .ite (fun _ => gives_failIn) fun hne => absurd (by rw [h]; rfl) hne

theorem quotedText_append (hmore : Begins more) (single : Bool) (fuel fuel' : Nat) (written : List Char)
    (h : c.InLines) :
    Both (fun a b => Within more a b ∧ ∃ q, q ≠ '\n' ∧ a.2.rest.head? = some q)
      (quotedText single since fuel c written) (quotedText single since fuel' (c.append more) written) := by
  induction fuel generalizing c written fuel' with
  | zero => exact both_failIn
  | succ fuel ih =>
    obtain h | ⟨hnil, -⟩ := h
    · cases fuel' with
      | zero => exact Both.error_right
      | succ fuel' =>
        unfold quotedText
        rw [append_rest, atDocumentMarker_append h, h.isEmpty_append]
        refine .ite Iff.rfl (fun _ => both_failIn) fun _ => .ite Iff.rfl (fun _ => both_failIn) fun _ => ?_
        refine (quotedWord_append single _ _ h more).upTo fun word c hlines => ?_
        dsimp only
        obtain hline | ⟨hnil, -⟩ := hlines
        · rw [append_rest, hline.head?_append]
          refine .ite Iff.rfl (fun hquote => .ok ⟨⟨rfl, hline⟩, _, ?_, hquote⟩) fun _ => ?_
          · cases single <;> decide
          · refine (scanFold_append hmore _ (Or.inl hline)).bind fun q _ hq => ?_
            obtain ⟨rfl, hlines⟩ := hq
            exact ih fuel' _ hlines
        · rw [hnil]
          refine fun a _ ha _ => (Ends.of_eq_ok (?_ : Gives (fun _ => False) _) ha).elim
          refine .ite (fun hquote => ?_) fun _ => quotedText_nil single fuel rfl _
          cases hquote
    · exact fun a _ ha _ => ((quotedText_nil single _ hnil written).of_eq_ok ha).elim

theorem scanQuoted_append (hmore : Begins more) {single : Bool} (h : EndsLine c.rest)
    (hhead : c.rest.head? = some a) (ha : a ≠ '\n') :
    Both (Within more) (scanQuoted single c) (scanQuoted single (c.append more)) := by
  unfold scanQuoted
  rw [skip_one_append h]
  refine (quotedText_append hmore single _ _ [] (Or.inl (skip_endsLine h hhead ha))).bind
    fun r _ ⟨⟨hr, hline⟩, q, hq, hquote⟩ => ?_
  subst hr
  dsimp only
  rw [skip_one_append hline]
  exact .ok ⟨rfl, skip_endsLine hline hquote hq⟩

/-! ## Block scalars -/

/-- An indentation that is given is not zero. -/
def BlockHeader.Indents (h : BlockHeader) : Prop := ∀ n, h.increment = some n → 0 < n

theorem digit_pos {d : Char} (hdigit : d.isDigit = true) (hd : d ≠ '0') : 0 < d.toNat - '0'.toNat := by
  have hne : d.toNat ≠ '0'.toNat := fun h => hd (Char.toNat_inj.mp h)
  have hle : '0'.toNat ≤ d.toNat := by
    simp only [Char.isDigit, Bool.and_eq_true, decide_eq_true_eq] at hdigit
    exact hdigit.1
  omega

theorem scanIncrement_append (h : EndsLine c.rest) (more : List Char) :
    Both (fun a b => Within more a b ∧ ∀ n, a.1 = some n → 0 < n) (scanIncrement since c)
      (scanIncrement since (c.append more)) := by
  unfold scanIncrement
  cases hrest : c.rest with
  | nil => exact absurd hrest h.ne_nil
  | cons d cs =>
    rw [append_rest, hrest, List.cons_append]
    refine .ite Iff.rfl (fun _ => both_failIn) fun hzero => .ite Iff.rfl (fun hdigit => ?_) fun _ =>
      .ok ⟨⟨rfl, h⟩, nofun⟩
    have hd : d ≠ '\n' := by
      rintro rfl
      cases hdigit
    rw [skip_one_append h]
    refine .ok ⟨⟨rfl, skip_endsLine h (by rw [hrest]; rfl) hd⟩, fun n hn => ?_⟩
    obtain rfl := Option.some.inj hn
    exact digit_pos hdigit (by simpa using hzero)

theorem chomping_ne_lf {o : Option Char} {k : Chomping} (h : o.bind chomping? = some k) :
    ∃ d, o = some d ∧ d ≠ '\n' := by
  obtain ⟨d, rfl, hd⟩ := Option.bind_eq_some_iff.mp h
  refine ⟨d, rfl, ?_⟩
  rintro rfl
  cases hd

theorem scanBlockHeader_append (h : EndsLine c.rest) (more : List Char) :
    Both (fun a b => Within more a b ∧ a.1.Indents) (scanBlockHeader since c)
      (scanBlockHeader since (c.append more)) := by
  unfold scanBlockHeader
  rw [append_rest, h.head?_append]
  cases hchomping : c.rest.head?.bind chomping? with
  | some k =>
    obtain ⟨d, hhead, hd⟩ := chomping_ne_lf hchomping
    rw [skip_one_append h]
    exact (scanIncrement_append (skip_endsLine h hhead hd) more).bind fun _ _ ⟨⟨hr, hline⟩, hpos⟩ =>
      hr ▸ .ok ⟨⟨rfl, hline⟩, hpos⟩
  | none =>
    refine (scanIncrement_append h more).bind fun r _ ⟨⟨hr, hline⟩, hpos⟩ => ?_
    subst hr
    dsimp only
    rw [append_rest, hline.head?_append]
    split
    next k _ hk =>
      obtain ⟨d, hhead, hd⟩ := chomping_ne_lf hk
      rw [skip_one_append hline]
      exact .ok ⟨⟨rfl, skip_endsLine hline hhead hd⟩, hpos⟩
    · exact .ok ⟨⟨rfl, hline⟩, hpos⟩

theorem scanEmptyLines_cons {indent : Option Nat} {e : EmptyLines} (h : a = '\x0d' → cs.head? ≠ some '\n') :
    scanEmptyLines since indent (a :: cs) m e =
      if indent.all (m.column < ·) && a == ' ' then scanEmptyLines since indent cs (m.skip 1) e
      else if indent.all (m.column < ·) && a == '\t' then failIn .blockScalar since .tabForIndent m
      else if isBreak a then
        scanEmptyLines since indent cs (m.newLine 1)
          { e with breaks := e.breaks ++ [breakText a], deepest := max e.deepest m.column, stop := m.newLine 1 }
      else .ok { e with deepest := max e.deepest m.column, cursor := ⟨a :: cs, m⟩ } := by
  rw [scanEmptyLines.eq_def]
  split
  next heq => cases heq
  next heq =>
    obtain ⟨rfl, rfl⟩ := List.cons.inj heq
    exact absurd rfl (h rfl)
  next heq =>
    obtain ⟨rfl, rfl⟩ := List.cons.inj heq
    rfl

theorem scanEmptyLines_append (hmore : Begins more) {indent : Option Nat} (e : EmptyLines) (d : Cursor)
    (h : Cursor.InLines ⟨cs, m⟩) :
    Both (fun a b => b = { a with cursor := a.cursor.append more } ∧ a.cursor.InLines)
      (scanEmptyLines since indent cs m e) (scanEmptyLines since indent (cs ++ more) m { e with cursor := d }) := by
  induction hn : cs.length using Nat.strongRecOn generalizing cs m e with | _ n ih =>
  obtain rfl | ⟨a, cs, rfl⟩ : cs = [] ∨ ∃ a cs', cs = a :: cs' := by cases cs <;> simp
  · obtain ⟨b, bs, rfl, hblank, hbreak, hb⟩ := hmore.cons
    obtain ⟨hspace, htab⟩ := Bool.or_eq_false_iff.mp hblank
    rw [List.nil_append, scanEmptyLines_cons hb, hspace, htab, hbreak, Bool.and_false]
    exact .ok ⟨rfl, h⟩
  have hline := h.endsLine (by simp)
  have hnext {cs' : List Char} (e : EmptyLines) {m' : Mark} (hlt : cs'.length < (a :: cs).length)
      (h : Cursor.InLines ⟨cs', m'⟩) := ih cs'.length (hn ▸ hlt) e h rfl
  by_cases hcr : a = '\x0d' → cs.head? ≠ some '\n'
  · rw [List.cons_append, scanEmptyLines_cons hcr, scanEmptyLines_cons (hline.crlf_append hcr more)]
    refine .ite Iff.rfl (fun hspace => ?_) fun _ => .ite Iff.rfl (fun _ => both_failIn) fun _ =>
      .ite Iff.rfl (fun _ => ?_) fun _ => .ok ⟨rfl, h⟩
    · exact hnext e (by simp) (Or.inl (hline.of_cons (by rintro rfl; simp at hspace)))
    · exact hnext _ (by simp) (hline.inLines_tail rfl)
  · obtain ⟨rfl, cs, rfl⟩ := crlf_of_not hcr
    exact @hnext cs { e with breaks := _, deepest := _, stop := _ } (m.newLine 2)
      (by simp only [List.length_cons]; omega) ((hline.of_cons (by decide)).inLines_tail rfl)

theorem EndsLine.breakHere_append (h : EndsLine cs) (more : List Char) : breakHere (cs ++ more) = breakHere cs := by
  cases cs with
  | nil => cases h
  | cons c cs => rfl

theorem blockLines_append (hmore : Begins more) {literal afterBlank : Bool} {indent : Nat} (hindent : 0 < indent)
    {chomping : Chomping} (fuel fuel' : Nat) (leading empties written : List Char) (stop : Mark) (h : c.InLines) :
    Both (UpTo more)
      (blockLines since literal indent chomping fuel c leading empties afterBlank written stop)
      (blockLines since literal indent chomping fuel' (c.append more) leading empties afterBlank written stop) := by
  induction fuel generalizing c leading empties afterBlank written stop fuel' with
  | zero => exact both_failIn
  | succ fuel ih =>
    cases fuel' with
    | zero => exact Both.error_right
    | succ fuel' =>
      have hsame : (decide (c.mark.column = indent) && !(c.append more).rest.isEmpty) = true ↔
          (decide (c.mark.column = indent) && !c.rest.isEmpty) = true := by
        obtain hline | ⟨hnil, hcolumn⟩ := h
        · rw [append_rest, hline.isEmpty_append]
        · simp [hnil, hcolumn, Nat.ne_of_lt hindent]
      unfold blockLines
      refine .ite hsame (fun hhere => ?_) fun _ => .ok ⟨rfl, h⟩
      have hline : EndsLine c.rest := h.endsLine (by rintro hnil; simp [hnil] at hhere)
      have hend : EndsLine (c.skipWhile (!isBreak ·)).rest := skipWhile_endsLine hline rfl
      dsimp only
      rw [append_rest, hline.head?_append, hline.takeWhile_append rfl, skipWhile_append hline rfl,
        skipBreak_append hend, append_rest, append_rest, hend.breakHere_append]
      refine (scanEmptyLines_append hmore _ _ (skipBreak_inLines hend)).bind fun e _ he => ?_
      obtain ⟨rfl, hlines⟩ := he
      exact ih fuel' _ _ _ _ hlines

theorem scanBlock_append (hmore : Begins more) {literal : Bool} {parent : Int} (h : EndsLine c.rest)
    (hhead : c.rest.head? = some a) (ha : a ≠ '\n') :
    Both (UpTo more) (scanBlock literal parent c) (scanBlock literal parent (c.append more)) := by
  unfold scanBlock
  rw [skip_one_append h]
  refine (scanBlockHeader_append (skip_endsLine h hhead ha) more).bind fun r _ ⟨⟨hr, hline⟩, hindents⟩ => ?_
  subst hr
  have hend := skipComment_endsLine (skipBlanks_endsLine hline)
  dsimp only
  rw [skipBlanks_append hline, skipComment_append (skipBlanks_endsLine hline), append_rest, hend.atLineEnd_append]
  refine .ite Iff.rfl (fun _ => both_failIn) fun _ => ?_
  rw [skipBreak_append hend]
  refine (scanEmptyLines_append hmore _ _ (skipBreak_inLines hend)).bind fun e _ ⟨he, hlines⟩ => ?_
  subst he
  refine (blockLines_append hmore ?_ _ _ _ _ _ _ hlines).bind fun q _ ⟨hq, hlines⟩ => hq ▸ .ok ⟨rfl, hlines⟩
  cases hincrement : r.1.increment with
  | none => exact Nat.lt_of_lt_of_le Nat.one_pos (Nat.le_max_right _ _)
  | some n =>
    have hpos := hindents n hincrement
    dsimp only [Option.map_some, Option.getD_some]
    split
    · exact Nat.add_pos_right _ hpos
    · exact hpos

end YamlInclude.Yaml
