import YamlInclude.Proofs.Scan

/-! # Scans of a text with more behind it

A text that ends with a line break is read the same way when more stands behind it, up to the place where it ends:
a scan gives the same result on both texts, and goes on at the same place. What stands behind the text must not
begin with white space.
-/

namespace YamlInclude.Yaml

theorem Ends.imp {ε α : Type} {failed : ε → Prop} {post post' : α → Prop} {x : Except ε α} (h : Ends failed post x)
    (himp : ∀ a, post a → post' a) : Ends failed post' x := by
  cases x with
  | ok a => exact himp a h
  | error e => exact h

/-- The results of two runs are as `post` says if both succeed. -/
def Both {ε α β : Type} (post : α → β → Prop) (x : Except ε α) (y : Except ε β) : Prop :=
  ∀ a b, x = .ok a → y = .ok b → post a b

namespace Both

variable {ε α β α' β' : Type} {post : α' → β' → Prop} {mid : α → β → Prop} {x : Except ε α} {y : Except ε β}
  {f : α → Except ε α'} {g : β → Except ε β'}

theorem ok {a : α} {b : β} (h : mid a b) : Both mid (.ok a : Except ε α) (.ok b) := by
  rintro _ _ ⟨⟩ ⟨⟩
  exact h

theorem error_left {e : ε} : Both mid (.error e) y := nofun

theorem error_right {e : ε} : Both mid x (.error e) := nofun

theorem bind (h : Both mid x y) (hf : ∀ a b, mid a b → Both post (f a) (g b)) : Both post (x >>= f) (y >>= g) := by
  cases x with
  | error e => exact error_left
  | ok a =>
    cases y with
    | error e => exact error_right
    | ok b => exact hf a b (h a b rfl rfl)

theorem and_left {p : α → Prop} (h : Both mid x y) (hx : Gives p x) : Both (fun a b => mid a b ∧ p a) x y :=
  fun a b ha hb => ⟨h a b ha hb, hx.of_eq_ok ha⟩

theorem ite {p q : Prop} [Decidable p] [Decidable q] {x' : Except ε α} {y' : Except ε β} (hpq : q ↔ p)
    (ht : p → Both mid x y) (hf : ¬p → Both mid x' y') :
    Both mid (if p then x else x') (if q then y else y') := by
  by_cases hp : p
  · rw [if_pos hp, if_pos (hpq.mpr hp)]
    exact ht hp
  · rw [if_neg hp, if_neg fun hq => hp (hpq.mp hq)]
    exact hf hp

theorem ite_left {p : Prop} [Decidable p] {x' : Except ε α} (ht : p → Both mid x y) (hf : ¬p → Both mid x' y) :
    Both mid (if p then x else x') y := by
  split
  next h => exact ht h
  next h => exact hf h

end Both

def EndsLine (cs : List Char) : Prop := cs.getLast? = some '\n'

namespace EndsLine

variable {cs more : List Char} {c : Char} {p : Char → Bool}

theorem ne_nil (h : EndsLine cs) : cs ≠ [] := by
  rintro rfl
  cases h

theorem of_cons (h : EndsLine (c :: cs)) (hc : c ≠ '\n') : EndsLine cs := by
  cases cs with
  | nil => exact absurd (Option.some.inj h) hc
  | cons d cs => simpa [EndsLine] using h

theorem tail (h : EndsLine (c :: cs)) : EndsLine cs ∨ cs = [] := by
  cases cs with
  | nil => exact Or.inr rfl
  | cons d cs => exact Or.inl (by simpa [EndsLine] using h)

theorem head?_append (h : EndsLine cs) (more : List Char) : (cs ++ more).head? = cs.head? := by
  cases cs with
  | nil => cases h
  | cons c cs => rfl

theorem atGap_append (h : EndsLine cs) (more : List Char) : atGap (cs ++ more) = atGap cs := by
  cases cs with
  | nil => cases h
  | cons c cs => rfl

theorem atLineEnd_append (h : EndsLine cs) (more : List Char) : atLineEnd (cs ++ more) = atLineEnd cs := by
  cases cs with
  | nil => cases h
  | cons c cs => rfl

theorem isEmpty_append (h : EndsLine cs) (more : List Char) : (cs ++ more).isEmpty = cs.isEmpty := by
  cases cs with
  | nil => cases h
  | cons c cs => rfl

theorem takeWhile_append (h : EndsLine cs) (hp : p '\n' = false) (more : List Char) :
    (cs ++ more).takeWhile p = cs.takeWhile p := by
  induction cs with
  | nil => cases h
  | cons c cs ih =>
    rw [List.cons_append, List.takeWhile_cons, List.takeWhile_cons]
    split
    next hc => rw [ih (h.of_cons fun heq => by simp [heq, hp] at hc)]
    · rfl

theorem dropWhile_append (h : EndsLine cs) (hp : p '\n' = false) (more : List Char) :
    (cs ++ more).dropWhile p = cs.dropWhile p ++ more := by
  induction cs with
  | nil => cases h
  | cons c cs ih =>
    rw [List.cons_append, List.dropWhile_cons, List.dropWhile_cons]
    split
    next hc => rw [ih (h.of_cons fun heq => by simp [heq, hp] at hc)]
    · rfl

theorem dropWhile (h : EndsLine cs) (hp : p '\n' = false) : EndsLine (cs.dropWhile p) := by
  induction cs with
  | nil => cases h
  | cons c cs ih =>
    rw [List.dropWhile_cons]
    split
    next hc => exact ih (h.of_cons fun heq => by simp [heq, hp] at hc)
    · exact h

end EndsLine

namespace Cursor

variable {more : List Char} {c : Cursor} {a : Char} {p : Char → Bool}

def append (c : Cursor) (more : List Char) : Cursor := ⟨c.rest ++ more, c.mark⟩

@[simp] theorem append_rest (c : Cursor) (more : List Char) : (c.append more).rest = c.rest ++ more := rfl

@[simp] theorem append_mark (c : Cursor) (more : List Char) : (c.append more).mark = c.mark := rfl

/-- A cursor in a text that ends with a line break; at the end of the text it is at the beginning of a line. -/
def InLines (c : Cursor) : Prop := EndsLine c.rest ∨ c.rest = [] ∧ c.mark.column = 0

theorem InLines.endsLine (h : c.InLines) (hne : c.rest ≠ []) : EndsLine c.rest := h.resolve_right fun h => hne h.1

theorem skip_append {n : Nat} (hn : n ≤ c.rest.length) (more : List Char) :
    (c.append more).skip n = (c.skip n).append more := by
  simp [skip, append, List.drop_append_of_le_length hn]

theorem skip_one_append (h : EndsLine c.rest) (more : List Char) : (c.append more).skip 1 = (c.skip 1).append more :=
  skip_append (List.length_pos_iff.mpr h.ne_nil) more

theorem skip_endsLine (h : EndsLine c.rest) (hhead : c.rest.head? = some a) (ha : a ≠ '\n') :
    EndsLine (c.skip 1).rest := by
  obtain ⟨rest, m⟩ := c
  cases rest with
  | nil => cases h
  | cons d cs =>
    obtain rfl : d = a := by simpa using hhead
    exact h.of_cons ha

theorem skipWhile_append (h : EndsLine c.rest) (hp : p '\n' = false) (more : List Char) :
    (c.append more).skipWhile p = (c.skipWhile p).append more := by
  simp [skipWhile, append, h.dropWhile_append hp, h.takeWhile_append hp]

theorem skipWhile_endsLine (h : EndsLine c.rest) (hp : p '\n' = false) : EndsLine (c.skipWhile p).rest :=
  h.dropWhile hp

theorem skipBlanks_append (h : EndsLine c.rest) (more : List Char) :
    (c.append more).skipBlanks = c.skipBlanks.append more := skipWhile_append h rfl more

theorem skipBlanks_endsLine (h : EndsLine c.rest) : EndsLine c.skipBlanks.rest := skipWhile_endsLine h rfl

theorem skipComment_append (h : EndsLine c.rest) (more : List Char) :
    (c.append more).skipComment = c.skipComment.append more := by
  unfold skipComment
  rw [append_rest, h.head?_append]
  split
  · exact skipWhile_append h rfl more
  · rfl

theorem skipComment_endsLine (h : EndsLine c.rest) : EndsLine c.skipComment.rest := by
  unfold skipComment
  split
  · exact skipWhile_endsLine h rfl
  · exact h

theorem skipBreak_cons {b : Char} {r : List Char} {m : Mark} (h : b = '\x0d' → r.head? ≠ some '\n') :
    skipBreak ⟨b :: r, m⟩ = if isBreak b then ⟨r, m.newLine 1⟩ else ⟨b :: r, m⟩ := by
  unfold skipBreak
  split
  next r' heq =>
    obtain ⟨rfl, rfl⟩ := List.cons.inj heq
    exact absurd rfl (h rfl)
  next b' r' _ heq =>
    obtain ⟨rfl, rfl⟩ := List.cons.inj heq
    rfl
  next heq => cases heq

theorem skipBreak_append (h : EndsLine c.rest) (more : List Char) :
    (c.append more).skipBreak = c.skipBreak.append more := by
  obtain ⟨rest, m⟩ := c
  cases rest with
  | nil => cases h
  | cons b r =>
    by_cases hb : b = '\x0d' ∧ r.head? = some '\n'
    · obtain ⟨rfl, hr⟩ := hb
      cases r with
      | nil => cases hr
      | cons d r =>
        obtain rfl := Option.some.inj hr
        rfl
    · have hmore : b = '\x0d' → (r ++ more).head? ≠ some '\n' := by
        rintro rfl
        rw [(h.of_cons (by decide)).head?_append]
        exact fun hr => hb ⟨rfl, hr⟩
      rw [append, List.cons_append, skipBreak_cons hmore, skipBreak_cons fun hb' hr => hb ⟨hb', hr⟩]
      split <;> rfl

theorem skipBreak_inLines (h : EndsLine c.rest) : c.skipBreak.InLines := by
  obtain ⟨rest, m⟩ := c
  unfold skipBreak
  split
  next r heq =>
    obtain rfl : rest = _ := heq
    obtain hr | rfl := (h.of_cons (by decide)).tail
    · exact Or.inl hr
    · exact Or.inr ⟨rfl, rfl⟩
  next b r _ heq =>
    obtain rfl : rest = _ := heq
    split
    · obtain hr | rfl := h.tail
      · exact Or.inl hr
      · exact Or.inr ⟨rfl, rfl⟩
    · exact Or.inl h
  · exact Or.inl h

end Cursor

/-! ## What scans give -/

section Scans

variable {more : List Char} {m since : Mark} {α β : Type} {context : Context}

/-- The same result, and the same place inside a text that ends with a line break. -/
def Within (more : List Char) (a b : α × Cursor) : Prop := b = (a.1, a.2.append more) ∧ EndsLine a.2.rest

/-- The same result, and the same place inside or at the end of a text that ends with a line break. -/
def UpTo (more : List Char) (a b : α × Cursor) : Prop := b = (a.1, a.2.append more) ∧ a.2.InLines

theorem Within.upTo {a b : α × Cursor} (h : Within more a b) : UpTo more a b := ⟨h.1, Or.inl h.2⟩

section Both

variable {ε β β' : Type} {post : β → β' → Prop} {x y : Except ε (α × Cursor)} {f : α × Cursor → Except ε β}
  {g : α × Cursor → Except ε β'}

/-- What follows on the same result inside the text. -/
theorem Both.within (h : Both (Within more) x y)
    (hf : ∀ a c, EndsLine c.rest → Both post (f (a, c)) (g (a, c.append more))) : Both post (x >>= f) (y >>= g) := by
  refine h.bind fun r _ hr => ?_
  obtain ⟨rfl, hline⟩ := hr
  exact hf r.1 r.2 hline

/-- What follows on the same result inside or at the end of the text. -/
theorem Both.upTo (h : Both (UpTo more) x y)
    (hf : ∀ a c, c.InLines → Both post (f (a, c)) (g (a, c.append more))) : Both post (x >>= f) (y >>= g) := by
  refine h.bind fun r _ hr => ?_
  obtain ⟨rfl, hlines⟩ := hr
  exact hf r.1 r.2 hlines

end Both

/-- More text is there, and it does not begin with white space. -/
def Begins (more : List Char) : Prop := ∃ c cs, more = c :: cs ∧ isBlankChar c = false ∧ isBreak c = false

/-- What begins so is not the rest of a line break. -/
theorem Begins.cons (h : Begins more) :
    ∃ c cs, more = c :: cs ∧ isBlankChar c = false ∧ isBreak c = false ∧ (c = '\x0d' → cs.head? ≠ some '\n') := by
  obtain ⟨c, cs, rfl, hblank, hbreak⟩ := h
  refine ⟨c, cs, rfl, hblank, hbreak, ?_⟩
  rintro rfl
  cases hbreak

theorem both_failIn {x : Except SyntaxError β} {p : Problem} {mid : α → β → Prop} :
    Both mid (failIn context since p m : Except SyntaxError α) x := Both.error_left

end Scans

end YamlInclude.Yaml
