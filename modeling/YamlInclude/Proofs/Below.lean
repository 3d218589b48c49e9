import YamlInclude.Compile.Pair
import YamlInclude.Proofs.Target

/-! # Paths below a path

Names that are joined to a path one after the other come after its components. The JSON path of what
they lead to keeps all of them but the last one, and of that one all but a final `.yml` or `.yaml`.
-/

namespace YamlInclude

namespace Path

variable {p q : Path} {name n m : List Char} {names segments : List (List Char)}

/-! ## Joining a name -/

/-- Whether what is joined to a path goes right to its end. -/
def isOpen (p : Path) : Bool := p.chars.isEmpty || p.chars.getLast? == some '/'

/-- The segments of a path that come before those of what is joined to it. -/
def lead (p : Path) : List (List Char) := if p.isOpen then p.body.dropLast else p.body

def descend (p : Path) (names : List (List Char)) : Path := names.foldl child p

theorem descend_concat (p : Path) (names : List (List Char)) (n : List Char) :
    p.descend (names ++ [n]) = (p.descend names).child n := by
  simp [descend]

theorem isAbsolute_ofChars (h : '/' ∉ n) : (ofChars n).isAbsolute = false := by
  cases n with
  | nil => rfl
  | cons c n => simpa [isAbsolute] using Ne.symm (List.ne_of_not_mem_cons h)

theorem chars_join (h : q.isAbsolute = false) :
    (p.join q).chars = p.chars ++ (if p.isOpen then q.chars else '/' :: q.chars) := by
  unfold join isOpen
  rw [h, if_neg Bool.false_ne_true, chars_ofChars]
  split <;> simp

theorem chars_child (h : '/' ∉ n) : (p.child n).chars = p.chars ++ (if p.isOpen then n else '/' :: n) := by
  rw [child, chars_join (isAbsolute_ofChars h), chars_ofChars]

theorem isAbsolute_join_of_relative (h : q.isAbsolute = false) : (p.join q).isAbsolute = p.isAbsolute := by
  rw [isAbsolute, isAbsolute, chars_join h]
  cases hp : p.chars with
  | nil => simpa [isAbsolute, isOpen, hp] using h
  | cons c cs => rfl

theorem isAbsolute_child (h : '/' ∉ n) : (p.child n).isAbsolute = p.isAbsolute :=
  isAbsolute_join_of_relative (isAbsolute_ofChars h)

def unrooted (cs : List Char) : List Char := if cs.head? == some '/' then cs.drop 1 else cs

theorem unrooted_append {cs : List Char} (h : cs ≠ []) (ds : List Char) :
    unrooted (cs ++ ds) = unrooted cs ++ ds := by
  obtain ⟨c, cs, rfl⟩ := List.exists_cons_of_ne_nil h
  by_cases hc : c = '/' <;> simp [unrooted, hc]

theorem unrooted_of_not_mem (h : '/' ∉ n) : unrooted n = n :=
  if_neg fun hhead => h (List.mem_of_head? (beq_iff_eq.mp hhead))

theorem body_eq (p : Path) : p.body = splitChar '/' (unrooted p.chars) := by
  unfold body isAbsolute unrooted
  split <;> rfl

theorem body_of_isOpen (h : p.isOpen = true) : p.body = p.lead ++ [[]] := by
  have hbody : ∃ segments, p.body = segments ++ [[]] := by
    rw [body_eq]
    by_cases hnil : p.chars = []
    · exact ⟨[], by rw [hnil]; rfl⟩
    · have hend : p.chars.getLast? = some '/' := by simpa [isOpen, hnil] using h
      obtain ⟨base, hbase⟩ := List.getLast?_eq_some_iff.mp hend
      rw [hbase]
      cases base with
      | nil => exact ⟨[], rfl⟩
      | cons b base =>
        rw [unrooted_append (List.cons_ne_nil _ _), splitChar_append]
        exact ⟨_, rfl⟩
  obtain ⟨segments, hsegments⟩ := hbody
  rw [lead, if_pos h, hsegments, List.dropLast_concat]

theorem body_join (h : q.isAbsolute = false) : (p.join q).body = p.lead ++ q.body := by
  have hq : q.body = splitChar '/' q.chars := by
    rw [body, h, if_neg Bool.false_ne_true]
  rw [body_eq, chars_join h, hq]
  cases hopen : p.isOpen with
  | false =>
    have hne : p.chars ≠ [] := by
      intro hnil
      simp [isOpen, hnil] at hopen
    simp [lead, hopen, body_eq p, unrooted_append hne, splitChar_append]
  | true =>
    have hbody := body_of_isOpen hopen
    rw [if_pos rfl]
    by_cases hnil : p.chars = []
    · have hlead : p.lead = [] := by simp [lead, hopen, body_eq, hnil, unrooted, splitChar]
      rw [hlead, hnil, List.nil_append, List.nil_append, ← hq, ← body_eq]
    · have hend : p.chars.getLast? = some '/' := by simpa [isOpen, hnil] using hopen
      obtain ⟨base, hbase⟩ := List.getLast?_eq_some_iff.mp hend
      rw [body_eq, hbase] at hbody
      rw [hbase]
      cases base with
      | nil =>
        have hlead : p.lead = [] := by simpa [unrooted, splitChar] using hbody.symm
        simp [unrooted, hlead]
      | cons b base =>
        rw [unrooted_append (List.cons_ne_nil _ _), splitChar_append] at hbody
        rw [List.append_assoc, unrooted_append (List.cons_ne_nil _ _), List.singleton_append, splitChar_append,
          List.append_cancel_right hbody]

theorem body_child (h : '/' ∉ n) : (p.child n).body = p.lead ++ [n] := by
  rw [child, body_join (isAbsolute_ofChars h), body_eq (ofChars n), chars_ofChars, unrooted_of_not_mem h,
    splitChar_of_not_mem h]

theorem isOpen_of_chars {cs : List Char} {c : Char} (h : p.chars = cs ++ [c]) : p.isOpen = (c == '/') := by
  have hne : (cs ++ [c]).isEmpty = false := List.isEmpty_eq_false_iff.mpr (by simp)
  simp [isOpen, h, hne]

theorem lead_child (h : '/' ∉ n) (hn : n ≠ []) : (p.child n).lead = (p.child n).body := by
  obtain hnil | ⟨cs, c, rfl⟩ := List.eq_nil_or_concat' n
  · exact absurd hnil hn
  obtain ⟨base, hchars⟩ : ∃ base, (p.child (cs ++ [c])).chars = base ++ [c] := by
    rw [chars_child h]
    split
    · exact ⟨p.chars ++ cs, by simp⟩
    · exact ⟨p.chars ++ '/' :: cs, by simp⟩
  have hc : c ≠ '/' := by
    rintro rfl
    simp at h
  rw [lead, isOpen_of_chars hchars, beq_false_of_ne hc, if_neg Bool.false_ne_true]

theorem ofSegments_body (p : Path) : ofSegments p.isAbsolute p.body = p := by
  have hchars : (ofSegments p.isAbsolute p.body).chars = p.chars := by
    rw [ofSegments, chars_ofChars, body_eq, joinChar_splitChar]
    cases habs : p.isAbsolute with
    | false =>
      rw [isAbsolute] at habs
      simp [unrooted, habs]
    | true =>
      rw [isAbsolute] at habs
      obtain ⟨cs, hcs⟩ := List.head?_eq_some_iff.mp (beq_iff_eq.mp habs)
      simp [unrooted, hcs]
  exact eq_of_chars hchars

/-! ## Components -/

def componentsWith (absolute : Bool) (segments : List (List Char)) : List Component :=
  if absolute then .root :: componentsOf segments
  else match segments with
    | ['.'] :: rest => .current :: componentsOf rest
    | segments => componentsOf segments

theorem components_eq_body (p : Path) : p.components = componentsWith p.isAbsolute p.body := rfl

theorem componentsOf_append (segments more : List (List Char)) :
    componentsOf (segments ++ more) = componentsOf segments ++ componentsOf more :=
  List.filterMap_append

theorem componentsOf_concat (segments : List (List Char)) (n : List Char) :
    componentsOf (segments ++ [n]) = componentsOf segments ++ (componentOf? n).toList := by
  cases h : componentOf? n <;> simp [componentsOf, h]

theorem componentsWith_concat (absolute : Bool) (segments : List (List Char)) (hn : n ≠ ['.']) :
    componentsWith absolute (segments ++ [n]) = componentsWith absolute segments ++ (componentOf? n).toList := by
  unfold componentsWith
  split
  · rw [componentsOf_concat, List.cons_append]
  · cases segments with
    | nil =>
      split
      next h => exact absurd (List.cons.inj h).1 hn
      · exact componentsOf_concat [] n
    | cons s segments =>
      by_cases hs : s = ['.']
      · subst hs
        exact congrArg (Component.current :: ·) (componentsOf_concat segments n)
      · rw [List.cons_append]
        split
        next h => exact absurd (List.cons.inj h).1 hs
        · split
          next h => exact absurd (List.cons.inj h).1 hs
          · exact componentsOf_concat (s :: segments) n

theorem components_eq_lead (p : Path) : p.components = componentsWith p.isAbsolute p.lead := by
  rw [components_eq_body]
  cases hopen : p.isOpen with
  | false => rw [lead, hopen, if_neg Bool.false_ne_true]
  | true =>
    rw [body_of_isOpen hopen, componentsWith_concat _ _ (by simp)]
    simp [componentOf?, isVoid]

theorem components_child {c : Component} (h : '/' ∉ n) (hc : componentOf? n = some c) :
    (p.child n).components = p.components ++ [c] := by
  have hn : n ≠ ['.'] := by
    rintro rfl
    exact nomatch hc
  rw [components_eq_body, isAbsolute_child h, body_child h, componentsWith_concat _ _ hn, components_eq_lead, hc]
  rfl

theorem components_descend (h : ∀ n ∈ names, IsName n) :
    (p.descend names).components = p.components ++ names.map .name := by
  induction names using List.reverseRecOn with
  | nil => simp [descend]
  | append_singleton names n ih =>
    have hn := h n (by simp)
    rw [descend_concat, components_child hn.noSlash hn.component, ih fun m hm => h m (by simp [hm])]
    simp

/-! ## The JSON path -/

/-- A name without a final `.yml` or `.yaml`, if it has one in small letters after other characters. -/
def bareName (n : List Char) : List Char :=
  if (splitExtension n).2.any fun e => e == ['y', 'm', 'l'] || e == ['y', 'a', 'm', 'l'] then (splitExtension n).1
  else n

/-- The last component of the JSON path of a file. Of `..yml` it is a step to the directory above. -/
def jsonComponent (n : List Char) : Component :=
  if bareName n = ['.'] then .parent else .name (bareName n ++ ['.', 'j', 's', 'o', 'n'])

def jsonName (n : List Char) : List Char :=
  if bareName n = ['.'] then ['.', '.'] else bareName n ++ ['.', 'j', 's', 'o', 'n']

theorem jsonComponent_inj : jsonComponent n = jsonComponent m ↔ bareName n = bareName m := by
  unfold jsonComponent
  split <;> split
  next hn hm => simp [hn, hm]
  next hn hm => simp [hn, Ne.symm hm]
  next hn hm => simp [hn, hm]
  next => simp

theorem splitExtension_some {stem e : List Char} (h : splitExtension n = (stem, some e)) :
    n = stem ++ '.' :: e ∧ stem ≠ [] := by
  unfold splitExtension at h
  dsimp only at h
  split at h
  · cases h
  next hcut =>
    obtain ⟨hstem, he⟩ := Prod.mk.inj h
    replace he := Option.some.inj he
    rw [he] at hstem hcut
    simp only [hstem, Bool.or_eq_true, decide_eq_true_eq, List.isEmpty_iff, not_or] at hcut
    have hsplit := List.takeWhile_append_dropWhile (p := (· != '.')) (l := n.reverse)
    have htake : n.reverse.takeWhile (· != '.') = e.reverse := by rw [← he, List.reverse_reverse]
    rw [htake] at hsplit
    cases hd : n.reverse.dropWhile (· != '.') with
    | nil =>
      rw [hd, List.append_nil] at hsplit
      exact absurd (congrArg List.length (List.reverse_inj.mp hsplit)) hcut.1
    | cons d r =>
      have hdot : d = '.' := by
        have := List.head?_dropWhile_not (· != '.') n.reverse
        simpa [hd] using this
      have hn : n = r.reverse ++ '.' :: e := by
        rw [← List.reverse_reverse n, ← hsplit, hd, hdot]
        simp
      have hr : stem = r.reverse := by
        rw [← hstem, hn]
        exact List.take_left' (by simp; omega)
      exact ⟨hr ▸ hn, hcut.2⟩

theorem splitExtension_dot {stem : List Char} (h : stem ≠ []) : splitExtension (stem ++ ['.']) = (stem, some []) := by
  simp [splitExtension, h]

theorem trimmedBody_concat (absolute : Bool) (segments : List (List Char)) (hn : isVoid n = false) :
    trimmedBody absolute (segments ++ [n]) = segments ++ [n] := by
  have htrim (segments : List (List Char)) : trimVoid (segments ++ [n]) = segments ++ [n] := by
    simp [trimVoid, hn]
  unfold trimmedBody
  split
  next rest h =>
    cases segments with
    | nil =>
      obtain ⟨rfl, -⟩ := List.cons.inj h
      exact nomatch hn
    | cons s segments =>
      obtain ⟨rfl, rfl⟩ := List.cons.inj h
      exact congrArg (['.'] :: ·) (htrim segments)
  · exact htrim segments

theorem fileName?_child (hn : IsName n) : (p.child n).fileName? = some n := by
  rw [fileName?, components_child hn.noSlash hn.component]
  simp

theorem setExtension_child {e : List Char} (hn : IsName n) (he : '/' ∉ e) :
    (p.child n).setExtension e = p.child ((splitExtension n).1 ++ '.' :: e) := by
  have hnew : '/' ∉ (splitExtension n).1 ++ '.' :: e := by
    have hstem : ∀ c ∈ (splitExtension n).1, c ∈ n := by
      unfold splitExtension
      intro c hc
      dsimp only at hc
      split at hc
      · exact hc
      · exact List.mem_of_mem_take hc
    simp only [List.mem_append, List.mem_cons, not_or]
    exact ⟨fun h => hn.noSlash (hstem _ h), by decide, he⟩
  rw [setExtension, fileName?_child hn]
  dsimp only
  rw [isAbsolute_child hn.noSlash, body_child hn.noSlash, trimmedBody_concat _ _ hn.not_isVoid, List.dropLast_concat,
    ← body_child hnew, ← isAbsolute_child hnew, ofSegments_body]

theorem cut_child {e : List Char} (hn : '/' ∉ n ++ e) :
    ofChars ((p.child (n ++ e)).chars.take ((p.child (n ++ e)).chars.length - e.length)) = p.child n := by
  have hchars : (p.child (n ++ e)).chars = (p.child n).chars ++ e := by
    rw [chars_child hn, chars_child fun h => hn (List.mem_append_left e h)]
    split <;> simp
  rw [hchars, List.length_append, Nat.add_sub_cancel, List.take_left]
  exact ofChars_chars _

theorem append_child {suffix : List Char} (hn : '/' ∉ n ++ suffix) :
    (p.child n).append suffix = p.child (n ++ suffix) := by
  have hchars : ((p.child n).append suffix).chars = (p.child (n ++ suffix)).chars := by
    rw [append, chars_ofChars, chars_child hn, chars_child fun h => hn (List.mem_append_left suffix h)]
    split <;> simp
  exact eq_of_chars hchars

theorem isName_append {suffix : List Char} (hn : '/' ∉ n) (hsuffix : '/' ∉ suffix) (hletter : ∃ c ∈ suffix, c ≠ '.') :
    IsName (n ++ suffix) where
  noSlash := List.not_mem_append hn hsuffix
  component := by
    obtain ⟨c, hc, hdot⟩ := hletter
    have hne (ds : List Char) (hds : ∀ d ∈ ds, d = '.') : n ++ suffix ≠ ds := by
      rintro rfl
      exact hdot (hds c (List.mem_append_right _ hc))
    have hvoid : isVoid (n ++ suffix) = false := by
      have hnil : (n ++ suffix).isEmpty = false := List.isEmpty_eq_false_iff.mpr (hne [] (by simp))
      simp [isVoid, hnil, hne ['.'] (by simp)]
    rw [componentOf?, hvoid, if_neg Bool.false_ne_true, if_neg (hne _ (by simp))]

theorem isName_append_json (h : '/' ∉ n) : IsName (n ++ ['.', 'j', 's', 'o', 'n']) :=
  isName_append h (by decide) ⟨'j', by decide, by decide⟩

theorem withExtension_child {stem e : List Char} (hn : IsName n) (h : splitExtension n = (stem, some e))
    (ext : List Char) : (p.child n).withExtension ext = (p.child (stem ++ ['.'])).setExtension ext := by
  have hext : (p.child n).extension? = some e := by
    rw [extension?, fileName?_child hn, Option.bind_some, h]
  have hcut : n = stem ++ ['.'] ++ e := by
    rw [(splitExtension_some h).1, List.append_assoc, List.singleton_append]
  unfold withExtension
  rw [hext]
  dsimp only
  rw [hcut, cut_child (hcut ▸ hn.noSlash)]

theorem noSlash_bareName (hn : IsName n) : '/' ∉ bareName n := by
  unfold bareName
  split
  · rcases hsplit : splitExtension n with ⟨stem, _ | e⟩
    · simp [hsplit] at *
    · exact fun h => hn.noSlash ((splitExtension_some hsplit).1 ▸ List.mem_append_left _ h)
  · exact hn.noSlash

theorem jsonPath_child (hn : IsName n) : (p.child n).jsonPath = p.child (jsonName n) := by
  have hext : (p.child n).extension? = (splitExtension n).2 := by
    rw [extension?, fileName?_child hn, Option.bind_some]
  have hslash := noSlash_bareName hn
  unfold jsonPath jsonName
  rw [hext]
  unfold bareName at hslash ⊢
  split
  next hyaml =>
    cases he : (splitExtension n).2 with
    | none => simp [he] at hyaml
    | some e =>
      have hsplit : splitExtension n = ((splitExtension n).1, some e) := Prod.ext rfl he
      obtain ⟨-, hstem⟩ := splitExtension_some hsplit
      rw [if_pos hyaml] at hslash
      rw [withExtension_child hn hsplit]
      generalize (splitExtension n).1 = stem at hslash hstem
      by_cases hdot : stem = ['.']
      · -- What is left of the name is a step to the directory above, which takes no extension.
        subst hdot
        have hup : (p.child ['.', '.']).fileName? = none := by
          rw [fileName?, components_child (c := .parent) (by decide) rfl]
          simp
        rw [if_pos rfl, setExtension, List.singleton_append, hup]
      · have hname : IsName (stem ++ ['.']) := by
          refine ⟨List.not_mem_append hslash (by decide), ?_⟩
          have hlength : stem ++ ['.'] ≠ ['.'] := by simpa using hstem
          have hdots : stem ++ ['.'] ≠ ['.', '.'] := fun h => hdot (List.append_inj_left' h rfl)
          simp [componentOf?, isVoid, hlength, hdots]
        rw [setExtension_child hname (by decide), splitExtension_dot hstem, if_neg hdot]
  next =>
    rw [append_child (isName_append_json hn.noSlash).noSlash, if_neg hn.ne_current]

theorem components_jsonPath (hn : IsName n) :
    (p.child n).jsonPath.components = p.components ++ [jsonComponent n] := by
  rw [jsonPath_child hn]
  unfold jsonName jsonComponent
  split
  · exact components_child (by decide) rfl
  · have hjson := isName_append_json (noSlash_bareName hn)
    exact components_child hjson.noSlash hjson.component

/-! ## Mirrored paths -/

theorem isAbsolute_descend (h : ∀ n ∈ names, IsName n) : (p.descend names).isAbsolute = p.isAbsolute := by
  induction names using List.reverseRecOn with
  | nil => rfl
  | append_singleton names n ih =>
    rw [descend_concat, isAbsolute_child (h n (by simp)).noSlash, ih fun m hm => h m (by simp [hm])]

theorem lead_descend (h : ∀ n ∈ names, IsName n) : (p.descend names).lead = p.lead ++ names := by
  induction names using List.reverseRecOn with
  | nil => simp [descend]
  | append_singleton names n ih =>
    have hn := h n (by simp)
    rw [descend_concat, lead_child hn.noSlash hn.ne_nil, body_child hn.noSlash, ih fun m hm => h m (by simp [hm]),
      List.append_assoc]

theorem body_descend (h : ∀ n ∈ names, IsName n) (hne : names ≠ []) : (p.descend names).body = p.lead ++ names := by
  obtain rfl | ⟨names, n, rfl⟩ := List.eq_nil_or_concat' names
  · exact absurd rfl hne
  have hn := h n (by simp)
  rw [← lead_descend h, descend_concat, lead_child hn.noSlash hn.ne_nil]

theorem dropWhile_dropComponents (segments rest : List (List Char)) :
    (dropComponents (componentsOf segments).length (segments ++ rest)).dropWhile isVoid = rest.dropWhile isVoid := by
  induction segments with
  | nil => simp [componentsOf, dropComponents]
  | cons s segments ih =>
    by_cases hs : isVoid s = true
    · have hcount : componentsOf (s :: segments) = componentsOf segments := by simp [componentsOf, componentOf?, hs]
      rw [hcount]
      cases hn : (componentsOf segments).length with
      | zero =>
        rw [hn] at ih
        simpa [dropComponents, hs] using ih
      | succ k =>
        rw [hn] at ih
        simpa [dropComponents, hs] using ih
    · have hcount : (componentsOf (s :: segments)).length = (componentsOf segments).length + 1 := by
        obtain ⟨c, hc⟩ : ∃ c, componentOf? s = some c := by
          rw [componentOf?, if_neg hs]
          split <;> exact ⟨_, rfl⟩
        rw [componentsOf, List.filterMap_cons_some hc, List.length_cons, componentsOf]
      rw [hcount, List.cons_append, dropComponents, if_neg hs]
      exact ih

theorem lead_of_relative (habs : p.isAbsolute = false) (hp : p.chars ≠ []) :
    ∃ s rest, p.lead = s :: rest ∧ s ≠ [] := by
  obtain ⟨s, rest, hbody, hs⟩ : ∃ s rest, p.body = s :: rest ∧ s ≠ [] := by
    obtain ⟨c, cs, hchars⟩ := List.exists_cons_of_ne_nil hp
    have hc : c ≠ '/' := by simpa [isAbsolute, hchars] using habs
    obtain ⟨s, rest, hsplit⟩ := List.exists_cons_of_ne_nil (splitChar_ne_nil '/' cs)
    refine ⟨c :: s, rest, ?_, List.cons_ne_nil _ _⟩
    simp [body_eq, hchars, unrooted, hc, splitChar, hsplit]
  cases hopen : p.isOpen with
  | false => exact ⟨s, rest, by rw [lead, hopen, if_neg Bool.false_ne_true, hbody], hs⟩
  | true =>
    rw [body_of_isOpen hopen] at hbody
    cases hlead : p.lead with
    | nil =>
      rw [hlead] at hbody
      exact absurd (List.cons.inj hbody).1.symm hs
    | cons s' rest' =>
      rw [hlead] at hbody
      exact ⟨s', rest', rfl, (List.cons.inj hbody).1 ▸ hs⟩

theorem trimVoid_names (h : ∀ n ∈ names, IsName n) : trimVoid (names.dropWhile isVoid) = names := by
  have hstay (ns : List (List Char)) (hns : ∀ n ∈ ns, IsName n) : ns.dropWhile isVoid = ns := by
    cases ns with
    | nil => rfl
    | cons n ns => rw [List.dropWhile_cons, (hns n (by simp)).not_isVoid, if_neg Bool.false_ne_true]
  rw [hstay names h, trimVoid, hstay _ fun n hn => h n (List.mem_reverse.mp hn), List.reverse_reverse]

theorem stripBase?_descend (h : ∀ n ∈ names, IsName n) (hne : names ≠ []) (hp : p.chars ≠ []) :
    (p.descend names).stripBase? p = some (ofSegments false names) := by
  have hprefix : p.components.isPrefixOf (p.descend names).components = true := by
    rw [components_descend h, List.isPrefixOf_iff_prefix]
    exact List.prefix_append _ _
  have hrest (segments : List (List Char)) :
      trimVoid ((dropComponents (componentsOf segments).length (segments ++ names)).dropWhile isVoid) = names := by
    rw [dropWhile_dropComponents, trimVoid_names h]
  simp only [stripBase?, hprefix, Bool.not_true, Bool.false_eq_true, if_false]
  rw [body_descend h hne, components_eq_lead]
  cases habs : p.isAbsolute with
  | true => simpa [componentsWith] using congrArg (some <| ofSegments false ·) (hrest p.lead)
  | false =>
    obtain ⟨s, rest, hlead, hs⟩ := lead_of_relative habs hp
    rw [hlead]
    by_cases hdot : s = ['.']
    · subst hdot
      simpa [componentsWith] using congrArg (some <| ofSegments false ·) (hrest rest)
    · have hwith : componentsWith false (s :: rest) = componentsOf (s :: rest) := by
        simp [componentsWith, hdot]
      have hall := congrArg (some <| ofSegments false ·) (hrest (s :: rest))
      have hvoid : isVoid s = false := by simp [isVoid, hs, hdot]
      rw [hwith]
      by_cases hdots : s = ['.', '.']
      · have hfirst : componentsOf (s :: rest) = .parent :: componentsOf rest :=
          List.filterMap_cons_some (by rw [componentOf?, hvoid, if_neg Bool.false_ne_true, if_pos hdots])
        rw [hfirst] at hall ⊢
        exact hall
      · have hfirst : componentsOf (s :: rest) = .name s :: componentsOf rest :=
          List.filterMap_cons_some (by simp [componentOf?, hvoid, hdots])
        rw [hfirst] at hall ⊢
        exact hall

theorem ofSegments_eq_descend (h : ∀ n ∈ names, IsName n) :
    ofSegments false names = (ofChars []).descend names := by
  by_cases hne : names = []
  · subst hne
    rfl
  · rw [← ofSegments_body ((ofChars []).descend names), isAbsolute_descend h, body_descend h hne]
    rfl

theorem chars_descend_ne_nil (h : ∀ n ∈ names, IsName n) (hne : names ≠ []) : (p.descend names).chars ≠ [] := by
  obtain rfl | ⟨names, n, rfl⟩ := List.eq_nil_or_concat' names
  · exact absurd rfl hne
  have hn := h n (by simp)
  rw [descend_concat, chars_child hn.noSlash]
  split <;> simp [hn.ne_nil]

theorem join_child (hq : q.isAbsolute = false) (hne : q.chars ≠ []) (hn : '/' ∉ n) :
    p.join (q.child n) = (p.join q).child n := by
  have hopen : (p.join q).isOpen = q.isOpen := by
    obtain hnil | ⟨cs, c, hc⟩ := List.eq_nil_or_concat' q.chars
    · exact absurd hnil hne
    obtain ⟨ds, hds⟩ : ∃ ds, (p.join q).chars = ds ++ [c] := by
      rw [chars_join hq, hc]
      split
      · exact ⟨p.chars ++ cs, by simp⟩
      · exact ⟨p.chars ++ '/' :: cs, by simp⟩
    rw [isOpen_of_chars hds, isOpen_of_chars hc]
  have hchars : (p.join (q.child n)).chars = ((p.join q).child n).chars := by
    rw [chars_join ((isAbsolute_child hn).trans hq), chars_child hn, chars_child hn, hopen, chars_join hq]
    split <;> simp
  exact eq_of_chars hchars

theorem join_ofSegments (h : ∀ n ∈ names, IsName n) (hne : names ≠ []) :
    p.join (ofSegments false names) = p.descend names := by
  rw [ofSegments_eq_descend h]
  induction names using List.reverseRecOn with
  | nil => exact absurd rfl hne
  | append_singleton names n ih =>
    have hn := h n (by simp)
    have hnames : ∀ m ∈ names, IsName m := fun m hm => h m (by simp [hm])
    by_cases hnil : names = []
    · subst hnil
      have hsingle : (ofChars []).child n = ofChars n := by
        simp [child, join, isAbsolute_ofChars hn.noSlash]
      exact congrArg p.join hsingle
    · rw [descend_concat, descend_concat, ← ih hnames hnil]
      exact join_child (isAbsolute_descend hnames) (chars_descend_ne_nil hnames hnil) hn.noSlash

end Path

namespace FilePair

theorem forSource_descend {names : List (List Char)} {p : Path} (h : ∀ n ∈ names, Path.IsName n) (hne : names ≠ [])
    (hp : p.chars ≠ []) (out : Option Path) :
    forSource (p.descend names) (out.map fun o => (p, o)) = ⟨p.descend names, (out.getD p).descend names⟩ := by
  cases out with
  | none => rfl
  | some dir =>
    have hkept : keptPart (p.descend names) p = Path.ofSegments false names := by
      unfold keptPart
      rw [Path.stripBase?_descend h hne hp]
      have hchars : (Path.ofSegments false names).chars.isEmpty = false := by
        rw [Path.ofSegments_eq_descend h]
        exact List.isEmpty_eq_false_iff.mpr (Path.chars_descend_ne_nil h hne)
      rw [Option.filter_some, hchars]
      rfl
    simp [forSource, hkept, Path.join_ofSegments h hne]

end FilePair

end YamlInclude
