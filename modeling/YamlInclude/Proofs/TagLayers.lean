import YamlInclude.Proofs.Traced
import YamlInclude.Settings.Load

/-! # Tags of layered settings

The commands of a later file come over those of an earlier one by the texts of their keys, and the registry
drops the exclamation marks at the start of a key afterwards. Where two files spell one tag differently, the
spelling that is later in the order of texts has the constructor.
-/

namespace YamlInclude

namespace TagRegistry

variable {κ : Type} {es added : List (String × κ)} {name n : String} {c : κ}

def InOrder (es : List (String × κ)) : Prop := es.Pairwise fun a b => a.1 < b.1

theorem lookup_entry (n name : String) (c : κ) (es : List (String × κ)) :
    ((name, c) :: es).lookup n = if n = name then some c else es.lookup n := by
  rw [List.lookup_cons]
  by_cases hn : n = name
  · simp [hn]
  · rw [if_neg hn, beq_eq_false_iff_ne.mpr hn]

@[simp] theorem lookup_insertSorted (name : String) (c : κ) (es : List (String × κ)) (n : String) :
    (insertSorted name c es).lookup n = if n = name then some c else es.lookup n := by
  induction es with
  | nil => exact lookup_entry n name c []
  | cons e es ih =>
    obtain ⟨m, d⟩ := e
    unfold insertSorted
    split
    next he =>
      rw [lookup_entry, lookup_entry, show m = name from he.symm]
      by_cases hn : n = name <;> simp [hn]
    next he =>
      split
      · rw [lookup_entry]
      · rw [lookup_entry, ih, lookup_entry]
        by_cases hn : n = name
        · have hm : n ≠ m := hn ▸ he
          rw [if_neg hm, if_pos hn, if_pos hn]
        · rw [if_neg hn, if_neg hn]

theorem name_of_mem_insertSorted {e : String × κ} (h : e ∈ insertSorted name c es) :
    e.1 = name ∨ e ∈ es := by
  induction es with
  | nil => exact Or.inl (by rw [List.mem_singleton.mp h])
  | cons f es ih =>
    unfold insertSorted at h
    split at h
    · rcases List.mem_cons.mp h with rfl | h
      · exact Or.inl rfl
      · exact Or.inr (List.mem_cons_of_mem _ h)
    · split at h
      · rcases List.mem_cons.mp h with rfl | h
        · exact Or.inl rfl
        · exact Or.inr h
      · rcases List.mem_cons.mp h with rfl | h
        · exact Or.inr List.mem_cons_self
        · exact (ih h).imp_right (List.mem_cons_of_mem _)

theorem InOrder.insertSorted (h : InOrder es) : InOrder (insertSorted name c es) := by
  induction es with
  | nil => exact List.pairwise_singleton _ _
  | cons e es ih =>
    obtain ⟨he, hes⟩ := List.pairwise_cons.mp h
    unfold TagRegistry.insertSorted
    split
    next heq => exact List.pairwise_cons.mpr ⟨fun f hf => heq ▸ he f hf, hes⟩
    next hne =>
      split
      next hlt =>
        refine List.pairwise_cons.mpr ⟨?_, h⟩
        intro f hf
        rcases List.mem_cons.mp hf with rfl | hf
        · exact hlt
        · exact lt_trans hlt (he f hf)
      next hge =>
        refine List.pairwise_cons.mpr ⟨?_, ih hes⟩
        intro f hf
        rcases name_of_mem_insertSorted hf with hf | hf
        · rw [hf]
          exact lt_of_le_of_ne (not_lt.mp hge) (Ne.symm hne)
        · exact he f hf

theorem InOrder.mem_iff (h : InOrder es) : (n, c) ∈ es ↔ es.lookup n = some c := by
  induction es with
  | nil => simp
  | cons e es ih =>
    obtain ⟨m, d⟩ := e
    obtain ⟨he, hes⟩ := List.pairwise_cons.mp h
    rw [List.mem_cons, lookup_entry, ih hes]
    by_cases hn : n = m
    · have habsent : es.lookup n = none := by
        rw [List.lookup_eq_none_iff]
        intro f hf
        exact bne_iff_ne.mpr (hn ▸ (he f hf).ne)
      simp [hn, hn ▸ habsent, eq_comm]
    · simp [hn]

theorem InOrder.lookup_foldl (h : InOrder added) (es : List (String × κ)) (n : String) :
    (added.foldl (fun acc e => TagRegistry.insertSorted e.1 e.2 acc) es).lookup n =
      (added.lookup n <|> es.lookup n) := by
  induction added generalizing es with
  | nil => rfl
  | cons e added ih =>
    obtain ⟨m, d⟩ := e
    obtain ⟨he, hadded⟩ := List.pairwise_cons.mp h
    rw [List.foldl_cons, ih hadded, lookup_insertSorted, lookup_entry]
    by_cases hn : n = m
    · have habsent : added.lookup n = none := by
        rw [List.lookup_eq_none_iff]
        intro f hf
        exact bne_iff_ne.mpr (hn ▸ (he f hf).ne)
      simp [hn, hn ▸ habsent]
    · simp [hn]

theorem InOrder.foldl (h : InOrder es) (added : List (String × κ)) :
    InOrder (added.foldl (fun acc e => TagRegistry.insertSorted e.1 e.2 acc) es) := by
  induction added generalizing es with
  | nil => exact h
  | cons e added ih => exact ih h.insertSorted

/-! ## Registering -/

variable {tag : String} {r r' : TagRegistry κ}

theorem register_ok_iff : r.register tag c = .ok r' ↔
    tagName tag ≠ includeTag ∧ r' = ⟨TagRegistry.insertSorted (tagName tag) c r.entries⟩ := by
  unfold register
  split
  next h => simp [h]
  next h => simp [h, eq_comm]

theorem get?_of_register_ok (h : r.register tag c = .ok r') (t : String) :
    r'.get? t = if tagName t = tagName tag then some c else r.get? t := by
  obtain ⟨-, rfl⟩ := register_ok_iff.mp h
  exact lookup_insertSorted _ _ _ _

end TagRegistry

namespace Settings

open TagRegistry

variable {κ : Type} {s g p : Settings} {tag text : String} {e f : String × TagCommand}
  {es added : List (String × TagCommand)} {r : TagRegistry κ}

/-! ## Settings that can be registered -/

/-- Whether the commands of settings are in the order of their keys and can all be registered. -/
structure Fit (s : Settings) : Prop where
  ordered : InOrder s.commands
  registrable : ∀ e ∈ s.commands, e.2.split.isSome ∧ tagName e.1 ≠ includeTag

def SpellsOnce (s : Settings) (tag : String) : Prop :=
  ∀ e ∈ s.commands, ∀ f ∈ s.commands, tagName e.1 = tagName tag → tagName f.1 = tagName tag → e = f

def commandFor? (s : Settings) (tag : String) : Option (String × TagCommand) :=
  s.commands.find? fun e => tagName e.1 = tagName tag

theorem mem_of_commandFor? (h : s.commandFor? tag = some e) : e ∈ s.commands ∧ tagName e.1 = tagName tag := by
  have hspells := List.find?_some h
  exact ⟨List.mem_of_find?_eq_some h, of_decide_eq_true hspells⟩

theorem commandFor?_eq_none_iff : s.commandFor? tag = none ↔ ∀ e ∈ s.commands, tagName e.1 ≠ tagName tag := by
  simp [commandFor?]

theorem SpellsOnce.eq_entry (h : s.SpellsOnce tag) (hs : s.commandFor? tag = some e) (hf : f ∈ s.commands)
    (hspells : tagName f.1 = tagName tag) : f = e :=
  h f hf e (mem_of_commandFor? hs).1 hspells (mem_of_commandFor? hs).2

theorem foldlM_inOrder {entries : List (Toml.Key × Option Nat × Toml.Node)} (hes : InOrder es)
    (h : entries.foldlM (fun acc e => do return insertSorted e.1.name (← decode readCommand e) acc) es =
      .ok added) : InOrder added := by
  induction entries generalizing es with
  | nil =>
    cases h
    exact hes
  | cons e entries ih =>
    rw [List.foldlM_cons] at h
    obtain ⟨es', hes', h⟩ := bind_ok h
    obtain ⟨c, -, hc⟩ := bind_ok hes'
    cases hc
    exact ih hes.insertSorted h

theorem decodeCommands_inOrder {e : Toml.Key × Option Nat × Toml.Node} (h : decodeCommands e = .ok es) :
    InOrder es := by
  unfold decodeCommands at h
  split at h
  · exact foldlM_inOrder List.Pairwise.nil h
  · exact foldlM_inOrder List.Pairwise.nil h
  · exact nomatch h

theorem decodeField_inOrder {e : Toml.Key × Option Nat × Toml.Node} (hs : InOrder s.commands)
    (h : decodeField s e = .ok g) : InOrder g.commands := by
  unfold decodeField at h
  split at h
  case h_7 =>
    obtain ⟨cs, hcs, hg⟩ := bind_ok h
    cases hg
    exact decodeCommands_inOrder hcs
  case h_8 =>
    cases h
    exact hs
  all_goals
    obtain ⟨a, -, hg⟩ := bind_ok h
    cases hg
    exact hs

theorem foldlM_decodeField_inOrder {entries : List (Toml.Key × Option Nat × Toml.Node)}
    (hs : InOrder s.commands) (h : entries.foldlM decodeField s = .ok g) : InOrder g.commands := by
  induction entries generalizing s with
  | nil =>
    cases h
    exact hs
  | cons e entries ih =>
    rw [List.foldlM_cons] at h
    obtain ⟨s', hs', h⟩ := bind_ok h
    exact ih (decodeField_inOrder hs hs') h

theorem parse_inOrder (h : parse text = .ok s) : InOrder s.commands := by
  unfold parse at h
  cases hd : (do (← Toml.parse text.toList).foldlM decodeField empty : Decoded Settings) with
  | error n => simp [hd, Except.mapError] at h
  | ok s' => 
    simp only [hd, Except.mapError, Except.ok.injEq] at h
    obtain ⟨es, -, hs⟩ := bind_ok hd
    have hempty : InOrder empty.commands := List.Pairwise.nil
    exact h ▸ foldlM_decodeField_inOrder hempty hs

theorem ofFile_inOrder {t : FileTree} {cwd : Location} {file : Path} (h : Config.ofFile t cwd file = .ok s) :
    InOrder s.commands := by
  unfold Config.ofFile at h
  split at h
  · exact nomatch h
  · split at h
    · exact nomatch h
    next hparse =>
      cases h
      exact List.pairwise_map.mpr (parse_inOrder hparse)

/-! ## Merged commands -/

theorem Fit.lookup_merge (hp : p.Fit) (g : Settings) (n : String) :
    (g.merge p).commands.lookup n = (p.commands.lookup n <|> g.commands.lookup n) :=
  hp.ordered.lookup_foldl g.commands n

theorem Fit.mem_merge (hg : g.Fit) (hp : p.Fit) : e ∈ (g.merge p).commands ↔
    e ∈ p.commands ∨ p.commands.lookup e.1 = none ∧ e ∈ g.commands := by
  have hmerged : InOrder (g.merge p).commands := hg.ordered.foldl p.commands
  obtain ⟨n, c⟩ := e
  rw [hmerged.mem_iff, hp.ordered.mem_iff, hg.ordered.mem_iff, hp.lookup_merge]
  cases p.commands.lookup n <;> simp

theorem Fit.merge (hg : g.Fit) (hp : p.Fit) : (g.merge p).Fit where
  ordered := hg.ordered.foldl p.commands
  registrable := by
    intro e he
    rcases (hg.mem_merge hp).mp he with he | ⟨-, he⟩
    · exact hp.registrable e he
    · exact hg.registrable e he

/-! ## Registered commands -/

def made (make : String → List String → κ) (e : String × TagCommand) : Option κ :=
  e.2.split.map fun w => make w.1 w.2

theorem registerAll_ok (make : String → List String → κ)
    (h : ∀ e ∈ es, e.2.split.isSome ∧ tagName e.1 ≠ includeTag) (r : TagRegistry κ) :
    ∃ r', registerAll make es r = .ok r' := by
  induction es generalizing r with
  | nil => exact ⟨r, rfl⟩
  | cons e es ih =>
    obtain ⟨hsplit, hname⟩ := h e List.mem_cons_self
    obtain ⟨w, hw⟩ := Option.isSome_iff_exists.mp hsplit
    have hrest := ih fun f hf => h f (List.mem_cons_of_mem _ hf)
    simp only [registerAll, hw, register, if_neg hname]
    exact hrest _

/-- The first command of several that are registered has a program, and its tag can be registered. -/
theorem registerAll_cons_ok {make : String → List String → κ} {r' : TagRegistry κ}
    (h : registerAll make (e :: es) r = .ok r') : ∃ w r₁, e.2.split = some w ∧
      r.register e.1 (make w.1 w.2) = .ok r₁ ∧ registerAll make es r₁ = .ok r' := by
  unfold registerAll at h
  split at h
  · cases h
  next program args hsplit =>
    split at h
    · cases h
    next r₁ hregister => exact ⟨(program, args), r₁, hsplit, hregister, h⟩

theorem get?_registerAll_of_forall_ne {make : String → List String → κ} {r' : TagRegistry κ}
    (h : registerAll make es r = .ok r') (hes : ∀ e ∈ es, tagName e.1 ≠ tagName tag) :
    r'.get? tag = r.get? tag := by
  induction es generalizing r with
  | nil =>
    cases h
    rfl
  | cons e es ih =>
    obtain ⟨w, r₁, -, hregister, hrest⟩ := registerAll_cons_ok h
    rw [ih hrest fun f hf => hes f (List.mem_cons_of_mem _ hf), get?_of_register_ok hregister,
      if_neg (Ne.symm (hes e List.mem_cons_self))]

theorem get?_registerAll_of_last {make : String → List String → κ} {r' : TagRegistry κ}
    (h : registerAll make es r = .ok r') (hes : InOrder es) (he : e ∈ es)
    (hspells : tagName e.1 = tagName tag) (hlast : ∀ f ∈ es, tagName f.1 = tagName tag → f.1 ≤ e.1) :
    r'.get? tag = made make e := by
  induction es generalizing r with
  | nil => exact nomatch he
  | cons f es ih =>
    obtain ⟨hf, hordered⟩ := List.pairwise_cons.mp hes
    have hafter : ∀ f ∈ es, tagName f.1 = tagName tag → f.1 ≤ e.1 :=
      fun f hf => hlast f (List.mem_cons_of_mem _ hf)
    obtain ⟨w, r₁, hw, hregister, hothers⟩ := registerAll_cons_ok h
    rcases List.mem_cons.mp he with rfl | he
    · have hrest : ∀ f ∈ es, tagName f.1 ≠ tagName tag :=
        fun g hg hs => absurd (hf g hg) (not_lt.mpr (hafter g hg hs))
      rw [get?_registerAll_of_forall_ne hothers hrest, get?_of_register_ok hregister, if_pos hspells.symm, made, hw]
      rfl
    · exact ih hothers hordered he hafter

/-! ## The constructor of a tag -/

/-- Whether both settings configure a tag, and the key of the first is after that of the second. -/
def outlasts (g p : Settings) (tag : String) : Bool :=
  match g.commandFor? tag, p.commandFor? tag with
  | some e, some f => f.1 < e.1
  | _, _ => false

theorem mem_merge_of_new (hg : g.Fit) (hp : p.Fit) (hpt : p.SpellsOnce tag) (he : g.commandFor? tag = some e)
    (hnew : ∀ f, p.commandFor? tag = some f → f.1 ≠ e.1) : e ∈ (g.merge p).commands := by
  obtain ⟨hmem, hspells⟩ := mem_of_commandFor? he
  refine (hg.mem_merge hp).mpr (Or.inr ⟨?_, hmem⟩)
  cases hlookup : p.commands.lookup e.1 with
  | none => rfl
  | some c =>
    have hin : (e.1, c) ∈ p.commands := hp.ordered.mem_iff.mpr hlookup
    cases hf : p.commandFor? tag with
    | none => exact absurd hspells (commandFor?_eq_none_iff.mp hf (e.1, c) hin)
    | some f => exact absurd (hpt.eq_entry hf hin hspells ▸ rfl) (hnew f hf)

theorem eq_entry_of_mem_merge (hg : g.Fit) (hp : p.Fit) (hgt : g.SpellsOnce tag) (hpt : p.SpellsOnce tag)
    (hf : f ∈ (g.merge p).commands) (hspells : tagName f.1 = tagName tag) :
    p.commandFor? tag = some f ∨ g.commandFor? tag = some f := by
  have hentry : ∀ {s : Settings}, s.SpellsOnce tag → f ∈ s.commands → s.commandFor? tag = some f := by
    intro s hs hmem
    cases h : s.commandFor? tag with
    | none => exact absurd hspells (commandFor?_eq_none_iff.mp h f hmem)
    | some e => rw [hs.eq_entry h hmem hspells]
  rcases (hg.mem_merge hp).mp hf with hf | ⟨-, hf⟩
  · exact Or.inl (hentry hpt hf)
  · exact Or.inr (hentry hgt hf)

/-- Of at most two spellings in merged settings, the one whose key is later has the constructor. -/
theorem get?_registry_merge (hg : g.Fit) (hp : p.Fit) (hgt : g.SpellsOnce tag) (hpt : p.SpellsOnce tag)
    {make : String → List String → κ} (hr : (g.merge p).registry make = .ok r) :
    r.get? tag =
      (if g.outlasts p tag then g.commandFor? tag else p.commandFor? tag <|> g.commandFor? tag).bind (made make) := by
  have hordered : InOrder (g.merge p).commands := (hg.merge hp).ordered
  have hlast : ∀ {e}, e ∈ (g.merge p).commands → tagName e.1 = tagName tag →
      (∀ f, p.commandFor? tag = some f → f.1 ≤ e.1) → (∀ f, g.commandFor? tag = some f → f.1 ≤ e.1) →
      r.get? tag = made make e := by
    intro e he hspells hpe hge
    refine get?_registerAll_of_last hr hordered he hspells fun f hf hfs => ?_
    rcases eq_entry_of_mem_merge hg hp hgt hpt hf hfs with h | h
    · exact hpe f h
    · exact hge f h
  unfold outlasts
  cases hge : g.commandFor? tag with
  | none =>
    cases hpe : p.commandFor? tag with
    | none =>
      refine get?_registerAll_of_forall_ne hr fun f hf hfs => ?_
      rcases eq_entry_of_mem_merge hg hp hgt hpt hf hfs with h | h
      · exact absurd (hpe.symm.trans h) nofun
      · exact absurd (hge.symm.trans h) nofun
    | some f =>
      obtain ⟨hf, hspells⟩ := mem_of_commandFor? hpe
      refine hlast ((hg.mem_merge hp).mpr (Or.inl hf)) hspells ?_ ?_
      · simp [hpe]
      · simp [hge]
  | some e =>
    obtain ⟨-, hspells⟩ := mem_of_commandFor? hge
    cases hpe : p.commandFor? tag with
    | none =>
      refine hlast (mem_merge_of_new hg hp hpt hge ?_) hspells ?_ ?_ <;> simp [hpe, hge]
    | some f =>
      obtain ⟨hf, hfs⟩ := mem_of_commandFor? hpe
      by_cases hlt : f.1 < e.1
      · simp only [hlt, decide_true, if_true, Option.bind_some]
        refine hlast (mem_merge_of_new hg hp hpt hge ?_) hspells ?_ ?_
        · simpa [hpe] using hlt.ne
        · simpa [hpe] using hlt.le
        · simp [hge]
      · simp only [hlt, decide_false, Bool.false_eq_true, if_false]
        refine hlast ((hg.mem_merge hp).mpr (Or.inl hf)) hfs ?_ ?_
        · simp [hpe]
        · simpa [hge] using not_lt.mp hlt

/-- Merged settings have a registry. In it a tag has its constructor of the later settings, or else that of
the earlier ones, exactly if the key of the earlier settings is not after that of the later ones or both
make the same. -/
theorem layered_constructor_iff (make : String → List String → κ) (hg : g.Fit) (hp : p.Fit)
    (hgt : g.SpellsOnce tag) (hpt : p.SpellsOnce tag) :
    ∃ r, (g.merge p).registry make = .ok r ∧
      r.get? tag =
        (if g.outlasts p tag then g.commandFor? tag else p.commandFor? tag <|> g.commandFor? tag).bind (made make) ∧
      (r.get? tag = (p.commandFor? tag <|> g.commandFor? tag).bind (made make) ↔
        g.outlasts p tag = false ∨
          (g.commandFor? tag).bind (made make) = (p.commandFor? tag).bind (made make)) := by
  obtain ⟨r, hr⟩ := registerAll_ok make (hg.merge hp).registrable .empty
  have hget := get?_registry_merge hg hp hgt hpt hr
  refine ⟨r, hr, hget, ?_⟩
  rw [hget]
  cases hout : g.outlasts p tag with
  | false => simp
  | true =>
    unfold outlasts at hout
    split at hout
    next e f hge hpe => simp [hge, hpe]
    next => exact nomatch hout

section Instances

def configuring (key program : String) : Settings := { empty with commands := [(key, .program program)] }

theorem fit_configuring {key program : String} (h : tagName key ≠ includeTag) :
    (configuring key program).Fit where
  ordered := List.pairwise_singleton _ _
  registrable := by
    intro e he
    rw [List.mem_singleton.mp he]
    exact ⟨rfl, h⟩

theorem spellsOnce_configuring (key program tag : String) : (configuring key program).SpellsOnce tag := by
  intro e he f hf _ _
  rw [List.mem_singleton.mp he, List.mem_singleton.mp hf]

/-- A plain key in later settings comes over an exclaimed one. -/
theorem plain_key_over_exclaimed :
    (configuring "!env" "global").Fit ∧ (configuring "env" "project").Fit ∧
    ∃ r, ((configuring "!env" "global").merge (configuring "env" "project")).registry Prod.mk = .ok r ∧
      r.get? "!env" = some ("project", []) := by
  have hg : (configuring "!env" "global").Fit := fit_configuring (by decide +kernel)
  have hp : (configuring "env" "project").Fit := fit_configuring (by decide +kernel)
  obtain ⟨r, hr, hget, -⟩ := layered_constructor_iff Prod.mk hg hp
    (spellsOnce_configuring _ _ "!env") (spellsOnce_configuring _ _ "!env")
  exact ⟨hg, hp, r, hr, hget.trans (by decide +kernel)⟩

/-- An exclaimed key in later settings does not come over a plain one. -/
theorem plain_key_outlasts_exclaimed :
    ∃ r, ((configuring "env" "global").merge (configuring "!env" "project")).registry Prod.mk = .ok r ∧
      r.get? "!env" = some ("global", []) ∧
      ((configuring "!env" "project").commandFor? "!env").bind (made Prod.mk) = some ("project", []) := by
  have hg : (configuring "env" "global").Fit := fit_configuring (by decide +kernel)
  have hp : (configuring "!env" "project").Fit := fit_configuring (by decide +kernel)
  obtain ⟨r, hr⟩ := registerAll_ok Prod.mk (hg.merge hp).registrable .empty
  have hget := get?_registry_merge hg hp (spellsOnce_configuring _ _ "!env")
    (spellsOnce_configuring _ _ "!env") hr
  exact ⟨r, hr, hget.trans (by decide +kernel), by decide +kernel⟩

end Instances

end Settings

end YamlInclude
