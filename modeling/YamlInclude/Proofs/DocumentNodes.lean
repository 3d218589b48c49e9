import YamlInclude.Proofs.NodeTree

/-! # Nodes of a document

The nodes of a document stand for its events, in their order. An alias points at an event that has an anchor, and an
anchor that no other event has is where its aliases point.
-/

namespace YamlInclude.Yaml

def Node.shape : Node → Node
  | .alias _ => .alias 0
  | n => n

def Event.shape : Event → Node
  | .alias _ => .alias 0
  | .scalar p text plain => .scalar p.tag text plain
  | .sequenceStart p => .sequenceStart p.tag
  | .sequenceEnd => .sequenceEnd
  | .mappingStart p => .mappingStart p.tag
  | .mappingEnd => .mappingEnd
  | _ => .void

/-- The node of an event among nodes with these anchors, unless it is an alias of no anchor or no part of a node. -/
def Event.node? (names : List (String × Nat)) : Event → Option Node
  | .alias name => (names.lookup name).map .alias
  | .scalar p text plain => some (.scalar p.tag text plain)
  | .sequenceStart p => some (.sequenceStart p.tag)
  | .sequenceEnd => some .sequenceEnd
  | .mappingStart p => some (.mappingStart p.tag)
  | .mappingEnd => some .mappingEnd
  | _ => none

theorem Event.shape_node? {names : List (String × Nat)} {e : Event} {n : Node} (h : e.node? names = some n) :
    n.shape = e.shape := by
  cases e with
  | «alias» name =>
    obtain ⟨id, -, rfl⟩ := Option.map_eq_some_iff.mp h
    rfl
  | documentStart | documentEnd | streamEnd => cases h
  | _ => cases h; rfl

def Marked.unmark (m : Marked) : Marked := ⟨m.event, .start⟩

namespace Draft

variable {d d' : Draft} {m : Marked} {ms rest : List Marked} {failure : Option SyntaxError} {first : Bool}

def add (d : Draft) (m : Marked) : Option Draft :=
  (m.event.node? d.names).map fun n => (d.anchor m.event.anchor?).push n m.mark

theorem documentsOf_cons (hm : m.event.isPart = true)
    (hok : ∀ doc ∈ documentsOf failure (m :: rest) d first, doc.failure = none) :
    ∃ d', d.add m = some d' ∧ documentsOf failure (m :: rest) d first = documentsOf failure rest d' first := by
  obtain ⟨event, mark⟩ := m
  cases event with
  | documentStart | documentEnd | streamEnd => cases hm
  | «alias» name =>
    unfold documentsOf at hok
    cases hid : d.names.lookup name with
    | none =>
      simp only [hid] at hok
      cases hok _ (List.mem_singleton_self _)
    | some id =>
      refine ⟨d.push (.alias id) mark, ?_, ?_⟩
      · simp only [add, Event.node?, hid]
        rfl
      · rw [documentsOf]
        simp only [hid]
  | _ => exact ⟨_, rfl, rfl⟩

theorem documentsOf_append (hms : ∀ m ∈ ms, m.event.isPart = true)
    (hok : ∀ doc ∈ documentsOf failure (ms ++ rest) d first, doc.failure = none) :
    ∃ d', ms.foldlM add d = some d' ∧ documentsOf failure (ms ++ rest) d first = documentsOf failure rest d' first := by
  induction ms generalizing d with
  | nil => exact ⟨d, rfl, rfl⟩
  | cons m ms ih =>
    obtain ⟨hm, hms⟩ := List.forall_mem_cons.mp hms
    rw [List.cons_append] at hok ⊢
    obtain ⟨d₁, hd₁, hdocuments⟩ := documentsOf_cons hm hok
    rw [hdocuments] at hok ⊢
    obtain ⟨d', hd', hrest⟩ := ih hms hok
    refine ⟨d', ?_, hrest⟩
    rw [List.foldlM_cons, hd₁]
    exact hd'

def unmark (d : Draft) : Draft := { d with nodes := d.nodes.map fun n => (n.1, .start) }

theorem add_unmark (d : Draft) (m : Marked) : d.unmark.add m.unmark = (d.add m).map unmark := by
  have hanchor : d.unmark.anchor m.event.anchor? = (d.anchor m.event.anchor?).unmark := by
    cases m.event.anchor? with
    | none => rfl
    | some name =>
      simp only [anchor, unmark, List.length_map]
      rfl
  unfold add
  rw [Option.map_map]
  refine congrArg (Option.map · _) (funext fun n => ?_)
  exact congrArg (fun d => push d n .start) hanchor

theorem foldlM_unmark (d : Draft) (ms : List Marked) :
    (ms.map Marked.unmark).foldlM add d.unmark = (ms.foldlM add d).map unmark := by
  induction ms generalizing d with
  | nil => rfl
  | cons m ms ih =>
    rw [List.map_cons, List.foldlM_cons, List.foldlM_cons, add_unmark]
    cases d.add m with
    | none => rfl
    | some d' => exact ih d'

theorem add_eq (h : d.add m = some d') :
    ∃ n, n.shape = m.event.shape ∧ d'.nodes = (n, m.mark) :: d.nodes ∧
      d'.names = (d.anchor m.event.anchor?).names ∧ d'.positions = (d.anchor m.event.anchor?).positions := by
  obtain ⟨n, hn, rfl⟩ := Option.map_eq_some_iff.mp h
  refine ⟨n, Event.shape_node? hn, ?_, rfl, rfl⟩
  cases m.event.anchor? <;> rfl

/-- What a draft of events holds: their nodes, names of anchors, and places of events that have anchors. -/
structure Holds (d : Draft) (es : List Event) : Prop where
  nodes : d.nodes.reverse.map (·.1.shape) = es.map Event.shape
  names : ∀ n ∈ d.names, ∃ e ∈ es, e.anchor? = some n.1
  positions : ∀ p ∈ d.positions, ∃ e, es[p.2]? = some e ∧ e.anchor? ≠ none

namespace Holds

variable {es : List Event}

theorem empty : Draft.empty.Holds [] := ⟨rfl, nofun, nofun⟩

theorem length_nodes (h : d.Holds es) : d.nodes.length = es.length := by simpa using congrArg List.length h.nodes

theorem add (h : d.Holds es) (hadd : d.add m = some d') : d'.Holds (es ++ [m.event]) := by
  obtain ⟨n, hshape, hnodes, hnames, hpositions⟩ := add_eq hadd
  have hlater {p : Nat × Nat} (hp : p ∈ d.positions) : ∃ e, (es ++ [m.event])[p.2]? = some e ∧ e.anchor? ≠ none := by
    obtain ⟨e, he, hanchor⟩ := h.positions p hp
    exact ⟨e, List.getElem?_append_left (List.getElem?_eq_some_iff.mp he).1 ▸ he, hanchor⟩
  have hold {a : String × Nat} (ha : a ∈ d.names) : ∃ e ∈ es ++ [m.event], e.anchor? = some a.1 := by
    obtain ⟨e, he, hanchor⟩ := h.names a ha
    exact ⟨e, List.mem_append_left _ he, hanchor⟩
  constructor
  · rw [hnodes, List.reverse_cons, List.map_append, List.map_append, h.nodes, List.map_cons, hshape]
    rfl
  · rw [hnames]
    cases hanchor : m.event.anchor? with
    | none => exact fun a ha => hold ha
    | some name =>
      have hnew : ∃ e ∈ es ++ [m.event], e.anchor? = some name := ⟨_, List.mem_concat_self, hanchor⟩
      intro a ha
      simp only [anchor] at ha
      split at ha
      · obtain ⟨b, hb, rfl⟩ := List.mem_map.mp ha
        split
        · exact hnew
        · exact hold hb
      · obtain ha | ha := List.mem_append.mp ha
        · exact hold ha
        · cases List.mem_singleton.mp ha
          exact hnew
  · rw [hpositions]
    cases hanchor : m.event.anchor? with
    | none => exact fun p hp => hlater hp
    | some name =>
      intro p hp
      obtain rfl | hp := List.mem_cons.mp hp
      · exact ⟨m.event, by rw [h.length_nodes, List.getElem?_concat_length], by simp [hanchor]⟩
      · exact hlater hp

theorem foldlM (h : d.Holds es) (hadd : ms.foldlM Draft.add d = some d') :
    d'.Holds (es ++ ms.map (·.event)) := by
  induction ms generalizing d es with
  | nil =>
    cases hadd
    simpa using h
  | cons m ms ih =>
    rw [List.foldlM_cons] at hadd
    obtain ⟨d₁, hd₁, hadd⟩ := Option.bind_eq_some_iff.mp hadd
    simpa using ih (h.add hd₁) hadd

end Holds

/-- An anchor of a draft is at a place, and no later anchor takes its number. -/
def Places (d : Draft) (name : String) (i : Nat) : Prop :=
  ∃ id, d.names.lookup name = some id ∧ id < d.names.length ∧ d.positions.lookup id = some i

variable {es : List Event} {name : String} {i : Nat}

theorem places_add (h : d.Holds es) (hnew : ∀ e ∈ es, e.anchor? ≠ some name) (hm : m.event.anchor? = some name)
    (hadd : d.add m = some d') : d'.Places name es.length := by
  obtain ⟨n, -, -, hnames, hpositions⟩ := add_eq hadd
  have hnone (a : String × Nat) (ha : a ∈ d.names) : a.1 ≠ name := by
    rintro rfl
    obtain ⟨e, he, hanchor⟩ := h.names a ha
    exact hnew e he hanchor
  have hany : d.names.any (·.1 = name) = false := by simpa using hnone
  rw [hm] at hnames hpositions
  simp only [anchor, hany, h.length_nodes] at hnames hpositions
  refine ⟨d.names.length, ?_, by simp [hnames], by simp [hpositions]⟩
  have hlookup : d.names.lookup name = none := List.lookup_eq_none_iff.mpr fun a ha => by simpa using (hnone a ha).symm
  simp [hnames, List.lookup_append, hlookup]

theorem lookup_anchor {other : String} (h : name ≠ other) :
    (d.anchor (some other)).names.lookup name = d.names.lookup name := by
  have hother : (name == other) = false := by simpa using h
  simp only [anchor]
  split
  · generalize d.names.length = id
    induction d.names with
    | nil => rfl
    | cons a names ih =>
      obtain ⟨b, j⟩ := a
      by_cases hb : b = other
      · subst hb
        simpa only [List.map_cons, if_pos, List.lookup, hother] using ih
      · simp only [List.map_cons, if_neg hb, List.lookup, ih]
  · simp [List.lookup_append, List.lookup, hother]

theorem length_names_anchor (d : Draft) (anchor? : Option String) :
    d.names.length ≤ (d.anchor anchor?).names.length := by
  cases anchor? with
  | none => exact le_rfl
  | some name =>
    simp only [anchor]
    split <;> simp

theorem Places.add (h : d.Places name i) (hm : m.event.anchor? ≠ some name) (hadd : d.add m = some d') :
    d'.Places name i := by
  obtain ⟨id, hname, hid, hposition⟩ := h
  obtain ⟨n, -, -, hnames, hpositions⟩ := add_eq hadd
  refine ⟨id, ?_, hnames ▸ hid.trans_le (length_names_anchor d _), ?_⟩
  · rw [hnames, ← hname]
    cases hanchor : m.event.anchor? with
    | none => rfl
    | some other => exact lookup_anchor fun h => hm (by rw [hanchor, h])
  · rw [hpositions]
    cases m.event.anchor? with
    | none => exact hposition
    | some other =>
      have hother : (id == d.names.length) = false := by simpa using hid.ne
      simp only [anchor, List.lookup, hother, hposition]

theorem Places.foldlM (h : d.Places name i) (hms : ∀ m ∈ ms, m.event.anchor? ≠ some name)
    (hadd : ms.foldlM Draft.add d = some d') : d'.Places name i := by
  induction ms generalizing d with
  | nil =>
    cases hadd
    exact h
  | cons m ms ih =>
    obtain ⟨hm, hms⟩ := List.forall_mem_cons.mp hms
    rw [List.foldlM_cons] at hadd
    obtain ⟨d₁, hd₁, hadd⟩ := Option.bind_eq_some_iff.mp hadd
    exact ih (h.add hm hd₁) hms hadd

def place (positions : List (Nat × Nat)) : Node → Node
  | .alias id => .alias ((positions.lookup id).getD 0)
  | n => n

def placed (d : Draft) : List Node := d.nodes.reverse.map fun n => place d.positions n.1

theorem finish_nodes (d : Draft) (failure : Option Error) : (d.finish failure).nodes.map (·.1) = d.placed := by
  simp only [finish, placed, List.map_reverse, List.map_map]
  refine congrArg _ (List.map_congr_left fun n _ => ?_)
  obtain ⟨n, m⟩ := n
  cases n <;> rfl

theorem placed_unmark (d : Draft) : d.unmark.placed = d.placed := by
  simp only [placed, unmark, ← List.map_reverse, List.map_map]
  rfl

theorem shape_placed (h : d.Holds es) : d.placed.map Node.shape = es.map Event.shape := by
  rw [← h.nodes, placed, List.map_map]
  refine List.map_congr_left fun n _ => ?_
  obtain ⟨n, m⟩ := n
  cases n <;> rfl

theorem target_placed (h : d.Holds es) {j : Nat} (hj : .alias j ∈ d.placed) :
    j = 0 ∨ ∃ e, es[j]? = some e ∧ e.anchor? ≠ none := by
  obtain ⟨⟨n, m⟩, -, hn⟩ := List.mem_map.mp hj
  cases n with
  | «alias» id =>
    cases hn
    cases hposition : d.positions.lookup id with
    | none => exact Or.inl rfl
    | some j =>
      obtain ⟨before, after, hsplit, -⟩ := List.lookup_eq_some_iff.mp hposition
      exact Or.inr (h.positions (id, j) (hsplit ▸ List.mem_append_right _ List.mem_cons_self))
  | _ => cases hn

theorem placed_add (hm : m.event.anchor? = none) (hadd : d.add m = some d') :
    ∃ n, m.event.node? d.names = some n ∧ d'.placed = d.placed ++ [place d.positions n] ∧
      d'.names = d.names ∧ d'.positions = d.positions := by
  obtain ⟨n, hn, rfl⟩ := Option.map_eq_some_iff.mp hadd
  rw [hm]
  refine ⟨n, hn, ?_, rfl, rfl⟩
  simp [placed, push, anchor]

theorem unmark_eq {ms' : List Marked} {d₁ d₂ : Draft} (hms : ms.map (·.event) = ms'.map (·.event))
    (h : ms.foldlM Draft.add d = some d₁) (h' : ms'.foldlM Draft.add d = some d₂) : d₁.unmark = d₂.unmark := by
  have hunmark (ms : List Marked) : ms.map Marked.unmark = (ms.map (·.event)).map fun e => ⟨e, .start⟩ := by
    rw [List.map_map]
    rfl
  have hsame : ms.map Marked.unmark = ms'.map Marked.unmark := by rw [hunmark, hunmark, hms]
  have hdrafts := (foldlM_unmark d ms).symm.trans ((congrArg _ hsame).trans (foldlM_unmark d ms'))
  rw [h, h'] at hdrafts
  exact Option.some.inj hdrafts

theorem foldlM_split {fs : List Event} (hms : ms.map (·.event) = es ++ fs) (h : ms.foldlM Draft.add d = some d') :
    ∃ (ms₁ ms₂ : List Marked) (d₁ : Draft), ms₁.map (·.event) = es ∧ ms₂.map (·.event) = fs ∧
      ms₁.foldlM Draft.add d = some d₁ ∧ ms₂.foldlM Draft.add d₁ = some d' := by
  obtain ⟨ms₁, ms₂, rfl, hms₁, hms₂⟩ := List.map_eq_append_iff.mp hms
  rw [List.foldlM_append] at h
  obtain ⟨d₁, hd₁, h⟩ := Option.bind_eq_some_iff.mp h
  exact ⟨ms₁, ms₂, d₁, hms₁, hms₂, hd₁, h⟩

theorem add_of_foldlM {e : Event} {fs : List Event} (hms : ms.map (·.event) = e :: fs)
    (h : ms.foldlM Draft.add d = some d') :
    ∃ (m : Marked) (ms' : List Marked) (d₁ : Draft), m.event = e ∧ ms'.map (·.event) = fs ∧ d.add m = some d₁ ∧
      ms'.foldlM Draft.add d₁ = some d' := by
  obtain ⟨m, ms', rfl, hm, hms'⟩ := List.map_eq_cons_iff.mp hms
  rw [List.foldlM_cons] at h
  obtain ⟨d₁, hd₁, h⟩ := Option.bind_eq_some_iff.mp h
  exact ⟨m, ms', d₁, hm, hms', hd₁, h⟩

theorem places_foldlM {before after : List Event} {e : Event} (hms : ms.map (·.event) = before ++ e :: after)
    (he : e.anchor? = some name) (hbefore : ∀ f ∈ before, f.anchor? ≠ some name)
    (hafter : ∀ f ∈ after, f.anchor? ≠ some name) (h : ms.foldlM Draft.add .empty = some d) :
    d.Places name before.length := by
  obtain ⟨ms₁, ms₂, d₁, hms₁, hms₂, hd₁, h⟩ := foldlM_split hms h
  obtain ⟨m, ms₃, d₂, rfl, hms₃, hd₂, h⟩ := add_of_foldlM hms₂ h
  have hholds : d₁.Holds before := by simpa [hms₁] using Holds.empty.foldlM hd₁
  refine (places_add hholds hbefore he hd₂).foldlM (fun m hm => ?_) h
  exact hafter _ (hms₃ ▸ List.mem_map_of_mem hm)

end Draft

theorem documents_of_readsAs {text : String} {t : NodeTree} (h : ReadsAs text t)
    (hok : ∀ r ∈ values text, ∃ v, r = .ok v) :
    ∃ (ms : List Marked) (d : Draft), ms.map (·.event) = t.events ∧ ms.foldlM Draft.add .empty = some d ∧
      documents text = [d.finish none] := by
  obtain ⟨⟨e₀, mark₀⟩, all, hevents, he₀, hall⟩ := List.map_eq_cons_iff.mp h
  obtain ⟨ms, ends, rfl, hms, hends⟩ := List.map_eq_append_iff.mp hall
  obtain ⟨⟨e₁, mark₁⟩, last, rfl, he₁, hlast⟩ := List.map_eq_cons_iff.mp hends
  obtain ⟨⟨e₂, mark₂⟩, nothing, rfl, he₂, hnothing⟩ := List.map_eq_cons_iff.mp hlast
  obtain rfl := List.map_eq_nil_iff.mp hnothing
  dsimp only at he₀ he₁ he₂
  subst he₀ he₁ he₂
  have hfailures : ∀ d ∈ documents text, d.failure = none := fun d hd =>
    (hok d.value (List.mem_map_of_mem hd)).elim fun _ hv => Document.failure_of_value hv
  have hdocuments : documents text = documentsOf (events text).2 (events text).1 .empty true := rfl
  rw [hdocuments, hevents] at hfailures
  have hparts : ∀ m ∈ ms, m.event.isPart = true := fun m hm => t.isPart_events _ (hms ▸ List.mem_map_of_mem hm)
  obtain ⟨d, hd, hrest⟩ := Draft.documentsOf_append hparts hfailures
  refine ⟨ms, d, hms, hd, ?_⟩
  rw [hdocuments, hevents]
  exact hrest

/-- The documents of two texts of which one is read with an entry more, whose value is an alias of an anchor that one
event has. -/
theorem documents_entry {text text' x sentinel : String} {p : Properties} {entries : List (NodeTree × NodeTree)}
    {before after : List Event} {e : Event} (h : ReadsAs text (.mapping p entries))
    (h' : ReadsAs text' (.mapping p (entries ++ [(.scalar .none sentinel true, .alias x)])))
    (hok : ∀ r ∈ values text, ∃ v, r = .ok v) (hok' : ∀ r ∈ values text', ∃ v, r = .ok v)
    (hsplit : .mappingStart p :: NodeTree.entryEvents entries = before ++ e :: after) (he : e.anchor? = some x)
    (hbefore : ∀ f ∈ before, f.anchor? ≠ some x) (hafter : ∀ f ∈ after, f.anchor? ≠ some x) :
    ∃ (d d' : Document) (ns : List Node), documents text = [d] ∧ documents text' = [d'] ∧
      d.nodes.map (·.1) = ns ++ [.mappingEnd] ∧
      d'.nodes.map (·.1) = ns ++ [.scalar none sentinel true, .alias before.length, .mappingEnd] ∧
      ns.map Node.shape = (Event.mappingStart p :: NodeTree.entryEvents entries).map Event.shape ∧
      ∀ j, .alias j ∈ ns →
        j = 0 ∨ ∃ f, (Event.mappingStart p :: NodeTree.entryEvents entries)[j]? = some f ∧ f.anchor? ≠ none := by
  obtain ⟨ms, d, hms, hd, hdocuments⟩ := documents_of_readsAs h hok
  obtain ⟨ms', d', hms', hd', hdocuments'⟩ := documents_of_readsAs h' hok'
  have hevents : (NodeTree.mapping p entries).events =
      (.mappingStart p :: NodeTree.entryEvents entries) ++ [.mappingEnd] := by
    rw [NodeTree.events, List.cons_append]
  have hevents' :
      (NodeTree.mapping p (entries ++ [(.scalar .none sentinel true, .alias x)])).events =
        (.mappingStart p :: NodeTree.entryEvents entries) ++
          [.scalar .none sentinel true, .alias x, .mappingEnd] := by
    simp [NodeTree.events, NodeTree.entryEvents_append, NodeTree.entryEvents]
  rw [hevents] at hms
  rw [hevents'] at hms'
  obtain ⟨ms₁, ms₂, d₁, hms₁, hms₂, hd₁, hd⟩ := Draft.foldlM_split hms hd
  obtain ⟨ms₁', ms₂', d₁', hms₁', hms₂', hd₁', hd'⟩ := Draft.foldlM_split hms' hd'
  have hunmark := Draft.unmark_eq (hms₁.trans hms₁'.symm) hd₁ hd₁'
  have hplaced : d₁.placed = d₁'.placed := by rw [← d₁.placed_unmark, hunmark, d₁'.placed_unmark]
  have hholds : d₁.Holds (.mappingStart p :: NodeTree.entryEvents entries) := by
    simpa [hms₁] using Draft.Holds.empty.foldlM hd₁
  -- the first text ends its mapping after the entries
  obtain ⟨m, rest, d₂, hm, hrest, hd₂, hd⟩ := Draft.add_of_foldlM hms₂ hd
  obtain rfl := List.map_eq_nil_iff.mp hrest
  cases hd
  obtain ⟨n, hn, hplaced₂, -, -⟩ := Draft.placed_add (by rw [hm]; rfl) hd₂
  rw [hm] at hn
  cases hn
  -- the second one has the entry before that
  obtain ⟨x₁, rest₁, e₁, hx₁, hrest₁, he₁, hd'⟩ := Draft.add_of_foldlM hms₂' hd'
  obtain ⟨x₂, rest₂, e₂, hx₂, hrest₂, he₂, hd'⟩ := Draft.add_of_foldlM hrest₁ hd'
  obtain ⟨x₃, rest₃, e₃, hx₃, hrest₃, he₃, hd'⟩ := Draft.add_of_foldlM hrest₂ hd'
  obtain rfl := List.map_eq_nil_iff.mp hrest₃
  cases hd'
  obtain ⟨n₁, hn₁, hplaced₁', hnames₁, hpositions₁⟩ := Draft.placed_add (by rw [hx₁]; rfl) he₁
  obtain ⟨n₂, hn₂, hplaced₂', hnames₂, hpositions₂⟩ := Draft.placed_add (by rw [hx₂]; rfl) he₂
  obtain ⟨n₃, hn₃, hplaced₃', -, -⟩ := Draft.placed_add (by rw [hx₃]; rfl) he₃
  obtain ⟨id, hname, -, hposition⟩ := Draft.places_foldlM (hms₁'.trans hsplit) he hbefore hafter hd₁'
  rw [hx₁] at hn₁
  rw [hx₂, hnames₁, Event.node?, hname] at hn₂
  rw [hx₃] at hn₃
  cases hn₁
  cases hn₂
  cases hn₃
  refine ⟨_, _, d₁.placed, hdocuments, hdocuments', ?_, ?_, Draft.shape_placed hholds, fun j hj =>
    Draft.target_placed hholds hj⟩
  · rw [Draft.finish_nodes, hplaced₂]
    rfl
  · rw [Draft.finish_nodes, hplaced₃', hplaced₂', hplaced₁', hplaced, hpositions₁]
    simp [Draft.place, hposition, Properties.none]

end YamlInclude.Yaml
