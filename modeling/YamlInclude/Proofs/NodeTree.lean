import YamlInclude.Proofs.AnchorScan

/-! # Trees of nodes

The events of a document are those of a tree. Each event of a tree that begins a node is where a part of the tree
begins.
-/

namespace YamlInclude.Yaml

/-- A node as it is written: an alias, a scalar, or a collection of nodes. -/
inductive NodeTree where
  | alias (name : String)
  | scalar (properties : Properties) (text : String) (plain : Bool)
  | sequence (properties : Properties) (items : List NodeTree)
  | mapping (properties : Properties) (entries : List (NodeTree × NodeTree))

namespace NodeTree

mutual

def events : NodeTree → List Event
  | .alias name => [.alias name]
  | .scalar p text plain => [.scalar p text plain]
  | .sequence p ts => .sequenceStart p :: (itemEvents ts ++ [.sequenceEnd])
  | .mapping p es => .mappingStart p :: (entryEvents es ++ [.mappingEnd])

def itemEvents : List NodeTree → List Event
  | [] => []
  | t :: ts => t.events ++ itemEvents ts

def entryEvents : List (NodeTree × NodeTree) → List Event
  | [] => []
  | (k, v) :: es => k.events ++ (v.events ++ entryEvents es)

end

def anchor? : NodeTree → Option String
  | .alias _ => none
  | .scalar p _ _ | .sequence p _ | .mapping p _ => p.anchor

def anchors (t : NodeTree) : List String := t.events.filterMap Event.anchor?

theorem entryEvents_append (es fs : List (NodeTree × NodeTree)) :
    entryEvents (es ++ fs) = entryEvents es ++ entryEvents fs := by
  induction es with
  | nil => rfl
  | cons e es ih =>
    obtain ⟨k, v⟩ := e
    simp [entryEvents, ih]

end NodeTree

def Event.isPart : Event → Bool
  | .documentStart | .documentEnd | .streamEnd => false
  | _ => true

namespace NodeTree

mutual

theorem isPart_events (t : NodeTree) : ∀ e ∈ t.events, e.isPart = true := by
  cases t with
  | «alias» name => simp [events, Event.isPart]
  | scalar p text plain => simp [events, Event.isPart]
  | sequence p ts => simpa [events, or_imp, forall_and, Event.isPart] using isPart_itemEvents ts
  | mapping p es => simpa [events, or_imp, forall_and, Event.isPart] using isPart_entryEvents es

theorem isPart_itemEvents (ts : List NodeTree) : ∀ e ∈ itemEvents ts, e.isPart = true := by
  match ts with
  | [] => exact nofun
  | t :: ts => exact List.forall_mem_append.mpr ⟨isPart_events t, isPart_itemEvents ts⟩

theorem isPart_entryEvents (es : List (NodeTree × NodeTree)) : ∀ e ∈ entryEvents es, e.isPart = true := by
  match es with
  | [] => exact nofun
  | (k, v) :: es =>
    exact List.forall_mem_append.mpr
      ⟨isPart_events k, List.forall_mem_append.mpr ⟨isPart_events v, isPart_entryEvents es⟩⟩

end

end NodeTree

def Event.begins : Event → Bool
  | .alias _ | .scalar .. | .sequenceStart _ | .mappingStart _ => true
  | _ => false

theorem NodeTree.events_eq_cons (t : NodeTree) :
    ∃ e es, t.events = e :: es ∧ e.begins = true ∧ e.anchor? = t.anchor? := by
  cases t with
  | «alias» name => exact ⟨_, _, rfl, rfl, rfl⟩
  | scalar p text plain => exact ⟨_, _, rfl, rfl, rfl⟩
  | sequence p ts => exact ⟨_, _, rfl, rfl, rfl⟩
  | mapping p es => exact ⟨_, _, rfl, rfl, rfl⟩

/-- Events in which each one that begins a node is followed by the rest of a node. -/
def WellNested (es : List Event) : Prop :=
  ∀ before e after, es = before ++ e :: after → e.begins = true →
    ∃ t rest, e :: after = NodeTree.events t ++ rest

namespace WellNested

variable {es fs : List Event} {e : Event}

theorem nil : WellNested [] := by
  intro before e after h
  simp at h

theorem cons (h : WellNested es) (he : e.begins = true → ∃ t rest, e :: es = NodeTree.events t ++ rest) :
    WellNested (e :: es) := by
  intro before f after hsplit hf
  cases before with
  | nil =>
    obtain ⟨rfl, rfl⟩ := List.cons.inj hsplit
    exact he hf
  | cons _ before => exact h before f after (List.cons.inj hsplit).2 hf

theorem append (hes : WellNested es) (hfs : WellNested fs) : WellNested (es ++ fs) := by
  intro before e after hsplit he
  obtain ⟨as, rfl, htail⟩ | ⟨as, rfl, htail⟩ := List.append_eq_append_iff.mp hsplit
  · exact hfs as e after htail he
  · cases as with
    | nil => exact hfs [] e after htail.symm he
    | cons a as =>
      obtain ⟨rfl, rfl⟩ := List.cons.inj htail
      obtain ⟨t, rest, ht⟩ := hes before e as rfl he
      exact ⟨t, rest ++ fs, by rw [← List.append_assoc, ← ht]; rfl⟩

theorem ending (he : e.begins = false) : WellNested [e] := nil.cons fun h => absurd (h.symm.trans he) nofun

end WellNested

namespace NodeTree

mutual

theorem nested_events (t : NodeTree) : WellNested t.events := by
  cases t with
  | «alias» name => exact WellNested.nil.cons fun _ => ⟨.alias name, [], rfl⟩
  | scalar p text plain => exact WellNested.nil.cons fun _ => ⟨.scalar p text plain, [], rfl⟩
  | sequence p ts =>
    exact ((nested_itemEvents ts).append (.ending rfl)).cons fun _ => ⟨.sequence p ts, [], (List.append_nil _).symm⟩
  | mapping p es =>
    exact ((nested_entryEvents es).append (.ending rfl)).cons fun _ => ⟨.mapping p es, [], (List.append_nil _).symm⟩

theorem nested_itemEvents (ts : List NodeTree) : WellNested (itemEvents ts) := by
  match ts with
  | [] => exact WellNested.nil
  | t :: ts => exact (nested_events t).append (nested_itemEvents ts)

theorem nested_entryEvents (es : List (NodeTree × NodeTree)) : WellNested (entryEvents es) := by
  match es with
  | [] => exact WellNested.nil
  | (k, v) :: es => exact (nested_events k).append ((nested_events v).append (nested_entryEvents es))

end

end NodeTree

/-- A text is read as one document with a tree of nodes. -/
def ReadsAs (text : String) (t : NodeTree) : Prop :=
  (events text).1.map (·.event) = .documentStart :: (t.events ++ [.documentEnd, .streamEnd])

instance (text : String) (t : NodeTree) : Decidable (ReadsAs text t) := inferInstanceAs (Decidable (_ = _))

end YamlInclude.Yaml
