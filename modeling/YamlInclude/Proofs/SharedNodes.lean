import YamlInclude.Proofs.DocumentNodes
import YamlInclude.Proofs.Keys

/-! # Nodes that documents share

Two documents begin with the same nodes, and an alias among these points at the first one or at a node that lies
within them. Then both documents have the same values for the nodes that they share, as long as none of these is
inside a node that it points at itself.
-/

namespace YamlInclude.Yaml

def Node.begins : Node → Bool
  | .alias _ | .scalar .. | .sequenceStart _ | .mappingStart _ => true
  | _ => false

theorem Node.begins_of_shape {n : Node} {e : Event} (h : n.shape = e.shape) (he : e.begins = true) :
    n.begins = true := by
  cases e <;> first | (cases n <;> first | (cases h; done) | rfl) | cases he

/-- The nodes from some place on that stand for events, among the nodes that are shared. -/
structure Fits (shared : List Node) (es : List Event) (ns : List Node) : Prop where
  shapes : ns.map Node.shape = es.map Event.shape
  within : ns ⊆ shared

namespace Fits

variable {shared ns : List Node} {es fs : List Event} {e : Event}

theorem nil_iff : Fits shared [] ns ↔ ns = [] :=
  ⟨fun h => List.map_eq_nil_iff.mp h.shapes, fun h => h ▸ ⟨rfl, List.nil_subset _⟩⟩

theorem cons (h : Fits shared (e :: es) ns) :
    ∃ n ns', ns = n :: ns' ∧ n.shape = e.shape ∧ n ∈ shared ∧ Fits shared es ns' := by
  obtain ⟨n, ns', rfl, hn, hns'⟩ := List.map_eq_cons_iff.mp h.shapes
  exact ⟨n, ns', rfl, hn, h.within List.mem_cons_self, hns', fun _ hm => h.within (List.mem_cons_of_mem _ hm)⟩

theorem append (h : Fits shared (es ++ fs) ns) :
    ∃ ns₁ ns₂, ns = ns₁ ++ ns₂ ∧ Fits shared es ns₁ ∧ Fits shared fs ns₂ := by
  obtain ⟨ns₁, ns₂, rfl, h₁, h₂⟩ := List.map_eq_append_iff.mp ((h.shapes).trans List.map_append)
  exact ⟨ns₁, ns₂, rfl, ⟨h₁, fun _ hm => h.within (List.mem_append_left _ hm)⟩,
    ⟨h₂, fun _ hm => h.within (List.mem_append_right _ hm)⟩⟩

theorem single (h : Fits shared [e] ns) : ∃ n, ns = [n] ∧ n.shape = e.shape ∧ n ∈ shared := by
  obtain ⟨n, ns', rfl, hn, hshared, hns'⟩ := h.cons
  exact ⟨n, by rw [nil_iff.mp hns'], hn, hshared⟩

theorem collection {last : Event} (h : Fits shared (e :: (es ++ [last])) ns) :
    ∃ n ns' m, ns = n :: (ns' ++ [m]) ∧ n.shape = e.shape ∧ Fits shared es ns' ∧ m.shape = last.shape := by
  obtain ⟨n, rest, rfl, hn, -, hrest⟩ := h.cons
  obtain ⟨ns', ms, rfl, hns', hms⟩ := hrest.append
  obtain ⟨m, rfl, hm, -⟩ := hms.single
  exact ⟨n, ns', m, rfl, hn, hns', hm⟩

theorem begins {t : NodeTree} (h : Fits shared t.events ns) : ∃ n ns', ns = n :: ns' ∧ n.begins = true := by
  obtain ⟨e, es, hevents, he, -⟩ := t.events_eq_cons
  rw [hevents] at h
  obtain ⟨n, ns', rfl, hn, -, -⟩ := h.cons
  exact ⟨n, ns', rfl, Node.begins_of_shape hn he⟩

theorem alias_or_node {t : NodeTree} (h : Fits shared t.events ns) :
    (∃ j, t.anchor? = none ∧ ns = [.alias j] ∧ .alias j ∈ shared) ∨ ∃ n ns', ns = n :: ns' ∧ ∀ j, n ≠ .alias j := by
  cases t with
  | «alias» name =>
    obtain ⟨n, rfl, hn, hshared⟩ := h.single
    cases n with
    | «alias» j => exact Or.inl ⟨j, rfl, rfl, hshared⟩
    | _ => cases hn
  | _ =>
    obtain ⟨n, ns', rfl, hn, -⟩ := h.cons
    exact Or.inr ⟨n, ns', rfl, by rintro j rfl; cases hn⟩

end Fits

namespace Document

def Reading.nodes (r : Reading) : List Node := r.rest.map (·.1)

variable {d d' : Document} {r s : Reading} {n : Node} {m : Mark} {ns : List Node} {path : List PathStep}
variable {one : Reader Value} {v : Value}

theorem peek_nodes {n' : Node} (h : d.peek r = .ok (n', m)) (hr : r.nodes = n :: ns) :
    n' = n ∧ r.skip.nodes = ns := by
  obtain ⟨rest, jumps⟩ := r
  cases rest with
  | nil => cases hr
  | cons _ rest =>
    cases h
    exact List.cons.inj hr

section Inversion

variable {fuel i : Nat} {vs : List Value} {seen es : Entries} {mark : Mark} {inner : Option (Reader Value)}
variable {tag : Option Tag}

theorem readItems_end (hr : r.nodes = .sequenceEnd :: ns) (h : d.readItems one path fuel i r = .ok (vs, s)) :
    vs = [] ∧ s.nodes = ns := by
  cases fuel with
  | zero => cases h
  | succ fuel =>
    obtain ⟨⟨n, m⟩, hn, h⟩ := bind_ok h
    obtain ⟨rfl, hskip⟩ := peek_nodes hn hr
    cases h
    exact ⟨rfl, hskip⟩

theorem readItems_item (hr : r.nodes = n :: ns) (hn : n.begins = true)
    (h : d.readItems one path fuel i r = .ok (vs, s)) :
    ∃ fuel' v r₁ ws, one (path ++ [.item i]) r = .ok (v, r₁) ∧
      d.readItems one path fuel' (i + 1) r₁ = .ok (ws, s) ∧ vs = v :: ws := by
  cases fuel with
  | zero => cases h
  | succ fuel =>
    obtain ⟨⟨n', m⟩, hpeek, h⟩ := bind_ok h
    obtain ⟨rfl, -⟩ := peek_nodes hpeek hr
    cases n'
    case sequenceEnd | mappingEnd | void => cases hn
    all_goals
      obtain ⟨⟨v, r₁⟩, hv, h⟩ := bind_ok h
      obtain ⟨⟨ws, r₂⟩, hws, h⟩ := bind_ok h
      cases h
      exact ⟨fuel, v, r₁, ws, hv, hws, rfl⟩

theorem readEntries_end (hr : r.nodes = .mappingEnd :: ns)
    (h : d.readEntries one path mark fuel seen r = .ok (es, s)) : es = seen ∧ s.nodes = ns := by
  cases fuel with
  | zero => cases h
  | succ fuel =>
    obtain ⟨⟨n, m⟩, hn, h⟩ := bind_ok h
    obtain ⟨rfl, hskip⟩ := peek_nodes hn hr
    cases h
    exact ⟨rfl, hskip⟩

theorem readEntries_entry (hr : r.nodes = n :: ns) (hn : n.begins = true)
    (h : d.readEntries one path mark fuel seen r = .ok (es, s)) :
    ∃ fuel' k r₁ v r₂, one path r = .ok (k, r₁) ∧ one (path ++ [keyStep n]) r₁ = .ok (v, r₂) ∧
      d.readEntries one path mark fuel' (seen ++ [(k, v)]) r₂ = .ok (es, s) := by
  cases fuel with
  | zero => cases h
  | succ fuel =>
    obtain ⟨⟨n', m⟩, hpeek, h⟩ := bind_ok h
    obtain ⟨rfl, -⟩ := peek_nodes hpeek hr
    cases n'
    case sequenceEnd | mappingEnd | void => cases hn
    all_goals
      obtain ⟨⟨k, r₁⟩, hk, h⟩ := bind_ok h
      dsimp only at h
      split at h
      · cases h
      · obtain ⟨⟨v, r₂⟩, hv, h⟩ := bind_ok h
        exact ⟨fuel, k, r₁, v, r₂, hk, hv, h⟩

theorem readShape_scalar {text : String} {plain : Bool} (hr : r.nodes = .scalar tag text plain :: ns)
    (h : d.readShape inner path r = .ok (v, s)) : scalarValue tag text plain = .ok v ∧ s.nodes = ns := by
  obtain ⟨⟨n, m⟩, hn, h⟩ := bind_ok h
  obtain ⟨rfl, hskip⟩ := peek_nodes hn hr
  dsimp only at h
  split at h
  next hv =>
    cases h
    exact ⟨hv, hskip⟩
  · cases h

theorem readShape_sequence (hr : r.nodes = .sequenceStart tag :: ns) (h : d.readShape inner path r = .ok (v, s)) :
    ∃ one fuel r₁ vs, inner = some one ∧ r₁.nodes = ns ∧ d.readItems one path fuel 0 r₁ = .ok (vs, s) ∧
      v = withTag tag (.sequence vs) := by
  obtain ⟨⟨n, m⟩, hn, h⟩ := bind_ok h
  obtain ⟨rfl, hskip⟩ := peek_nodes hn hr
  cases inner with
  | none => cases h
  | some one =>
    obtain ⟨⟨vs, r₁⟩, hvs, h⟩ := bind_ok h
    cases h
    exact ⟨one, _, _, vs, rfl, hskip, hvs, rfl⟩

theorem readShape_mapping (hr : r.nodes = .mappingStart tag :: ns) (h : d.readShape inner path r = .ok (v, s)) :
    ∃ one mark fuel r₁ es, inner = some one ∧ r₁.nodes = ns ∧ d.readEntries one path mark fuel [] r₁ = .ok (es, s) ∧
      v = withTag tag (.mapping es) := by
  obtain ⟨⟨n, m⟩, hn, h⟩ := bind_ok h
  obtain ⟨rfl, hskip⟩ := peek_nodes hn hr
  cases inner with
  | none => cases h
  | some one =>
    obtain ⟨⟨es, r₁⟩, hes, h⟩ := bind_ok h
    cases h
    exact ⟨one, m, _, _, es, rfl, hskip, hes, rfl⟩

theorem readShape_alias {target : Nat} (hr : r.nodes = .alias target :: ns)
    (h : d.readShape inner path r = .ok (v, s)) : v = .null ∧ s.nodes = ns := by
  obtain ⟨⟨n, m⟩, hn, h⟩ := bind_ok h
  obtain ⟨rfl, hskip⟩ := peek_nodes hn hr
  cases h
  exact ⟨rfl, hskip⟩

theorem followAlias_alias {here : Reader Value} {target : Nat} (hr : r.nodes = .alias target :: ns)
    (h : d.followAlias here path r = .ok (v, s)) :
    ∃ path' jumps inner, here path' ⟨d.nodes.drop target, jumps⟩ = .ok (v, inner) ∧ s.nodes = ns := by
  obtain ⟨⟨n, m⟩, hn, h⟩ := bind_ok h
  obtain ⟨rfl, hskip⟩ := peek_nodes hn hr
  dsimp only at h
  split at h
  · cases h
  · obtain ⟨⟨w, inner⟩, hw, h⟩ := bind_ok h
    cases h
    exact ⟨_, _, inner, hw, hskip⟩

theorem followAlias_node {here : Reader Value} (hr : r.nodes = n :: ns) (hn : ∀ target, n ≠ .alias target)
    (h : d.followAlias here path r = .ok (v, s)) : here path r = .ok (v, s) := by
  obtain ⟨⟨n', m⟩, hpeek, h⟩ := bind_ok h
  obtain ⟨rfl, -⟩ := peek_nodes hpeek hr
  cases n'
  case «alias» target => exact absurd rfl (hn target)
  all_goals exact h

end Inversion

/-- Two readers have the same value for nodes that fit to events, and read nothing behind them. -/
def Agree (shared : List Node) (es : List Event) (one one' : Reader Value) : Prop :=
  ∀ ⦃ns p p' : List Node⦄ ⦃path path' : List PathStep⦄ ⦃r r' s s' : Reading⦄ ⦃v v' : Value⦄, Fits shared es ns →
    r.nodes = ns ++ p → r'.nodes = ns ++ p' → one path r = .ok (v, s) → one' path' r' = .ok (v', s') →
    v = v' ∧ s.nodes = p ∧ s'.nodes = p'

section Agree

variable {shared p p' : List Node} {one' : Reader Value} {path' : List PathStep} {r' s' : Reading}

theorem readItems_agree (hone : ∀ t : NodeTree, Agree shared t.events one one') {ts : List NodeTree}
    {fuel fuel' i i' : Nat} {vs vs' : List Value} (hns : Fits shared (NodeTree.itemEvents ts) ns)
    (hr : r.nodes = ns ++ .sequenceEnd :: p) (hr' : r'.nodes = ns ++ .sequenceEnd :: p')
    (h : d.readItems one path fuel i r = .ok (vs, s)) (h' : d'.readItems one' path' fuel' i' r' = .ok (vs', s')) :
    vs = vs' ∧ s.nodes = p ∧ s'.nodes = p' := by
  induction ts generalizing ns fuel fuel' i i' r r' vs vs' with
  | nil =>
    obtain rfl := Fits.nil_iff.mp hns
    obtain ⟨rfl, hs⟩ := readItems_end hr h
    obtain ⟨rfl, hs'⟩ := readItems_end hr' h'
    exact ⟨rfl, hs, hs'⟩
  | cons t ts ih =>
    obtain ⟨ns₁, ns₂, rfl, hns₁, hns₂⟩ := hns.append
    rw [List.append_assoc] at hr hr'
    obtain ⟨n, ns₃, hn, hbegins⟩ := hns₁.begins
    obtain ⟨_, v, r₁, ws, hv, hws, rfl⟩ := readItems_item (by rw [hr, hn]; rfl) hbegins h
    obtain ⟨_, v', r₁', ws', hv', hws', rfl⟩ := readItems_item (by rw [hr', hn]; rfl) hbegins h'
    obtain ⟨rfl, hr₁, hr₁'⟩ := hone t hns₁ hr hr' hv hv'
    obtain ⟨rfl, hs, hs'⟩ := ih hns₂ hr₁ hr₁' hws hws'
    exact ⟨rfl, hs, hs'⟩

theorem readEntries_agree (hone : ∀ t : NodeTree, Agree shared t.events one one')
    {entries : List (NodeTree × NodeTree)} {mark mark' : Mark} {fuel fuel' : Nat} {seen es es' : Entries}
    (hns : Fits shared (NodeTree.entryEvents entries) ns) (hr : r.nodes = ns ++ p) (hr' : r'.nodes = ns ++ p')
    (h : d.readEntries one path mark fuel seen r = .ok (es, s))
    (h' : d'.readEntries one' path' mark' fuel' seen r' = .ok (es', s')) :
    ∃ (added : Entries) (fuel₁ fuel₁' : Nat) (r₁ r₁' : Reading), added.length = entries.length ∧ r₁.nodes = p ∧
      r₁'.nodes = p' ∧ d.readEntries one path mark fuel₁ (seen ++ added) r₁ = .ok (es, s) ∧
      d'.readEntries one' path' mark' fuel₁' (seen ++ added) r₁' = .ok (es', s') := by
  induction entries generalizing ns fuel fuel' seen r r' with
  | nil =>
    obtain rfl := Fits.nil_iff.mp hns
    exact ⟨[], fuel, fuel', r, r', rfl, hr, hr', by simpa using h, by simpa using h'⟩
  | cons entry entries ih =>
    obtain ⟨key, value⟩ := entry
    obtain ⟨ns₁, ns₂, rfl, hns₁, hns₂⟩ := hns.append
    obtain ⟨ns₃, ns₄, rfl, hns₃, hns₄⟩ := hns₂.append
    rw [List.append_assoc, List.append_assoc] at hr hr'
    obtain ⟨n, ns₅, hn, hbegins⟩ := hns₁.begins
    obtain ⟨_, k, r₁, v, r₂, hk, hv, h⟩ := readEntries_entry (by rw [hr, hn]; rfl) hbegins h
    obtain ⟨_, k', r₁', v', r₂', hk', hv', h'⟩ := readEntries_entry (by rw [hr', hn]; rfl) hbegins h'
    obtain ⟨rfl, hr₁, hr₁'⟩ := hone key hns₁ hr hr' hk hk'
    obtain ⟨rfl, hr₂, hr₂'⟩ := hone value hns₃ hr₁ hr₁' hv hv'
    obtain ⟨added, fuel₁, fuel₁', r₃, r₃', hlength, hr₃, hr₃', h, h'⟩ := ih hns₄ hr₂ hr₂' h h'
    refine ⟨(k, v) :: added, fuel₁, fuel₁', r₃, r₃', by simp [hlength], hr₃, hr₃', ?_, ?_⟩
    · simpa using h
    · simpa using h'

theorem readShape_agree {inner inner' : Option (Reader Value)}
    (hinner : ∀ one ∈ inner, ∀ one' ∈ inner', ∀ t : NodeTree, Agree shared t.events one one') (t : NodeTree) :
    Agree shared t.events (d.readShape inner) (d'.readShape inner') := by
  intro ns p p' path path' r r' s s' v v' hns hr hr' h h'
  cases t with
  | «alias» name =>
    obtain ⟨n, rfl, hn, -⟩ := hns.single
    cases n with
    | «alias» target =>
      obtain ⟨rfl, hs⟩ := readShape_alias hr h
      obtain ⟨rfl, hs'⟩ := readShape_alias hr' h'
      exact ⟨rfl, hs, hs'⟩
    | _ => cases hn
  | scalar q text plain =>
    obtain ⟨n, rfl, hn, -⟩ := hns.single
    cases n with
    | scalar =>
      cases hn
      obtain ⟨hv, hs⟩ := readShape_scalar hr h
      obtain ⟨hv', hs'⟩ := readShape_scalar hr' h'
      exact ⟨Except.ok.inj (hv.symm.trans hv'), hs, hs'⟩
    | _ => cases hn
  | sequence q ts =>
    obtain ⟨n, ns', m, rfl, hn, hns', hm⟩ := hns.collection
    cases m <;> cases hm
    cases n with
    | sequenceStart =>
      cases hn
      obtain ⟨one, _, r₁, vs, hone, hr₁, hvs, rfl⟩ := readShape_sequence hr h
      obtain ⟨one', _, r₁', vs', hone', hr₁', hvs', rfl⟩ := readShape_sequence hr' h'
      obtain ⟨rfl, hs, hs'⟩ :=
        readItems_agree (hinner one hone one' hone') hns' (by simpa using hr₁) (by simpa using hr₁') hvs hvs'
      exact ⟨rfl, hs, hs'⟩
    | _ => cases hn
  | mapping q entries =>
    obtain ⟨n, ns', m, rfl, hn, hns', hm⟩ := hns.collection
    cases m <;> cases hm
    cases n with
    | mappingStart =>
      cases hn
      obtain ⟨one, _, _, r₁, es, hone, hr₁, hes, rfl⟩ := readShape_mapping hr h
      obtain ⟨one', _, _, r₁', es', hone', hr₁', hes', rfl⟩ := readShape_mapping hr' h'
      obtain ⟨added, _, _, r₂, r₂', -, hr₂, hr₂', hes, hes'⟩ :=
        readEntries_agree (hinner one hone one' hone') hns' (by simpa using hr₁) (by simpa using hr₁') hes hes'
      obtain ⟨rfl, hs⟩ := readEntries_end hr₂ hes
      obtain ⟨rfl, hs'⟩ := readEntries_end hr₂' hes'
      exact ⟨rfl, hs, hs'⟩
    | _ => cases hn

/-- A place where an alias may point: the first one, or one where a node begins that lies within nodes. -/
def Target (ns : List Node) (j : Nat) : Prop :=
  j = 0 ∨ ∃ (t : NodeTree) (ms rest : List Node),
    ns.drop j = ms ++ rest ∧ ms.map Node.shape = t.events.map Event.shape

/-- Two documents begin with the same nodes, and their aliases point at places of these. -/
structure Share (shared : List Node) (d d' : Document) : Prop where
  left : shared <+: d.nodes.map (·.1)
  right : shared <+: d'.nodes.map (·.1)
  targets : ∀ j, .alias j ∈ shared → Target shared j

theorem nodes_drop {ms rest : List Node} {j : Nat} (hd : shared <+: d.nodes.map (·.1))
    (hdrop : shared.drop j = ms ++ rest) (jumps : Nat) : ∃ p, (Reading.mk (d.nodes.drop j) jumps).nodes = ms ++ p := by
  obtain ⟨ends, hends⟩ := hd
  refine ⟨rest ++ ends.drop (j - shared.length), ?_⟩
  rw [Reading.nodes, List.map_drop, ← hends, List.drop_append, hdrop, List.append_assoc]

theorem followAlias_agree (hd : Share shared d d') {here here' : Reader Value}
    (hroot : ∀ path jumps v s, here path ⟨d.nodes, jumps⟩ ≠ .ok (v, s))
    (hhere : ∀ t : NodeTree, Agree shared t.events here here') (t : NodeTree) :
    Agree shared t.events (d.followAlias here) (d'.followAlias here') := by
  intro ns p p' path path' r r' s s' v v' hns hr hr' h h'
  obtain ⟨j, -, rfl, hj⟩ | ⟨n, ns', rfl, hn⟩ := hns.alias_or_node
  · obtain ⟨_, jumps, _, hv, hs⟩ := followAlias_alias hr h
    obtain ⟨_, jumps', _, hv', hs'⟩ := followAlias_alias hr' h'
    obtain rfl | ⟨u, ms, rest, hdrop, hms⟩ := hd.targets j hj
    · exact absurd hv (hroot _ _ _ _)
    · have hfits : Fits shared u.events ms :=
        ⟨hms, fun n hn => List.mem_of_mem_drop (hdrop ▸ List.mem_append_left _ hn)⟩
      obtain ⟨p₁, hp₁⟩ := nodes_drop hd.left hdrop jumps
      obtain ⟨p₂, hp₂⟩ := nodes_drop hd.right hdrop jumps'
      exact ⟨(hhere u hfits hp₁ hp₂ hv hv').1, hs, hs'⟩
  · exact hhere t hns hr hr' (followAlias_node hr hn h) (followAlias_node hr' hn h')

theorem readNode_eq (d : Document) (depth : Nat) :
    ∃ inner, d.readNode depth = d.readShape inner ∧
      ∀ one ∈ inner, ∃ k, depth = k + 1 ∧ one = d.followAlias (d.readNode k) := by
  cases depth with
  | zero => exact ⟨none, rfl, nofun⟩
  | succ k => exact ⟨_, rfl, fun one hone => ⟨k, rfl, (Option.some.inj hone).symm⟩⟩

/-- Documents have the same values for shared nodes, at depths up to the first one at which the first document is
read. -/
theorem readNode_agree (hd : Share shared d d') {depth : Nat}
    (hroot : ∀ k < depth, ∀ path jumps v s, d.readNode k path ⟨d.nodes, jumps⟩ ≠ .ok (v, s)) (depth' : Nat)
    (t : NodeTree) : Agree shared t.events (d.readNode depth) (d'.readNode depth') := by
  induction depth generalizing depth' t with
  | zero =>
    obtain ⟨inner', hd', -⟩ := d'.readNode_eq depth'
    rw [hd']
    exact readShape_agree (by nofun) t
  | succ depth ih =>
    obtain ⟨inner', hd', hinner'⟩ := d'.readNode_eq depth'
    rw [hd']
    refine readShape_agree (fun one hone one' hone' => ?_) t
    obtain rfl := Option.some.inj hone
    obtain ⟨k, rfl, rfl⟩ := hinner' one' hone'
    exact followAlias_agree hd (hroot depth depth.lt_succ_self)
      (ih (fun k hk => hroot k (hk.trans depth.lt_succ_self)) k)

end Agree

end Document

end YamlInclude.Yaml
