import YamlInclude.Proofs.Invariant
import YamlInclude.Proofs.Members
import YamlInclude.Proofs.Untagged
import YamlInclude.TagProgram.Run

/-! # The data of tag programs

A JSON value is the JSON value of the YAML value that it becomes. So what a program gives for a node stands unchanged
in the JSON value of the document, at the place of the node, unless another key of a mapping around it takes that
place.
-/

namespace YamlInclude

open Yaml Traced

namespace Json

/-! ## JSON values as YAML values -/

mutual

/-- Whether all floats are finite and no object has a name twice. -/
def Valid : Json → Prop
  | number (.float x) => x.isFinite = true
  | array vs => ValidItems vs
  | object ms => DistinctNames ms ∧ ValidMembers ms
  | _ => True

def ValidItems : List Json → Prop
  | [] => True
  | v :: vs => Valid v ∧ ValidItems vs

def ValidMembers : List (String × Json) → Prop
  | [] => True
  | (_, v) :: ms => Valid v ∧ ValidMembers ms

end

mutual

theorem toJson_ofJson (j : Json) (h : j.Valid) : (Value.ofJson j).toJson = j := by
  cases j with
  | number n =>
    cases n with
    | int n => rfl
    | float x => exact if_pos h
  | array vs => exact congrArg array (itemsToJson_ofJsonItems vs h)
  | object ms =>
    rw [Value.ofJson, Value.toJson, entriesToJson_ofJsonMembers ms h.2]
    exact ofMembers_of_distinct h.1
  | _ => rfl

theorem itemsToJson_ofJsonItems (vs : List Json) (h : ValidItems vs) :
    Value.itemsToJson (Value.ofJsonItems vs) = vs := by
  match vs with
  | [] => rfl
  | v :: vs => rw [Value.ofJsonItems, Value.itemsToJson, toJson_ofJson v h.1, itemsToJson_ofJsonItems vs h.2]

theorem entriesToJson_ofJsonMembers (ms : List (String × Json)) (h : ValidMembers ms) :
    Value.entriesToJson (Value.ofJsonMembers ms) = ms := by
  match ms with
  | [] => rfl
  | (k, v) :: ms =>
    rw [Value.ofJsonMembers, Value.entriesToJson, toJson_ofJson v h.1, entriesToJson_ofJsonMembers ms h.2,
      Value.keyText]

end

/-! ## Places -/

inductive Step where
  | item (index : Nat)
  | member (name : String)

def child? : Json → Step → Option Json
  | array vs, .item i => vs[i]?
  | object ms, .member name => ms.lookup name
  | _, _ => none

def at? (j : Json) (p : List Step) : Option Json := p.foldlM child? j

theorem lookup_setMember (name key : String) (v : Json) (ms : List (String × Json)) :
    (setMember key v ms).lookup name = if name = key then some v else ms.lookup name := by
  have hhead (k : String) (w : Json) (ms : List (String × Json)) :
      List.lookup name ((k, w) :: ms) = if name = k then some w else ms.lookup name := by
    by_cases h : name = k
    · rw [if_pos h, List.lookup_cons, beq_iff_eq.mpr h]
    · rw [if_neg h, List.lookup_cons, beq_eq_false_iff_ne.mpr h]
  induction ms with
  | nil => exact hhead key v []
  | cons m ms ih =>
    obtain ⟨k, w⟩ := m
    by_cases hk : k = key
    · subst hk
      rw [setMember, if_pos rfl, hhead, hhead]
      split <;> rfl
    · rw [setMember, if_neg hk, hhead, hhead, ih]
      by_cases h : name = k
      · rw [if_pos h, if_neg (h ▸ hk), if_pos h]
      · rw [if_neg h, if_neg h]

theorem lookup_setMembers_of_new {name : String} {ms : List (String × Json)} (h : ∀ m ∈ ms, m.1 ≠ name)
    (acc : List (String × Json)) :
    (ms.foldl (fun acc m => setMember m.1 m.2 acc) acc).lookup name = acc.lookup name := by
  induction ms generalizing acc with
  | nil => rfl
  | cons m ms ih =>
    obtain ⟨hm, hms⟩ := List.forall_mem_cons.mp h
    rw [List.foldl_cons, ih hms, lookup_setMember, if_neg hm.symm]

theorem child?_ofMembers {name : String} {before after : List (String × Json)} (h : ∀ m ∈ after, m.1 ≠ name) (j : Json) :
    (ofMembers (before ++ (name, j) :: after)).child? (.member name) = some j := by
  have hlookup := lookup_setMembers_of_new h
    (setMember name j (before.foldl (fun acc m => setMember m.1 m.2 acc) []))
  rw [lookup_setMember, if_pos rfl] at hlookup
  rw [ofMembers, List.foldl_append, List.foldl_cons]
  exact hlookup

end Json

namespace Yaml

namespace Entries

/-- Whether an entry is in a mapping all of whose other keys have a property. -/
def Beside (P : Value → Prop) (e : Value × Value) (es : Entries) : Prop :=
  ∃ before after, es = before ++ e :: after ∧ ∀ f ∈ before ++ after, P f.1

variable {P Q : Value → Prop} {e : Value × Value} {es fs : Entries} {k v : Value}

theorem Beside.cons {f : Value × Value} (h : Beside P e es) (hf : P f.1) : Beside P e (f :: es) := by
  obtain ⟨before, after, rfl, hothers⟩ := h
  exact ⟨f :: before, after, rfl, List.forall_mem_cons.mpr ⟨hf, hothers⟩⟩

theorem Beside.imp (h : Beside P e es) (hPQ : ∀ j, P j → Q j) : Beside Q e es := by
  obtain ⟨before, after, rfl, hothers⟩ := h
  exact ⟨before, after, rfl, fun f hf => hPQ f.1 (hothers f hf)⟩

theorem Beside.mem (h : Beside P e es) : e ∈ es := by
  obtain ⟨before, after, rfl, -⟩ := h
  exact List.mem_append_right _ List.mem_cons_self

theorem Beside.forall_keys (h : Beside P e es) (he : Q e.1) (hPQ : ∀ j, P j → Q j) : ∀ f ∈ es, Q f.1 := by
  obtain ⟨before, after, rfl, hothers⟩ := h
  intro f hf
  rcases List.mem_append.mp hf with hf | hf
  · exact hPQ f.1 (hothers f (List.mem_append_left _ hf))
  · rcases List.mem_cons.mp hf with rfl | hf
    · exact he
    · exact hPQ f.1 (hothers f (List.mem_append_right _ hf))

theorem forall_keys_insert (h : ∀ f ∈ es, P f.1) (hk : P k) (v : Value) : ∀ f ∈ es.insert k v, P f.1 := by
  intro f hf
  obtain hf | rfl | ⟨g, hg, rfl⟩ := mem_insert hf
  · exact h f hf
  · exact hk
  · exact h g hg

theorem forall_keys_insertAll (hes : ∀ f ∈ es, P f.1) (hfs : ∀ f ∈ fs, P f.1) : ∀ f ∈ es.insertAll fs, P f.1 := by
  induction fs generalizing es with
  | nil => exact hes
  | cons f fs ih =>
    obtain ⟨hf, hfs⟩ := List.forall_mem_cons.mp hfs
    exact ih (forall_keys_insert hes hf f.2) hfs

theorem Beside.insert (h : Beside P e es) (hk : k.same e.1 = false) (hP : P k) (v : Value) :
    Beside P e (es.insert k v) := by
  obtain ⟨before, after, rfl, hothers⟩ := h
  induction before with
  | nil =>
    refine ⟨[], Entries.insert k v after, ?_, forall_keys_insert hothers hP v⟩
    rw [List.nil_append, Entries.insert, hk]
    rfl
  | cons f before ih =>
    obtain ⟨hf, hothers⟩ := List.forall_mem_cons.mp hothers
    rw [List.cons_append, Entries.insert]
    split
    · exact ⟨(f.1, v) :: before, after, rfl, List.forall_mem_cons.mpr ⟨hf, hothers⟩⟩
    · exact (ih hothers).cons hf

theorem Beside.insertAll (h : Beside P e es) (hfs : ∀ f ∈ fs, f.1.same e.1 = false ∧ P f.1) :
    Beside P e (es.insertAll fs) := by
  induction fs generalizing es with
  | nil => exact h
  | cons f fs ih =>
    obtain ⟨hf, hfs⟩ := List.forall_mem_cons.mp hfs
    exact ih (h.insert hf.1 hf.2 f.2) hfs

/-- An entry whose key no other one is the same as is in the mapping of all entries. -/
theorem beside_insertAll (h : Beside (fun j => j.same k = false ∧ k.same j = false ∧ P j) (k, v) es) :
    Beside P (k, v) (Entries.insertAll [] es) := by
  obtain ⟨before, after, rfl, hothers⟩ := h
  -- the entries around it may have keys of each other, so only a property of all their keys is known of what is left
  have hbefore : ∀ f ∈ Entries.insertAll [] before, f.1.same k = false ∧ k.same f.1 = false ∧ P f.1 :=
    forall_keys_insertAll (P := fun j => j.same k = false ∧ k.same j = false ∧ P j) (List.forall_mem_nil _)
      fun f hf => hothers f (List.mem_append_left _ hf)
  have hinsert : (Entries.insertAll [] before).insert k v = Entries.insertAll [] before ++ [(k, v)] :=
    insert_of_new fun f hf => (hbefore f hf).2.1
  have hlast : Beside P (k, v) ((Entries.insertAll [] before).insert k v) :=
    ⟨_, [], hinsert, fun f hf => (hbefore f (by simpa using hf)).2.2⟩
  have hafter : ∀ f ∈ after, f.1.same k = false ∧ P f.1 := fun f hf =>
    have hf := hothers f (List.mem_append_right _ hf)
    ⟨hf.1, hf.2.2⟩
  have hall := hlast.insertAll hafter
  rwa [Entries.insertAll, List.foldl_append, List.foldl_cons]

theorem Beside.forall₂ {R : Value × Value → Value × Value → Prop} (h : Beside P e es) (hR : List.Forall₂ R es fs)
    (hP : ∀ a b, P a.1 → R a b → Q b.1) : ∃ f, R e f ∧ Beside Q f fs := by
  obtain ⟨before, after, rfl, hothers⟩ := h
  induction before generalizing fs with
  | nil =>
    cases hR with
    | cons he hafter =>
      refine ⟨_, he, [], _, rfl, fun g hg => ?_⟩
      obtain ⟨a, ha, hg⟩ := exists_of_mem_right hafter hg
      exact hP a g (hothers a ha) hg
  | cons a before ih =>
    obtain ⟨ha, hothers⟩ := List.forall_mem_cons.mp hothers
    cases hR with
    | cons hab hR =>
      obtain ⟨f, hf, hfs⟩ := ih hothers hR
      exact ⟨f, hf, hfs.cons (hP a _ ha hab)⟩

theorem Beside.child?_toJson (h : Beside (fun j => j.keyText ≠ k.keyText) (k, v) es) :
    (Value.mapping es).toJson.child? (.member k.keyText) = some v.toJson := by
  obtain ⟨before, after, rfl, hothers⟩ := h
  rw [Value.toJson, Value.entriesToJson_eq_map, List.map_append, List.map_cons]
  refine Json.child?_ofMembers (fun m hm => ?_) v.toJson
  obtain ⟨f, hf, rfl⟩ := List.mem_map.mp hm
  exact hothers f (List.mem_append_right _ hf)

end Entries

namespace Value

/-- Whether a key is neither a merge key nor the same as another key, and has another text. -/
structure KeyApart (k j : Value) : Prop where
  plain : Merge.key.same j = false
  text : j.keyText ≠ k.keyText
  left : j.same k = false
  right : k.same j = false

/-- What stands at the end of a path through the JSON value of a value, none of whose mappings on the way has a merge
key or another key with the same text. -/
inductive Shows : Value → List Json.Step → Value → Prop
  | here (v : Value) : Shows v [] v
  | item {vs : List Value} {i : Nat} {v w : Value} {p : List Json.Step} (hv : vs[i]? = some v)
      (h : Shows v p w) : Shows (.sequence vs) (.item i :: p) w
  | entry {es : Entries} {k v w : Value} {p : List Json.Step} (hk : Merge.key.same k = false)
      (hes : es.Beside (fun j => Merge.key.same j = false ∧ j.keyText ≠ k.keyText) (k, v))
      (h : Shows v p w) : Shows (.mapping es) (.member k.keyText :: p) w

variable {v w x : Value} {p : List Json.Step}

theorem Shows.at?_toJson (h : v.Shows p x) : v.toJson.at? p = some x.toJson := by
  induction h with
  | here v => rfl
  | @item vs i v x p hv _ ih =>
    have hchild : (sequence vs).toJson.child? (.item i) = some v.toJson := by
      rw [toJson, Json.child?, itemsToJson_eq_map, List.getElem?_map, hv, Option.map_some]
    rw [Json.at?, List.foldlM_cons, hchild]
    exact ih
  | @entry es k v x p _ hes _ ih =>
    have hchild := (Entries.Beside.child?_toJson (hes.imp fun j hj => hj.2))
    rw [Json.at?, List.foldlM_cons, hchild]
    exact ih

end Value

namespace Merge

variable {v w x : Value} {p : List Json.Step} {n : Nat}

theorem expandWithin_shows (h : v.Shows p x) (hd : v.depth ≤ n) (he : expandWithin n v = .ok w) :
    ∃ y, x.expandMerges = .ok y ∧ w.Shows p y := by
  induction h generalizing n w with
  | here v => exact ⟨w, (expandWithin_eq_of_depth_le (Nat.le_refl _) hd).trans he, .here w⟩
  | @item vs i v x p hv _ ih =>
    obtain ⟨n, rfl⟩ : ∃ m, n = m + 1 := ⟨n - 1, by simp only [Value.depth] at hd; omega⟩
    obtain ⟨ws, hws, rfl⟩ := expandWithin_sequence_ok_iff.mp he
    obtain ⟨hi, rfl⟩ := List.getElem?_eq_some_iff.mp hv
    have hlen := hws.length_eq
    have hdepth := Value.depth_le_of_mem_items (List.getElem_mem hi)
    obtain ⟨y, hy, hshows⟩ := ih (by simp only [Value.depth] at hd; omega) (hws.get hi (by omega))
    exact ⟨y, hy, .item (List.getElem?_eq_getElem _) hshows⟩
  | @entry es k v x p hk hes _ ih =>
    obtain ⟨n, rfl⟩ : ∃ m, n = m + 1 := ⟨n - 1, by simp only [Value.depth] at hd; omega⟩
    obtain ⟨es₁, es₂, h₁, h₂, rfl⟩ := expandWithin_mapping_ok_iff.mp he
    have hfree : ∀ e ∈ es, key.same e.1 = false := hes.forall_keys hk fun j hj => hj.1
    obtain rfl := Except.ok.inj ((mergeEntries_of_free hfree).symm.trans h₁)
    obtain ⟨⟨k', v'⟩, ⟨rfl, hv⟩, hes'⟩ := hes.forall₂
      (Q := fun j => key.same j = false ∧ j.keyText ≠ k.keyText) h₂ fun a b ha hab => hab.1 ▸ ha
    have hdepth := Value.depth_le_of_mem_entries hes.mem
    obtain ⟨y, hy, hshows⟩ := ih (by simp only [Value.depth] at hd hdepth; omega) hv
    exact ⟨y, hy, .entry hk hes' hshows⟩

end Merge

end Yaml

namespace Loader

variable {onTag : OnTag} {v x r : Value} {p : List Json.Step}

/-- Whether a node of a document has a place in the JSON value of the resolved document: no mapping around it has a
key that resolves to a merge key, or a second one that resolves to the same key as the node's or has its text. -/
inductive StandsAt (onTag : OnTag) : Value → List Json.Step → Value → Prop
  | here (v : Value) : StandsAt onTag v [] v
  | item {vs : List Value} {i : Nat} {v x : Value} {p : List Json.Step} (hv : vs[i]? = some v)
      (h : StandsAt onTag v p x) : StandsAt onTag (.sequence vs) (.item i :: p) x
  | entry {es : Entries} {k k' v x : Value} {p : List Json.Step}
      (hk : (resolveValue onTag k).result = .ok k') (hplain : Merge.key.same k' = false)
      (hes : es.Beside (fun j => ∀ j', (resolveValue onTag j).result = .ok j' → k'.KeyApart j') (k, v))
      (h : StandsAt onTag v p x) : StandsAt onTag (.mapping es) (.member k'.keyText :: p) x

/-- A node that has a place is resolved on its own, and its value has that place. -/
theorem StandsAt.resolve (h : StandsAt onTag v p x) (hr : (resolveValue onTag v).result = .ok r) :
    ∃ y, (resolveValue onTag x).result = .ok y ∧ r.Shows p y := by
  induction h generalizing r with
  | here v => exact ⟨r, hr, .here r⟩
  | @item vs i v x p hv _ ih =>
    obtain ⟨ws, hws, hr⟩ := result_bind_ok_iff.mp hr
    obtain rfl := Except.ok.inj hr
    obtain ⟨hi, rfl⟩ := List.getElem?_eq_some_iff.mp hv
    have hws := resolveItems_ok_iff.mp hws
    have hlen := hws.length_eq
    obtain ⟨y, hy, hshows⟩ := ih (hws.get hi (by omega))
    exact ⟨y, hy, .item (List.getElem?_eq_getElem _) hshows⟩
  | @entry es k k' v x p hk hplain hes _ ih =>
    obtain ⟨out, hout, hr⟩ := result_bind_ok_iff.mp hr
    obtain rfl := Except.ok.inj hr
    obtain ⟨rs, hrs, rfl⟩ := resolveEntries_ok_iff_insertAll.mp hout
    obtain ⟨⟨k₁, v₁⟩, hentry, hbeside⟩ := hes.forall₂ (Q := k'.KeyApart) hrs fun a b ha hab => ha b.1 hab.1
    obtain rfl := Except.ok.inj (hk.symm.trans hentry.1)
    obtain ⟨y, hy, hshows⟩ := ih hentry.2
    refine ⟨y, hy, .entry hplain (Entries.beside_insertAll (hbeside.imp fun j hj => ?_)) hshows⟩
    exact ⟨hj.left, hj.right, hj.plain, hj.text⟩

/-- Whether a node of a file is of a tag whose program answers with data, whatever starts the program. -/
def ProgramGives (l : Loader) (s : LoadState) (t : String) (u : Value) (d : Json) : Prop :=
  let tag := tagName (Value.tagText t)
  tag ≠ includeTag ∧ ∃ (p : TagProgram) (files : FileTree) (cwd : Location)
    (launch : FileTree → Location → Shell.Launcher) (answer : TagResponse),
    l.tags.get? tag = some (p.construct files cwd launch) ∧
    p.ask files cwd (.forNode tag u.toJson s.file) launch = .ok answer ∧
    answer.success = true ∧ answer.data.getD .null = d

theorem ProgramGives.resolve {l : Loader} {load : LoadText} {s : LoadState} {t : String} {u : Value} {d : Json}
    (h : l.ProgramGives s t u d) : (resolveValue (l.onTag load s) (.tagged t u)).result = .ok (.ofJson d) := by
  obtain ⟨htag, p, files, cwd, launch, answer, hget, hask, hsuccess, rfl⟩ := h
  simp only [resolveValue, onTag, if_neg htag, hget, TagProgram.construct, hask, TagProgram.valueOf, hsuccess, if_true]
  rfl

end Loader

/-- A JSON value that becomes a YAML value is the JSON value of that. As the data that a program gives for a node it
stands at the place of the node in the JSON value of the loaded document. -/
theorem program_data_appears {d : Json} (hd : d.Valid) :
    (Value.ofJson d).toJson = d ∧
    ((Value.ofJson d).mergeFree = true →
      ∀ (l : Loader) (n : Nat) (text : String) (s : LoadState) (ds : List Value),
        (l.loadWithin (n + 1) text s).result = .ok ds →
        ∀ (i : Nat) (v w : Value), (values text)[i]? = some (.ok v) → ds[i]? = some w →
        ∀ (p : List Json.Step) (t : String) (u : Value),
          Loader.StandsAt (l.onTag (l.loadWithin n) s) v p (.tagged t u) → l.ProgramGives s t u d →
          w.toJson.at? p = some d) := by
  refine ⟨Json.toJson_ofJson d hd, fun hfree l n text s ds hload i v w hv hw p t u hplace hgives => ?_⟩
  have hdocs := Loader.loadWithin_ok_iff.mp hload
  obtain ⟨doc, hdoc, hvalue⟩ := List.getElem?_map .. ▸ hv |> Option.map_eq_some_iff.mp
  obtain ⟨hi, rfl⟩ := List.getElem?_eq_some_iff.mp hdoc
  obtain ⟨hi', rfl⟩ := List.getElem?_eq_some_iff.mp hw
  obtain ⟨r, hr, hexpand⟩ := (Loader.loadDocument_ok_iff hvalue).mp (hdocs.get hi hi')
  obtain ⟨y, hy, hshows⟩ := hplace.resolve hr
  obtain rfl := Except.ok.inj (hgives.resolve.symm.trans hy)
  obtain ⟨z, hz, hshown⟩ := Merge.expandWithin_shows hshows (Nat.le_refl _) hexpand
  obtain rfl := Except.ok.inj ((Value.expandMerges_eq_self_iff.mpr hfree).symm.trans hz)
  exact hshown.at?_toJson.trans (congrArg some (Json.toJson_ofJson d hd))

deriving instance DecidableEq for TagProgramFault

/-- A loader of one file, in which the program of a tag gives the same answer for every node. -/
def answering (text answer : String) : Loader :=
  { (FileSet.mk [(⟨"/a.yml"⟩, text)]).loader true none ⟨"/"⟩ with
    tags := ⟨[("!ext", TagProgram.construct ⟨⟨"echo"⟩, [answer]⟩ .empty [])]⟩ }

/-- Data in a list under a key, beside a key that is a number. -/
theorem listed_data_appears :
    let text := "k: [x, !ext y]\n1: z\n"
    let l := answering text "\x7b\"success\":true,\"data\":\x7b\"b\":[-1,null],\"a\":\"x\"\x7d\x7d"
    let d := Json.object [("b", .array [.number (.int ⟨-1, by decide, by decide⟩), .null]), ("a", .string "x")]
    l.ProgramGives (.root ⟨"/a.yml"⟩) "ext" (.string "y") d ∧
      ∃ w, (l.loadFile ⟨"/a.yml"⟩).result = .ok [w] ∧ w.toJson.at? [.member "k", .item 1] = some d := by
  intro text l d
  let one : Value := .number (.int ⟨1, by decide, by decide⟩)
  let items := [Value.string "x", .tagged "ext" (.string "y")]
  let w := Value.mapping [(.string "k", .sequence [.string "x", .ofJson d]), (one, .string "z")]
  have hvalues : values text = [.ok (.mapping [(.string "k", .sequence items), (one, .string "z")])] := by
    decide +kernel
  have hgives : l.ProgramGives (.root ⟨"/a.yml"⟩) "ext" (.string "y") d :=
    ⟨by decide +kernel, ⟨⟨"echo"⟩, _⟩, .empty, [], Program.launch, .succeeded d, rfl, by decide +kernel, rfl, rfl⟩
  have hfile : (l.loadFile ⟨"/a.yml"⟩).result = .ok [w] := by decide +kernel
  have hload : (l.loadWithin 2 text (.root ⟨"/a.yml"⟩)).result = .ok [w] := by decide +kernel
  have hapart (j : Value) (hj : (Except.ok one : Except LoadError Value) = .ok j) : (Value.string "k").KeyApart j := by
    obtain rfl := Except.ok.inj hj
    exact ⟨by decide +kernel, by decide +kernel, by decide +kernel, by decide +kernel⟩
  have hplace : Loader.StandsAt (l.onTag (l.loadWithin 1) (.root ⟨"/a.yml"⟩))
      (.mapping [(.string "k", .sequence items), (one, .string "z")]) [.member "k", .item 1] items[1] :=
    .entry (k := .string "k") rfl rfl ⟨[], _, rfl, List.forall_mem_singleton.mpr hapart⟩ (.item rfl (.here _))
  have hvalid : d.Valid := by simp [d, Json.Valid, Json.ValidMembers, Json.ValidItems, Json.DistinctNames]
  exact ⟨hgives, w, hfile, (program_data_appears hvalid).2 (by decide +kernel) l 1 text (.root ⟨"/a.yml"⟩) [w] hload
    0 _ w (by rw [hvalues]; rfl) rfl _ "ext" (.string "y") hplace hgives⟩

/-- The text of a number is another key of the mapping, and what that key has takes the place of the data. -/
theorem equal_key_text_drops_data :
    let text := "1: !ext a\n\"1\": z\n"
    let l := answering text "\x7b\"success\":true,\"data\":\"found\"\x7d"
    let one : Value := .number (.int ⟨1, by decide, by decide⟩)
    let v := Value.mapping [(one, .tagged "ext" (.string "a")), (.string "1", .string "z")]
    let w := Value.mapping [(one, .string "found"), (.string "1", .string "z")]
    values text = [.ok v] ∧ v.mergeFree = true ∧
      l.ProgramGives (.root ⟨"/a.yml"⟩) "ext" (.string "a") (.string "found") ∧
      (l.loadFile ⟨"/a.yml"⟩).result = .ok [w] ∧ w.toJson = .object [("1", .string "z")] := by
  intro text l one v w
  have hgives : l.ProgramGives (.root ⟨"/a.yml"⟩) "ext" (.string "a") (.string "found") :=
    ⟨by decide +kernel, ⟨⟨"echo"⟩, _⟩, .empty, [], Program.launch, .succeeded (.string "found"), rfl, by decide +kernel, rfl, rfl⟩
  exact ⟨by decide +kernel, by decide +kernel, hgives, by decide +kernel, by decide +kernel⟩

end YamlInclude
