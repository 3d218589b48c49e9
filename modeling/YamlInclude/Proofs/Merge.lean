import YamlInclude.Proofs.Keys
import YamlInclude.Yaml.Merge

/-! # Expanding merge keys

Expansion is given by equations that do not speak of depth. It makes no value larger, and it leaves
exactly the values without merge keys as they are.
-/

namespace YamlInclude.Yaml

namespace Value

mutual

def size : Value → Nat
  | sequence vs => sizeItems vs + 1
  | mapping es => sizeEntries es + 1
  | tagged _ v => size v + 1
  | _ => 1

def sizeItems : List Value → Nat
  | [] => 0
  | v :: vs => size v + sizeItems vs

def sizeEntries : List (Value × Value) → Nat
  | [] => 0
  | (k, v) :: es => size k + size v + sizeEntries es

end

mutual

/-- Whether no mapping outside of keys has a merge key. -/
def mergeFree : Value → Bool
  | sequence vs => mergeFreeItems vs
  | mapping es => mergeFreeEntries es
  | tagged _ v => mergeFree v
  | _ => true

def mergeFreeItems : List Value → Bool
  | [] => true
  | v :: vs => mergeFree v && mergeFreeItems vs

def mergeFreeEntries : List (Value × Value) → Bool
  | [] => true
  | (k, v) :: es => !Merge.key.same k && mergeFree v && mergeFreeEntries es

end

theorem sizeEntries_eq_sum (es : List (Value × Value)) :
    sizeEntries es = (es.map fun e => e.1.size + e.2.size).sum := by
  induction es with
  | nil => rfl
  | cons e es ih => simp [sizeEntries, ih]

theorem sizeEntries_append (es fs : List (Value × Value)) :
    sizeEntries (es ++ fs) = sizeEntries es + sizeEntries fs := by
  simp [sizeEntries_eq_sum]

theorem sizeItems_le_of_forall₂ {vs ws : List Value} (h : List.Forall₂ (fun v w => w.size ≤ v.size) vs ws) :
    sizeItems ws ≤ sizeItems vs := by
  induction h with
  | nil => exact Nat.le_refl _
  | cons hle _ ih => simp only [sizeItems]; omega

theorem sizeEntries_le_of_forall₂ {es fs : List (Value × Value)}
    (h : List.Forall₂ (fun e f => f.1 = e.1 ∧ f.2.size ≤ e.2.size) es fs) :
    sizeEntries fs ≤ sizeEntries es := by
  induction h with
  | nil => exact Nat.le_refl _
  | @cons e f es fs he _ ih =>
    obtain ⟨k, v⟩ := e
    obtain ⟨k', w⟩ := f
    obtain ⟨rfl, hle⟩ := he
    simp only [sizeEntries] at hle ⊢
    omega

theorem mergeFreeItems_iff {vs : List Value} :
    mergeFreeItems vs = true ↔ ∀ v ∈ vs, v.mergeFree = true := by
  induction vs with
  | nil => simp [mergeFreeItems]
  | cons v vs ih => simp [mergeFreeItems, ih]

theorem mergeFreeEntries_iff {es : List (Value × Value)} :
    mergeFreeEntries es = true ↔ ∀ e ∈ es, Merge.key.same e.1 = false ∧ e.2.mergeFree = true := by
  induction es with
  | nil => simp [mergeFreeEntries]
  | cons e es ih =>
    obtain ⟨k, v⟩ := e
    simp [mergeFreeEntries, ih]

theorem depth_le_of_mem_items {vs : List Value} {v : Value} (h : v ∈ vs) : v.depth ≤ depthItems vs := by
  induction vs with
  | nil => cases h
  | cons w vs ih =>
    simp only [depthItems]
    rcases List.mem_cons.mp h with rfl | h
    · omega
    · have := ih h; omega

theorem depth_le_of_mem_entries {es : List (Value × Value)} {e : Value × Value} (h : e ∈ es) :
    e.2.depth ≤ depthEntries es := by
  induction es with
  | nil => cases h
  | cons f es ih =>
    obtain ⟨k, v⟩ := f
    simp only [depthEntries]
    rcases List.mem_cons.mp h with rfl | h
    · simp only; omega
    · have := ih h; omega

end Value

/-- A list with its last element at its start. -/
def lastToFront {α : Type} (as : List α) : List α := as.getLast?.toList ++ as.dropLast

theorem lastToFront_perm {α : Type} (as : List α) : (lastToFront as).Perm as := by
  rcases List.eq_nil_or_concat as with rfl | ⟨as, a, rfl⟩
  · exact .nil
  · rw [lastToFront, List.concat_eq_append, List.getLast?_concat, List.dropLast_concat]
    exact (List.perm_append_singleton a as).symm

theorem last_moved {α : Type} (before after : List α) (a last : α)
    (h : (before ++ a :: after).getLast? = some last) :
    (if before.length + 1 = (before ++ a :: after).length then (before ++ a :: after).dropLast
      else (before ++ a :: after).dropLast.set before.length last) = before ++ lastToFront after := by
  rcases List.eq_nil_or_concat after with rfl | ⟨after, b, rfl⟩
  · simp [lastToFront]
  · have hdrop : (before ++ a :: (after ++ [b])).dropLast = before ++ a :: after := by
      rw [← List.cons_append, ← List.append_assoc, List.dropLast_concat]
    rw [List.concat_eq_append, ← List.cons_append, ← List.append_assoc, List.getLast?_concat] at h
    obtain rfl : b = last := Option.some.inj h
    rw [List.concat_eq_append, hdrop, if_neg (by simp)]
    simp [lastToFront]

namespace Entries

variable {es rest : Entries} {k v : Value}

/-- Whether two entries have one key, and `f` takes the value of the first one to that of the second. -/
def ByValue {ε : Type} (f : Value → Except ε Value) (e e' : Value × Value) : Prop :=
  e'.1 = e.1 ∧ f e.2 = .ok e'.2

theorem contains_append_eq_false_iff {fs : Entries} :
    Entries.contains k (es ++ fs) = false ↔ es.contains k = false ∧ fs.contains k = false := by
  unfold contains
  rw [List.any_append, Bool.or_eq_false_iff]

theorem swapRemove_eq_none_iff : es.swapRemove k = none ↔ ∀ e ∈ es, k.same e.1 = false := by
  unfold swapRemove
  cases h : es.findIdx? fun e => k.same e.1 with
  | none => simpa using List.findIdx?_eq_none_iff.mp h
  | some i =>
    obtain ⟨hi, hk, -⟩ := List.findIdx?_eq_some_iff_getElem.mp h
    have hne : es ≠ [] := by rintro rfl; simp at hi
    simp only [List.getElem?_eq_getElem hi, List.getLast?_eq_some_getLast hne, reduceCtorEq, false_iff]
    intro hall
    rw [hall _ (List.getElem_mem hi)] at hk
    cases hk

/-- The entry that is taken out is the first one with the key; the last one comes into its place. -/
theorem swapRemove_split (h : es.swapRemove k = some (v, rest)) :
    ∃ before key after, es = before ++ (key, v) :: after ∧ k.same key = true ∧
      (es.findIdx? fun e => k.same e.1) = some before.length ∧ rest = before ++ lastToFront after := by
  unfold swapRemove at h
  cases hi : es.findIdx? fun e => k.same e.1 with
  | none => simp [hi] at h
  | some i =>
    obtain ⟨hlt, hk, -⟩ := List.findIdx?_eq_some_iff_getElem.mp hi
    obtain ⟨before, ⟨key, w⟩, after, rfl, rfl⟩ : ∃ before e after, es = before ++ e :: after ∧ before.length = i :=
      ⟨es.take i, es[i], es.drop (i + 1), by
        rw [← List.drop_eq_getElem_cons hlt, List.take_append_drop], by simp; omega⟩
    cases hlast : (before ++ (key, w) :: after).getLast? with
    | none => simp at hlast
    | some last =>
      have hmoved := last_moved before after (key, w) last hlast
      simp only [hi, List.getElem?_append_right (Nat.le_refl _), Nat.sub_self, List.getElem?_cons_zero,
        hlast, Option.some.injEq, Prod.mk.injEq] at h
      obtain ⟨rfl, rfl⟩ := h
      exact ⟨before, key, after, rfl, by simpa using hk, rfl, hmoved⟩

theorem swapRemove_perm (h : es.swapRemove k = some (v, rest)) :
    ∃ key, k.same key = true ∧ es.Perm ((key, v) :: rest) := by
  obtain ⟨before, key, after, rfl, hk, -, rfl⟩ := swapRemove_split h
  exact ⟨key, hk, List.perm_middle.trans (((lastToFront_perm after).append_left before).symm.cons _)⟩

end Entries

namespace Merge

open Value

variable {es es' added : Entries} {items : List Value} {v w : Value} {n : Nat}

theorem sizeEntries_le_of_sublist {es fs : List (Value × Value)} (h : es.Sublist fs) :
    sizeEntries es ≤ sizeEntries fs := by
  induction h with
  | slnil => exact Nat.le_refl _
  | cons e _ ih => obtain ⟨k, v⟩ := e; simp only [sizeEntries]; omega
  | cons_cons e _ ih => obtain ⟨k, v⟩ := e; simp only [sizeEntries]; omega

theorem addEntries_eq (es added : Entries) :
    ∃ new : Entries, new.Sublist added ∧ addEntries es added = es ++ new ∧
      ∀ e ∈ new, es.contains e.1 = false := by
  induction added generalizing es with
  | nil => exact ⟨[], .slnil, by simp [addEntries], nofun⟩
  | cons e added ih =>
    obtain ⟨new, hsub, heq, hnew⟩ := ih (es.insertNew e.1 e.2)
    cases he : es.contains e.1 with
    | true =>
      have hins : es.insertNew e.1 e.2 = es := by simp [Entries.insertNew, he]
      rw [hins] at heq hnew
      exact ⟨new, hsub.cons e, by rw [addEntries, List.foldl_cons, hins]; exact heq, hnew⟩
    | false =>
      have hins : es.insertNew e.1 e.2 = es ++ [e] := by simp [Entries.insertNew, he]
      rw [hins] at heq hnew
      refine ⟨e :: new, hsub.cons_cons e, ?_, fun f hf => ?_⟩
      · rw [addEntries, List.foldl_cons, hins]
        simpa [addEntries] using heq
      · rcases List.mem_cons.mp hf with rfl | hf
        · exact he
        · exact (Entries.contains_append_eq_false_iff.mp (hnew f hf)).1

theorem addItems_eq (h : addItems es items = .ok es') :
    ∃ new : Entries, es' = es ++ new ∧ sizeEntries new ≤ sizeItems items ∧
      ∀ e ∈ new, es.contains e.1 = false ∧ e.2.depth ≤ depthItems items := by
  induction items generalizing es with
  | nil =>
    obtain rfl := Except.ok.inj h
    exact ⟨[], by simp, Nat.zero_le _, nofun⟩
  | cons v items ih =>
    cases v with
    | mapping added =>
      obtain ⟨first, hsub, heq, hfirst⟩ := addEntries_eq es added
      obtain ⟨new, rfl, hle, hnew⟩ := ih h
      refine ⟨first ++ new, by rw [heq, List.append_assoc], ?_, fun e he => ?_⟩
      · have := sizeEntries_le_of_sublist hsub
        simp only [sizeEntries_append, sizeItems, size]
        omega
      · simp only [depthItems, depth]
        rcases List.mem_append.mp he with he | he
        · have := depth_le_of_mem_entries (hsub.subset he)
          exact ⟨hfirst e he, by omega⟩
        · obtain ⟨hcontains, hdepth⟩ := hnew e he
          exact ⟨(Entries.contains_append_eq_false_iff.mp (heq ▸ hcontains)).1, by omega⟩
    | _ => cases h

theorem mergeEntries_of_free (h : ∀ e ∈ es, key.same e.1 = false) : mergeEntries es = .ok es := by
  rw [mergeEntries, Entries.swapRemove_eq_none_iff.mpr h]

/-- A mapping without a merge key stays; otherwise that entry goes, the other ones stay in some order,
and new entries follow that are smaller than what was merged. -/
theorem mergeEntries_ok (h : mergeEntries es = .ok es') :
    (∀ e ∈ es, key.same e.1 = false) ∧ es' = es ∨
    ∃ k v, ∃ rest new : Entries, key.same k = true ∧ es.Perm ((k, v) :: rest) ∧ es' = rest ++ new ∧
      sizeEntries new < v.size ∧ ∀ e ∈ new, rest.contains e.1 = false ∧ e.2.depth ≤ v.depth := by
  unfold mergeEntries at h
  cases hr : es.swapRemove key with
  | none =>
    rw [hr] at h
    exact Or.inl ⟨Entries.swapRemove_eq_none_iff.mp hr, (Except.ok.inj h).symm⟩
  | some found =>
    obtain ⟨v, rest⟩ := found
    obtain ⟨k, hk, hperm⟩ := Entries.swapRemove_perm hr
    rw [hr] at h
    cases v with
    | mapping added =>
      obtain ⟨new, hsub, heq, hnew⟩ := addEntries_eq rest added
      have hle := sizeEntries_le_of_sublist hsub
      refine Or.inr ⟨k, _, rest, new, hk, hperm, (Except.ok.inj h).symm.trans heq, ?_, fun e he => ⟨hnew e he, ?_⟩⟩
      · simp only [size]
        omega
      · have := depth_le_of_mem_entries (hsub.subset he)
        simp only [depth]
        omega
    | sequence items =>
      obtain ⟨new, rfl, hle, hnew⟩ := addItems_eq h
      refine Or.inr ⟨k, _, rest, new, hk, hperm, rfl, ?_, fun e he => ⟨(hnew e he).1, ?_⟩⟩
      · simp only [size]
        omega
      · have := (hnew e he).2
        simp only [depth]
        omega
    | _ => cases h

theorem sizeEntries_perm {es fs : List (Value × Value)} (h : es.Perm fs) :
    sizeEntries es = sizeEntries fs := by
  simp only [sizeEntries_eq_sum]
  exact (h.map _).sum_nat

theorem sizeEntries_lt_of_mergeEntries (h : mergeEntries es = .ok es')
    (hkey : ∃ e ∈ es, key.same e.1 = true) : sizeEntries es' < sizeEntries es := by
  obtain ⟨hfree, -⟩ | ⟨k, v, rest, new, -, hperm, rfl, hlt, -⟩ := mergeEntries_ok h
  · obtain ⟨e, he, hk⟩ := hkey
    rw [hfree e he] at hk
    cases hk
  · rw [sizeEntries_perm hperm, sizeEntries_append, sizeEntries]
    omega

theorem sizeEntries_le_of_mergeEntries (h : mergeEntries es = .ok es') :
    sizeEntries es' ≤ sizeEntries es := by
  by_cases hkey : ∃ e ∈ es, key.same e.1 = true
  · exact Nat.le_of_lt (sizeEntries_lt_of_mergeEntries h hkey)
  · obtain ⟨-, rfl⟩ | ⟨k, v, rest, new, hk, hperm, -⟩ := mergeEntries_ok h
    · exact Nat.le_refl _
    · exact absurd ⟨(k, v), hperm.mem_iff.mpr List.mem_cons_self, hk⟩ hkey

theorem depth_le_of_mem_mergeEntries (h : mergeEntries es = .ok es') {e : Value × Value} (he : e ∈ es') :
    e.2.depth ≤ depthEntries es := by
  obtain ⟨-, rfl⟩ | ⟨k, v, rest, new, -, hperm, rfl, -, hnew⟩ := mergeEntries_ok h
  · exact depth_le_of_mem_entries he
  · rcases List.mem_append.mp he with he | he
    · exact depth_le_of_mem_entries (hperm.mem_iff.mpr (List.mem_cons_of_mem _ he))
    · have hv := depth_le_of_mem_entries (hperm.mem_iff.mpr List.mem_cons_self)
      exact Nat.le_trans (hnew e he).2 hv

section LastFirst

variable {α β : Type} {f : α → Except MergeFault β} {as : List α} {bs : List β}

theorem lastFirst_ok_iff : lastFirst f as = .ok bs ↔ List.Forall₂ (fun a b => f a = .ok b) as bs := by
  induction as generalizing bs with
  | nil => cases bs <;> simp [lastFirst]
  | cons a as ih =>
    constructor
    · intro h
      obtain ⟨bs, hbs, h⟩ := bind_ok h
      obtain ⟨b, hb, h⟩ := bind_ok h
      obtain rfl := Except.ok.inj h
      exact .cons hb (ih.mp hbs)
    · rintro (_ | ⟨hb, hbs⟩)
      simp only [lastFirst, ih.mpr hbs, hb]
      rfl

theorem lastFirst_congr {g : α → Except MergeFault β} (h : ∀ a ∈ as, f a = g a) :
    lastFirst f as = lastFirst g as := by
  induction as with
  | nil => rfl
  | cons a as ih =>
    simp only [lastFirst, h a List.mem_cons_self, ih fun b hb => h b (List.mem_cons_of_mem _ hb)]

end LastFirst

theorem expandWithin_mapping_ok_iff :
    expandWithin (n + 1) (.mapping es) = .ok w ↔
      ∃ es₁ es₂, mergeEntries es = .ok es₁ ∧ List.Forall₂ (Entries.ByValue (expandWithin n)) es₁ es₂ ∧ w = .mapping es₂ := by
  have hentry (e e' : Value × Value) :
      (expandWithin n e.2).map (fun w => (e.1, w)) = .ok e' ↔ Entries.ByValue (expandWithin n) e e' := by
    obtain ⟨k, v⟩ := e'
    unfold Entries.ByValue
    cases expandWithin n e.2 <;> simp [Except.map, eq_comm]
  constructor
  · intro h
    obtain ⟨es₁, h₁, h⟩ := bind_ok h
    obtain ⟨es₂, h₂, h⟩ := bind_ok h
    refine ⟨es₁, es₂, h₁, ?_, (Except.ok.inj h).symm⟩
    exact (lastFirst_ok_iff.mp h₂).imp fun e e' he => (hentry e e').mp he
  · rintro ⟨es₁, es₂, h₁, h₂, rfl⟩
    have h₂ := lastFirst_ok_iff.mpr (h₂.imp fun e e' he => (hentry e e').mpr he)
    simp only [expandWithin, h₁]
    change (lastFirst _ es₁ >>= fun es => Except.ok (Value.mapping es)) = _
    rw [h₂]
    rfl

theorem expandWithin_sequence_ok_iff {vs : List Value} :
    expandWithin (n + 1) (.sequence vs) = .ok w ↔
      ∃ ws, List.Forall₂ (fun v w => expandWithin n v = .ok w) vs ws ∧ w = .sequence ws := by
  constructor
  · intro h
    obtain ⟨ws, hws, h⟩ := bind_ok h
    exact ⟨ws, lastFirst_ok_iff.mp hws, (Except.ok.inj h).symm⟩
  · rintro ⟨ws, hws, rfl⟩
    change (lastFirst _ vs >>= fun ws => Except.ok (Value.sequence ws)) = _
    rw [lastFirst_ok_iff.mpr hws]
    rfl

theorem expandWithin_tagged_ok_iff {t : String} :
    expandWithin (n + 1) (.tagged t v) = .ok w ↔ ∃ u, expandWithin n v = .ok u ∧ w = .tagged t u := by
  constructor
  · intro h
    obtain ⟨u, hu, h⟩ := bind_ok h
    exact ⟨u, hu, (Except.ok.inj h).symm⟩
  · rintro ⟨u, hu, rfl⟩
    change (expandWithin n v >>= fun u => Except.ok (Value.tagged t u)) = _
    rw [hu]
    rfl

theorem expandWithin_of_depth_eq_zero (hd : v.depth = 0) : expandWithin n v = .ok v := by
  cases n <;> cases v <;> first | rfl | cases hd

theorem expandWithin_eq_of_depth_le {m : Nat} (hn : v.depth ≤ n) (hm : v.depth ≤ m) :
    expandWithin n v = expandWithin m v := by
  induction n generalizing m v with
  | zero =>
    have hd := Nat.le_zero.mp hn
    rw [expandWithin_of_depth_eq_zero hd, expandWithin_of_depth_eq_zero hd]
  | succ n ih =>
    cases m with
    | zero =>
      have hd := Nat.le_zero.mp hm
      rw [expandWithin_of_depth_eq_zero hd, expandWithin_of_depth_eq_zero hd]
    | succ m =>
      cases v with
      | mapping es =>
        simp only [depth] at hn hm
        simp only [expandWithin]
        cases h : mergeEntries es with
        | error f => rfl
        | ok es' =>
          have hes : lastFirst (fun e => (expandWithin n e.2).map fun w => (e.1, w)) es' =
              lastFirst (fun e => (expandWithin m e.2).map fun w => (e.1, w)) es' := by
            refine lastFirst_congr fun e he => ?_
            have := depth_le_of_mem_mergeEntries h he
            rw [ih (m := m) (by omega) (by omega)]
          exact congrArg (· >>= fun es => Except.ok (Value.mapping es)) hes
      | sequence vs =>
        simp only [depth] at hn hm
        have hvs : lastFirst (expandWithin n) vs = lastFirst (expandWithin m) vs := by
          refine lastFirst_congr fun v hv => ?_
          have := depth_le_of_mem_items hv
          exact ih (by omega) (by omega)
        exact congrArg (· >>= fun vs => Except.ok (Value.sequence vs)) hvs
      | tagged t v =>
        simp only [depth] at hn hm
        have hv : expandWithin n v = expandWithin m v := ih (by omega) (by omega)
        exact congrArg (· >>= fun v => Except.ok (Value.tagged t v)) hv
      | _ => rfl

theorem size_le_of_expandWithin (h : expandWithin n v = .ok w) : w.size ≤ v.size := by
  induction n generalizing v w with
  | zero => exact (Except.ok.inj h).symm ▸ Nat.le_refl _
  | succ n ih =>
    cases v with
    | mapping es =>
      obtain ⟨es₁, es₂, h₁, h₂, rfl⟩ := expandWithin_mapping_ok_iff.mp h
      have hmerge := sizeEntries_le_of_mergeEntries h₁
      have hvalues := sizeEntries_le_of_forall₂ (h₂.imp fun e e' he => ⟨he.1, ih he.2⟩)
      simp only [size]
      omega
    | sequence vs =>
      obtain ⟨ws, hws, rfl⟩ := expandWithin_sequence_ok_iff.mp h
      have hitems := sizeItems_le_of_forall₂ (hws.imp fun v w hw => ih hw)
      simp only [size]
      omega
    | tagged t v =>
      obtain ⟨u, hu, rfl⟩ := expandWithin_tagged_ok_iff.mp h
      have := ih hu
      simp only [size]
      omega
    | _ => exact (Except.ok.inj h).symm ▸ Nat.le_refl _

theorem expandWithin_of_mergeFree (hv : v.mergeFree = true) : expandWithin n v = .ok v := by
  induction n generalizing v with
  | zero => rfl
  | succ n ih =>
    cases v with
    | mapping es =>
      have hes := mergeFreeEntries_iff.mp hv
      have hmerge : mergeEntries es = .ok es := mergeEntries_of_free fun e he => (hes e he).1
      exact expandWithin_mapping_ok_iff.mpr
        ⟨es, es, hmerge, List.forall₂_same.mpr fun e he => ⟨rfl, ih (hes e he).2⟩, rfl⟩
    | sequence vs =>
      exact expandWithin_sequence_ok_iff.mpr
        ⟨vs, List.forall₂_same.mpr fun v hv' => ih (mergeFreeItems_iff.mp hv v hv'), rfl⟩
    | tagged t v => exact expandWithin_tagged_ok_iff.mpr ⟨v, ih (v := v) hv, rfl⟩
    | _ => rfl

theorem mergeFree_of_expandWithin_eq_self (hd : v.depth ≤ n) (h : expandWithin n v = .ok v) :
    v.mergeFree = true := by
  induction n generalizing v with
  | zero =>
    cases v <;> first | rfl | simp [depth] at hd
  | succ n ih =>
    cases v with
    | mapping es =>
      have hle (e : Value × Value) (he : e ∈ es) : e.2.depth ≤ n := by
        have := depth_le_of_mem_entries he
        simp only [depth] at hd
        omega
      obtain ⟨es₁, es₂, h₁, h₂, hes⟩ := expandWithin_mapping_ok_iff.mp h
      obtain rfl : es = es₂ := by injection hes
      by_cases hkey : ∃ e ∈ es, key.same e.1 = true
      · have hlt := sizeEntries_lt_of_mergeEntries h₁ hkey
        have hge := sizeEntries_le_of_forall₂ (h₂.imp fun e e' he => ⟨he.1, size_le_of_expandWithin he.2⟩)
        omega
      · obtain ⟨hfree, rfl⟩ | ⟨k, v, rest, new, hk, hperm, -⟩ := mergeEntries_ok h₁
        · exact mergeFreeEntries_iff.mpr fun e he =>
            ⟨hfree e he, ih (hle e he) (List.forall₂_same.mp h₂ e he).2⟩
        · exact absurd ⟨(k, v), hperm.mem_iff.mpr List.mem_cons_self, hk⟩ hkey
    | sequence vs =>
      obtain ⟨ws, hws, hvs⟩ := expandWithin_sequence_ok_iff.mp h
      obtain rfl : vs = ws := by injection hvs
      refine mergeFreeItems_iff.mpr fun v hv => ih ?_ (List.forall₂_same.mp hws v hv)
      have := depth_le_of_mem_items hv
      simp only [depth] at hd
      omega
    | tagged t v =>
      obtain ⟨u, hu, huv⟩ := expandWithin_tagged_ok_iff.mp h
      obtain rfl : v = u := by injection huv
      have hv : v.mergeFree = true := ih (by simp only [depth] at hd; omega) hu
      exact hv
    | _ => rfl

end Merge

theorem Value.expandMerges_eq_self_iff {v : Value} : v.expandMerges = .ok v ↔ v.mergeFree = true :=
  ⟨Merge.mergeFree_of_expandWithin_eq_self (Nat.le_refl _), Merge.expandWithin_of_mergeFree⟩

end YamlInclude.Yaml
