import YamlInclude.Proofs.Keys

/-! # Looking keys up

Being the same key is transitive, and for scalars symmetric. So entries that go into a mapping only where their keys
are new change no lookup that finds something, and of scalar keys the order does not matter.
-/

namespace YamlInclude

open Yaml

theorem Binary64.same_trans {x y z : Binary64} (hxy : x.same y = true) (hyz : y.same z = true) : x.same z = true := by
  have hzero : ¬ (y.isZero = true ∧ y.isNaN = true) := by
    simp only [isZero, isNaN, beq_iff_eq, decide_eq_true_eq]
    omega
  simp only [same, Bool.or_eq_true, Bool.and_eq_true, beq_iff_eq] at *
  rcases hxy with (rfl | hxy) | hxy
  · exact hyz
  · rcases hyz with (rfl | hyz) | hyz
    · exact Or.inl (Or.inr hxy)
    · exact Or.inl (Or.inr ⟨hxy.1, hyz.2⟩)
    · exact absurd ⟨hxy.2, hyz.1⟩ hzero
  · rcases hyz with (rfl | hyz) | hyz
    · exact Or.inr hxy
    · exact absurd ⟨hyz.1, hxy.2⟩ hzero
    · exact Or.inr ⟨hxy.1, hyz.2⟩

theorem Binary64.same_comm (x y : Binary64) : x.same y = y.same x := by
  simp only [same, Bool.and_comm, eq_comm (a := x), beq_eq_decide]

namespace Yaml.Value

theorem sameEntries_iff {es fs : List (Value × Value)} :
    sameEntries es fs = true ↔ ∀ e ∈ es, ∃ f ∈ fs, e.1.same f.1 = true ∧ e.2.same f.2 = true := by
  induction es with
  | nil => simp [sameEntries]
  | cons e es ih => simp [sameEntries, ih]

mutual

theorem same_trans (u : Value) {v w : Value} (huv : u.same v = true) (hvw : v.same w = true) : u.same w = true := by
  cases u <;> cases v <;> simp only [same, Bool.false_eq_true] at huv <;>
    cases w <;> simp only [same, Bool.false_eq_true] at hvw <;> simp only [same]
  case bool => simp_all
  case string => simp_all
  case number.number.number l m n =>
    cases l <;> cases m <;> simp only [Number.same, Bool.false_eq_true] at huv <;>
      cases n <;> simp only [Number.same, Bool.false_eq_true] at hvw <;> simp only [Number.same]
    · simp_all
    · exact Binary64.same_trans huv hvw
  case sequence.sequence.sequence us vs ws => exact sameItems_trans us huv hvw
  case mapping.mapping.mapping es fs gs =>
    simp only [Bool.and_eq_true, beq_iff_eq] at *
    exact ⟨huv.1.trans hvw.1, sameEntries_iff.mpr (same_trans_of_mem es huv.2 hvw.2)⟩
  case tagged.tagged.tagged r u s v t w =>
    simp only [Bool.and_eq_true, beq_iff_eq] at *
    exact ⟨huv.1.trans hvw.1, same_trans u huv.2 hvw.2⟩

theorem sameItems_trans (us : List Value) {vs ws : List Value} (huv : sameItems us vs = true)
    (hvw : sameItems vs ws = true) : sameItems us ws = true := by
  match us, vs, ws with
  | [], [], [] => rfl
  | u :: us, v :: vs, w :: ws =>
    simp only [sameItems, Bool.and_eq_true] at *
    exact ⟨same_trans u huv.1 hvw.1, sameItems_trans us huv.2 hvw.2⟩
  | [], _ :: _, _ => cases huv
  | _ :: _, [], _ => cases huv
  | _, [], _ :: _ => cases hvw
  | _, _ :: _, [] => cases hvw

theorem same_trans_of_mem (es : List (Value × Value)) {fs gs : List (Value × Value)}
    (hef : sameEntries es fs = true) (hfg : sameEntries fs gs = true) :
    ∀ e ∈ es, ∃ g ∈ gs, e.1.same g.1 = true ∧ e.2.same g.2 = true := by
  match es with
  | [] => exact nofun
  | (k, v) :: es =>
    intro e he
    rcases List.mem_cons.mp he with rfl | he
    · obtain ⟨f, hf, hk, hv⟩ := sameEntries_iff.mp hef (k, v) List.mem_cons_self
      obtain ⟨g, hg, hk', hv'⟩ := sameEntries_iff.mp hfg f hf
      exact ⟨g, hg, same_trans k hk hk', same_trans v hv hv'⟩
    · simp only [sameEntries, Bool.and_eq_true] at hef
      exact same_trans_of_mem es hef.2 hfg e he

end

theorem same_comm_of_isScalar {v w : Value} (hw : w.isScalar = true) : v.same w = w.same v := by
  cases v <;> cases w <;> simp only [isScalar, Bool.false_eq_true] at hw <;> simp only [same]
  case bool => exact Bool.beq_comm
  case string => exact Bool.beq_comm
  case number.number m n =>
    cases m <;> cases n <;> simp only [Number.same]
    · exact Bool.beq_comm
    · exact Binary64.same_comm _ _

end Yaml.Value

namespace Yaml.Entries

variable {es fs : Entries} {k v : Value} {e : Value × Value}

theorem get?_eq_none_iff : es.get? k = none ↔ ∀ e ∈ es, k.same e.1 = false := by
  simp [get?]

theorem get?_append (es fs : Entries) (k : Value) :
    get? k (es ++ fs) = (es.get? k).or (fs.get? k) := by
  rw [get?, List.find?_append]
  cases h : List.find? (fun e => k.same e.1) es <;> simp [get?, h]

theorem get?_insertNew (es : Entries) (e : Value × Value) (k : Value) :
    get? k (es.insertNew e.1 e.2) = (es.get? k).or (get? k [e]) := by
  unfold insertNew
  split
  next hold =>
    obtain ⟨f, hf, hef⟩ := List.any_eq_true.mp hold
    cases hk : k.same e.1 with
    | false =>
      have hnone : get? k [e] = none := get?_eq_none_iff.mpr (by simpa using hk)
      rw [hnone, Option.or_none]
    | true =>
      have hfound : es.get? k ≠ none := fun hnone => by
        have hne := get?_eq_none_iff.mp hnone f hf
        rw [Value.same_trans k hk hef] at hne
        cases hne
      obtain ⟨w, hw⟩ := Option.ne_none_iff_exists'.mp hfound
      rw [hw, Option.some_or]
  · exact get?_append es [e] k

def Apart (e f : Value × Value) : Prop := e.1.same f.1 = false ∧ f.1.same e.1 = false

instance : Std.Symm Apart := ⟨fun _ _ h => ⟨h.2, h.1⟩⟩

section ScalarKeys

variable (hs : ∀ e ∈ es, e.1.isScalar = true)
include hs

theorem distinct_iff_apart : es.Distinct ↔ List.Pairwise Apart es := by
  constructor
  · exact fun hd => hd.imp_of_mem fun {e f} he _ h =>
      ⟨(Value.same_comm_of_isScalar (hs e he)).symm.trans h, h⟩
  · exact fun hd => hd.imp fun h => h.2

theorem distinct_perm (hp : es.Perm fs) (hd : es.Distinct) : fs.Distinct := by
  have hs' : ∀ e ∈ fs, e.1.isScalar = true := fun e he => hs e (hp.mem_iff.mpr he)
  exact (distinct_iff_apart hs').mpr
    ((hp.pairwise_iff fun h => Std.Symm.symm _ _ h).mp ((distinct_iff_apart hs).mp hd))

theorem get?_of_mem (hd : es.Distinct) (he : e ∈ es) (hk : k.same e.1 = true) : es.get? k = some e.2 := by
  cases hfind : List.find? (fun e => k.same e.1) es with
  | none =>
    have hne := List.find?_eq_none.mp hfind e he
    exact absurd hk hne
  | some f =>
    have hf := List.mem_of_find?_eq_some hfind
    have hkf : k.same f.1 = true := by simpa using List.find?_some hfind
    have hef : e.1.same f.1 = true :=
      Value.same_trans e.1 ((Value.same_comm_of_isScalar (hs e he)).symm.trans hk) hkf
    have heq : e = f := by
      by_contra hne
      have hapart := ((distinct_iff_apart hs).mp hd).forall he hf hne
      rw [hapart.1] at hef
      cases hef
    rw [get?, hfind, heq, Option.map_some]

theorem get?_perm (hp : es.Perm fs) (hd : es.Distinct) (k : Value) : es.get? k = fs.get? k := by
  have hs' : ∀ e ∈ fs, e.1.isScalar = true := fun e he => hs e (hp.mem_iff.mpr he)
  by_cases h : ∃ e ∈ es, k.same e.1 = true
  · obtain ⟨e, he, hk⟩ := h
    rw [get?_of_mem hs hd he hk, get?_of_mem hs' (distinct_perm hs hp hd) (hp.mem_iff.mp he) hk]
  · have hnone : ∀ e ∈ es, k.same e.1 = false := fun e he => Bool.eq_false_iff.mpr fun hk => h ⟨e, he, hk⟩
    rw [get?_eq_none_iff.mpr hnone, get?_eq_none_iff.mpr fun e he => hnone e (hp.mem_iff.mpr he)]

end ScalarKeys

end Yaml.Entries

end YamlInclude
