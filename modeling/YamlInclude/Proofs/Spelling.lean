import YamlInclude.Proofs.Target
import YamlInclude.Proofs.Context

/-! # Spelling of references

A plain scalar is read before it becomes a reference, so the reference is the text of its value. That is
the file that is written only where the value gives its spelling back.
-/

namespace YamlInclude

open Yaml Traced

namespace Yaml.Scalar

/-- The plain texts that their values give back: all texts that stay texts, and of each boolean, integer
and float the text it is printed as. -/
inductive Verbatim : String → Prop
  | text {s : String} : ofPlain s = .ok (.string s) → Verbatim s
  | bool (b : Bool) : Verbatim (toString b)
  | integer (n : WideInt) : Verbatim (String.ofList n.text)
  | float {s : String} {x : Binary64} :
      ofPlain s = .ok (.number (.float x)) → numberText (.float x) = s → Verbatim s

/-- A plain scalar is null, its own text, or a numeral that stands for a boolean or a number. -/
theorem ofPlain_ok_cases {s : String} {v : Value} (h : ofPlain s = .ok v) :
    v = .null ∨ v = .string s ∨
      IsNumeral s.toList ∧ ((∃ b, v = .bool b) ∨ ∃ n, v = .number n) := by
  unfold ofPlain at h
  dsimp only at h
  split at h
  · exact Or.inl (Except.ok.inj h).symm
  split at h
  next b hb => exact Or.inr (Or.inr ⟨isNumeral_of_bool? hb, Or.inl ⟨b, (Except.ok.inj h).symm⟩⟩)
  split at h
  next n hn =>
    unfold ofInteger at h
    split at h
    · exact Or.inr (Or.inr ⟨isNumeral_of_integer? hn, Or.inr ⟨_, (Except.ok.inj h).symm⟩⟩)
    · cases h
  split at h
  · exact Or.inr (Or.inl (Except.ok.inj h).symm)
  split at h
  next x hx => exact Or.inr (Or.inr ⟨isNumeral_of_float? hx, Or.inr ⟨_, (Except.ok.inj h).symm⟩⟩)
  · exact Or.inr (Or.inl (Except.ok.inj h).symm)

theorem verbatim_iff {s : String} :
    Verbatim s ↔ ∃ v, ofPlain s = .ok v ∧ Loader.referenceText? v = some s := by
  constructor
  · rintro (h | b | n | ⟨h, htext⟩)
    · exact ⟨_, h, rfl⟩
    · exact ⟨.bool b, by cases b <;> decide, rfl⟩
    · exact ⟨_, ofPlain_text n, rfl⟩
    · exact ⟨_, h, congrArg some htext⟩
  · rintro ⟨v, hv, hs⟩
    cases v with
    | string t => 
      obtain rfl := Option.some.inj hs
      exact .text hv
    | bool b =>
      obtain rfl := Option.some.inj hs
      exact .bool b
    | number n =>
      cases n with
      | int n =>
        obtain rfl := Option.some.inj hs
        exact .integer n
      | float x => exact .float hv (Option.some.inj hs)
    | _ => cases hs

theorem referenceText?_of_plain {s r : String} {v : Value} (hv : ofPlain s = .ok v)
    (hr : Loader.referenceText? v = some r) : r = s ∨ IsNumeral s.toList ∧ IsNumeral r.toList := by
  obtain rfl | rfl | ⟨hs, ⟨b, rfl⟩ | ⟨n, rfl⟩⟩ := ofPlain_ok_cases hv
  · cases hr
  · exact Or.inl (Option.some.inj hr).symm
  · obtain rfl := Option.some.inj hr
    exact Or.inr ⟨hs, isNumeral_toString b⟩
  · obtain rfl := Option.some.inj hr
    exact Or.inr ⟨hs, isNumeral_numberText n⟩

end Yaml.Scalar

def includeNode (s : String) (plain : Bool) : Except ScalarFault Value :=
  Document.scalarValue (some (.text includeTag)) s plain

namespace Loader

open Scalar

variable {l : Loader} {load : LoadText} {st : LoadState} {r s : String}

theorem includeNode_plain (s : String) : includeNode s true = (ofPlain s).map (.tagged "include") := rfl

def selected? (l : Loader) (from_ : Path) : Value → Option Path
  | .tagged t u => (includeText? t u).map fun raw => l.target raw from_
  | _ => none

/-- Whether two nodes name the same file. -/
def SelectSame (l : Loader) (from_ : Path) (x y : Except ScalarFault Value) : Prop :=
  ∃ v w p q, x = .ok v ∧ y = .ok w ∧ l.selected? from_ v = some p ∧ l.selected? from_ w = some q ∧
    p.same q = true

theorem follow_cases (l : Loader) (load : LoadText) (st : LoadState) (r : String) :
    l.follow load r st = .fail (.cyclicInclude (st.chain ++ [l.target r st.file])) ∨
      ∃ anchor depth es, (l.follow load r st).events =
        .followed st.file (l.target r st.file) anchor depth :: es := by
  rw [follow_eq]
  cases h : st.enter (l.target r st.file) with
  | error e =>
    obtain ⟨-, rfl⟩ := LoadState.enter_error_iff.mp h
    exact Or.inl rfl
  | ok inner =>
    rw [ofExcept_ok, pure_bind, bind_of_ok (result_note _)]
    exact Or.inr ⟨(Reference.parse r).anchor, inner.depth, _, rfl⟩

theorem follow_ne_invalidReference (p : Path) : l.follow load r st ≠ .fail (.invalidReference p) := by
  intro h
  obtain hr | ⟨_, _, _, hr⟩ := l.follow_cases load st r
  · rw [hr] at h
    cases h
  · rw [h] at hr
    cases hr

theorem target_eq_of_follow_eq (h : l.follow load r st = l.follow load s st) :
    l.target r st.file = l.target s st.file := by
  obtain hr | ⟨a, n, es, hr⟩ := l.follow_cases load st r <;>
    obtain hs | ⟨b, m, fs, hs⟩ := l.follow_cases load st s
  · rw [hr, hs] at h
    have hchain := LoadError.cyclicInclude.inj (Except.error.inj (congrArg Traced.result h))
    exact List.singleton_inj.mp (List.append_cancel_left hchain)
  · rw [← h, hr] at hs
    cases hs
  · rw [h, hs] at hr
    cases hr
  · rw [h, hs] at hr
    exact (LoadEvent.followed.inj (List.cons.inj hr).1).2.1.symm

/-- The reference of a plain scalar names the file of its text only if it is that text. -/
theorem eq_of_plain_target (l : Loader) (from_ : Path) {v : Value} (hv : ofPlain s = .ok v)
    (hr : referenceText? v = some r) (h : (l.target r from_).same (l.target s from_) = true) : r = s := by
  obtain rfl | ⟨hs, hr⟩ := referenceText?_of_plain hv hr
  · rfl
  · exact l.eq_of_same_target from_ hr hs h

theorem resolveValue_include (u : Value) :
    resolveValue (l.onTag load st) (.tagged "include" u) =
      match referenceText? u with
      | some r => l.follow load r st
      | none => .fail (.invalidReference st.file) := by
  rw [resolveValue, onTag]
  exact if_pos rfl

theorem selectSame_quoted_iff {from_ : Path} {v : Value} :
    l.SelectSame from_ (.ok (.tagged "include" v)) (includeNode s false) ↔
      ∃ r, referenceText? v = some r ∧ (l.target r from_).same (l.target s from_) = true := by
  constructor
  · rintro ⟨_, _, p, q, hv, hs, hp, hq, hsame⟩
    obtain rfl := Except.ok.inj hv
    obtain rfl := Except.ok.inj hs
    obtain ⟨r, hr, rfl⟩ := Option.map_eq_some_iff.mp hp
    obtain rfl := Option.some.inj hq
    exact ⟨r, hr, hsame⟩
  · rintro ⟨r, hr, hsame⟩
    exact ⟨_, _, _, _, rfl, rfl, Option.map_eq_some_iff.mpr ⟨r, hr, rfl⟩, rfl, hsame⟩

end Loader

open Loader Scalar

/-- An unquoted include reference names the file that is written, and is resolved like the quoted one,
exactly if the value of the scalar gives its spelling back. -/
theorem plain_reference_iff (l : Loader) (load : LoadText) (st : LoadState) (s : String) :
    let plain := includeNode s true
    let quoted := includeNode s false
    let resolved (node : Except ScalarFault Value) := node.map (resolveValue (l.onTag load st))
    (l.SelectSame st.file plain quoted ↔ Verbatim s) ∧ (resolved plain = resolved quoted ↔ Verbatim s) := by
  intro plain quoted resolved
  have hquoted : resolved quoted = .ok (l.follow load s st) := rfl
  cases hv : ofPlain s with
  | error f =>
    have hplain : plain = .error f := by simp [plain, includeNode_plain, hv, Except.map]
    have hnot : ¬ Verbatim s := by simp [verbatim_iff, hv]
    rw [hquoted, hplain]
    refine ⟨iff_of_false ?_ hnot, iff_of_false nofun hnot⟩
    rintro ⟨_, _, _, _, h, _⟩
    cases h
  | ok v =>
    have hplain : plain = .ok (.tagged "include" v) := by simp [plain, includeNode_plain, hv, Except.map]
    have hresolved : resolved (.ok (.tagged "include" v)) =
        .ok (resolveValue (l.onTag load st) (.tagged "include" v)) := rfl
    rw [hquoted, hplain, hresolved, Except.ok.injEq, selectSame_quoted_iff, resolveValue_include]
    cases hr : referenceText? v with
    | none =>
      have hnot : ¬ Verbatim s := by simp [verbatim_iff, hv, hr]
      exact ⟨iff_of_false nofun hnot, iff_of_false (follow_ne_invalidReference _).symm hnot⟩
    | some r =>
      have hverbatim : Verbatim s ↔ r = s := by simp [verbatim_iff, hv, hr]
      rw [hverbatim]
      constructor
      · constructor
        · rintro ⟨r', hr', hsame⟩
          obtain rfl := Option.some.inj hr'
          exact l.eq_of_plain_target st.file hv hr hsame
        · rintro rfl
          exact ⟨r, rfl, Path.same_self _⟩
      · refine ⟨fun h => l.eq_of_plain_target st.file hv hr ?_, fun h => by rw [h]⟩
        rw [target_eq_of_follow_eq h]
        exact Path.same_self _

/-- A float is printed without the zero at its end, so the file of another name is loaded. -/
theorem plain_reference_changes :
    let l := (FileSet.mk [(⟨"/a.yml"⟩, "x: !include 1.50\n"), (⟨"/b.yml"⟩, "x: !include '1.50'\n"),
      (⟨"/1.50.yml"⟩, "right\n"), (⟨"/1.5.yml"⟩, "wrong\n")]).loader true none ⟨"/"⟩
    ofPlain "1.50" ≠ .ok .null ∧
      (includeNode "1.50" true).toOption.bind (l.selected? ⟨"/a.yml"⟩) = some ⟨"/1.5.yml"⟩ ∧
      (includeNode "1.50" false).toOption.bind (l.selected? ⟨"/a.yml"⟩) = some ⟨"/1.50.yml"⟩ ∧
      (l.loadFile ⟨"/a.yml"⟩).result = .ok [.mapping [(.string "x", .string "wrong")]] ∧
      (l.loadFile ⟨"/b.yml"⟩).result = .ok [.mapping [(.string "x", .string "right")]] := by
  intro l
  refine ⟨?_, ?_, ?_, ?_, ?_⟩ <;> decide +kernel

end YamlInclude
