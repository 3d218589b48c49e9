import YamlInclude.Proofs.JsonScalar
import YamlInclude.Proofs.Members

/-! # JSON text is read back

The text of a JSON value whose numbers are integers is read as that value, at every indent. So is the text of
a YAML value, since no object that comes from one has a name twice.
-/

namespace YamlInclude

namespace Json

mutual

def WellFormed : Json → Prop
  | number (.float _) => False
  | array vs => WellFormedItems vs
  | object ms => DistinctNames ms ∧ WellFormedMembers ms
  | _ => True

def WellFormedItems : List Json → Prop
  | [] => True
  | v :: vs => WellFormed v ∧ WellFormedItems vs

def WellFormedMembers : List (String × Json) → Prop
  | [] => True
  | (_, v) :: ms => WellFormed v ∧ WellFormedMembers ms

end

mutual

def nesting : Json → Nat
  | array vs => nestingItems vs + 1
  | object ms => nestingMembers ms + 1
  | _ => 0

def nestingItems : List Json → Nat
  | [] => 0
  | v :: vs => max (nesting v) (nestingItems vs)

def nestingMembers : List (String × Json) → Nat
  | [] => 0
  | (_, v) :: ms => max (nesting v) (nestingMembers ms)

end

variable {indent depth limit fuel : Nat} {first : Bool} {c : Char} {cs rest text : List Char}

section Space

theorem skipSpace_of_head (h : isSpace c = false) : skipSpace (c :: cs) = c :: cs := by
  simp [skipSpace, h]

theorem skipSpace_lineBreak (h : isSpace c = false) :
    skipSpace (lineBreak indent depth ++ c :: cs) = c :: cs := by
  have hspace : ∀ d ∈ lineBreak indent depth, isSpace d = true := by
    unfold lineBreak
    split
    · simp
    · intro d hd
      rcases List.mem_cons.mp hd with rfl | hd
      · rfl
      · rw [List.eq_of_mem_replicate hd]
        rfl
  rw [skipSpace, List.dropWhile_append_of_pos hspace]
  exact skipSpace_of_head h

theorem endsNumber_lineBreak (h : EndsNumber (c :: cs)) : EndsNumber (lineBreak indent depth ++ c :: cs) := by
  unfold lineBreak
  split
  · exact h
  · exact ⟨by decide, by decide, by decide, by decide⟩

theorem endsNumber_endOfList : EndsNumber (lineBreak indent depth ++ ']' :: rest) :=
  endsNumber_lineBreak ⟨by decide, by decide, by decide, by decide⟩

theorem endsNumber_endOfObject : EndsNumber (lineBreak indent depth ++ '}' :: rest) :=
  endsNumber_lineBreak ⟨by decide, by decide, by decide, by decide⟩

theorem endsNumber_writeItems (vs : List Json) (h : EndsNumber rest) :
    EndsNumber (writeItems indent depth vs ++ rest) := by
  cases vs with
  | nil => exact h
  | cons v vs => exact ⟨by decide, by decide, by decide, by decide⟩

theorem endsNumber_writeMembers (ms : List (String × Json)) (h : EndsNumber rest) :
    EndsNumber (writeMembers indent depth ms ++ rest) := by
  cases ms with
  | nil => exact h
  | cons m ms => exact ⟨by decide, by decide, by decide, by decide⟩

end Space

section Items

def StartsItem : List Char → Prop
  | [] => False
  | c :: _ => isSpace c = false ∧ c ≠ ']'

theorem startsItem_write {v : Json} (hv : v.WellFormed) : StartsItem (write indent depth v ++ rest) := by
  cases v with
  | number n =>
    cases n with
    | float x => cases hv
    | int n =>
      obtain ⟨c, cs, heq, hc⟩ := Yaml.Scalar.text_eq_cons n
      rw [write, writeNumber, heq]
      exact ⟨isSpace_of_startsNumber hc, ne_of_startsNumber hc (by decide)⟩
  | bool b => cases b <;> exact ⟨by decide, by decide⟩
  | array vs => cases vs <;> exact ⟨by decide, by decide⟩
  | object ms => rcases ms with _ | ⟨⟨k, v⟩, ms⟩ <;> exact ⟨by decide, by decide⟩
  | _ => exact ⟨by decide, by decide⟩

theorem nextItem_first (h : StartsItem text) : nextItem true (lineBreak indent depth ++ text) = .ok (some text) := by
  cases text with
  | nil => cases h
  | cons c cs =>
    rw [nextItem, skipSpace_lineBreak h.1]
    split
    next heq => cases heq
    next heq => exact absurd (List.cons.inj heq).1 h.2
    next heq =>
      obtain ⟨rfl, rfl⟩ := List.cons.inj heq
      rfl

theorem nextItem_later (h : StartsItem text) :
    nextItem false (',' :: (lineBreak indent depth ++ text)) = .ok (some text) := by
  cases text with
  | nil => cases h
  | cons c cs =>
    rw [nextItem, skipSpace_of_head (by decide)]
    split
    next heq => cases heq
    next heq => exact absurd (List.cons.inj heq).1 (by decide)
    next heq =>
      obtain ⟨rfl, rfl⟩ := List.cons.inj heq
      rw [if_neg (by decide), if_neg (by decide), skipSpace_lineBreak h.1]
      split
      next heq => cases heq
      next heq => exact absurd (List.cons.inj heq).1 h.2
      · rfl

theorem nextItem_end : nextItem first (lineBreak indent depth ++ ']' :: cs) = .ok none := by
  rw [nextItem, skipSpace_lineBreak (by decide)]
  rfl

theorem endList_lineBreak : endList (lineBreak indent depth ++ ']' :: cs) = .ok cs := by
  rw [endList, skipSpace_lineBreak (by decide)]
  rfl

theorem readItems_end {one : Reader Json} :
    readItems one first (fuel + 1) (lineBreak indent depth ++ ']' :: cs) =
      .ok ([], lineBreak indent depth ++ ']' :: cs) := by
  rw [readItems, nextItem_end]
  rfl

theorem readItems_step {one : Reader Json} {v : Json} {vs : List Json} {cs' : List Char}
    (hnext : nextItem first text = .ok (some cs)) (hv : one cs = .ok (v, cs'))
    (hvs : readItems one false fuel cs' = .ok (vs, rest)) :
    readItems one first (fuel + 1) text = .ok (v :: vs, rest) := by
  simp only [readItems, hnext, hv, hvs, bind, Except.bind]

theorem length_le_writeItems (indent depth : Nat) (vs : List Json) : vs.length ≤ (writeItems indent depth vs).length := by
  induction vs with
  | nil => simp
  | cons v vs ih =>
    simp only [writeItems, List.length_cons, List.length_append]
    omega

end Items

section Members

theorem nextMember_first : nextMember true (lineBreak indent depth ++ '"' :: cs) = .ok (some cs) := by
  rw [nextMember, skipSpace_lineBreak (by decide)]
  rfl

theorem nextMember_later : nextMember false (',' :: (lineBreak indent depth ++ '"' :: cs)) = .ok (some cs) := by
  have hskip : skipSpace (lineBreak indent depth ++ '"' :: cs) = '"' :: cs := skipSpace_lineBreak (by decide)
  rw [nextMember, skipSpace_of_head (by decide)]
  split
  next heq => cases heq
  next heq => exact absurd (List.cons.inj heq).1 (by decide)
  next heq =>
    obtain ⟨rfl, rfl⟩ := List.cons.inj heq
    rw [if_neg (by decide), if_neg (by decide), hskip]
    rfl

theorem nextMember_end : nextMember first (lineBreak indent depth ++ '}' :: cs) = .ok none := by
  rw [nextMember, skipSpace_lineBreak (by decide)]
  rfl

theorem endObject_lineBreak : endObject (lineBreak indent depth ++ '}' :: cs) = .ok cs := by
  rw [endObject, skipSpace_lineBreak (by decide)]
  rfl

theorem readColon_colon (indent limit : Nat) (cs : List Char) :
    ∃ cs', readColon (colon indent ++ cs) = .ok cs' ∧ readValue limit cs' = readValue limit cs := by
  unfold colon
  split
  · exact ⟨cs, rfl, rfl⟩
  · exact ⟨' ' :: cs, rfl, by cases limit <;> rfl⟩

theorem readMembers_end {one : Reader Json} :
    readMembers one first (fuel + 1) (lineBreak indent depth ++ '}' :: cs) =
      .ok ([], lineBreak indent depth ++ '}' :: cs) := by
  rw [readMembers, nextMember_end]
  rfl

theorem readMembers_step {k : String} {v : Json} {ms : List (String × Json)} {cs' : List Char}
    (hnext : nextMember first text = .ok (some (writeChars k.toList ++ '"' :: (colon indent ++ cs))))
    (hv : readValue limit cs = .ok (v, cs'))
    (hms : readMembers (readValue limit) false fuel cs' = .ok (ms, rest)) :
    readMembers (readValue limit) first (fuel + 1) text = .ok ((k, v) :: ms, rest) := by
  obtain ⟨cs₁, hcolon, hblank⟩ := readColon_colon indent limit cs
  have hv₁ := hblank.trans hv
  simp only [readMembers, hnext, readString_writeChars, hcolon, hv₁, hms, bind, Except.bind]

theorem length_le_writeMembers (indent depth : Nat) (ms : List (String × Json)) :
    ms.length ≤ (writeMembers indent depth ms).length := by
  induction ms with
  | nil => simp
  | cons m ms ih =>
    simp only [writeMembers, List.length_cons, List.length_append]
    omega

end Members

section Values

theorem readValue_number (h : c = '-' ∨ c.isDigit = true) :
    readValue (limit + 1) (c :: cs) = (readNumber (c :: cs)).bind fun p => .ok (.number p.1, p.2) := by
  rw [readValue, skipSpace_of_head (isSpace_of_startsNumber h)]
  split
  next heq => cases heq
  iterate 6 next heq => exact absurd (List.cons.inj heq).1 (ne_of_startsNumber h (by decide))
  next heq =>
    obtain ⟨rfl, rfl⟩ := List.cons.inj heq
    rw [if_pos h]
    rfl

theorem readValue_list (indent depth : Nat) {vs : List Json} (hlimit : limit ≠ 0)
    (h : readItems (readValue limit) true (cs.length + 1) cs = .ok (vs, lineBreak indent depth ++ ']' :: rest)) :
    readValue (limit + 1) ('[' :: cs) = .ok (.array vs, rest) := by
  rw [readValue, skipSpace_of_head (by decide)]
  simp only [hlimit, if_false, h, endList_lineBreak, bind, Except.bind]

theorem readValue_object (indent depth : Nat) {ms : List (String × Json)} (hlimit : limit ≠ 0) (hms : DistinctNames ms)
    (h : readMembers (readValue limit) true (cs.length + 1) cs =
      .ok (ms, lineBreak indent depth ++ '}' :: rest)) :
    readValue (limit + 1) ('{' :: cs) = .ok (.object ms, rest) := by
  rw [readValue, skipSpace_of_head (by decide)]
  simp only [hlimit, if_false, h, endObject_lineBreak, ofMembers_of_distinct hms, bind, Except.bind]

end Values

mutual

theorem readValue_write (indent : Nat) (v : Json) {depth limit : Nat} {rest : List Char} (hv : v.WellFormed)
    (hlimit : v.nesting < limit) (hrest : EndsNumber rest) :
    readValue limit (write indent depth v ++ rest) = .ok (v, rest) := by
  obtain ⟨limit, rfl⟩ := Nat.exists_eq_succ_of_ne_zero (Nat.ne_zero_of_lt hlimit)
  cases v with
  | null => rfl
  | bool b => cases b <;> rfl
  | number n =>
    cases n with
    | float x => cases hv
    | int n =>
      have hread := readNumber_text n hrest
      obtain ⟨c, cs, heq, hc⟩ := Yaml.Scalar.text_eq_cons n
      rw [heq] at hread
      rw [write, writeNumber, heq, List.cons_append, readValue_number hc, ← List.cons_append, hread]
      rfl
  | string s =>
    simp only [write, writeString, List.cons_append, List.append_assoc, List.nil_append]
    rw [readValue, skipSpace_of_head (by decide)]
    simp only [readString_writeChars, bind, Except.bind]
  | array vs =>
    have hdeep : nestingItems vs < limit := Nat.lt_of_succ_lt_succ hlimit
    cases vs with
    | nil => exact readValue_list 0 0 (Nat.ne_zero_of_lt hdeep) rfl
    | cons v vs =>
      simp only [nestingItems] at hdeep
      -- no comma stands before the first item, and the reader's fuel is the length of the text after the bracket
      have hlength := length_le_writeItems indent (depth + 1) vs
      simp only [write, List.cons_append, List.append_assoc, List.nil_append]
      refine readValue_list indent depth (by omega) ?_
      refine readItems_step (nextItem_first (startsItem_write hv.1))
        (readValue_write indent v hv.1 (by omega) (endsNumber_writeItems vs endsNumber_endOfList)) ?_
      refine readItems_writeItems indent vs hv.2 (by omega) ?_
      simp only [List.length_append, List.length_cons]
      omega
  | object ms =>
    have hdeep : nestingMembers ms < limit := Nat.lt_of_succ_lt_succ hlimit
    cases ms with
    | nil => exact readValue_object 0 0 (Nat.ne_zero_of_lt hdeep) hv.1 rfl
    | cons m ms =>
      obtain ⟨k, v⟩ := m
      simp only [nestingMembers] at hdeep
      have hlength := length_le_writeMembers indent (depth + 1) ms
      simp only [write, writeString, List.cons_append, List.append_assoc, List.nil_append]
      refine readValue_object indent depth (by omega) hv.1 ?_
      refine readMembers_step nextMember_first
        (readValue_write indent v hv.2.1 (by omega) (endsNumber_writeMembers ms endsNumber_endOfObject)) ?_
      refine readMembers_writeMembers indent ms hv.2.2 (by omega) ?_
      simp only [List.length_append, List.length_cons]
      omega

theorem readItems_writeItems (indent : Nat) (vs : List Json) {depth outer limit fuel : Nat} {rest : List Char}
    (hvs : WellFormedItems vs) (hlimit : nestingItems vs < limit) (hfuel : vs.length < fuel) :
    readItems (readValue limit) false fuel (writeItems indent depth vs ++ (lineBreak indent outer ++ ']' :: rest)) =
      .ok (vs, lineBreak indent outer ++ ']' :: rest) := by
  obtain ⟨fuel, rfl⟩ := Nat.exists_eq_succ_of_ne_zero (Nat.ne_zero_of_lt hfuel)
  match vs with
  | [] => exact readItems_end
  | v :: vs =>
    simp only [nestingItems] at hlimit
    simp only [writeItems, List.cons_append, List.append_assoc]
    exact readItems_step (nextItem_later (startsItem_write hvs.1))
      (readValue_write indent v hvs.1 (by omega) (endsNumber_writeItems vs endsNumber_endOfList))
      (readItems_writeItems indent vs hvs.2 (by omega) (Nat.lt_of_succ_lt_succ hfuel))

theorem readMembers_writeMembers (indent : Nat) (ms : List (String × Json)) {depth outer limit fuel : Nat}
    {rest : List Char} (hms : WellFormedMembers ms) (hlimit : nestingMembers ms < limit)
    (hfuel : ms.length < fuel) :
    readMembers (readValue limit) false fuel
        (writeMembers indent depth ms ++ (lineBreak indent outer ++ '}' :: rest)) =
      .ok (ms, lineBreak indent outer ++ '}' :: rest) := by
  obtain ⟨fuel, rfl⟩ := Nat.exists_eq_succ_of_ne_zero (Nat.ne_zero_of_lt hfuel)
  match ms with
  | [] => exact readMembers_end
  | (k, v) :: ms =>
    simp only [nestingMembers] at hlimit
    simp only [writeMembers, writeString, List.cons_append, List.append_assoc, List.nil_append]
    exact readMembers_step nextMember_later
      (readValue_write indent v hms.1 (by omega) (endsNumber_writeMembers ms endsNumber_endOfObject))
      (readMembers_writeMembers indent ms hms.2 (by omega) (Nat.lt_of_succ_lt_succ hfuel))

end

theorem parse_write (indent : Nat) {v : Json} (hv : v.WellFormed) (hlimit : v.nesting < limit) :
    parse limit (write indent 0 v) = .ok v := by
  have hread : readValue limit (write indent 0 v ++ []) = .ok (v, []) :=
    readValue_write indent v hv hlimit trivial
  rw [List.append_nil] at hread
  rw [parse, hread]
  rfl

theorem wellFormedMembers_setMember {name : String} {v : Json} {ms : List (String × Json)} (hv : v.WellFormed)
    (hms : WellFormedMembers ms) : WellFormedMembers (setMember name v ms) := by
  induction ms with
  | nil => exact ⟨hv, trivial⟩
  | cons m ms ih =>
    obtain ⟨k, w⟩ := m
    rw [setMember]
    split
    · exact ⟨hv, hms.2⟩
    · exact ⟨hms.1, ih hms.2⟩

theorem wellFormed_ofMembers {ms : List (String × Json)} (h : WellFormedMembers ms) : (ofMembers ms).WellFormed := by
  -- setting a member keeps the names distinct, whatever is there
  suffices hset : ∀ done, (object done).WellFormed →
      (object (ms.foldl (fun acc m => setMember m.1 m.2 acc) done)).WellFormed from hset [] ⟨.nil, trivial⟩
  induction ms with
  | nil => exact fun _ hdone => hdone
  | cons m ms ih =>
    exact fun done hdone =>
      ih h.2 _ ⟨distinctNames_setMember hdone.1, wellFormedMembers_setMember h.1 hdone.2⟩

end Json

namespace Yaml.Value

mutual

/-- Whether all numbers outside of keys are integers. -/
def integral : Value → Bool
  | number (.float _) => false
  | sequence vs => integralItems vs
  | mapping es => integralEntries es
  | tagged _ v => integral v
  | _ => true

def integralItems : List Value → Bool
  | [] => true
  | v :: vs => integral v && integralItems vs

def integralEntries : List (Value × Value) → Bool
  | [] => true
  | (_, v) :: es => integral v && integralEntries es

end

mutual

theorem toJson_wellFormed (v : Value) (h : v.integral = true) : v.toJson.WellFormed := by
  cases v with
  | number n =>
    cases n with
    | int n => trivial
    | float x => cases h
  | sequence vs => exact itemsToJson_wellFormed vs h
  | mapping es => exact Json.wellFormed_ofMembers (entriesToJson_wellFormed es h)
  | tagged t v => exact ⟨List.pairwise_singleton _ _, toJson_wellFormed v h, trivial⟩
  | _ => trivial

theorem itemsToJson_wellFormed (vs : List Value) (h : integralItems vs = true) :
    Json.WellFormedItems (itemsToJson vs) := by
  match vs with
  | [] => trivial
  | v :: vs =>
    obtain ⟨hv, hvs⟩ := Bool.and_eq_true_iff.mp h
    exact ⟨toJson_wellFormed v hv, itemsToJson_wellFormed vs hvs⟩

theorem entriesToJson_wellFormed (es : List (Value × Value)) (h : integralEntries es = true) :
    Json.WellFormedMembers (entriesToJson es) := by
  match es with
  | [] => trivial
  | (k, v) :: es =>
    obtain ⟨hv, hes⟩ := Bool.and_eq_true_iff.mp h
    exact ⟨toJson_wellFormed v hv, entriesToJson_wellFormed es hes⟩

end

/-- The text of a value is read as its JSON value at every indent, narrow or wide. The reader's limit only has
to be above the nesting of the value. -/
theorem jsonText_reads_back {v : Value} (hv : v.integral = true) (indent : Nat) {limit : Nat}
    (hlimit : v.toJson.nesting < limit) : Json.parse limit (v.jsonText indent).toList = .ok v.toJson := by
  rw [jsonText, Json.render, String.toList_ofList]
  exact Json.parse_write _ (toJson_wellFormed v hv) hlimit

/-- Keys of all kinds, the widest integers, strings with quotes and breaks, and an indent over the widest one. -/
theorem jsonText_reads_back_wide :
    let low : Number := .int ⟨-0x8000000000000000, by decide, by decide⟩
    let high : Number := .int ⟨0xFFFFFFFFFFFFFFFF, by decide, by decide⟩
    let v := mapping [(number low, sequence [number high, sequence [], mapping []]),
      (sequence [null, string "\x7d"], tagged "t" (string "a\"\\\n\x01é,")), (string "\t:", bool false)]
    v.integral = true ∧ v.toJson.nesting < 128 ∧ Json.parse 128 (v.jsonText 40).toList = .ok v.toJson := by
  intro low high v
  have hv : v.integral = true := by decide
  have hnesting : v.toJson.nesting < 128 := by decide +kernel
  exact ⟨hv, hnesting, jsonText_reads_back hv 40 hnesting⟩

end Yaml.Value

end YamlInclude
