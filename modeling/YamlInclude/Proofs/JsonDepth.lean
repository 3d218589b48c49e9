import YamlInclude.Proofs.JsonText

/-! # JSON text that nests too deeply

The text of a JSON value whose numbers are integers is read as that value within a limit above its nesting, and
within no other limit: there the nesting is what is wrong with it.
-/

namespace YamlInclude.Json

def TooDeep {α : Type} (r : Except ReadError α) : Prop := ∃ e, r = .error e ∧ e.fault = .tooDeep

variable {α β : Type} {indent depth limit fuel : Nat} {first : Bool} {cs cs' rest text : List Char}

theorem TooDeep.bind {r : Except ReadError α} (h : TooDeep r) (f : α → Except ReadError β) : TooDeep (r >>= f) := by
  obtain ⟨e, rfl, he⟩ := h
  exact ⟨e, rfl, he⟩

theorem TooDeep.not_ok {r : Except ReadError α} (h : TooDeep r) (a : α) : r ≠ .ok a := by
  obtain ⟨e, rfl, -⟩ := h
  exact nofun

section Items

variable {one : Reader Json}

theorem readItems_tooDeep (hnext : nextItem first text = .ok (some cs)) (hv : TooDeep (one cs)) :
    TooDeep (readItems one first (fuel + 1) text) := by
  rw [readItems, hnext]
  exact hv.bind _

theorem readItems_later_tooDeep {v : Json} (hnext : nextItem first text = .ok (some cs)) (hv : one cs = .ok (v, cs'))
    (hvs : TooDeep (readItems one false fuel cs')) : TooDeep (readItems one first (fuel + 1) text) := by
  simp only [readItems, hnext, hv, bind, Except.bind]
  exact hvs.bind _

end Items

section Members

variable {k : String}

theorem readMembers_tooDeep (hnext : nextMember first text = .ok (some (writeChars k.toList ++ '"' :: (colon indent ++ cs))))
    (hv : TooDeep (readValue limit cs)) : TooDeep (readMembers (readValue limit) first (fuel + 1) text) := by
  obtain ⟨cs₁, hcolon, hblank⟩ := readColon_colon indent limit cs
  simp only [readMembers, hnext, readString_writeChars, hcolon, bind, Except.bind]
  rw [← hblank] at hv
  exact hv.bind _

theorem readMembers_later_tooDeep {v : Json}
    (hnext : nextMember first text = .ok (some (writeChars k.toList ++ '"' :: (colon indent ++ cs))))
    (hv : readValue limit cs = .ok (v, cs')) (hms : TooDeep (readMembers (readValue limit) false fuel cs')) :
    TooDeep (readMembers (readValue limit) first (fuel + 1) text) := by
  obtain ⟨cs₁, hcolon, hblank⟩ := readColon_colon indent limit cs
  have hv₁ := hblank.trans hv
  simp only [readMembers, hnext, readString_writeChars, hcolon, hv₁, bind, Except.bind]
  exact hms.bind _

end Members

theorem readValue_list_tooDeep (h : limit ≠ 0 → TooDeep (readItems (readValue limit) true (cs.length + 1) cs)) :
    TooDeep (readValue (limit + 1) ('[' :: cs)) := by
  rw [readValue, skipSpace_of_head (by decide)]
  by_cases hlimit : limit = 0
  · simp only [hlimit, if_true]
    exact ⟨_, rfl, rfl⟩
  · simp only [hlimit, if_false]
    exact (h hlimit).bind _

theorem readValue_object_tooDeep (h : limit ≠ 0 → TooDeep (readMembers (readValue limit) true (cs.length + 1) cs)) :
    TooDeep (readValue (limit + 1) ('{' :: cs)) := by
  rw [readValue, skipSpace_of_head (by decide)]
  by_cases hlimit : limit = 0
  · simp only [hlimit, if_true]
    exact ⟨_, rfl, rfl⟩
  · simp only [hlimit, if_false]
    exact (h hlimit).bind _

mutual

/-- Of the parts of a value that nests too deeply, the reader gives up at the first one that does. -/
theorem readValue_write_tooDeep (indent : Nat) (v : Json) {depth limit : Nat} {rest : List Char} (hv : v.WellFormed)
    (hlimit : limit ≤ v.nesting) : TooDeep (readValue limit (write indent depth v ++ rest)) := by
  cases limit with
  | zero => exact ⟨_, rfl, rfl⟩
  | succ limit =>
    cases v with
    | array vs =>
      have hdeep : limit ≤ nestingItems vs := Nat.le_of_succ_le_succ hlimit
      cases vs with
      | nil => exact readValue_list_tooDeep fun h => absurd (Nat.le_zero.mp hdeep) h
      | cons v vs =>
        simp only [nestingItems] at hdeep
        have hlength := length_le_writeItems indent (depth + 1) vs
        simp only [write, List.cons_append, List.append_assoc, List.nil_append]
        refine readValue_list_tooDeep fun hpos => ?_
        by_cases hfirst : limit ≤ v.nesting
        · exact readItems_tooDeep (nextItem_first (startsItem_write hv.1))
            (readValue_write_tooDeep indent v hv.1 hfirst)
        · refine readItems_later_tooDeep (nextItem_first (startsItem_write hv.1))
            (readValue_write indent v hv.1 (Nat.lt_of_not_le hfirst) (endsNumber_writeItems vs endsNumber_endOfList)) ?_
          refine readItems_writeItems_tooDeep indent vs hv.2 hpos (by omega) ?_
          simp only [List.length_append, List.length_cons]
          omega
    | object ms =>
      have hdeep : limit ≤ nestingMembers ms := Nat.le_of_succ_le_succ hlimit
      cases ms with
      | nil => exact readValue_object_tooDeep fun h => absurd (Nat.le_zero.mp hdeep) h
      | cons m ms =>
        obtain ⟨k, v⟩ := m
        simp only [nestingMembers] at hdeep
        have hlength := length_le_writeMembers indent (depth + 1) ms
        simp only [write, writeString, List.cons_append, List.append_assoc, List.nil_append]
        refine readValue_object_tooDeep fun hpos => ?_
        by_cases hfirst : limit ≤ v.nesting
        · exact readMembers_tooDeep nextMember_first (readValue_write_tooDeep indent v hv.2.1 hfirst)
        · refine readMembers_later_tooDeep nextMember_first
            (readValue_write indent v hv.2.1 (Nat.lt_of_not_le hfirst)
              (endsNumber_writeMembers ms endsNumber_endOfObject)) ?_
          refine readMembers_writeMembers_tooDeep indent ms hv.2.2 hpos (by omega) ?_
          simp only [List.length_append, List.length_cons]
          omega
    | _ => exact absurd hlimit (Nat.not_succ_le_zero limit)

theorem readItems_writeItems_tooDeep (indent : Nat) (vs : List Json) {depth outer limit fuel : Nat} {rest : List Char}
    (hvs : WellFormedItems vs) (hpos : limit ≠ 0) (hlimit : limit ≤ nestingItems vs) (hfuel : vs.length < fuel) :
    TooDeep (readItems (readValue limit) false fuel
      (writeItems indent depth vs ++ (lineBreak indent outer ++ ']' :: rest))) := by
  obtain ⟨fuel, rfl⟩ := Nat.exists_eq_succ_of_ne_zero (Nat.ne_zero_of_lt hfuel)
  match vs with
  | [] => exact absurd (Nat.le_zero.mp hlimit) hpos
  | v :: vs =>
    simp only [nestingItems] at hlimit
    simp only [writeItems, List.cons_append, List.append_assoc]
    by_cases hfirst : limit ≤ v.nesting
    · exact readItems_tooDeep (nextItem_later (startsItem_write hvs.1))
        (readValue_write_tooDeep indent v hvs.1 hfirst)
    · exact readItems_later_tooDeep (nextItem_later (startsItem_write hvs.1))
        (readValue_write indent v hvs.1 (Nat.lt_of_not_le hfirst) (endsNumber_writeItems vs endsNumber_endOfList))
        (readItems_writeItems_tooDeep indent vs hvs.2 hpos (by omega) (Nat.lt_of_succ_lt_succ hfuel))

theorem readMembers_writeMembers_tooDeep (indent : Nat) (ms : List (String × Json)) {depth outer limit fuel : Nat}
    {rest : List Char} (hms : WellFormedMembers ms) (hpos : limit ≠ 0) (hlimit : limit ≤ nestingMembers ms)
    (hfuel : ms.length < fuel) :
    TooDeep (readMembers (readValue limit) false fuel
      (writeMembers indent depth ms ++ (lineBreak indent outer ++ '}' :: rest))) := by
  obtain ⟨fuel, rfl⟩ := Nat.exists_eq_succ_of_ne_zero (Nat.ne_zero_of_lt hfuel)
  match ms with
  | [] => exact absurd (Nat.le_zero.mp hlimit) hpos
  | (k, v) :: ms =>
    simp only [nestingMembers] at hlimit
    simp only [writeMembers, writeString, List.cons_append, List.append_assoc, List.nil_append]
    by_cases hfirst : limit ≤ v.nesting
    · exact readMembers_tooDeep nextMember_later (readValue_write_tooDeep indent v hms.1 hfirst)
    · exact readMembers_later_tooDeep nextMember_later
        (readValue_write indent v hms.1 (Nat.lt_of_not_le hfirst) (endsNumber_writeMembers ms endsNumber_endOfObject))
        (readMembers_writeMembers_tooDeep indent ms hms.2 hpos (by omega) (Nat.lt_of_succ_lt_succ hfuel))

end

/-- A text is read back exactly where the limit is above its nesting. -/
theorem parse_write_iff (indent limit : Nat) {v : Json} (hv : v.WellFormed) :
    parse limit (write indent 0 v) = .ok v ↔ v.nesting < limit := by
  refine ⟨fun h => Nat.lt_of_not_le fun hlimit => ?_, parse_write indent hv⟩
  have hdeep : TooDeep (readValue limit (write indent 0 v ++ [])) := readValue_write_tooDeep indent v hv hlimit
  rw [List.append_nil] at hdeep
  exact (hdeep.bind _).not_ok v h

end YamlInclude.Json
