import YamlInclude.Proofs.JsonDepth
import YamlInclude.TagProgram.Response

/-! # Responses are read back

The line of a response is read as that response. Only null is no data once it is read, and data that nests as deep
as a text may is too deep inside a response.
-/

namespace YamlInclude.TagResponse

open Json

variable {b : Bool} {d j : Json} {s : String} {first : Bool} {fuel : Nat} {c : Char} {cs rest text : List Char}
  {parts parts' : Partial} {m : String × Json} {ms : List (String × Json)}

section Parts

theorem readBool_write (b : Bool) (rest : List Char) : readBool (write 0 1 (.bool b) ++ rest) = .ok (b, rest) := by
  cases b <;> rfl

theorem readOptional_of_head {α : Type} {one : Reader α} (hc : isSpace c = false) (hn : c ≠ 'n') :
    readOptional one (c :: cs) = one (c :: cs) >>= fun p => .ok (some p.1, p.2) := by
  rw [readOptional, skipSpace_of_head hc]
  split
  next heq => exact absurd (List.cons.inj heq).1 hn
  · rfl

theorem readError_write (s : String) (rest : List Char) :
    readError (write 0 1 (.string s) ++ rest) = .ok (some s, rest) := by
  have htext : readText ('"' :: (writeChars s.toList ++ '"' :: rest)) = .ok (s, rest) :=
    readString_writeChars s rest
  simp only [write, writeString, List.cons_append, List.append_assoc, List.nil_append]
  rw [readError, readOptional_of_head (by decide) (by decide), htext]
  rfl

theorem readData_of_ne_null (hd : d.WellFormed) (hnull : d ≠ .null) :
    readData (write 0 1 d ++ rest) =
      readValue dataDepth (write 0 1 d ++ rest) >>= fun p => .ok (some p.1, p.2) := by
  cases d with
  | null => exact absurd rfl hnull
  | number n =>
    cases n with
    | float x => cases hd
    | int n =>
      obtain ⟨c, cs, heq, hc⟩ := Yaml.Scalar.text_eq_cons n
      rw [write, writeNumber, heq]
      exact readOptional_of_head (isSpace_of_startsNumber hc) (ne_of_startsNumber hc (by decide))
  | bool b => cases b <;> exact readOptional_of_head (by decide) (by decide)
  | array vs => cases vs <;> exact readOptional_of_head (by decide) (by decide)
  | object ms => rcases ms with _ | ⟨⟨k, v⟩, ms⟩ <;> exact readOptional_of_head (by decide) (by decide)
  | string s => exact readOptional_of_head (by decide) (by decide)

theorem readData_write (hd : d.WellFormed) (hdepth : d.nesting < dataDepth) (hrest : EndsNumber rest) :
    readData (write 0 1 d ++ rest) = .ok ((some d).filter (· ≠ .null), rest) := by
  by_cases hnull : d = .null
  · subst hnull
    rfl
  · rw [readData_of_ne_null hd hnull, readValue_write 0 d hd hdepth hrest]
    rw [Option.filter_some, if_pos (by simpa using hnull)]
    rfl

theorem readData_tooDeep (hd : d.WellFormed) (hdepth : dataDepth ≤ d.nesting) :
    TooDeep (readData (write 0 1 d ++ rest)) := by
  have hnull : d ≠ .null := by
    rintro rfl
    exact absurd hdepth (by decide)
  rw [readData_of_ne_null hd hnull]
  exact (readValue_write_tooDeep 0 d hd hdepth).bind _

end Parts

section Members

/-- Whether a member, once it is read, takes the parts from what they were to what they are. -/
def Takes (parts : Partial) (m : String × Json) (parts' : Partial) : Prop :=
  ∀ rest, EndsNumber rest → readMember parts m.1 (':' :: (write 0 1 m.2 ++ rest)) = .ok (.next parts' rest)

theorem takes_success (data : Option (Option Json)) (error : Option (Option String)) (b : Bool) :
    Takes ⟨none, data, error⟩ ("success", .bool b) ⟨some b, data, error⟩ := by
  intro rest _
  have hcolon : readColon (':' :: (write 0 1 (.bool b) ++ rest)) = .ok (write 0 1 (.bool b) ++ rest) := rfl
  simp only [readMember, Option.isSome_none, Bool.false_eq_true, if_false, hcolon, readBool_write, bind, Except.bind]

theorem takes_data (success : Option Bool) (error : Option (Option String)) (hd : d.WellFormed)
    (hdepth : d.nesting < dataDepth) :
    Takes ⟨success, none, error⟩ ("data", d) ⟨success, some ((some d).filter (· ≠ .null)), error⟩ := by
  intro rest hrest
  have hcolon : readColon (':' :: (write 0 1 d ++ rest)) = .ok (write 0 1 d ++ rest) := rfl
  simp only [readMember, Option.isSome_none, Bool.false_eq_true, if_false, hcolon, readData_write hd hdepth hrest,
    bind, Except.bind]

theorem takes_error (success : Option Bool) (data : Option (Option Json)) (s : String) :
    Takes ⟨success, data, none⟩ ("error", .string s) ⟨success, data, some (some s)⟩ := by
  intro rest _
  have hcolon : readColon (':' :: (write 0 1 (.string s) ++ rest)) = .ok (write 0 1 (.string s) ++ rest) := rfl
  simp only [readMember, Option.isSome_none, Bool.false_eq_true, if_false, hcolon, readError_write, bind, Except.bind]

theorem readMember_tooDeep (success : Option Bool) (error : Option (Option String)) (hd : d.WellFormed)
    (hdepth : dataDepth ≤ d.nesting) :
    TooDeep (readMember ⟨success, none, error⟩ "data" (':' :: (write 0 1 d ++ rest))) := by
  have hcolon : readColon (':' :: (write 0 1 d ++ rest)) = .ok (write 0 1 d ++ rest) := rfl
  simp only [readMember, Option.isSome_none, Bool.false_eq_true, if_false, hcolon]
  exact (readData_tooDeep hd hdepth).bind _

/-- Whether members, read one after the other, take the parts from what they were to what they are. -/
inductive TakesAll : Partial → List (String × Json) → Partial → Prop
  | nil {parts : Partial} : TakesAll parts [] parts
  | cons {parts parts₁ parts' : Partial} {m : String × Json} {ms : List (String × Json)} :
      Takes parts m parts₁ → TakesAll parts₁ ms parts' → TakesAll parts (m :: ms) parts'

theorem readMembers_of_takes
    (hnext : nextMember first text = .ok (some (writeChars m.1.toList ++ '"' :: ':' :: (write 0 1 m.2 ++ cs))))
    (hm : Takes parts m parts') (hcs : EndsNumber cs) :
    readMembers first parts (fuel + 1) text = readMembers false parts' fuel cs := by
  simp only [readMembers, hnext, readString_writeChars, hm cs hcs, bind, Except.bind]

theorem readMembers_of_tooDeep {name : String}
    (hnext : nextMember first text = .ok (some (writeChars name.toList ++ '"' :: ':' :: cs)))
    (h : TooDeep (readMember parts name (':' :: cs))) : TooDeep (readMembers first parts (fuel + 1) text) := by
  simp only [readMembers, hnext, readString_writeChars, bind, Except.bind]
  exact h.bind _

theorem endsNumber_closing (ms : List (String × Json)) (rest : List Char) :
    EndsNumber (writeMembers 0 1 ms ++ '}' :: rest) :=
  endsNumber_writeMembers ms ⟨by decide, by decide, by decide, by decide⟩

theorem readMembers_of_takesAll (h : TakesAll parts ms parts') (hsuccess : parts'.success.isSome = true)
    (hfuel : ms.length < fuel) :
    readMembers false parts fuel (writeMembers 0 1 ms ++ '}' :: rest) = .ok (.next parts' ('}' :: rest)) := by
  induction h generalizing fuel with
  | nil =>
    obtain ⟨fuel, rfl⟩ := Nat.exists_eq_succ_of_ne_zero (Nat.ne_zero_of_lt hfuel)
    have hend : nextMember false ('}' :: rest) = .ok none := rfl
    simp only [writeMembers, List.nil_append, readMembers, hend, hsuccess, if_true, bind, Except.bind]
  | @cons parts parts₁ parts' m ms hm _ ih =>
    obtain ⟨fuel, rfl⟩ := Nat.exists_eq_succ_of_ne_zero (Nat.ne_zero_of_lt hfuel)
    simp only [writeMembers, writeString, colon, if_true, List.cons_append, List.append_assoc, List.nil_append]
    rw [readMembers_of_takes nextMember_later hm (endsNumber_closing ms rest)]
    exact ih hsuccess (Nat.lt_of_succ_lt_succ hfuel)

end Members

section Lines

variable (r : TagResponse)

def optional : List (String × Json) :=
  (r.data.map fun d => ("data", d)).toList ++ (r.error.map fun e => ("error", Json.string e)).toList

def afterBrace : List Char :=
  '"' :: (writeChars "success".toList ++ '"' :: ':' ::
    (write 0 1 (.bool r.success) ++ (writeMembers 0 1 r.optional ++ ['}'])))

theorem line_eq : r.line.toList = '{' :: r.afterBrace := by
  simp [line, compact, render, toJson, afterBrace, optional, write, writeString, lineBreak, colon]

theorem nesting_toJson : r.toJson.nesting = (r.data.map nesting).getD 0 + 1 := by
  rcases r with ⟨b, _ | d, _ | e⟩ <;> simp [toJson, nesting, nestingMembers]

theorem parse_object (cs : List Char) : parse ('{' :: cs) = (do
    let (r, rest) ← readObject cs
    readEnd rest
    .ok r) := rfl

theorem readMembers_afterBrace : ∃ fuel, r.optional.length < fuel ∧
    readMembers true ⟨none, none, none⟩ (r.afterBrace.length + 1) r.afterBrace =
      readMembers false ⟨some r.success, none, none⟩ fuel (writeMembers 0 1 r.optional ++ ['}']) := by
  refine ⟨r.afterBrace.length, ?_,
    readMembers_of_takes rfl (takes_success none none r.success) (endsNumber_closing r.optional [])⟩
  have hlength := length_le_writeMembers 0 1 r.optional
  simp only [afterBrace, List.length_append, List.length_cons]
  omega

theorem takesAll_optional (hdata : ∀ d ∈ r.data, d.WellFormed) (hdepth : r.toJson.nesting < depthLimit) :
    TakesAll ⟨some r.success, none, none⟩ r.optional
      ⟨some r.success, r.data.map fun d => (some d).filter (· ≠ .null), r.error.map some⟩ := by
  rw [nesting_toJson] at hdepth
  obtain ⟨b, data, error⟩ := r
  have herror (data : Option (Option Json)) : TakesAll ⟨some b, data, none⟩
      (error.map fun e => ("error", Json.string e)).toList ⟨some b, data, error.map some⟩ := by
    cases error with
    | none => exact .nil
    | some e => exact .cons (takes_error _ _ e) .nil
  cases data with
  | none => exact herror none
  | some d =>
    have hd : d.nesting < dataDepth := Nat.lt_sub_of_add_lt hdepth
    exact .cons (takes_data _ _ (hdata d rfl) hd) (herror _)

theorem parse_line_of_lt (hdata : ∀ d ∈ r.data, d.WellFormed) (hdepth : r.toJson.nesting < depthLimit) :
    parse r.line.toList = .ok { r with data := r.data.filter (· ≠ .null) } := by
  obtain ⟨fuel, hfuel, hmembers⟩ := r.readMembers_afterBrace
  rw [readMembers_of_takesAll (takesAll_optional r hdata hdepth) rfl hfuel] at hmembers
  have hobject : readObject r.afterBrace = .ok ({ r with data := r.data.filter (· ≠ .null) }, []) := by
    rw [readObject, hmembers]
    rcases r with ⟨b, _ | d, _ | e⟩ <;> rfl
  rw [line_eq, parse_object, hobject]
  rfl

theorem parse_line_of_le (hdata : ∀ d ∈ r.data, d.WellFormed) (hdepth : depthLimit ≤ r.toJson.nesting) :
    TooDeep (parse r.line.toList) := by
  obtain ⟨fuel, hfuel, hmembers⟩ := r.readMembers_afterBrace
  rw [nesting_toJson] at hdepth
  cases hd : r.data with
  | none => rw [hd] at hdepth; exact absurd hdepth (by decide)
  | some d =>
    obtain ⟨fuel, rfl⟩ := Nat.exists_eq_succ_of_ne_zero (Nat.ne_zero_of_lt hfuel)
    have hdeep : dataDepth ≤ d.nesting := by
      rw [hd] at hdepth
      exact Nat.sub_le_of_le_add hdepth
    -- the data is the first of the optional members, so nothing after it is looked at
    have hparts : TooDeep (readMembers true ⟨none, none, none⟩ (r.afterBrace.length + 1) r.afterBrace) := by
      rw [hmembers, optional, hd]
      simp only [Option.map_some, Option.toList_some, List.cons_append, List.append_assoc, List.nil_append,
        writeMembers, writeString, colon, if_true]
      exact readMembers_of_tooDeep nextMember_later (readMember_tooDeep _ none (hdata d hd) hdeep)
    rw [line_eq, parse_object, readObject]
    exact (hparts.bind _).bind _

end Lines

/-- A response is read back from its line, with null as no data, unless its data nests too deeply inside it. -/
theorem response_line_reads_back (r : TagResponse) (hdata : ∀ d ∈ r.data, d.WellFormed) :
    (r.toJson.nesting < depthLimit → parse r.line.toList = .ok { r with data := r.data.filter (· ≠ .null) }) ∧
      (depthLimit ≤ r.toJson.nesting → TooDeep (parse r.line.toList)) :=
  ⟨parse_line_of_lt r hdata, parse_line_of_le r hdata⟩

/-- Data that is a list with a null in it is read back. Inside one more bracket than a response has room for, it is not
read at all. -/
theorem listed_null_reads_back :
    let lists (n : Nat) := Nat.rec (Json.array [.null, .string "\"\n"]) (fun _ d => .array [d]) n
    let r (n : Nat) : TagResponse := ⟨false, some (lists n), some "\\ \t"⟩
    (r 125).toJson.nesting < depthLimit ∧ parse (r 125).line.toList = .ok (r 125) ∧
      depthLimit ≤ (r 126).toJson.nesting ∧ TooDeep (parse (r 126).line.toList) := by
  intro lists r
  have hlists (n : Nat) : (lists n).WellFormed := by
    induction n with
    | zero => exact ⟨trivial, trivial, trivial⟩
    | succ n ih => exact ⟨ih, trivial⟩
  have hdata (n : Nat) : ∀ d ∈ (r n).data, d.WellFormed := fun d hd => Option.some.inj hd ▸ hlists n
  have hlow : (r 125).toJson.nesting < depthLimit := by decide +kernel
  have hhigh : depthLimit ≤ (r 126).toJson.nesting := by decide +kernel
  exact ⟨hlow, (response_line_reads_back (r 125) (hdata 125)).1 hlow, hhigh,
    (response_line_reads_back (r 126) (hdata 126)).2 hhigh⟩

/-- Null data is no data once it is read. -/
theorem null_data_not_read_back :
    let r := succeeded .null
    parse r.line.toList = .ok { r with data := none } ∧ parse r.line.toList ≠ .ok r := by
  intro r
  have h : parse r.line.toList = .ok { r with data := none } := by decide +kernel
  have hne : { r with data := none } ≠ r := by decide +kernel
  exact ⟨h, fun hr => hne (Except.ok.inj (h.symm.trans hr))⟩

end YamlInclude.TagResponse
