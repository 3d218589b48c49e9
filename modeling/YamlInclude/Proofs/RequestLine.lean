import YamlInclude.Proofs.ByteOrder
import YamlInclude.Proofs.JsonText
import YamlInclude.TagProgram.Run

/-! # Requests are one line

A program reads one line for each node of its tag. Whatever the node and the names of the tag and the file hold, that
line has no break inside, and everything the program is told is read back from it.
-/

namespace YamlInclude

def Unbroken (cs : List Char) : Prop := ∀ c ∈ cs, 32 ≤ c.toNat

section Unbroken

variable {cs cs' : List Char} {c : Char}

@[simp] theorem unbroken_nil : Unbroken [] := List.forall_mem_nil _

@[simp] theorem unbroken_cons_iff : Unbroken (c :: cs) ↔ 32 ≤ c.toNat ∧ Unbroken cs := List.forall_mem_cons

@[simp] theorem unbroken_append_iff : Unbroken (cs ++ cs') ↔ Unbroken cs ∧ Unbroken cs' := List.forall_mem_append

theorem unbroken_of_isDigit (h : ∀ c ∈ cs, c.isDigit = true) : Unbroken cs := by
  intro c hc
  have hdigit := h c hc
  simp only [Char.isDigit, ge_iff_le, Bool.and_eq_true, decide_eq_true_eq] at hdigit
  have hzero : '0'.toNat ≤ c.toNat := UInt32.le_iff_toNat_le.mp hdigit.1
  exact Nat.le_trans (by decide) hzero

theorem Utf8.le_of_mem_encode (h : Unbroken cs) {b : UInt8} (hb : b ∈ encode cs) : 32 ≤ b.toNat := by
  obtain ⟨c, hc, hb⟩ := List.mem_flatMap.mp hb
  have hlow := h c hc
  have hhigh := toNat_lt c
  rw [encodeChar_eq] at hb
  rcases List.mem_cons.mp hb with rfl | hb
  · rw [toNat_toUInt8 (lead_lt hhigh)]
    unfold lead
    split_ifs <;> omega
  · generalize width c.toNat = k at hb
    induction k with
    | zero => cases hb
    | succ k ih =>
      rcases List.mem_cons.mp hb with rfl | hb
      · rw [toNat_toUInt8 (by omega)]
        omega
      · exact ih hb

end Unbroken

namespace Json

theorem unbroken_writeChar (c : Char) : Unbroken (writeChar c) := by
  have hhex {d : Nat} (hd : d < 16) : 32 ≤ (hexDigit d).toNat := by
    interval_cases d <;> decide
  unfold writeChar
  by_cases hcontrol : c.toNat < 32
  · have hhigh := hhex (d := c.toNat / 16) (by omega)
    have hlow := hhex (d := c.toNat % 16) (by omega)
    split_ifs <;> simp [hhigh, hlow]
  · split_ifs <;> simp [Nat.le_of_not_lt hcontrol]

theorem unbroken_writeString (s : String) : Unbroken (writeString s) := by
  have hchars (cs : List Char) : Unbroken (writeChars cs) := by
    induction cs with
    | nil => exact unbroken_nil
    | cons c cs ih => exact unbroken_append_iff.mpr ⟨unbroken_writeChar c, ih⟩
  simp [writeString, hchars]

theorem unbroken_text (n : WideInt) : Unbroken n.text := by
  have hdigits : Unbroken (Nat.toDigits 10 n.val.natAbs) :=
    unbroken_of_isDigit fun d => Nat.isDigit_of_mem_toDigits (by decide) (by decide)
  unfold WideInt.text
  split
  · exact unbroken_cons_iff.mpr ⟨by decide, hdigits⟩
  · exact hdigits

mutual

theorem unbroken_write (v : Json) (depth : Nat) (hv : v.WellFormed) : Unbroken (write 0 depth v) := by
  cases v with
  | null => simp [write]
  | bool b => cases b <;> simp [write]
  | number n =>
    cases n with
    | float x => cases hv
    | int n => exact unbroken_text n
  | string s => exact unbroken_writeString s
  | array vs =>
    cases vs with
    | nil => simp [write]
    | cons v vs =>
      have hv₁ := unbroken_write v (depth + 1) hv.1
      have hvs := unbroken_writeItems vs (depth + 1) hv.2
      simp [write, lineBreak, hv₁, hvs]
  | object ms =>
    rcases ms with _ | ⟨⟨k, v⟩, ms⟩
    · simp [write]
    · have hv₁ := unbroken_write v (depth + 1) hv.2.1
      have hms := unbroken_writeMembers ms (depth + 1) hv.2.2
      simp [write, lineBreak, colon, unbroken_writeString, hv₁, hms]

theorem unbroken_writeItems (vs : List Json) (depth : Nat) (hvs : WellFormedItems vs) :
    Unbroken (writeItems 0 depth vs) := by
  match vs with
  | [] => exact unbroken_nil
  | v :: vs =>
    have hv := unbroken_write v depth hvs.1
    have hrest := unbroken_writeItems vs depth hvs.2
    simp [writeItems, lineBreak, hv, hrest]

theorem unbroken_writeMembers (ms : List (String × Json)) (depth : Nat) (hms : WellFormedMembers ms) :
    Unbroken (writeMembers 0 depth ms) := by
  match ms with
  | [] => exact unbroken_nil
  | (k, v) :: ms =>
    have hv := unbroken_write v depth hms.1
    have hrest := unbroken_writeMembers ms depth hms.2
    simp [writeMembers, lineBreak, colon, unbroken_writeString, hv, hrest]

end

end Json

/-- What a request for the value of a node says of it: its tag, its content and the file that holds it. -/
structure NodeParams where
  tag : String
  value : Json
  file : String
  deriving DecidableEq

def NodeParams.ofJson? (j : Json) : Option NodeParams :=
  match j.member? "tag", j.member? "value", j.member? "file" with
  | some (.string tag), some value, some (.string file) => some ⟨tag, value, file⟩
  | _, _, _ => none

namespace TagRequest

variable {tag : String} {file : Path} {v : Json}

theorem wellFormed_forNode (hv : v.WellFormed) : (forNode tag v file).toJson.WellFormed := by
  refine ⟨?_, trivial, ⟨?_, trivial, hv, trivial, trivial⟩, trivial⟩ <;> simp [Json.DistinctNames]

theorem nesting_forNode (v : Json) : (forNode tag v file).toJson.nesting = v.nesting + 2 := by
  simp [forNode, toJson, Json.nesting, Json.nestingMembers]

end TagRequest

/-- The program of a tag gets one line for a node, in which nothing is a control character. By the grammar of JSON the
line is the request for the value of that node. -/
theorem request_is_one_line (c : TagContext) (hc : c.content.integral = true) :
    ∃ line : String,
      (∀ (p : TagProgram) (t : FileTree) (cwd : Location) (launch : FileTree → Location → Shell.Launcher),
        p.ask t cwd (.forNode c.tag c.content.toJson c.file) launch =
          (p.start t cwd (line ++ "\n") launch).mapError (.notStarted p.program) >>= TagProgram.responseOf) ∧
      Unbroken line.toList ∧ (∀ b ∈ Shell.bytesOf line, 32 ≤ b.toNat) ∧
      ∀ limit, c.content.toJson.nesting + 2 < limit → ∃ j request,
        Json.parse limit line.toList = .ok j ∧ TagRequest.ofJson? j = some request ∧
        request.operation = TagRequest.construct ∧
        NodeParams.ofJson? request.params = some ⟨c.tag, c.content.toJson, c.file.text⟩ := by
  let request := TagRequest.forNode c.tag c.content.toJson c.file
  have hwell : request.toJson.WellFormed := TagRequest.wellFormed_forNode (Yaml.Value.toJson_wellFormed c.content hc)
  have hline : request.line.toList = request.toJson.write 0 0 := String.toList_ofList
  have hunbroken : Unbroken request.line.toList := hline ▸ Json.unbroken_write _ 0 hwell
  refine ⟨request.line, fun _ _ _ _ => rfl, hunbroken, fun _ => Utf8.le_of_mem_encode hunbroken, fun limit hlimit => ?_⟩
  refine ⟨request.toJson, request, ?_, rfl, rfl, rfl⟩
  rw [hline]
  exact Json.parse_write 0 hwell (by rwa [TagRequest.nesting_forNode])

/-- Line breaks and quotes in the tag, the file, a key that is a list and a tag that stands in the content. -/
theorem breaks_and_quotes_in_one_line :
    let content := Yaml.Value.mapping [(.sequence [.string "\"\x0d\n"], .tagged "u\n" (.sequence [.string "\\\n", .null]))]
    let c : TagContext := ⟨"!t\n", ⟨"/a\n\".yml"⟩, "t\n", content, fun _ => pure .null, fun _ => pure .null⟩
    c.content.integral = true ∧ c.content.toJson.nesting + 2 < 128 ∧ ∃ line : String, Unbroken line.toList ∧
      ∃ j request, Json.parse 128 line.toList = .ok j ∧ TagRequest.ofJson? j = some request ∧
        NodeParams.ofJson? request.params = some ⟨c.tag, c.content.toJson, c.file.text⟩ := by
  intro content c
  have hc : c.content.integral = true := by decide
  have hnesting : c.content.toJson.nesting + 2 < 128 := by decide +kernel
  obtain ⟨line, -, hline, -, hread⟩ := request_is_one_line c hc
  obtain ⟨j, request, hj, hrequest, -, hparams⟩ := hread 128 hnesting
  exact ⟨hc, hnesting, line, hline, j, request, hj, hrequest, hparams⟩

end YamlInclude
