import Mathlib
import YamlInclude.Include.Error

/-! # Equality of values

Values can be compared, and so can the results of loads.
-/

namespace YamlInclude

namespace Yaml.Value

mutual

def equals : Value → Value → Bool
  | null, null => true
  | bool a, bool b => a == b
  | number m, number n => m == n
  | string s, string t => s == t
  | sequence vs, sequence ws => equalsItems vs ws
  | mapping es, mapping fs => equalsEntries es fs
  | tagged s v, tagged t w => s == t && equals v w
  | _, _ => false

def equalsItems : List Value → List Value → Bool
  | [], [] => true
  | v :: vs, w :: ws => equals v w && equalsItems vs ws
  | _, _ => false

def equalsEntries : List (Value × Value) → List (Value × Value) → Bool
  | [], [] => true
  | (k, v) :: es, (j, w) :: fs => equals k j && equals v w && equalsEntries es fs
  | _, _ => false

end

mutual

theorem equals_iff (v w : Value) : equals v w = true ↔ v = w := by
  cases v <;> cases w <;> simp [equals]
  case sequence.sequence vs ws => exact equalsItems_iff vs ws
  case mapping.mapping es fs => exact equalsEntries_iff es fs
  case tagged.tagged s v t w => rw [equals_iff v w]; exact fun _ => Iff.rfl

theorem equalsItems_iff (vs ws : List Value) : equalsItems vs ws = true ↔ vs = ws := by
  match vs, ws with
  | [], [] => simp [equalsItems]
  | [], _ :: _ => simp [equalsItems]
  | _ :: _, [] => simp [equalsItems]
  | v :: vs, w :: ws => simp [equalsItems, equals_iff v w, equalsItems_iff vs ws]

theorem equalsEntries_iff (es fs : List (Value × Value)) : equalsEntries es fs = true ↔ es = fs := by
  match es, fs with
  | [], [] => simp [equalsEntries]
  | [], _ :: _ => simp [equalsEntries]
  | _ :: _, [] => simp [equalsEntries]
  | (k, v) :: es, (j, w) :: fs =>
    simp [equalsEntries, equals_iff k j, equals_iff v w, equalsEntries_iff es fs]

end

instance : DecidableEq Value := fun v w => decidable_of_iff _ (equals_iff v w)

end Yaml.Value

deriving instance DecidableEq for Yaml.ValueFault
deriving instance DecidableEq for Yaml.Error
deriving instance DecidableEq for LoadError

instance decidableEqExcept {ε α : Type} [DecidableEq ε] [DecidableEq α] : DecidableEq (Except ε α)
  | .ok a, .ok b => decidable_of_iff (a = b) (by simp)
  | .error e, .error f => decidable_of_iff (e = f) (by simp)
  | .ok _, .error _ | .error _, .ok _ => isFalse nofun

end YamlInclude
