import YamlInclude.Number.Basic

/-! # JSON values

Objects keep their members in order. Setting a member that is already there keeps its place.
-/

namespace YamlInclude

inductive Json where
  | null
  | bool (b : Bool)
  | number (n : Number)
  | string (s : String)
  | array (items : List Json)
  | object (members : List (String × Json))

namespace Json

/-- Gives `key` the value `v`, in its place if it is a member and at the end otherwise. -/
def setMember (key : String) (v : Json) : List (String × Json) → List (String × Json)
  | [] => [(key, v)]
  | (k, w) :: rest => if k = key then (key, v) :: rest else (k, w) :: setMember key v rest

/-- An object from members in order, later ones replacing earlier ones of the same name. -/
def ofMembers (members : List (String × Json)) : Json :=
  object (members.foldl (fun acc (k, v) => setMember k v acc) [])

def ofNat (n : Nat) : Json := ((WideInt.ofInt? n).map fun w => number (.int w)).getD null

def member? (key : String) : Json → Option Json
  | object members => members.lookup key
  | _ => none

mutual

/-- Whether two values are equal, members in order. -/
def decEq : (a b : Json) → Decidable (a = b)
  | null, null => isTrue rfl
  | bool a, bool b => if h : a = b then isTrue (h ▸ rfl) else isFalse (by simpa using h)
  | number a, number b => if h : a = b then isTrue (h ▸ rfl) else isFalse (by simpa using h)
  | string a, string b => if h : a = b then isTrue (h ▸ rfl) else isFalse (by simpa using h)
  | array a, array b => match decEqItems a b with
    | isTrue h => isTrue (h ▸ rfl)
    | isFalse h => isFalse (by simpa using h)
  | object a, object b => match decEqMembers a b with
    | isTrue h => isTrue (h ▸ rfl)
    | isFalse h => isFalse (by simpa using h)
  | null, bool _ | null, number _ | null, string _ | null, array _ | null, object _
  | bool _, null | bool _, number _ | bool _, string _ | bool _, array _ | bool _, object _
  | number _, null | number _, bool _ | number _, string _ | number _, array _ | number _, object _
  | string _, null | string _, bool _ | string _, number _ | string _, array _ | string _, object _
  | array _, null | array _, bool _ | array _, number _ | array _, string _ | array _, object _
  | object _, null | object _, bool _ | object _, number _ | object _, string _
  | object _, array _ => isFalse (by simp)

def decEqItems : (a b : List Json) → Decidable (a = b)
  | [], [] => isTrue rfl
  | [], _ :: _ | _ :: _, [] => isFalse (by simp)
  | x :: xs, y :: ys => match decEq x y, decEqItems xs ys with
    | isTrue h, isTrue h' => isTrue (by rw [h, h'])
    | isFalse h, _ => isFalse (by simp [h])
    | _, isFalse h => isFalse (by simp [h])

def decEqMembers : (a b : List (String × Json)) → Decidable (a = b)
  | [], [] => isTrue rfl
  | [], _ :: _ | _ :: _, [] => isFalse (by simp)
  | (k, x) :: xs, (l, y) :: ys => match decEq x y, decEqMembers xs ys with
    | isTrue h, isTrue h' => if hk : k = l then isTrue (by rw [h, h', hk]) else isFalse (by simp [hk])
    | isFalse h, _ => isFalse (by simp [h])
    | _, isFalse h => isFalse (by simp [h])

end

instance : DecidableEq Json := decEq

end Json

end YamlInclude
