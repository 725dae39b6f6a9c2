import Husarnet.Lib.Bytes
import Husarnet.Lib.StateProgram

/-! # JSON documents

Document values and typed access to them, with the rules of nlohmann's `json` class: `operator[]`
on a constant object needs the member to exist, on a mutable one it makes a null member; `get<T>`
throws when the value has another type; `contains` is false for anything but an object.
-/

namespace JsonDoc
open Octets Containers StateProgram
set_option autoImplicit false

/-- A document. A floating-point number is kept as `mantissa * 2 ^ exponent`. -/
inductive Json where
  | null
  | bool (b : Bool)
  | int (z : ℤ)
  | float (mantissa exponent : ℤ)
  | string (s : Bytes)
  | array (xs : List Json)
  | object (members : List (Bytes × Json))

/-- What typed access can fail with: a thrown `type_error`, or the assertion of `operator[]` on a
constant object that has no such member. -/
inductive Fault where
  | typeError
  | missingMember
  deriving DecidableEq, Repr

namespace Json

def find? : Json → Bytes → Option Json
  | object ms, key => get? ms key
  | _, _ => none

def contains (j : Json) (key : Bytes) : Bool := (j.find? key).isSome

/-- `operator[](key)` of a constant document. -/
def member (j : Json) (key : Bytes) : Except Fault Json :=
  match j with
  | object ms => match get? ms key with
    | some v => .ok v
    | none => .error .missingMember
  | _ => .error .typeError

/-- `operator[](key)` of a mutable document, which makes a missing member null. -/
def memberOrNull (j : Json) (key : Bytes) : Except Fault Json :=
  match j with
  | object ms => .ok ((get? ms key).getD null)
  | null => .ok null
  | _ => .error .typeError

/-- `document[key] = value`, on a document that is an object or null. -/
def setMember (j : Json) (key : Bytes) (value : Json) : Json :=
  match j with
  | object ms => object (assign ms key value)
  | _ => object [(key, value)]

def isEmpty : Json → Bool
  | null => true
  | array xs => xs.isEmpty
  | object ms => ms.isEmpty
  | _ => false

/-- The elements a range-based `for` visits. -/
def elements : Json → List Json
  | null => []
  | array xs => xs
  | object ms => ms.map Prod.snd
  | j => [j]

def getString : Json → Except Fault Bytes
  | string s => .ok s
  | _ => .error .typeError

def getBool : Json → Except Fault Bool
  | bool b => .ok b
  | _ => .error .typeError

def wrapInt32 (z : ℤ) : ℤ := (z + 2 ^ 31) % 2 ^ 32 - 2 ^ 31

/-- `get<int>()`, which converts every arithmetic type, Booleans included. -/
def getInt : Json → Except Fault ℤ
  | int z => .ok (wrapInt32 z)
  | float m e => .ok (if 0 ≤ e then m * 2 ^ e.toNat else m.tdiv (2 ^ (-e).toNat))
  | bool b => .ok (if b then 1 else 0)
  | _ => .error .typeError

/-- `get<std::vector<std::string>>()`. -/
def getStrings : Json → Except Fault (List Bytes)
  | array xs => xs.mapM getString
  | _ => .error .typeError

theorem find?_setMember_self (j : Json) (key : Bytes) (v : Json) :
    (j.setMember key v).find? key = some v := by
  cases j with
  | object ms => exact get?_assign_self ms key v
  | _ => simp [setMember, find?, get?]

theorem find?_setMember_ne (j : Json) {key key' : Bytes} (v : Json) (h : key' ≠ key) :
    (j.setMember key v).find? key' = j.find? key' := by
  cases j with
  | object ms => rw [setMember, find?, get?_assign, if_neg h, find?]
  | _ => simp [setMember, find?, get?, h]

theorem getStrings_strings (strings : List Bytes) : (array (strings.map string)).getStrings = .ok strings := by
  show (strings.map string).mapM getString = _
  induction strings with
  | nil => rfl
  | cons s strings ih =>
    rw [List.map_cons, List.mapM_cons, ih]
    rfl

/-- A document that has a member is an object, for either kind of `operator[]`. -/
theorem member_of_find? {j v : Json} {key : Bytes} (h : j.find? key = some v) : j.member key = .ok v := by
  cases j with
  | object ms =>
    rw [find?] at h
    rw [member, h]
  | _ => cases h

theorem memberOrNull_of_find? {j v : Json} {key : Bytes} (h : j.find? key = some v) (key' : Bytes) :
    j.memberOrNull key' = .ok ((j.find? key').getD null) := by
  cases j with
  | object ms => rfl
  | _ => cases h

theorem member_eq_ok {j v : Json} {key : Bytes} : j.member key = .ok v ↔ j.find? key = some v := by
  refine ⟨fun h => ?_, member_of_find?⟩
  cases j with
  | object ms =>
    rw [member] at h
    cases hm : get? ms key with
    | none =>
      rw [hm] at h
      cases h
    | some w =>
      rw [hm] at h
      cases h
      exact hm
  | _ => cases h

/-! ## When a member can be read -/

/-- `get<int>()` converts these. -/
def IsArithmetic : Json → Prop
  | int _ | float _ _ | bool _ => True
  | _ => False

theorem getString_completes {v : Json} : (∃ s, v.getString = .ok s) ↔ ∃ s, v = .string s := by
  cases v <;> simp [getString]

theorem getInt_completes {v : Json} : (∃ z, v.getInt = .ok z) ↔ v.IsArithmetic := by
  cases v <;> simp [getInt, IsArithmetic]

theorem mapM_getString_completes (xs : List Json) :
    (∃ ss, xs.mapM getString = .ok ss) ↔ ∀ x ∈ xs, ∃ s, x = .string s := by
  induction xs with
  | nil => simp [pure, Except.pure]
  | cons x xs ih =>
    rw [List.mapM_cons, List.forall_mem_cons, ← ih]
    exact except_bind_completes getString_completes fun _ => except_map_completes

/-- A member is read if and only if it is there and can be read. -/
theorem member_completes {α : Type} {read : Json → Except Fault α} {j : Json} {key : Bytes} :
    (∃ a, j.member key >>= read = .ok a) ↔ ∃ v, j.find? key = some v ∧ ∃ a, read v = .ok a := by
  constructor
  · rintro ⟨a, h⟩
    obtain ⟨v, hv, ha⟩ := except_bind_eq_ok.mp h
    exact ⟨v, member_eq_ok.mp hv, a, ha⟩
  · rintro ⟨v, hv, a, ha⟩
    exact ⟨a, except_bind_eq_ok.mpr ⟨v, member_eq_ok.mpr hv, ha⟩⟩

end Json
end JsonDoc
