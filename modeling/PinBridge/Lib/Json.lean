import Mathlib.Data.List.Basic

/-!
# JSON values

A parsed JSON value.  A number keeps its text, and the members of an object have
distinct names.
-/

/-- A JSON value. -/
inductive Json where
  | null
  | bool (b : Bool)
  | number (text : String)
  | string (text : String)
  | array (items : List Json)
  | object (members : List (String × Json))

/-- The member of an object with a name. -/
def Json.get (name : String) : Json → Option Json
  | .object members => (members.find? fun m => m.1 = name).map Prod.snd
  | _ => none

/-- The text of a string. -/
def Json.asStr : Json → Option String
  | .string text => some text
  | _ => none

/-- The truth value of a value. -/
def Json.asBool : Json → Option Bool
  | .bool b => some b
  | _ => none

/-- The items of an array. -/
def Json.asArray : Json → Option (List Json)
  | .array items => some items
  | _ => none

/-- An object without the member of a name. -/
def Json.remove (json : Json) (name : String) : Json :=
  match json with
  | .object members => .object (members.filter fun m => m.1 ≠ name)
  | other => other

/-- An object with a member, which replaces that of the same name. -/
def Json.insert (json : Json) (name : String) (value : Json) : Json :=
  match json with
  | .object members => .object (members.filter (fun m => m.1 ≠ name) ++ [(name, value)])
  | other => other

/-- The other members stay. -/
theorem Json.get_remove {name other : String} (h : other ≠ name) (json : Json) :
    (json.remove name).get other = json.get other := by
  cases json with
  | object members =>
      rw [remove, get, get, List.find?_filter]
      congr 2
      funext m
      by_cases hm : m.1 = other
      · simp [hm, h]
      · simp [hm]
  | null => rfl
  | bool => rfl
  | number => rfl
  | string => rfl
  | array => rfl

theorem Json.get_insert {name other : String} (h : other ≠ name) (json value : Json) :
    (json.insert name value).get other = json.get other := by
  cases json with
  | object members =>
      have hremove := get_remove h (.object members)
      have hnone : [(name, value)].find? (fun m => m.1 = other) = none := by
        simpa using h.symm
      rw [remove, get] at hremove
      rw [insert, get, List.find?_append, hnone, Option.or_none, hremove]
  | null => rfl
  | bool => rfl
  | number => rfl
  | string => rfl
  | array => rfl
