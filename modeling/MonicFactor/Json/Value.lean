import MonicFactor.Json.Number
import MonicFactor.Json.Text

/-! JSON values, which can be compared, and their text without spaces. -/

namespace MonicFactor

/-- The members of an object are in rising order of their keys, none twice. -/
inductive Json
  | null
  | bool (value : Bool)
  | number (value : JsonNumber)
  | string (value : String)
  | list (items : List Json)
  | object (members : List (String × Json))

/-- Puts a member in its place among ordered ones; one of the same key gives way. -/
def insertMember (key : String) (value : Json) : List (String × Json) → List (String × Json)
  | [] => [(key, value)]
  | (k, v) :: rest =>
    if key < k then (key, value) :: (k, v) :: rest
    else if key = k then (key, value) :: rest
    else (k, v) :: insertMember key value rest

def Json.get? (key : String) : Json → Option Json
  | .object members => members.lookup key
  | _ => none

mutual

def Json.render : Json → List Char
  | .null => "null".toList
  | .bool value => if value then "true".toList else "false".toList
  | .number value => value.render.toList
  | .string value => quote value.toList
  | .list items => '[' :: renderItems items ++ [']']
  | .object members => '{' :: renderMembers members ++ ['}']

def Json.renderItems : List Json → List Char
  | [] => []
  | [item] => item.render
  | item :: next :: rest => item.render ++ ',' :: renderItems (next :: rest)

def Json.renderMembers : List (String × Json) → List Char
  | [] => []
  | [(key, value)] => quote key.toList ++ ':' :: value.render
  | (key, value) :: next :: rest =>
    quote key.toList ++ ':' :: value.render ++ ',' :: renderMembers (next :: rest)

end

def Json.text (value : Json) : String := String.ofList value.render

mutual

/-- One value inside another hides in a list, so a deriving handler does not reach it. -/
def Json.decEq (a b : Json) : Decidable (a = b) :=
  match a, b with
  | .null, .null => isTrue rfl
  | .bool a, .bool b => decidable_of_iff (a = b) (by simp)
  | .number a, .number b => decidable_of_iff (a = b) (by simp)
  | .string a, .string b => decidable_of_iff (a = b) (by simp)
  | .list a, .list b =>
    have := decEqItems a b
    decidable_of_iff (a = b) (by simp)
  | .object a, .object b =>
    have := decEqMembers a b
    decidable_of_iff (a = b) (by simp)
  | .null, .bool _ | .null, .number _ | .null, .string _ | .null, .list _ | .null, .object _
  | .bool _, .null | .bool _, .number _ | .bool _, .string _ | .bool _, .list _
  | .bool _, .object _ | .number _, .null | .number _, .bool _ | .number _, .string _
  | .number _, .list _ | .number _, .object _ | .string _, .null | .string _, .bool _
  | .string _, .number _ | .string _, .list _ | .string _, .object _ | .list _, .null
  | .list _, .bool _ | .list _, .number _ | .list _, .string _ | .list _, .object _
  | .object _, .null | .object _, .bool _ | .object _, .number _ | .object _, .string _
  | .object _, .list _ => isFalse nofun

def Json.decEqItems (a b : List Json) : Decidable (a = b) :=
  match a, b with
  | [], [] => isTrue rfl
  | item :: items, item' :: items' =>
    have := decEq item item'
    have := decEqItems items items'
    decidable_of_iff (item = item' ∧ items = items') (by simp)
  | [], _ :: _ | _ :: _, [] => isFalse nofun

def Json.decEqMembers (a b : List (String × Json)) : Decidable (a = b) :=
  match a, b with
  | [], [] => isTrue rfl
  | (key, value) :: members, (key', value') :: members' =>
    have := decEq value value'
    have := decEqMembers members members'
    decidable_of_iff ((key = key' ∧ value = value') ∧ members = members') (by simp)
  | [], _ :: _ | _ :: _, [] => isFalse nofun

end

instance : DecidableEq Json := Json.decEq

end MonicFactor
