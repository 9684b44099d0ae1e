import Interconnect.Store.Basic

/-!
# Attributes

Callers read and write the attributes of any object by name.  A constant attribute is
never written again, and an attribute may be written as constant.
-/

namespace Interconnect.Store

/-- The value of an attribute. -/
def attribute? (s : Store) (h : Handle) (name : String) : Option Attribute :=
  (s.object? h).bind fun o => o.attributes.get? name

/-- All attributes of an object, in the order in which they were first written. -/
def attributes (s : Store) (h : Handle) : Except StoreError (List (String × Attribute)) :=
  return (← s.expectObject h).attributes.entries

/-- Writes an attribute. -/
def setAttribute (s : Store) (h : Handle) (name value : String) (constant : Bool) :
    Except StoreError Store := do
  if name.isEmpty then throw (.emptyName "attribute")
  let o ← s.expectObject h
  if (o.attributes.get? name).any Attribute.constant then
    throw (.constantAttribute o.id name)
  return s.write h name { value, constant }

/-- Writes several attributes, none of them constant.  Every pair is tried; the answer is
the first refusal. -/
def setAttributes (s : Store) (h : Handle) :
    List (String × String) → Store × Except StoreError Unit
  | [] => (s, .ok ())
  | (name, value) :: rest =>
    match s.setAttribute h name value false with
    | .ok s => s.setAttributes h rest
    | .error e => ((s.setAttributes h rest).1, .error e)

end Interconnect.Store
