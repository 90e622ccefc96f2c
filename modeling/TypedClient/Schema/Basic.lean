import TypedClient.Schema.Reference

namespace TypedClient

inductive Composition
  | oneOf
  | anyOf
  | allOf
deriving DecidableEq, Repr

namespace Composition

def key : Composition → String
  | oneOf => "oneOf"
  | anyOf => "anyOf"
  | allOf => "allOf"

def all : List Composition := [oneOf, anyOf, allOf]

end Composition

mutual

inductive Shape
  | reference (target : Reference)
  | array (items : Schema)
  | map (values : Schema)
  | anyMap
  | text (choices : List String)
  | number
  | integer
  | boolean
  | composed (kind : Composition) (branches : List Schema)
  | object (properties : List Property)
  | unknown

structure Schema where
  shape : Shape
  nullable : Bool
  annotations : List String
  constraints : List String
  format : Option String
  description : Option String

structure Property where
  name : String
  schema : Schema
  required : Bool

end

namespace Schema

def plain (shape : Shape) : Schema :=
  ⟨shape, false, [], [], none, none⟩

instance : Inhabited Schema := ⟨plain .unknown⟩

end Schema

instance : Inhabited Property := ⟨⟨"", default, false⟩⟩

end TypedClient
