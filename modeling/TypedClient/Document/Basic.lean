import TypedClient.Schema.Basic

namespace TypedClient

structure Parameter where
  name : String
  schema : Schema
  optional : Bool
deriving Inhabited

structure Operation where
  name : String
  method : String
  path : String
  parameters : List Parameter
  response : Option Schema
  description : Option String
deriving Inhabited

structure Service where
  name : String
  operations : List Operation
deriving Inhabited

inductive EntityBody
  | object (properties : List Property)
  | choices (values : List String)

structure Entity where
  reference : Reference
  parent : Option Reference
  body : EntityBody
  description : Option String

namespace Entity

def name (e : Entity) : String :=
  e.reference.fullName

end Entity

structure Document where
  title : String
  version : String
  services : List Service
  entities : List Entity

end TypedClient
