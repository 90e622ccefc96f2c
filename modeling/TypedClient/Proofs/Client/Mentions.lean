import TypedClient.Client.Entity

namespace TypedClient.Proofs.Mentions

inductive Role
  | type
  | model
deriving DecidableEq

variable (settings : Settings)

def Role.location (r : Reference) : Role → String
  | type => r.location
  | model => r.location ++ settings.modelSuffix

def Role.name (r : Reference) : Role → String
  | type => r.typeName
  | model => r.typeName ++ settings.modelSuffix

structure Mention where
  role : Role
  reference : Reference

def Mention.location (m : Mention) : String :=
  m.role.location settings m.reference

def Mention.name (m : Mention) : String :=
  m.role.name settings m.reference

mutual

def shapeTypes : Shape → List Mention
  | .reference r => [⟨.type, r⟩]
  | .array items => schemaTypes items
  | .map values => schemaTypes values
  | .composed _ branches => branchTypes branches
  | _ => []

def schemaTypes : Schema → List Mention
  | ⟨shape, _, _, _, _, _⟩ => shapeTypes shape

def branchTypes : List Schema → List Mention
  | [] => []
  | ⟨shape, _, _, _, _, _⟩ :: _ => shapeTypes shape

end

mutual

def shapeModels : Shape → List Mention
  | .reference r => [⟨.model, r⟩]
  | .composed _ branches => branchModels branches
  | _ => []

def branchModels : List Schema → List Mention
  | [] => []
  | ⟨shape, _, _, _, _, _⟩ :: _ => shapeModels shape

end

mutual

def shapeModelTypes : Shape → List Mention
  | .reference r => [⟨.model, r⟩]
  | .array items => schemaTypes items ++ schemaModelTypes items
  | .map values => schemaTypes values
  | .composed _ branches => branchModelTypes branches
  | _ => []

def schemaModelTypes : Schema → List Mention
  | ⟨shape, _, _, _, _, _⟩ => shapeModelTypes shape

def branchModelTypes : List Schema → List Mention
  | [] => []
  | ⟨shape, _, _, _, _, _⟩ :: _ => shapeModelTypes shape

end

mutual

def shapeItems : Shape → List Mention
  | .array items => shapeModels items.shape ++ schemaItems items
  | .composed _ branches => branchItems branches
  | _ => []

def schemaItems : Schema → List Mention
  | ⟨shape, _, _, _, _, _⟩ => shapeItems shape

def branchItems : List Schema → List Mention
  | [] => []
  | ⟨shape, _, _, _, _, _⟩ :: _ => shapeItems shape

end

def accessorMentions (p : Property) : List Mention :=
  shapeModels p.schema.shape ++ schemaModelTypes p.schema ++ schemaItems p.schema

def mentions (e : Entity) : Role → List Mention
  | .type => match e.body with
    | .choices _ => []
    | .object properties =>
      (e.parent.toList.map (Mention.mk .type)) ++ properties.flatMap fun p => schemaTypes p.schema
  | .model => match e.body with
    | .choices _ => [⟨.type, e.reference⟩]
    | .object properties =>
      ⟨.type, e.reference⟩ :: (e.parent.toList.map (Mention.mk .model)) ++
        properties.flatMap accessorMentions

end TypedClient.Proofs.Mentions
