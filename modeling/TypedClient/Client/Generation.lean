import TypedClient.Client.Entity

namespace TypedClient

open TypedClient.Module

structure Generation where
  files : List File
  failures : List Entity.Fault
deriving Repr

namespace Generation

def ofService (settings : Settings) (source : String) (s : Service) : List File :=
  [(Endpoint.draft s settings source).finish]

def ofEntity (settings : Settings) (source : String) (e : Entity) :
    Except Entity.Fault (List File) :=
  (e.modelDraft settings source).map fun model => [(e.typeDraft source).finish, model.finish]

def units (d : Document) (settings : Settings) (source : String) :
    List (Except Entity.Fault (List File)) :=
  (d.services.map fun s => .ok (ofService settings source s)) ++
    d.entities.map (ofEntity settings source)

def filesOf : Except Entity.Fault (List File) → List File
  | .ok fs => fs
  | .error _ => []

def failureOf? : Except Entity.Fault (List File) → Option Entity.Fault
  | .ok _ => none
  | .error f => some f

def ofDocument (d : Document) (settings : Settings) (source : String) : Generation :=
  let results := units d settings source
  ⟨results.flatMap filesOf, results.filterMap failureOf?⟩

def file? (g : Generation) (path : String) : Option File :=
  g.files.find? fun f => Path.same f.path path

end Generation

end TypedClient
