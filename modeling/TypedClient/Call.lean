import TypedClient.Document.Basic
import TypedClient.Json.Basic

namespace TypedClient

structure Stub where
  service : String
  operation : String
  parameters : List String
deriving DecidableEq, Repr

structure Call where
  service : String
  operation : String
  params : List (String × Json)

namespace Stub

def ofOperation (service : String) (op : Operation) : Stub :=
  ⟨service, op.name, op.parameters.map Parameter.name⟩

def ofService (s : Service) : List Stub :=
  s.operations.map (ofOperation s.name)

inductive Fault
  | tooManyArguments (service operation : String) (taken given : Nat)
deriving DecidableEq, Repr

def Fault.message : Fault → String
  | tooManyArguments service operation taken given =>
    service ++ "." ++ operation ++ " takes " ++ toString taken ++ " argument(s), got " ++
      toString given

/-- The bag of positional arguments; those that are missing at the end are left out. -/
def bag (s : Stub) (args : List Json) : Except Fault (List (String × Json)) :=
  if s.parameters.length < args.length then
    .error (.tooManyArguments s.service s.operation s.parameters.length args.length)
  else .ok (Json.ofMembers (s.parameters.zip args))

def call (s : Stub) (args : List Json) : Except Fault Call :=
  (s.bag args).map fun params => ⟨s.service, s.operation, params⟩

end Stub

namespace Document

def service? (d : Document) (name : String) : Option Service :=
  d.services.find? fun s => s.name = name

end Document

namespace Service

def operation? (s : Service) (name : String) : Option Operation :=
  s.operations.find? fun op => op.name = name

end Service

end TypedClient
