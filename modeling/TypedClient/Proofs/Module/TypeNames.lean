import TypedClient.Module.Expression

namespace TypedClient.Module.TypeExpr

mutual

def names : TypeExpr → List String
  | array t => names t
  | record t => names t
  | reference n => [n]
  | generic n ts => n :: namesOfList ts
  | optional t => names t
  | promise t => names t
  | typeOf n => [n]
  | string => []
  | number => []
  | boolean => []
  | unknown => []
  | any => []
  | void => []

def namesOfList : List TypeExpr → List String
  | [] => []
  | t :: ts => names t ++ namesOfList ts

end

mutual

def builtins : TypeExpr → List String
  | array t => "ReadonlyArray" :: builtins t
  | record t => "Readonly" :: "Record" :: builtins t
  | generic _ ts => builtinsOfList ts
  | optional t => builtins t
  | promise t => "Promise" :: builtins t
  | reference _ => []
  | typeOf _ => []
  | string => []
  | number => []
  | boolean => []
  | unknown => []
  | any => []
  | void => []

def builtinsOfList : List TypeExpr → List String
  | [] => []
  | t :: ts => builtins t ++ builtinsOfList ts

end

theorem names_orUndefined (t : TypeExpr) : t.orUndefined.names = t.names := by
  cases t <;> rfl

end TypedClient.Module.TypeExpr
