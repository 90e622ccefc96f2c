import TypedClient.Literal.Printer

namespace TypedClient.Module

inductive TypeExpr
  | string
  | number
  | boolean
  | unknown
  | any
  | void
  | array (item : TypeExpr)
  | record (value : TypeExpr)
  | reference (name : String)
  | generic (name : String) (args : List TypeExpr)
  | optional (inner : TypeExpr)
  | promise (inner : TypeExpr)
  | typeOf (name : String)
deriving Inhabited

namespace TypeExpr

/-- The type or `undefined`; an optional type stays as it is. -/
def orUndefined : TypeExpr → TypeExpr
  | optional t => optional t
  | t => optional t

def isOptional : TypeExpr → Bool
  | optional _ => true
  | _ => false

def required : TypeExpr → TypeExpr
  | optional t => t
  | t => t

mutual

def text : TypeExpr → String
  | string => "string"
  | number => "number"
  | boolean => "boolean"
  | unknown => "unknown"
  | any => "any"
  | void => "void"
  | array t => "ReadonlyArray<" ++ text t ++ ">"
  | record t => "Readonly<Record<string, " ++ text t ++ ">>"
  | reference name => name
  | generic name ts => name ++ "<" ++ listText ts ++ ">"
  | optional t => text t ++ " | undefined"
  | promise t => "Promise<" ++ text t ++ ">"
  | typeOf name => "typeof " ++ name

def listText : List TypeExpr → String
  | [] => ""
  | [t] => text t
  | t :: ts => text t ++ ", " ++ listText ts

end

end TypeExpr

inductive Expr
  | bool (b : Bool)
  | identifier (name : String)
  | array (items : List Expr)
  | construct (callee : String) (args : List Expr)
  | literal (l : Literal)
deriving Inhabited

namespace Expr

mutual

def text : Expr → String
  | bool b => if b then "true" else "false"
  | identifier name => name
  | array es => "[" ++ listText es ++ "]"
  | construct callee es => "new " ++ callee ++ "(" ++ listText es ++ ")"
  | literal l => l.text

def listText : List Expr → String
  | [] => ""
  | [e] => text e
  | e :: es => text e ++ ", " ++ listText es

end

end Expr

end TypedClient.Module
