import TypedClient.Routing.Basic

namespace TypedClient.Routing

inductive Content
  | placeholder
  /-- Navigation to `target`, which takes the place of the current entry in the history; `source` is
  the location that was asked for. -/
  | redirect (target source : String)
  | component (name module : String) (outlet : Option Content)
deriving Inhabited

def Content.names : Content → List String
  | component name _ (some outlet) => name :: outlet.names
  | component name _ none => [name]
  | _ => []

mutual

def Element.render (location : String) (state : AuthState) (outlet : Option Content) :
    Element → Option Content
  | .component name module => some (.component name module outlet)
  | .guarded redirect access inner =>
    if state.isPending then some .placeholder
    else if access.admits state then renderOptional location state outlet inner
    else some (.redirect redirect location)

/-- What an element shows around an outlet; without an element the outlet is shown. -/
def renderOptional (location : String) (state : AuthState) (outlet : Option Content) :
    Option Element → Option Content
  | some e => e.render location state outlet
  | none => outlet

end

def renderChain (location : String) (state : AuthState) (chain : List Route) : Option Content :=
  chain.foldr (fun r outlet => renderOptional location state outlet r.element) none

end TypedClient.Routing
