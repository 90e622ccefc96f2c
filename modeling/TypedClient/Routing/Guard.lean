import TypedClient.Routing.Basic

namespace TypedClient.Routing.Route

def restriction? (config : Option ViewConfig) : Option Access :=
  (config.map ViewConfig.access).filter Access.isRestricted

def guardElement (redirect : String) (config : Option ViewConfig) (element : Option Element) :
    Option Element :=
  match restriction? config with
  | none => element
  | some access =>
    if element.any Element.isGuarded then element else some (.guarded redirect access element)

mutual

def protect (redirect : String) : Route → Route
  | ⟨segment, view, element, config, children⟩ =>
    ⟨segment, view, guardElement redirect config element, config, protectAll redirect children⟩

def protectAll (redirect : String) : List Route → List Route
  | [] => []
  | r :: rs => protect redirect r :: protectAll redirect rs

end

mutual

/-- For each route of a tree in pre-order, whether guarding exchanges its element. -/
def exchanged : Route → List Bool
  | ⟨_, _, element, config, children⟩ =>
    ((restriction? config).isSome && !element.any Element.isGuarded) :: exchangedAll children

def exchangedAll : List Route → List Bool
  | [] => []
  | r :: rs => exchanged r ++ exchangedAll rs

end

end TypedClient.Routing.Route
