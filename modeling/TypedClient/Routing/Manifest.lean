import TypedClient.Routing.Basic
import TypedClient.Module.Draft
import TypedClient.Settings.Basic

namespace TypedClient.Routing

structure ManifestEntry where
  route : String
  title : Option String
  params : List (String × ParamKind)
  loginRequired : Bool
  rolesAllowed : List String
  children : List ManifestEntry
deriving Inhabited

namespace ManifestEntry

/-- Sets a parameter among those sorted by name; the last kind of a name counts. -/
def setParam (p : String × ParamKind) : List (String × ParamKind) → List (String × ParamKind)
  | [] => [p]
  | q :: qs =>
    if p.1 < q.1 then p :: q :: qs
    else if p.1 = q.1 then p :: qs
    else q :: setParam p qs

def sortedParams (pattern : String) : List (String × ParamKind) :=
  (Pattern.params pattern).foldl (fun ps p => setParam p ps) []

mutual

def ofRoute (parent : String) : Route → ManifestEntry
  | ⟨segment, _, _, config, children⟩ =>
    let pattern := Pattern.join parent segment
    let access := (config.map ViewConfig.access).getD {}
    { route := pattern
      title := config.bind ViewConfig.title
      params := sortedParams pattern
      loginRequired := access.loginRequired || access.requiresLogin
      rolesAllowed := access.rolesAllowed
      children := ofRoutes pattern children }

def ofRoutes (parent : String) : List Route → List ManifestEntry
  | [] => []
  | r :: rs => ofRoute parent r :: ofRoutes parent rs

end

mutual

def toJson : ManifestEntry → Json
  | ⟨route, title, params, loginRequired, rolesAllowed, children⟩ =>
    .object ([("route", .string route)] ++ (title.map fun t => ("title", .string t)).toList ++
      [("params", .object (params.map fun p => (p.1, .string p.2.text))),
       ("loginRequired", .bool loginRequired),
       ("rolesAllowed", .array (rolesAllowed.map .string))] ++
      match toJsons children with
      | [] => []
      | js => [("children", .array js)])

def toJsons : List ManifestEntry → List Json
  | [] => []
  | e :: es => toJson e :: toJsons es

end

end ManifestEntry

def manifest (routes : List Route) : List ManifestEntry :=
  ManifestEntry.ofRoutes "" routes

def manifestFile (entries : List ManifestEntry) (settings : Settings) : Module.File :=
  ⟨settings.manifestFile, (Json.array (ManifestEntry.toJsons entries)).prettyText ++ "\n"⟩

end TypedClient.Routing
