import TypedClient.Text.Split

namespace TypedClient

structure Settings where
  /-- The module whose default export carries calls; a relative one is taken from the output root. -/
  clientModule : String := "./connect-client.default"
  formModule : String := "@clientgen/form"
  routerModule : String := "@clientgen/file-router/runtime"
  /-- What the name of a model class and its file adds to the entity's. -/
  modelSuffix : String := "Model"
  endpointSuffix : String := "Endpoint"
  viewExtensions : List String := [".tsx", ".jsx", ".ts", ".js"]
  routesFile : String := "views.ts"
  manifestFile : String := "file-routes.json"
  redirectPath : String := "/login"
deriving DecidableEq, Repr, Inhabited

def Settings.isViewExtension (s : Settings) (extension : String) : Bool :=
  s.viewExtensions.any fun e =>
    String.ofList (Text.trimStart (· == '.') e.toList) = extension

end TypedClient
