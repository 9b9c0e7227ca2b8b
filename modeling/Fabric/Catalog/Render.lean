import Fabric.Catalog.Serde
import Mathlib.Data.String.Basic

/-! The two renderings of a catalog: the JSON document and the Markdown view. -/

namespace Fabric.Catalog
open Rust
open Std (TreeSet)

structure RenderedCatalog where
  json : String
  markdown : String

def markdownLink (path : String) : String := "../" ++ path

def markdownItem (artifact : CatalogArtifact) : String :=
  let name := (split artifact.path '/').getLast (split_ne_nil _ _)
  let readme := match artifact.readme with
    | some readme => " ([README](" ++ markdownLink readme ++ "))"
    | none => ""
  "- [" ++ name ++ "](" ++ markdownLink artifact.path ++ ") — " ++ artifact.description ++ readme ++ "\n"

def markdownItems (artifacts : List CatalogArtifact) : String := String.join (artifacts.map markdownItem)

/-- The items of a section by category, those without one under no heading. -/
def markdownCategory (artifacts : List CatalogArtifact) (category : String) : String :=
  (if category.isEmpty then "" else "### " ++ category ++ "\n\n") ++
    markdownItems (artifacts.filter fun artifact => artifact.category.getD "" == category) ++ "\n"

def markdownSection (catalog : CatalogIndex) (kind : ArtifactKind) : String :=
  let artifacts := catalog.artifacts.filter (·.kind == kind)
  "## " ++ kind.heading ++ "\n\n" ++
    if artifacts.isEmpty then "_None._\n\n"
    else if artifacts.any (·.category.isSome) then
      let categories := TreeSet.ofList (artifacts.map (·.category.getD ""))
      String.join (categories.toList.map (markdownCategory artifacts))
    else markdownItems artifacts ++ "\n"

def sectionKinds : List ArtifactKind := [.package, .host, .composition, .instance_, .example_]

def renderMarkdown (catalog : CatalogIndex) : String :=
  "# Fabric Ecosystem Catalog\n\n" ++
  "Generated by `cargo run -p fabric-ecosystem-catalog-tool -- write`.\n" ++
  "See [catalog/README.md](README.md) for the Catalog contract.\n\n" ++
  "Schema version: `" ++ toString catalog.schemaVersion.toNat ++ "`\n\n" ++
  String.join (sectionKinds.map (markdownSection catalog))

def renderCatalog (serde : SerdeJson) (catalog : CatalogIndex) : Except CatalogError RenderedCatalog :=
  match serde.toStringPretty (Serde.serializeIndex catalog) with
  | .error error => .error ⟨error⟩
  | .ok json => .ok { json := json ++ "\n", markdown := renderMarkdown catalog }

end Fabric.Catalog
