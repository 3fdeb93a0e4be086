import ContractBench.Compiler.Release

/-! # The catalog

The releases of the compiler as a remote manifest lists them. The manifest is read when the
catalog is first used and kept from then on; a failure to read it is not kept.
-/

namespace ContractBench.Compiler

/-- The address of the manifest that is used unless another is given. -/
def defaultManifest : String := "https://binaries.soliditylang.org/linux-amd64/list.json"

/-- A catalog of releases. -/
structure Catalog where
  /-- The address of the manifest. -/
  address : String := defaultManifest
  /-- The releases by version, once the manifest has been read. -/
  known : Option (List (RawText × Release)) := none
  /-- How often the manifest was asked for. -/
  asked : Nat := 0
deriving Repr

namespace Catalog

def unreadable (reason : RawText) : Failure :=
  .loading ("Não foi possível carregar a lista de versões do solc: " ++ reason)

/-- The releases that an answer for the manifest lists. -/
def releasesIn (address : String) : Reply → Except Failure (List (RawText × Release))
  | .error (.outage kind message) =>
      if kind.isUnusableAnswer then .error (unreadable message)
      else .error (.outage kind message)
  | .error failure => .error failure
  | .ok response =>
      if response.isError then
        .error (unreadable (response.errorText address))
      else
        match response.json with
        | .error reason => .error (unreadable reason)
        | .ok manifest => orFail (manifestReleases manifest)

/-- The releases by version. The reply is what the address of the manifest answers now. -/
def releases (catalog : Catalog) (reply : Reply) :
    Except Failure (List (RawText × Release)) × Catalog :=
  match catalog.known with
  | some releases => (.ok releases, catalog)
  | none =>
      match releasesIn catalog.address reply with
      | .ok releases =>
          (.ok releases, { catalog with known := some releases, asked := catalog.asked + 1 })
      | .error failure => (.error failure, { catalog with asked := catalog.asked + 1 })

def versions (catalog : Catalog) (reply : Reply) : Except Failure (List RawText) × Catalog :=
  let (releases, catalog) := catalog.releases reply
  (releases.map Ordered.keys, catalog)

/-- The release of a version among releases. -/
def choose (releases : List (RawText × Release)) (version : RawText) : Except Failure Release :=
  match Ordered.get? releases version with
  | some release => .ok release
  | none => .error (.unknownVersion version (Ordered.keys releases))

/-- The release of a version. -/
def find (catalog : Catalog) (reply : Reply) (version : RawText) :
    Except Failure Release × Catalog :=
  let (releases, catalog) := catalog.releases reply
  (releases.bind fun releases => choose releases version, catalog)

/-- A version is found among the releases, if these can be had. -/
theorem find_eq (catalog : Catalog) (reply : Reply) (version : RawText) :
    catalog.find reply version =
      ((catalog.releases reply).1.bind fun releases => choose releases version,
        (catalog.releases reply).2) := rfl

def forget (catalog : Catalog) : Catalog := { catalog with known := none }

end Catalog

end ContractBench.Compiler
