import Bindery.Emission.Unit

/-!
# The manifest

The index of what a run wrote, for incremental builds and audits: one entry for each unit with the
path of its file, and the digest of its text.
-/

namespace Bindery

open Json (Decoder Record)

/-- What the manifest says about one unit. -/
structure ManifestEntry where
  package : String
  file : String
  /-- The path of the file below the output directory. -/
  path : String
  generator : String
  sha256 : String
  provenance : List String := []
  deriving DecidableEq, Repr

/-- The index of a run; entries stand in the order of their keys. -/
structure Manifest where
  version : String
  generatedAt : String
  units : List ManifestEntry
  deriving DecidableEq, Repr

namespace ManifestEntry

def fields : Record ManifestEntry :=
  ((Record.required "package" .string).zip ((Record.required "file" .string).zip
    ((Record.required "path" .string).zip ((Record.required "generator" .string).zip
    ((Record.required "sha256" .string).zip
    (.defaulted "provenance" (.list .string) [])))))).map
      fun (package, file, path, generator, sha256, provenance) =>
        { package, file, path, generator, sha256, provenance }

def toJson (e : ManifestEntry) : Json :=
  .object ([("package", .string e.package), ("file", .string e.file), ("path", .string e.path),
    ("generator", .string e.generator), ("sha256", .string e.sha256)] ++
    Json.nonempty "provenance" .string e.provenance)

end ManifestEntry

namespace Manifest

def fileName : String := "sealant-manifest.json"

def currentVersion : String := "0.0.0"

def fields : Record Manifest :=
  ((Record.required "version" .string).zip ((Record.required "generated_at" .string).zip
    (.required "units" (.list ManifestEntry.fields.decoder)))).map
      fun (version, generatedAt, units) => { version, generatedAt, units }

def decoder : Decoder Manifest := fields.decoder

def toJson (m : Manifest) : Json :=
  .object [("version", .string m.version), ("generated_at", .string m.generatedAt),
    ("units", .ofList ManifestEntry.toJson m.units)]

def entry? (m : Manifest) (package file : String) : Option ManifestEntry :=
  m.units.find? fun e => e.package = package && e.file = file

end Manifest

end Bindery
