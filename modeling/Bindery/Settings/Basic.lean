import Bindery.Feature
import Bindery.Text.Quoted

/-!
# Settings

What a user may set: the features to generate for, the output directory, the header of generated
files, and logging. Every field has a default, so no settings at all are settings too.
-/

namespace Bindery

open Json (Decoder Record)

/-- Where and how generated files are written. -/
structure OutputSettings where
  dir : String := "build/generated/sealant"
  /-- Remove sources of an earlier run that this run did not produce. -/
  cleanStale : Bool := false
  manifest : Bool := true
  deriving DecidableEq, Repr

/-- The comment on top of every generated file. -/
structure HeaderSettings where
  title : String := "Generated by Sealant."
  url : String := "https://github.com/SteinerOk/sealant"
  /-- Opt in to the internal and experimental runtime declarations. -/
  optIn : Bool := true
  deriving DecidableEq, Repr

/-- Where log lines go. -/
structure LoggingSettings where
  directory : Option String := none
  json : Bool := false
  envFilter : Option String := none
  deriving DecidableEq, Repr

/-- All settings of a run. -/
structure Settings where
  features : FeatureSet := .all
  /-- Stop at the first diagnostic. -/
  failFast : Bool := false
  output : OutputSettings := {}
  header : HeaderSettings := {}
  logging : LoggingSettings := {}
  deriving DecidableEq, Repr

namespace OutputSettings

def fields : Record OutputSettings :=
  let default : OutputSettings := {}
  ((Record.defaulted "dir" .string default.dir).zip
    ((Record.defaulted "clean_stale" .bool default.cleanStale).zip
    (.defaulted "manifest" .bool default.manifest))).map
      fun (dir, cleanStale, manifest) => { dir, cleanStale, manifest }

def toJson (s : OutputSettings) : Json :=
  .object [("dir", .string s.dir), ("clean_stale", .bool s.cleanStale),
    ("manifest", .bool s.manifest)]

end OutputSettings

namespace HeaderSettings

def fields : Record HeaderSettings :=
  let default : HeaderSettings := {}
  ((Record.defaulted "title" .string default.title).zip
    ((Record.defaulted "url" .string default.url).zip
    (.defaulted "opt_in" .bool default.optIn))).map
      fun (title, url, optIn) => { title, url, optIn }

def toJson (s : HeaderSettings) : Json :=
  .object [("title", .string s.title), ("url", .string s.url), ("opt_in", .bool s.optIn)]

end HeaderSettings

namespace LoggingSettings

def fields : Record LoggingSettings :=
  ((Record.defaulted "directory" (.option .string) none).zip
    ((Record.defaulted "json" .bool false).zip
    (.defaulted "env_filter" (.option .string) none))).map
      fun (directory, json, envFilter) => { directory, json, envFilter }

def toJson (s : LoggingSettings) : Json :=
  .object [("directory", .ofOption .string s.directory), ("json", .bool s.json),
    ("env_filter", .ofOption .string s.envFilter)]

end LoggingSettings

namespace Settings

def fields : Record Settings :=
  ((Record.defaulted "features" FeatureSet.decoder .all).zip
    ((Record.defaulted "fail_fast" .bool false).zip
    ((Record.defaulted "output" OutputSettings.fields.decoder {}).zip
    ((Record.defaulted "header" HeaderSettings.fields.decoder {}).zip
    (.defaulted "logging" LoggingSettings.fields.decoder {}))))).map
      fun (features, failFast, output, header, logging) =>
        { features, failFast, output, header, logging }

def decoder : Decoder Settings := fields.decoder

def toJson (s : Settings) : Json :=
  .object [("features", s.features.toJson), ("fail_fast", .bool s.failFast),
    ("output", s.output.toJson), ("header", s.header.toJson), ("logging", s.logging.toJson)]

def describeBool (b : Bool) : String := if b then "true" else "false"

def describeOption : Option String → String
  | none => "None"
  | some s => "Some(" ++ Text.quoted s ++ ")"

def listing (name : String) (fields : List (String × String)) : String :=
  name ++ " \x7b " ++ ", ".intercalate (fields.map fun (field, value) => field ++ ": " ++ value) ++
    " \x7d"

def describe (s : Settings) : String :=
  listing "GeneratorConfig"
    [("features", s.features.describe), ("fail_fast", describeBool s.failFast),
     ("output", listing "OutputConfig"
       [("dir", Text.quoted s.output.dir), ("clean_stale", describeBool s.output.cleanStale),
        ("manifest", describeBool s.output.manifest)]),
     ("header", listing "HeaderConfig"
       [("title", Text.quoted s.header.title), ("url", Text.quoted s.header.url),
        ("opt_in", describeBool s.header.optIn)]),
     ("logging", listing "LoggingConfig"
       [("directory", describeOption s.logging.directory), ("json", describeBool s.logging.json),
        ("env_filter", describeOption s.logging.envFilter)])]

end Settings

end Bindery
