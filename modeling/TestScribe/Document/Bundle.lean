import TestScribe.Document.Model
import TestScribe.Document.Options
import TestScribe.Document.Tree
import TestScribe.Json.Depth

/-!
# Bundles

A bundle is one document with all that a run reads: a model, a tree over it, and perhaps options.
-/

namespace TestScribe

structure Bundle where
  model : ModelDocument
  tree : TreeDocument
  options : Option Options

inductive BundleError
  | json
  | model (cause : ModelError)
  | tree (cause : TreeError)
deriving DecidableEq, Repr

def BundleError.message : BundleError → String
  | .json => "invalid bundle JSON"
  | .model cause => "invalid model: " ++ cause.message
  | .tree cause => "invalid execution tree: " ++ cause.message

structure Bundle.Parts where
  model : Model
  tree : ExecutionTree
  options : Option Options

namespace Bundle

def fieldNames : List String :=
  ["model", "tree", "options"]

def decode (v : Json) : Option Bundle := do
  let fields ← v.record? fieldNames
  return {
    model := ← Json.optional fields "model" ModelDocument.decode .empty
    tree := ← Json.optional fields "tree" TreeDocument.decode .empty
    options := ← Json.optional fields "options" (Json.orNull? Options.decode) none }

def encode (b : Bundle) : Json :=
  .obj [
    ("model", b.model.encode),
    ("tree", b.tree.encode),
    ("options", .ofOption Options.encode b.options)]

def ofText (text : String) : Except BundleError Bundle :=
  match (Json.parseDocument text).bind decode with
  | some b => .ok b
  | none => .error .json

def build (b : Bundle) : Except BundleError Parts :=
  match b.model.build with
  | .error e => .error (.model e)
  | .ok model =>
    match b.tree.build model with
    | .error e => .error (.tree e)
    | .ok tree => .ok ⟨model, tree, b.options⟩

end Bundle

end TestScribe
