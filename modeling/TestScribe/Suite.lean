import TestScribe.Language

/-!
# Test suites

A suite is a list of files held in memory. A layout wraps the bodies of tests in the file structure of
a test framework.
-/

namespace TestScribe

structure SuiteFile where
  name : String
  contents : String
deriving DecidableEq, Repr

structure Suite where
  name : String
  files : List SuiteFile
deriving DecidableEq, Repr

def Suite.file? (s : Suite) (name : String) : Option SuiteFile :=
  s.files.find? fun f => f.name == name

/-- What a layout needs to know of a file: the name of its class, module or page, and the system. -/
structure FileInfo where
  name : String
  systemName : String
deriving DecidableEq, Repr

structure TestCase where
  id : String
  body : String
deriving DecidableEq, Repr

/-- The file structure of a test framework; `index` is the file that ties separate files together. -/
structure Layout where
  header : FileInfo → String
  testCase : FileInfo → String → String → String
  footer : FileInfo → List String → String
  index : FileInfo → List String → String

def Layout.render (l : Layout) (info : FileInfo) (tests : List TestCase) : String :=
  l.header info ++ String.join (tests.map fun t => l.testCase info t.id t.body) ++
    l.footer info (tests.map TestCase.id)

end TestScribe
