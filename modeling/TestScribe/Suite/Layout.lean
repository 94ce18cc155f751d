import TestScribe.Suite
import TestScribe.Text.Blank

/-!
# Layouts of the target languages
-/

namespace TestScribe

/-- The first line of every generated file, written as a comment. -/
def generatedHeader : String := "Test code generated by mbt"

def filledLines (text : String) : List String :=
  ((splitText '\n' text).map trimmed).filter fun line => line != ""

namespace Layout

/-- An index of comment lines, one for each test file. -/
def commentIndex (l : Language) (info : FileInfo) (stems : List String) : String :=
  let line (text : String) := l.commentMark ++ " " ++ text ++ "\n"
  line generatedHeader ++ line ("Test files of suite " ++ info.name) ++
    String.join (stems.map fun stem => line (stem ++ "." ++ l.fileExtension))

def java : Layout where
  header info :=
    "// " ++ generatedHeader ++ "\nimport static org.junit.Assert.*;\nimport org.junit.Test;\n" ++
      "\npublic class " ++ info.name ++ " \x7b\n"
  testCase _ id body :=
    "\n\t@Test\n\tpublic void test" ++ id ++ "() throws Exception \x7b" ++ body ++ "\n\t\x7d\n"
  footer _ _ := "\x7d\n"
  index info stems :=
    "// " ++ generatedHeader ++ "\nimport org.junit.runner.RunWith;\n" ++
      "import org.junit.runners.Suite;\n\n@RunWith(Suite.class)\n@Suite.SuiteClasses(\x7b " ++
      ", ".intercalate (stems.map fun stem => stem ++ ".class") ++ " \x7d)\npublic class " ++
      info.name ++ " \x7b\n\x7d\n"

def cSharp : Layout where
  header info :=
    "// " ++ generatedHeader ++ "\nusing System;\n" ++
      "using Microsoft.VisualStudio.TestTools.UnitTesting;\n\n[TestClass]\npublic class " ++
      info.name ++ "\n\x7b\n"
  testCase _ id body :=
    "\n\t[TestMethod]\n\tpublic void test" ++ id ++ "()\n\t\x7b" ++ body ++ "\n\t\x7d\n"
  footer _ _ := "\x7d\n"
  index := commentIndex .cSharp

def cpp : Layout where
  header _ := "// " ++ generatedHeader ++ "\n#include <gtest/gtest.h>\n"
  testCase info id body :=
    "\nTEST(" ++ info.name ++ ", test" ++ id ++ ") \x7b" ++ body ++ "\n\x7d\n"
  footer _ _ := ""
  index _ stems :=
    "// " ++ generatedHeader ++ "\n" ++
      String.join (stems.map fun stem => "#include \"" ++ stem ++ ".cpp\"\n")

def pythonMain : String := "\n\nif __name__ == '__main__':\n    unittest.main()\n"

def python : Layout where
  header info :=
    "# " ++ generatedHeader ++ "\nimport unittest\n\n\nclass " ++ info.name ++
      "(unittest.TestCase):\n"
  testCase _ id body :=
    let body := if isBlankText body then "\n        pass" else body
    "\n    def test" ++ id ++ "(self):" ++ body ++ "\n"
  footer _ _ := pythonMain
  index _ stems :=
    "# " ++ generatedHeader ++ "\nimport unittest\n" ++
      String.join (stems.map fun stem => "from " ++ stem ++ " import *\n") ++ pythonMain

def vb : Layout where
  header info :=
    "' " ++ generatedHeader ++ "\nImports Microsoft.VisualStudio.TestTools.UnitTesting\n\n" ++
      "<TestClass()>\nPublic Class " ++ info.name ++ "\n"
  testCase _ id body :=
    "\n\t<TestMethod()>\n\tPublic Sub test" ++ id ++ "()" ++ body ++ "\n\tEnd Sub\n"
  footer _ _ := "End Class\n"
  index := commentIndex .vb

def c : Layout where
  header _ := "// " ++ generatedHeader ++ "\n#include <assert.h>\n"
  testCase _ id body := "\nvoid test" ++ id ++ "(void) \x7b" ++ body ++ "\n\x7d\n"
  footer _ ids :=
    "\nint main(void) \x7b\n" ++ String.join (ids.map fun id => "\ttest" ++ id ++ "();\n") ++
      "\treturn 0;\n\x7d\n"
  index := commentIndex .c

def htmlHead (info : FileInfo) : String :=
  "<!-- " ++ generatedHeader ++ " -->\n<html>\n<head><title>" ++ info.name ++ "</title></head>\n"

def html : Layout where
  header info := htmlHead info ++ "<body>\n"
  testCase _ id body :=
    "<table border=\"1\">\n<tr><th>Test " ++ id ++ "</th></tr>\n" ++
      String.join ((filledLines body).map fun line => "<tr><td>" ++ line ++ "</td></tr>\n") ++
      "</table>\n"
  footer _ _ := "</body>\n</html>\n"
  index info stems :=
    htmlHead info ++ "<body>\n<ul>\n" ++
      String.join (stems.map fun stem =>
        "<li><a href=\"" ++ stem ++ ".html\">" ++ stem ++ "</a></li>\n") ++
      "</ul>\n</body>\n</html>\n"

/-- Keyword tables; their three languages differ in the files' extension alone, and the index always
speaks of text files. -/
def keyword : Layout where
  header _ := "# " ++ generatedHeader ++ "\n"
  testCase _ id body := "\n*** Test " ++ id ++ " ***" ++ body ++ "\n"
  footer _ _ := ""
  index := commentIndex .kbt

def uft : Layout where
  header info :=
    "' " ++ generatedHeader ++ "\n' System under test: " ++ info.systemName ++ "\n"
  testCase _ id body := "\n' Test " ++ id ++ body ++ "\n"
  footer _ _ := ""
  index info stems :=
    "' " ++ generatedHeader ++ "\n' Suite " ++ info.name ++ "\n" ++
      String.join (stems.map fun stem => "ExecuteFile \"" ++ stem ++ ".vbs\"\n")

end Layout

def Language.layout : Language → Layout
  | .java => .java
  | .cSharp => .cSharp
  | .cpp => .cpp
  | .python => .python
  | .vb => .vb
  | .c => .c
  | .html => .html
  | .kbt | .rpc | .seleniumDriver => .keyword
  | .uft => .uft

end TestScribe
