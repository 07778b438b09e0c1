import ClauseTriage.BaseName
import ClauseTriage.Code.Line
import ClauseTriage.Host

/-!
# Headers

The frame around declarations: a banner, an include guard, includes and a namespace.
-/
namespace ClauseTriage.Code

/-- A generated file. -/
structure Artifact where
  file : String
  /-- Functions, tables and classes that the host uses. -/
  entries : List String
  text : String := ""
  deriving DecidableEq, Repr

/-- Every header begins with these lines. -/
def banner : List String :=
  ["/******************************************",
   "Copyright (c) the keepgen contributors",
   "",
   "Permission is hereby granted, free of charge, to any person obtaining a copy",
   "of this software and associated documentation files (the \"Software\"), to deal",
   "in the Software without restriction, including without limitation the rights",
   "to use, copy, modify, merge, publish, distribute, sublicense, and/or sell",
   "copies of the Software, and to permit persons to whom the Software is",
   "furnished to do so, subject to the following conditions:",
   "",
   "The above copyright notice and this permission notice shall be included in",
   "all copies or substantial portions of the Software.",
   "",
   "THE SOFTWARE IS PROVIDED \"AS IS\", WITHOUT WARRANTY OF ANY KIND, EXPRESS OR",
   "IMPLIED, INCLUDING BUT NOT LIMITED TO THE WARRANTIES OF MERCHANTABILITY,",
   "FITNESS FOR A PARTICULAR PURPOSE AND NONINFRINGEMENT. IN NO EVENT SHALL THE",
   "AUTHORS OR COPYRIGHT HOLDERS BE LIABLE FOR ANY CLAIM, DAMAGES OR OTHER",
   "LIABILITY, WHETHER IN AN ACTION OF CONTRACT, TORT OR OTHERWISE, ARISING FROM,",
   "OUT OF OR IN CONNECTION WITH THE SOFTWARE OR THE USE OR OTHER DEALINGS IN",
   "THE SOFTWARE.",
   "***********************************************/"]

/-- What a header declares and what it needs for that. -/
structure Header where
  /-- Lines between the banner and the guard. -/
  remarks : List String := []
  guard : String
  includes : List String
  /-- Includes of the standard library. -/
  systemIncludes : List String := []
  scope : String
  body : List Line

def includeLine (file : String) : Line := .flush ("#include \"" ++ file ++ "\"")

/-- The lines of a header. -/
def Header.lines (h : Header) : List Line :=
  banner.map .flush ++ h.remarks.map .flush ++
    [.flush ("#ifndef " ++ h.guard), .flush ("#define " ++ h.guard), .blank] ++
    h.includes.map includeLine ++
    h.systemIncludes.map (fun file => .flush ("#include <" ++ file ++ ">")) ++
    [.blank, .flush ("namespace " ++ h.scope ++ " \x7b"), .blank] ++ h.body ++
    [.blank, .flush "\x7d //end namespace", .blank, .flush ("#endif //" ++ h.guard)]

def Header.text (h : Header) : String := render h.lines

end ClauseTriage.Code
