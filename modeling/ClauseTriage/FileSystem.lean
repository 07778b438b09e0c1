import ClauseTriage.Path
import ClauseTriage.System

/-!
# File systems

What the program asks of the place where its files are, and how a directory is made together with
the directories around it.
-/
namespace ClauseTriage

/-- Access to files, one request after the other. A request is carried out or refused. -/
structure FileSystem (m : Type → Type) where
  read : String → m (Except SystemError ByteArray)
  write : String → String → m (Except SystemError Unit)
  /-- Makes one directory inside a directory that is there. -/
  makeDirectory : String → m (Except SystemError Unit)

namespace FileSystem

variable {m : Type → Type} [Monad m] (fs : FileSystem m)

/-- A directory is there; it cannot be read as a file. -/
def isDirectory (path : String) : m Bool := do
  match ← fs.read path with
  | .error .isDirectory => return true
  | _ => return false

/-- Makes a directory that may be there already. -/
def ensureDirectory (path : String) : m (Except SystemError Unit) := do
  match ← fs.makeDirectory path with
  | .error .exists => return if ← fs.isDirectory path then .ok () else .error .exists
  | outcome => return outcome

/-- Makes the first directory; where what is around it is missing, that is made before. -/
def ensureAround : List String → m (Except SystemError Unit)
  | [] => return .ok ()
  | path :: outer => do
    match ← fs.ensureDirectory path with
    | .error .notFound =>
      match ← ensureAround outer with
      | .error e => return .error e
      | .ok () => fs.ensureDirectory path
    | outcome => return outcome

/-- Makes a directory with all on the way to it. -/
def makeDirectories (path : String) : m (Except SystemError Unit) :=
  fs.ensureAround (Path.ancestors path)

end FileSystem

end ClauseTriage
