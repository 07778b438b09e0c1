/-!
# Refusals of the file system
-/
namespace ClauseTriage

/-- Why the file system refuses a request. -/
inductive SystemError where
  | notFound
  | exists
  | notDirectory
  | isDirectory
  | nameTooLong
  /-- A path with the character of number zero in it. -/
  | zeroInName
  | other (description : String)
  deriving DecidableEq, Repr

def SystemError.message : SystemError → String
  | notFound => "No such file or directory (os error 2)"
  | .exists => "File exists (os error 17)"
  | notDirectory => "Not a directory (os error 20)"
  | isDirectory => "Is a directory (os error 21)"
  | nameTooLong => "File name too long (os error 36)"
  | zeroInName => "file name contained an unexpected NUL byte"
  | other description => description

end ClauseTriage
