/-!
# Errors of the operating system

Why an operation on files or on programs fails.
-/

namespace CommandFiles

/-- Why the operating system refuses something. -/
inductive OsError where
  | notFound
  | permissionDenied
  | alreadyExists
  | notDirectory
  | isDirectory
  | nameTooLong
  | notText
  | zeroInName
  | zeroInArgument
  | emptyPath
  deriving DecidableEq, Repr

/-- The words of an error. -/
def OsError.message : OsError → String
  | notFound => "No such file or directory (os error 2)"
  | permissionDenied => "Permission denied (os error 13)"
  | alreadyExists => "File exists (os error 17)"
  | notDirectory => "Not a directory (os error 20)"
  | isDirectory => "Is a directory (os error 21)"
  | nameTooLong => "File name too long (os error 36)"
  | notText => "stream did not contain valid UTF-8"
  | zeroInName => "file name contained an unexpected NUL byte"
  | zeroInArgument => "nul byte found in provided data"
  | emptyPath => "cannot make an empty path absolute"

end CommandFiles
