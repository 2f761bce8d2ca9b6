/-!
# Errors of the operating system

Why a file could not be reached, read or written.
-/

namespace Amend

/-- A reason to fail that the operating system gives. -/
inductive OsError where
  | notFound
  | alreadyThere
  | notDirectory
  | isDirectory
  | noSpace
  | nameTooLong
  | tooManyLinks
  /-- A path with a NUL character never reaches the operating system. -/
  | nulInPath
  /-- The bytes of a file are not the UTF-8 form of a text. -/
  | notText
deriving DecidableEq, Repr

def OsError.message : OsError → String
  | notFound => "No such file or directory (os error 2)"
  | alreadyThere => "File exists (os error 17)"
  | notDirectory => "Not a directory (os error 20)"
  | isDirectory => "Is a directory (os error 21)"
  | noSpace => "No space left on device (os error 28)"
  | nameTooLong => "File name too long (os error 36)"
  | tooManyLinks => "Too many levels of symbolic links (os error 40)"
  | nulInPath => "file name contained an unexpected NUL byte"
  | notText => "stream did not contain valid UTF-8"

end Amend
