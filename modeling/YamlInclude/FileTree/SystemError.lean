/-! # System errors

The ways in which an operation on files is refused, with their numbers.
-/

namespace YamlInclude

inductive SystemError where
  | notFound | badFormat | permissionDenied | busy | alreadyExists | notDirectory | isDirectory
  | nameTooLong | notEmpty | tooManyLinks
  /-- A path with a character that no file name can hold. -/
  | nulInPath
  /-- A command with a character that no argument can hold. -/
  | nulInCommand
  deriving DecidableEq, Repr

namespace SystemError

def message : SystemError → String
  | notFound => "No such file or directory (os error 2)"
  | badFormat => "Exec format error (os error 8)"
  | permissionDenied => "Permission denied (os error 13)"
  | busy => "Device or resource busy (os error 16)"
  | alreadyExists => "File exists (os error 17)"
  | notDirectory => "Not a directory (os error 20)"
  | isDirectory => "Is a directory (os error 21)"
  | nameTooLong => "File name too long (os error 36)"
  | notEmpty => "Directory not empty (os error 39)"
  | tooManyLinks => "Too many levels of symbolic links (os error 40)"
  | nulInPath => "file name contained an unexpected NUL byte"
  | nulInCommand => "nul byte found in provided data"

end SystemError

end YamlInclude
