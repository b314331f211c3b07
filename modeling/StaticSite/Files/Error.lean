/-! Failures of file operations. -/

namespace StaticSite

inductive OsError where
  | notFound
  | outOfMemory
  | busy
  | fileExists
  | notADirectory
  | isADirectory
  | invalidArgument
  | nameTooLong
  | directoryNotEmpty
  | tooManyLinks
  | nullInPath
  | invalidText
  /-- A link below `ancestor` leads back to it. -/
  | loop (child ancestor : String)
  /-- A failure met by a walk, with the path it was met at. -/
  | during (path : String) (e : OsError)
  deriving DecidableEq, Repr

namespace OsError

def numbered (text : String) (n : Nat) : String := text ++ " (os error " ++ toString n ++ ")"

def message : OsError → String
  | notFound => numbered "No such file or directory" 2
  | outOfMemory => numbered "Cannot allocate memory" 12
  | busy => numbered "Device or resource busy" 16
  | fileExists => numbered "File exists" 17
  | notADirectory => numbered "Not a directory" 20
  | isADirectory => numbered "Is a directory" 21
  | invalidArgument => numbered "Invalid argument" 22
  | nameTooLong => numbered "File name too long" 36
  | directoryNotEmpty => numbered "Directory not empty" 39
  | tooManyLinks => numbered "Too many levels of symbolic links" 40
  | nullInPath => "file name contained an unexpected NUL byte"
  | invalidText => "stream did not contain valid UTF-8"
  | loop child ancestor =>
    "File system loop found: " ++ child ++ " points to an ancestor " ++ ancestor
  | during path e => "IO error for operation on " ++ path ++ ": " ++ e.message

end OsError

end StaticSite
