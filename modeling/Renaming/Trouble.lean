/-!
# Trouble with files

The ways in which the file system refuses an operation, with the texts it gives them.
-/

namespace Renaming

inductive FileTrouble where
  | notFound
  | alreadyExists
  | notDirectory
  | isDirectory
  | busy
  | notText
  | other (text : String)
  deriving DecidableEq, Repr, Inhabited

def FileTrouble.message : FileTrouble → String
  | notFound => "No such file or directory (os error 2)"
  | alreadyExists => "File exists (os error 17)"
  | notDirectory => "Not a directory (os error 20)"
  | isDirectory => "Is a directory (os error 21)"
  | busy => "Device or resource busy (os error 16)"
  | notText => "stream did not contain valid UTF-8"
  | other text => text

end Renaming
