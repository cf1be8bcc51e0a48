/-!
# Why a source gave no text

A source is a stream of bytes or the file at a path. It gives no text if it cannot be opened, if it
breaks off, and if its bytes are not UTF-8.

* `ReadFault`: the faults, with the operating system's wording.
-/

namespace SqlFlow

/-- Why a file or a byte stream gave no text. -/
inductive ReadFault where
  /-- There is no such file. -/
  | missing
  /-- The path leads to a directory. -/
  | directory
  /-- The path has a null character in it, and none may. -/
  | nullInPath
  /-- The path or a name in it is longer than the file system allows. -/
  | nameTooLong
  /-- The bytes are not UTF-8. -/
  | notUtf8
  /-- The source broke off with a report of its own. -/
  | broken (report : String)
deriving DecidableEq, Repr

/-- The operating system's wording of a read fault. -/
def ReadFault.message : ReadFault → String
  | missing => "No such file or directory (os error 2)"
  | directory => "Is a directory (os error 21)"
  | nullInPath => "file name contained an unexpected NUL byte"
  | nameTooLong => "File name too long (os error 36)"
  | notUtf8 => "stream did not contain valid UTF-8"
  | broken report => report

end SqlFlow
