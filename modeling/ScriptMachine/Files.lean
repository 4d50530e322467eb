/-!
# Files

The files that a program can read, by path.

* `Files`: the texts of the files below one directory.
* `Files.read`: the text at a path, or the reason why there is none.
* `FileFault.message`: the wording of a reason.
-/

namespace ScriptMachine

/-- The files below one directory, by path. -/
structure Files where
  entries : List (String × String) := []
deriving Inhabited

/-- Why a path cannot be read. -/
inductive FileFault
  | missing
  | notDirectory
  | isDirectory
  | nameTooLong
  | nulByte
deriving DecidableEq, Inhabited

def FileFault.message : FileFault → String
  | .missing => "No such file or directory (os error 2)"
  | .notDirectory => "Not a directory (os error 20)"
  | .isDirectory => "Is a directory (os error 21)"
  | .nameTooLong => "File name too long (os error 36)"
  | .nulByte => "file name contained an unexpected NUL byte"

namespace Files

variable (files : Files)

/-- Whether a file lies below a directory. -/
def hasDirectory (path : String) : Bool := files.entries.any fun e => e.1.startsWith (path ++ "/")

/-- Reads on from the directory `inside` along the rest of a path. -/
def readFrom (inside : List String) : List String → Except FileFault String
  | [] => .error .isDirectory
  | "" :: rest => readFrom inside rest
  | "." :: rest => readFrom inside rest
  | ".." :: rest => if inside.isEmpty then .error .missing else readFrom inside.dropLast rest
  | name :: rest =>
    let path := "/".intercalate (inside ++ [name])
    if 255 < name.utf8ByteSize then .error .nameTooLong
    else
      match files.entries.lookup path with
      | some text => if rest.isEmpty then .ok text else .error .notDirectory
      | none =>
        if files.hasDirectory path then readFrom (inside ++ [name]) rest else .error .missing

/-- The text of the file at a path; absolute paths lead to no file. -/
def read (path : String) : Except FileFault String :=
  if path.contains '\x00' then .error .nulByte
  else if path.isEmpty then .error .missing
  else if path.startsWith "/" then
    .error (if path.all (· == '/') then .isDirectory else .missing)
  else files.readFrom [] (path.splitOn "/")

theorem read_empty : files.read "" = .error .missing := by
  simp [read]

end Files

end ScriptMachine
