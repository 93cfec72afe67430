namespace BoostedTrees

abbrev Place := List String

structure FileTree where
  directories : List String := []
  files : List (String × List UInt8) := []

inductive PathError where
  | notFound
  | notDirectory
  | isDirectory
  | nulByte
  | tooLong
  deriving DecidableEq, Repr

def PathError.reason : PathError → String
  | .notFound => "No such file or directory (os error 2)"
  | .notDirectory => "Not a directory (os error 20)"
  | .isDirectory => "Is a directory (os error 21)"
  | .nulByte => "file name contained an unexpected NUL byte"
  | .tooLong => "File name too long (os error 36)"

namespace FileTree

def parts (path : String) : List String := (path.toList.splitOn '/').map String.ofList

def maxPathBytes : Nat := 4095

def maxNameBytes : Nat := 255

def isLongPath (path : String) : Bool := maxPathBytes < path.utf8ByteSize

def isLongName (name : String) : Bool := maxNameBytes < name.utf8ByteSize

def hasNul (path : String) : Bool := path.toList.contains (Char.ofNat 0)

def isAbsolute (path : String) : Bool := path.toList.head? == some '/'

def join (directory path : String) : String :=
  if isAbsolute path then path
  else if directory.isEmpty || directory.toList.getLast? == some '/' then directory ++ path
  else directory ++ "/" ++ path

def pathTo (p : Place) : String := String.intercalate "/" p

def isDirectory (t : FileTree) (p : Place) : Bool :=
  p.isEmpty || t.directories.contains (pathTo p)

def contents? (t : FileTree) (p : Place) : Option (List UInt8) := t.files.lookup (pathTo p)

def walk (t : FileTree) (p : Place) : List String → Except PathError Place
  | [] => if t.isDirectory p || (t.contents? p).isSome then .ok p else .error .notFound
  | part :: rest =>
      if t.isDirectory p then
        if part = "" || part = "." then t.walk p rest
        else if part = ".." then t.walk p.dropLast rest
        else if isLongName part then .error .tooLong
        else t.walk (p ++ [part]) rest
      else if (t.contents? p).isSome then .error .notDirectory
      else .error .notFound

def resolve (t : FileTree) (current : Place) (path : String) : Except PathError Place :=
  if hasNul path then .error .nulByte
  else if path.isEmpty then .error .notFound
  else if isLongPath path then .error .tooLong
  else t.walk (if isAbsolute path then [] else current) (parts path)

def read (t : FileTree) (current : Place) (path : String) : Except PathError (List UInt8) := do
  let p ← t.resolve current path
  match t.contents? p with
  | some bytes => return bytes
  | none => throw .isDirectory

-- what has been made stays when a later part stands in the way
def makeDirectories (t : FileTree) (p : Place) : List String → FileTree × Option Place
  | [] => (t, some p)
  | part :: rest =>
      if part = "" || part = "." then t.makeDirectories p rest
      else if part = ".." then t.makeDirectories p.dropLast rest
      else
        let q := p ++ [part]
        if t.isDirectory q then t.makeDirectories q rest
        else if (t.contents? q).isSome || isLongName part then (t, none)
        else { t with directories := pathTo q :: t.directories }.makeDirectories q rest

def put? (t : FileTree) (directory : Place) (name : String) (bytes : List UInt8) :
    Option FileTree :=
  let p := directory ++ [name]
  if t.isDirectory p || isLongName name then none
  else
    let path := pathTo p
    some { t with files := (path, bytes) :: t.files.filter fun f => f.1 != path }

def addDirectory (t : FileTree) (current : Place) (path : String) : FileTree × Option Place :=
  if hasNul path || isLongPath path then (t, none)
  else t.makeDirectories (if isAbsolute path then [] else current) (parts path)

def write (t : FileTree) (current : Place) (directory name : String) (bytes : List UInt8) :
    FileTree × Bool :=
  match t.addDirectory current directory with
  | (t, none) => (t, false)
  | (t, some p) =>
      if hasNul name || isLongPath (join directory name) then (t, false)
      else
        match t.put? p name bytes with
        | some t => (t, true)
        | none => (t, false)

end FileTree

end BoostedTrees
