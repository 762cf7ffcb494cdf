import WordMachine.Text.Bytes

/-!
Paths as text: their parts, and the shortest path that names the same place when no links are
followed.
-/

namespace WordMachine.Path

def isAbsolute (path : Bytes) : Bool :=
  path[0]? == some 47

/-- Appends one part to the parts seen so far, the latest first. A part `..` takes away the part
before it, unless that is itself a `..`; at the root it has no effect. -/
def pushPart (absolute : Bool) (parts : List Bytes) (part : Bytes) : List Bytes :=
  if part.isEmpty || part == ".".toUTF8 then parts
  else if part == "..".toUTF8 then
    match parts with
    | [] => if absolute then [] else [part]
    | last :: before => if last == "..".toUTF8 then part :: parts else before
  else part :: parts

/-- The shortest path that names the same place. -/
def clean (path : Bytes) : Bytes :=
  let absolute := isAbsolute path
  let parts := ((Bytes.split path 47).foldl (pushPart absolute) []).reverse
  let relative := Bytes.join "/" parts
  if absolute then "/" ++ relative
  else if relative.isEmpty then "."
  else relative

def join (parts : List Bytes) : Bytes :=
  match parts.filter fun part => !part.isEmpty with
  | [] => ByteArray.empty
  | parts => clean (Bytes.join "/" parts)

def lastPart (path : Bytes) : Bytes :=
  match Bytes.lastIndexOf? path 47 with
  | some position => Bytes.drop path (position + 1)
  | none => path

/-- The last name of a path. Slashes at its end do not count. -/
def base (path : Bytes) : Bytes :=
  if path.isEmpty then "."
  else
    let name := lastPart (Bytes.ofList (path.toList.reverse.dropWhile (· == 47)).reverse)
    if name.isEmpty then "/" else name

/-- The part of the last name from its last dot on. -/
def extension (path : Bytes) : Bytes :=
  let name := lastPart path
  match Bytes.lastIndexOf? name 46 with
  | some position => Bytes.drop name position
  | none => ByteArray.empty

/-- The directory that holds the named place. -/
def parent (path : Bytes) : Bytes :=
  clean (Bytes.take path (path.size - (lastPart path).size))

/-- The path as seen from the root, for a reader in the given directory. -/
def absolute (workingDirectory path : Bytes) : Bytes :=
  if isAbsolute path then clean path else join [workingDirectory, path]

end WordMachine.Path
