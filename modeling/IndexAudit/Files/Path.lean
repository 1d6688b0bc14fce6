import IndexAudit.Text.Blank

/-! Paths as texts, taken apart and put together without a look at any file. -/

namespace IndexAudit

namespace Path

/-- The pieces of a path between its slashes, empty ones included. -/
def segments (path : String) : List (List Char) :=
  path.toList.splitOn '/'

/-- Whether a path starts at the top of the file tree. -/
def isAbsolute (path : String) : Bool :=
  path.toList.head? == some '/'

/-- Whether a segment leaves a path where it is. -/
def staysPut (segment : List Char) : Bool :=
  segment.isEmpty || segment == ['.']

/-- A path under another one; an absolute one stands for itself. -/
def join (base path : String) : String :=
  if isAbsolute path || base.isEmpty then path
  else if base.toList.getLast? = some '/' then base ++ path
  else base ++ "/" ++ path

/-- What a path begins with that is no name: the top, or the current directory. -/
def front (path : String) : List Char :=
  match path.toList with
  | '/' :: _ => ['/']
  | ['.'] => ['.']
  | '.' :: '/' :: _ => ['.']
  | _ => []

/-- The segments behind the front of a path, up to the last one that moves. -/
def body (path : String) : List (List Char) :=
  let behind := (path.toList.drop (front path).length).splitOn '/'
  (behind.reverse.dropWhile staysPut).reverse

/-- The path of the directory that a path lies in; the top and the empty path lie in none. -/
def parent? (path : String) : Option String :=
  match (body path).reverse with
  -- The current directory lies in the empty path, the top in none.
  | [] => if front path = ['.'] then some "" else none
  | _ :: others =>
    let kept := (others.dropWhile staysPut).reverse
    some (String.ofList (front path ++ ['/'].intercalate kept))

/-- The last name of a path, unless it ends by going up. -/
def fileName? (path : String) : Option (List Char) :=
  match (body path).getLast? with
  | some segment => if segment = ['.', '.'] then none else some segment
  | none => none

/-- The names of a path, without the steps up and the segments that stay put. -/
def names (path : String) : List (List Char) :=
  (segments path).filter fun segment => !staysPut segment && segment != ['.', '.']

/-- What follows the last dot of a file name; a dot that begins the name does not count. -/
def extension? (path : String) : Option String := do
  let name ← fileName? path
  if name.contains '.' then
    let ending := (name.reverse.takeWhile (· != '.')).reverse
    -- A name whose only dot is its first character has no extension.
    if ending.length + 1 = name.length then none else some (String.ofList ending)
  else none

/-- Whether the extension of a path is one of several, in any case of ASCII letters. -/
def hasExtension (path : String) (extensions : List String) : Bool :=
  match extension? path with
  | none => false
  | some ending =>
    extensions.any fun one => one.toList.map Char.toLower == ending.toList.map Char.toLower

/-- The text that stays of a path when segments at its end are taken off, one for each entry. -/
def ancestorsWithin (count : Nat) (path : String) : List String :=
  match count with
  | 0 => [path]
  | count + 1 =>
    match parent? path with
    | none => [path]
    | some parent => path :: ancestorsWithin count parent

/-- A path and the directories around it, innermost first. -/
def ancestors (path : String) : List String :=
  ancestorsWithin (path.length + 1) path

end Path

end IndexAudit
