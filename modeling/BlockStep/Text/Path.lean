namespace BlockStep.Text.Path

/-- The parts of a path between slashes. -/
def parts (cs : List Char) : List (List Char) :=
  (cs.splitOn '/').filter fun part => !(part.isEmpty || part == ['.'])

/-- The root of a path: two slashes and no more are a root of their own. -/
def root : List Char → String
  | '/' :: '/' :: '/' :: _ => "/"
  | '/' :: '/' :: _ => "//"
  | '/' :: _ => "/"
  | _ => ""

/-- A path in its shortest form; an empty one stands for the place it starts from. -/
def normal (path : String) : String :=
  let text := root path.toList ++ String.intercalate "/" ((parts path.toList).map String.ofList)
  if text.isEmpty then "." else text

def join (directory name : String) : String :=
  if directory == "." then name
  else if directory.endsWith "/" then directory ++ name
  else directory ++ "/" ++ name

/-- The last part of a path. -/
def name (path : String) : String := String.ofList ((parts path.toList).getLastD [])

/-- The path without its last part. -/
def parent (path : String) : String :=
  normal (root path.toList
    ++ String.intercalate "/" ((parts path.toList).dropLast.map String.ofList))

/-- The ending of a name from its last point on, if the point is neither the first nor the last
character. -/
def ending (name : String) : String :=
  let back := name.toList.reverse.takeWhile (· != '.')
  let front := name.toList.reverse.dropWhile (· != '.')
  match front with
  | '.' :: rest =>
    if back.isEmpty || rest.isEmpty then "" else String.ofList ('.' :: back.reverse)
  | _ => ""

end BlockStep.Text.Path
