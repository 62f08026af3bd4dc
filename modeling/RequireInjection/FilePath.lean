import RequireInjection.Text

namespace RequireInjection.FilePath

def segments (path : Text) : List Text := Text.splitBy (· = '/') path

def dot : Text := ['.']

def dotDot : Text := ['.', '.']

def names (path : Text) : List Text :=
  (segments path).filter fun s => !s.isEmpty && s != dot

def fileName? (path : Text) : Option Text := (names path).getLast?.filter (· != dotDot)

/-- What follows the last dot of a name, unless only the name's first character precedes it. -/
def extensionOf? (name : Text) : Option Text :=
  let after := name.reverse.takeWhile (· != '.')
  if name.length ≤ after.length + 1 then none else some after.reverse

def extension? (path : Text) : Option Text := (fileName? path).bind extensionOf?

def isAbsolute (path : Text) : Bool := path.head? = some '/'

def join (directory path : Text) : Text :=
  if isAbsolute path then path
  else if directory.isEmpty || directory.getLast? = some '/' then directory ++ path
  else directory ++ '/' :: path

/-- A path from its end on without the slashes and dots there that name nothing. -/
def trimmed : Text → Text
  | '.' :: '/' :: rest => trimmed ('/' :: rest)
  | '/' :: c :: rest => trimmed (c :: rest)
  | path => path

def parent? (path : Text) : Option Text :=
  let backwards := trimmed path.reverse
  if backwards.isEmpty || backwards = ['/'] then none
  else some (trimmed (backwards.dropWhile (· != '/'))).reverse

end RequireInjection.FilePath
