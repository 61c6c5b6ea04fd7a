import OpenSpeedShop.Library.Segments

/-!
Normalising the path of a file or directory. The character before an empty
string, which `operator+=` reads, is part of its length or reference count and
so no separator.
-/

namespace OpenSpeedShop.PathNames

abbrev Path := List Char

def dot : Path := ['.']

def dotDot : Path := ['.', '.']

def IsName (component : Path) : Prop :=
  component ≠ [] ∧ component ≠ dot ∧ component ≠ dotDot

instance (component : Path) : Decidable (IsName component) :=
  inferInstanceAs (Decidable (_ ∧ _ ∧ _))

def absolute (components : List Path) : Path := Segments.joined '/' components

/-- The components of the current working directory, without references and empty ones, and the home
directories in the password file, of the own user and of others. -/
structure Environment where
  cwd : List Path
  cwdNames : ∀ component ∈ cwd, IsName component ∧ '/' ∉ component
  ownHome : Option Path
  homeOf : Path → Option Path

def Environment.getcwd (environment : Environment) : Path :=
  if environment.cwd = [] then ['/'] else absolute environment.cwd

def append (path rhs : Path) : Path :=
  if path.getLast? ≠ some '/' ∧ rhs.head? ≠ some '/' then path ++ '/' :: rhs else path ++ rhs

def removeLast (path : Path) : Path :=
  if '/' ∈ path then ((path.reverse.dropWhile (· ≠ '/')).drop 1).reverse else []

def isAbsolute (path : Path) : Bool := path.head? == some '/'

/-- `component.find('~') == 0` -/
def startsWithTilde (component : Path) : Bool := component.head? == some '~'

def components (path : Path) : List Path := (path.splitOn '/').filter (· ≠ [])

def Environment.home (environment : Environment) (component : Path) : Path :=
  (if component = ['~'] then environment.ownHome
    else environment.homeOf (component.drop 1)).getD component

def resolve (normalized component : Path) : Path :=
  if component = dot then normalized
  else if component = dotDot then removeLast normalized
  else append normalized component

def Environment.resolveFirst (environment : Environment) (isRelative : Bool) (component : Path) :
    Path :=
  if startsWithTilde component then append [] (environment.home component)
  else if isRelative then environment.getcwd
  else resolve [] component

def Environment.getNormalized (environment : Environment) (path : Path) : Path :=
  match components path with
  | [] => []
  | first :: rest => rest.foldl resolve (environment.resolveFirst (!isAbsolute path) first)

end OpenSpeedShop.PathNames
