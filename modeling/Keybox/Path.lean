import Keybox.Text

/-!
# Paths

Paths as texts: joining, the part before the last slash, and the two normal forms. Nothing here
looks at files, so a component of two dots is taken away with the one before it wherever a path
is normalised.
-/

namespace Keybox

namespace Path

/-- The separator of components. -/
def slash : CodePoint :=
  chr '/'

/-- Whether a path starts at the root. -/
def isAbsolute (p : Text) : Bool :=
  p.head? == some slash

/-- A path below another; an absolute one stands for itself. -/
def join (base p : Text) : Text :=
  if isAbsolute p then p
  else if base = [] ∨ base.getLast? = some slash then base ++ p
  else base ++ slash :: p

/-- What follows the last slash. -/
def baseName (p : Text) : Text :=
  (p.reverse.takeWhile fun c => c != slash).reverse

/-- What stands before the last slash, without the slashes at its end unless it has nothing
else. -/
def dirName (p : Text) : Text :=
  let head := p.take (p.length - (baseName p).length)
  if head.all (· = slash) then head else Text.dropEndWhile (· = slash) head

/-- The components of a path: what stands between slashes, without the empty ones. -/
def components (p : Text) : List Text :=
  (Text.split slash p).filter fun c => !c.isEmpty

/-- The component for a directory itself. -/
def here : Text :=
  lit "."

/-- The component for the parent of a directory. -/
def up : Text :=
  lit ".."

/-- The slashes a path keeps at its front: exactly two stay two, more count as one. -/
def rootSlashes (p : Text) : Text :=
  match (p.takeWhile (· = slash)).length with
  | 0 => []
  | 2 => [slash, slash]
  | _ => [slash]

/-- Components taken one after another, the latest first: a parent cancels the component before
it, and there is nothing above the root. -/
def cancel (rooted : Bool) : List Text → List Text → List Text
  | done, [] => done
  | done, c :: rest =>
    if c = here then cancel rooted done rest
    else if c = up then
      match done with
      | [] => cancel rooted (if rooted then [] else [up]) rest
      | d :: ds => cancel rooted (if d = up then up :: done else ds) rest
    else cancel rooted (c :: done) rest

/-- The path with all components cancelled that can be. -/
def normalize (p : Text) : Text :=
  let root := rootSlashes p
  let kept := (cancel (isAbsolute p) [] (components p)).reverse
  let body := Text.join [slash] kept
  if root ++ body = [] then here else root ++ body

/-- The normal form of a path that starts at a working directory. -/
def absolute (workingDir p : Text) : Text :=
  normalize (join workingDir p)

/-- The path without empty components and components for a directory itself; parents stay. -/
def tidy (p : Text) : Text :=
  let root := rootSlashes p
  let body := Text.join [slash] ((components p).filter fun c => c != here)
  if root ++ body = [] then here else root ++ body

end Path

end Keybox
