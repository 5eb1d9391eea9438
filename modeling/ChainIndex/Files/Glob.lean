import ChainIndex.Files.System

/-!
# Patterns of paths

* `Glob.parse?`: a pattern such as `blocks/**/[0-9]?.cbor`. In a name, `?` stands for one character, `*` for
  any number of them, and brackets for one of a class; `**` as a whole name stands for any number of
  directories.
* `Glob.expand`: the paths that exist and have the form of a pattern.
-/

namespace ChainIndex.Glob

/-- A part of a pattern of names. -/
inductive Token where
  | char (c : Char)
  | anyChar
  | anyText
  /-- One of the characters in some ranges, or none of them. -/
  | oneOf (negated : Bool) (ranges : List (Char × Char))
deriving DecidableEq, Repr

/-- A pattern of one name of a path. -/
inductive Component where
  | literal (name : String)
  | wild (tokens : List Token)
  /-- Any number of directories. -/
  | anyDepth
deriving DecidableEq, Repr

/-- The ranges of a class. -/
def ranges : List Char → List (Char × Char)
  | first :: '-' :: last :: rest => (first, last) :: ranges rest
  | c :: rest => (c, c) :: ranges rest
  | [] => []

/-- The tokens of a name pattern; runs of stars and classes without an end are refused. -/
def tokens? : (fuel : Nat) → List Char → Option (List Token)
  | _, [] => some []
  | 0, _ => none
  | fuel + 1, c :: rest =>
    if c = '?' then do return .anyChar :: (← tokens? fuel rest)
    else if c = '*' then
      if rest.head? = some '*' then none else do return .anyText :: (← tokens? fuel rest)
    else if c = '[' then do
      let (negated, rest) := match rest with
        | '!' :: rest => (true, rest)
        | _ => (false, rest)
      match rest with
      | [] => none
      | first :: rest =>
        let inner := rest.takeWhile (· ≠ ']')
        if inner.length = rest.length then none
        else
          return .oneOf negated (ranges (first :: inner)) ::
            (← tokens? fuel (rest.drop (inner.length + 1)))
    else do return .char c :: (← tokens? fuel rest)

/-- The name that tokens spell if all of them are characters. -/
def literal? (tokens : List Token) : Option String := do
  let chars ← tokens.mapM fun
    | .char c => some c
    | _ => none
  return String.ofList chars

/-- Reads a name pattern. -/
def Component.parse? (text : List Char) : Option Component :=
  if text = ['*', '*'] then some .anyDepth
  else do
    let tokens ← tokens? text.length text
    match literal? tokens with
    | some name => return .literal name
    | none => return .wild tokens

/-- Whether some rest of a text, or all of it, passes a test. -/
def anyRest (test : List Char → Bool) : List Char → Bool
  | [] => test []
  | c :: rest => test (c :: rest) || anyRest test rest

/-- Whether a name has the form that tokens give. -/
def fits : List Token → List Char → Bool
  | [], name => name.isEmpty
  | .anyText :: tokens, name => anyRest (fits tokens) name
  | .char c :: tokens, name =>
    match name with
    | [] => false
    | d :: rest => c = d && fits tokens rest
  | .anyChar :: tokens, name =>
    match name with
    | [] => false
    | _ :: rest => fits tokens rest
  | .oneOf negated ranges :: tokens, name =>
    match name with
    | [] => false
    | d :: rest =>
      let isIn := ranges.any fun (first, last) => first ≤ d && d ≤ last
      (isIn != negated) && fits tokens rest

/-- Whether a name has the form of a pattern. -/
def Component.admits : Component → String → Bool
  | literal name, s => name = s
  | wild tokens, s => fits tokens s.toList
  | anyDepth, _ => true

end Glob

/-- A pattern of paths. -/
structure Glob where
  /-- The directory to begin in. -/
  scope : String
  components : List Glob.Component
  /-- Whether only directories are meant: the pattern ends with a slash. -/
  wantsDirectory : Bool
deriving DecidableEq, Repr

namespace Glob

/-- Reads a pattern. -/
def parse? (pattern : String) : Option Glob := do
  let text := pattern.toList
  let (scope, rest) := match text with
    | '/' :: rest => ("/", rest)
    | _ => (Path.here, text)
  let names := Path.cut rest
  -- a slash at the end makes no name
  let names := if 1 < names.length ∧ names.getLast? = some [] then names.dropLast else names
  return ⟨scope, ← names.mapM Component.parse?, text.getLast? = some '/'⟩

section Expand

variable {m : Type → Type} [Monad m] (fs : FileSystem m)

/-- The entries of a directory; anything else has none. -/
def entriesOf (path : String) : ExceptT String m (List String) := do
  if ← fs.isDirectory path then
    let explain (reason : String) : String :=
      "attempting to read \x60" ++ path ++ "\x60 resulted in an error: " ++ reason
    ExceptT.adapt explain (ExceptT.mk (fs.list path))
  else return []

/-- The names for the current and the parent directory that a pattern admits; it must begin with a dot. -/
def specialNames (tokens : List Token) : List String :=
  if tokens.head? = some (.char '.') then [".", ".."].filter (Component.wild tokens).admits else []

/-- The paths below a directory that some components lead to. Each step goes down by one name, at most `fuel`
of them. -/
def below (wantsDirectory : Bool) :
    (fuel : Nat) → List Component → (path : String) → ExceptT String m (List String)
  | 0, _, _ => return []
  | _ + 1, [], path => do
    if wantsDirectory then return if ← fs.isDirectory path then [path] else []
    else return [path]
  | fuel + 1, .literal name :: rest, path => do
    let next := Path.join path name
    let found ← if name = "." ∨ name = ".." then fs.isDirectory path else fs.contains next
    if found then below wantsDirectory fuel rest next else return []
  | fuel + 1, .wild tokens :: rest, path => do
    let names := (← entriesOf fs path).filter (Component.wild tokens).admits
    let inside ← names.mapM fun name => below wantsDirectory fuel rest (Path.join path name)
    let special ← if ← fs.isDirectory path then pure (specialNames tokens) else pure []
    let beside ← special.mapM fun name => below wantsDirectory fuel rest (path ++ "/" ++ name)
    return inside.flatten ++ beside.flatten
  | fuel + 1, .anyDepth :: rest, path => do
    let rest := rest.dropWhile (· = .anyDepth)
    let found ← (← entriesOf fs path).mapM fun name => do
      let next := Path.join path name
      let deeper ← below wantsDirectory fuel (.anyDepth :: rest) next
      match rest with
      | [] => return if ← fs.isDirectory next then next :: deeper else deeper
      | component :: rest =>
        if component.admits name then return (← below wantsDirectory fuel rest next) ++ deeper
        else return deeper
    return found.flatten

/-- The longest path that can be opened has this many octets, and so no more names. -/
def maxDepth : Nat := 4096

/-- The paths that have the form of a pattern, in order. -/
def expand (g : Glob) : ExceptT String m (List String) := do
  let fuel := maxDepth + g.components.length + 1
  return Path.sort (← below fs g.wantsDirectory fuel g.components g.scope)

end Expand

end Glob

end ChainIndex
