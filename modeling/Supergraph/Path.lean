/-!
# Paths

A path is a row of names with slashes between them. It leads from the root when it begins with a
slash, and from the working directory otherwise; with a slash at its end it leads to a directory
only. The names `.` and `..` stand for the directory itself and for the one above.
-/

namespace Supergraph

/-- A path. The names between two slashes next to each other are left out. -/
structure Path where
  absolute : Bool
  names : List String
  /-- Whether a slash stands at the end. -/
  closed : Bool
deriving DecidableEq, Repr, Inhabited

namespace Path

/-- The names in a text, where `name` is the part of the first one already read, in reverse. -/
def namesFrom (name : List Char) : List Char → List String
  | [] => if name.isEmpty then [] else [.ofList name.reverse]
  | '/' :: text =>
    if name.isEmpty then namesFrom [] text else .ofList name.reverse :: namesFrom [] text
  | c :: text => namesFrom (c :: name) text

/-- The path that a text stands for. -/
def ofString (text : String) : Path :=
  ⟨text.toList.head? = some '/', namesFrom [] text.toList, text.toList.getLast? = some '/'⟩

/-- Whether a path has neither a name nor a slash. -/
def isEmpty (path : Path) : Bool := ! path.absolute && path.names.isEmpty

/-- Whether a name is one that an entry of a directory can have. -/
def isProper (name : String) : Bool := name ≠ "." && name ≠ ".."

/-- The names that lead away from where they are met. -/
def steps (path : Path) : List String := path.names.filter (· ≠ ".")

/-- A path as text, and a name below it. -/
def join (path name : String) : String :=
  if path.toList.getLast?.getD '/' = '/' then path ++ name else path ++ "/" ++ name

example : (ofString "/a//./b/").steps = ["a", "b"] := by decide +kernel
example : (ofString "").isEmpty = true := by decide +kernel
example : join "a" "b" = "a/b" ∧ join "a/" "b" = "a/b" ∧ join "" "b" = "b" := by decide +kernel

end Path

end Supergraph
