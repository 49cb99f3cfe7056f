import TripleStore.Text.Ascii

/-!
# Paths

A path is a text whose parts stand between slashes.  Empty parts and single dots say nothing, and
two dots take back the part before them.
-/

namespace TripleStore.Path

/-- A part that stays where one is. -/
def isIdle (part : Text) : Bool := part.isEmpty || part == ("." : Text)

/-- A part that goes back. -/
def isBack (part : Text) : Bool := part == (".." : Text)

/-- All that stands between slashes. -/
def parts (path : Text) : List Text := Text.splitOn Ascii.slash path

/-- Whether a path begins at the root. -/
def isAbsolute (path : Text) : Bool := path.head? == some Ascii.slash

/-- The parts of a path that say something, where two dots take back the part before them unless
there is none. -/
def essential (path : Text) : List Text :=
  ((parts path).foldl (fun (acc : List Text) part =>
    if isIdle part then acc
    else if isBack part then
      match acc with
      | last :: rest => if isBack last then part :: acc else rest
      | [] => [part]
    else part :: acc) []).reverse

/-- A path inside a directory, without superfluous parts. -/
def join (directory path : Text) : Text := Text.join "/" (essential (directory ++ "/" ++ path))

/-- The beginnings of a path up to each of its parts, the whole path last. -/
def beginnings (path : Text) : List Text :=
  (List.range (parts path).length).map fun n => Text.join "/" ((parts path).take (n + 1))

end TripleStore.Path
