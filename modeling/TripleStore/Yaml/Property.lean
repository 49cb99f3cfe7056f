import TripleStore.Yaml.Cursor

/-!
# Names, tags and directives

An anchor names a node, an alias stands for the node of a name, and a tag says what sort of node it
is.  A tag is an abbreviation: its handle stands for the beginning of the full tag.  Directives at
the beginning of a document tell the version of YAML and what handles stand for.
-/

namespace TripleStore.Yaml

/-- A tag as it is written; a full tag has an empty handle. -/
structure ShortTag where
  handle : Text
  suffix : Text
  deriving DecidableEq, Repr

/-- A directive. -/
inductive Directive
  | version (major minor : Nat)
  | tag (handle start : Text)
  deriving DecidableEq, Repr

namespace Scan

/-! ### Anchors and aliases -/

/-- A character that may follow a name directly. -/
def endsName (c : Nat) : Bool :=
  isGap c || c == 0x3F || c == 0x3A || c == 0x2C || c == 0x5D || c == 0x7D || c == 0x25 || c == 0x40
    || c == 0x60

/-- The name behind the indicator of an anchor or an alias. -/
def anchorName : Scan Text := do
  skip
  let name ← run isNameCharacter
  if name.isEmpty || !endsName (← peek 0) then failure
  return textOf name

/-! ### Tags -/

/-- A character that may occur in a tag. -/
def isTagCharacter (c : Nat) : Bool :=
  isNameCharacter c || (ascii? c).any ((";/?:@&=+$,.!~*'()[]%" : Text).contains ·)

/-- The byte behind a percent sign. -/
def escapedByte : Scan UInt8 := do
  need 3
  let here ← get
  match here.rest with
  | 0x25 :: a :: b :: _ =>
    match (ascii? a).bind Ascii.hexValue?, (ascii? b).bind Ascii.hexValue? with
    | some high, some low =>
      skipMany 3
      return (high * 16 + low).toUInt8
    | _, _ => failure
  | _ => failure

/-- The later bytes of a character, each behind a percent sign. -/
def escapedBytes : (count : Nat) → Scan Text
  | 0 => return []
  | count + 1 => do
    let b ← escapedByte
    if !Ascii.isContinuation b then failure
    return b :: (← escapedBytes count)

/-- Goes on with the characters of a tag. -/
def tagCharacters : (fuel : Nat) → Text → Scan Text
  | 0, tag => return tag
  | fuel + 1, tag => do
    need 1
    let c ← peek 0
    if c == 0x25 then
      let first ← escapedByte
      match Source.announced first with
      | none => failure
      | some (width, _) => tagCharacters fuel (tag ++ first :: (← escapedBytes (width - 1)))
    else if isTagCharacter c then
      skip
      tagCharacters fuel (tag ++ encodeScalar c)
    else return tag

/-- The characters of a tag, of which there must be one. -/
def fullTag : Scan Text := do
  let before := (← get).index
  let tag ← tagCharacters ((← size) + 1) []
  if (← get).index = before then failure
  return tag

/-- Exclamation marks with a name between them; the second mark may be missing. -/
def tagHandle : Scan Text := do
  need 1
  if (← peek 0) != 0x21 then failure
  skip
  let name ← run isNameCharacter
  if (← peek 0) == 0x21 then
    skip
    return "!" ++ textOf name ++ "!"
  else return "!" ++ textOf name

/-- Whether a handle has its second mark. -/
def isClosedHandle (handle : Text) : Bool := 1 < handle.length && handle.getLast? == some 0x21

/-- A tag.  A single mark is a tag of its own. -/
def shortTag : Scan ShortTag := do
  need 2
  let tag ← if (← peek 1) == 0x3C then do
      skipMany 2
      let suffix ← fullTag
      if (← peek 0) != 0x3E then failure
      skip
      pure ⟨[], suffix⟩
    else do
      let handle ← tagHandle
      if isClosedHandle handle then pure ⟨handle, ← fullTag⟩
      else
        let suffix ← tagCharacters ((← size) + 1) (handle.drop 1)
        pure (if suffix.isEmpty then ⟨[], handle⟩ else ⟨"!", suffix⟩)
  need 1
  if !isGap (← peek 0) then failure
  return tag

/-! ### Directives -/

/-- A number of one or two digits. -/
def versionNumber : Scan Nat := do
  let digits ← run isDigit
  if digits.isEmpty || 2 < digits.length then failure
  return digits.foldl (fun n c => n * 10 + (c - 0x30)) 0

/-- What follows the name of a directive for the version. -/
def versionDirective : Scan Directive := do
  let _ ← run isBlank
  let major ← versionNumber
  if (← peek 0) != 0x2E then failure
  skip
  return .version major (← versionNumber)

/-- What follows the name of a directive for a handle. -/
def tagDirective : Scan Directive := do
  let _ ← run isBlank
  let handle ← tagHandle
  if handle ≠ ("!" : Text) && !isClosedHandle handle then failure
  need 1
  if !isBlank (← peek 0) then failure
  let _ ← run isBlank
  let start ← fullTag
  if !isGap (← peek 0) then failure
  return .tag handle start

/-- A directive with the rest of its line. -/
def directive : Scan Directive := do
  skip
  let name := textOf (← run isNameCharacter)
  if name.isEmpty || !isGap (← peek 0) then failure
  let d ← if name = ("YAML" : Text) then versionDirective
    else if name = ("TAG" : Text) then tagDirective
    else failure
  emptyLine
  return d

end Scan

end TripleStore.Yaml
