import TripleStore.Yaml.Token

/-!
# The nodes of a YAML document

A document is a node: a scalar, a list, a map, or an alias for a node that was given a name before.
Only the first document of a file is read; of what follows it no more is looked at than the next
token.

The functions below take tokens from a stream and fail where they make no document.  Their fuel
bounds the depth of the calls; `Document.ofBytes?` gives enough of it.
-/

namespace TripleStore.Yaml

/-- A node of a document. -/
inductive Node
  /-- A scalar with its full tag, if it has one, and whether it is plain. -/
  | scalar (tag : Option Text) (plain : Bool) (text : Text)
  | list (items : List Node)
  | map (entries : List (Node × Node))
  /-- An alias with its own number, for the anchor with a name and a number. -/
  | alias (number : Nat) (name : Text) (anchor : Nat)
  deriving Repr, Inhabited

/-- A document: its node, if there is one, and the nodes that have anchors. -/
structure Document where
  root : Option Node
  /-- The nodes of anchors by their numbers. -/
  anchored : List (Nat × Node)
  /-- The number of aliases. -/
  aliases : Nat
  /-- The number of characters in the file. -/
  size : Nat

namespace Node

/-- What stands for a node that is left out. -/
def absent : Node := .scalar none true []

end Node

/-- The state of reading a document. -/
structure Composition where
  stream : TokenStream
  /-- What the handles of tags stand for. -/
  handles : List (Text × Text) := []
  /-- The number of the latest anchor of each name. -/
  anchors : List (Text × Nat) := []
  anchored : List (Nat × Node) := []
  anchorCount : Nat := 0
  aliasCount : Nat := 0

/-- A step of reading a document. -/
abbrev Composer := StateT Composition Option

namespace Composer

/-- A step of reading tokens. -/
def read {α : Type} (r : Reader α) : Composer α := fun c =>
  (r c.stream).map fun (a, stream) => (a, { c with stream })

/-- The token that is next. -/
def peek : Composer Token := read TokenStream.peek

/-- Passes the next token. -/
def drop : Composer Unit := read TokenStream.drop

/-- Passes the next token and gives the one behind it. -/
def next : Composer Token := do
  drop
  peek

/-! ### Properties of nodes -/

/-- What can be said of a node before it. -/
structure Properties where
  tag : Option ShortTag := none
  anchor : Option Text := none
  deriving DecidableEq, Repr

/-- A tag before a node. -/
def tagBefore : Composer (Option ShortTag) := do
  match ← peek with
  | .tag t =>
    drop
    return some t
  | _ => return none

/-- An anchor before a node. -/
def anchorBefore : Composer (Option Text) := do
  match ← peek with
  | .anchor name =>
    drop
    return some name
  | _ => return none

/-- The properties of a node, in either order. -/
def properties : Composer Properties := do
  match ← anchorBefore with
  | some name => return ⟨← tagBefore, some name⟩
  | none => match ← tagBefore with
    | some t => return ⟨some t, ← anchorBefore⟩
    | none => return {}

/-- The full tag of an abbreviation, whose handle must be known.  A single mark says nothing. -/
def fullTag (t : ShortTag) : Composer (Option Text) := do
  let full ← if t.handle.isEmpty then pure t.suffix
    else match (← get).handles.lookup t.handle with
      | some start => pure (start ++ t.suffix)
      | none => failure
  return if full = ("!" : Text) then none else some full

/-- Gives a name to the node that is read next: its number. -/
def declare (name : Option Text) : Composer (Option Nat) := do
  match name with
  | none => return none
  | some name =>
    let c ← get
    let number := c.anchorCount
    set { c with anchors := (name, number) :: c.anchors, anchorCount := number + 1 }
    return some number

/-- Keeps the node of an anchor. -/
def define (number : Option Nat) (n : Node) : Composer Unit :=
  match number with
  | none => return ()
  | some number => modify fun c => { c with anchored := (number, n) :: c.anchored }

/-- An alias, whose name must be known. -/
def aliasOf (name : Text) : Composer Node := do
  let c ← get
  match c.anchors.lookup name with
  | none => failure
  | some anchor =>
    set { c with aliasCount := c.aliasCount + 1 }
    return .alias c.aliasCount name anchor

/-! ### Nodes -/

/-- Tokens that end an entry of a map outside of brackets. -/
def endsEntry (t : Token) : Bool := t == .key || t == .value || t == .blockEnd

mutual

/-- A node.  Outside of brackets it may be a map or a list made of columns, and behind a key also a
list in the column of the key. -/
def node (outside belowKey : Bool) : (fuel : Nat) → Composer Node
  | 0 => failure
  | fuel + 1 => do
    if let .alias name ← peek then
      drop
      return ← aliasOf name
    let p ← properties
    let tag ← match p.tag with
      | some t => fullTag t
      | none => pure none
    let number ← declare p.anchor
    let n ← match ← peek with
      | .scalar text plain =>
        drop
        pure (.scalar tag plain text)
      | .flowListStart =>
        drop
        .list <$> flowItems true fuel
      | .flowMapStart =>
        drop
        .map <$> flowEntries true fuel
      | .blockEntry =>
        if belowKey then .list <$> openItems fuel
        else if p = {} then failure else pure (.scalar tag true [])
      | .blockListStart =>
        if outside then
          drop
          .list <$> blockItems fuel
        else if p = {} then failure else pure (.scalar tag true [])
      | .blockMapStart =>
        if outside then
          drop
          .map <$> blockEntries fuel
        else if p = {} then failure else pure (.scalar tag true [])
      | _ => if p = {} then failure else pure (.scalar tag true [])
    define number n
    return n

/-- The items of a list made of columns. -/
def blockItems : (fuel : Nat) → Composer (List Node)
  | 0 => failure
  | fuel + 1 => do
    match ← peek with
    | .blockEnd =>
      drop
      return []
    | .blockEntry =>
      let t ← next
      let item ← if t == .blockEntry || t == .blockEnd then pure .absent else node true false fuel
      return item :: (← blockItems fuel)
    | _ => failure

/-- The items of a list in the column of the key it belongs to. -/
def openItems : (fuel : Nat) → Composer (List Node)
  | 0 => failure
  | fuel + 1 => do
    if (← peek) == .blockEntry then
      let t ← next
      let item ← if t == .blockEntry || endsEntry t then pure .absent else node true false fuel
      return item :: (← openItems fuel)
    else return []

/-- The entries of a map made of columns. -/
def blockEntries : (fuel : Nat) → Composer (List (Node × Node))
  | 0 => failure
  | fuel + 1 => do
    match ← peek with
    | .blockEnd =>
      drop
      return []
    | .key =>
      let key ← if endsEntry (← next) then pure .absent else node true true fuel
      let value ← if (← peek) == .value then
          if endsEntry (← next) then pure .absent else node true true fuel
        else pure .absent
      return (key, value) :: (← blockEntries fuel)
    | _ => failure

/-- The items of a list in brackets; behind the first there are commas. -/
def flowItems (first : Bool) : (fuel : Nat) → Composer (List Node)
  | 0 => failure
  | fuel + 1 => do
    if (← peek) != .flowListEnd && !first then
      if (← peek) != .flowEntry then failure
      drop
    match ← peek with
    | .flowListEnd =>
      drop
      return []
    | .key =>
      drop
      let item ← flowPair fuel
      return item :: (← flowItems false fuel)
    | _ =>
      let item ← node false false fuel
      return item :: (← flowItems false fuel)

/-- An item of a list in brackets that is a map with one entry.  Where its key is left out, the
token in its place is passed. -/
def flowPair : (fuel : Nat) → Composer Node
  | 0 => failure
  | fuel + 1 => do
    let t ← peek
    let key ← if t == .value || t == .flowEntry || t == .flowListEnd then do
        drop
        pure .absent
      else node false false fuel
    let value ← if (← peek) == .value then do
        let t ← next
        if t == .flowEntry || t == .flowListEnd then pure .absent else node false false fuel
      else pure .absent
    return .map [(key, value)]

/-- The entries of a map in braces; behind the first there are commas. -/
def flowEntries (first : Bool) : (fuel : Nat) → Composer (List (Node × Node))
  | 0 => failure
  | fuel + 1 => do
    if (← peek) != .flowMapEnd && !first then
      if (← peek) != .flowEntry then failure
      drop
    match ← peek with
    | .flowMapEnd =>
      drop
      return []
    | .key =>
      let t ← next
      let key ← if t == .value || t == .flowEntry || t == .flowMapEnd then pure .absent
        else node false false fuel
      let value ← if (← peek) == .value then do
          let t ← next
          if t == .flowEntry || t == .flowMapEnd then pure .absent else node false false fuel
        else pure .absent
      return (key, value) :: (← flowEntries false fuel)
    | _ =>
      let key ← node false false fuel
      return (key, .absent) :: (← flowEntries false fuel)

end

/-! ### Documents -/

/-- What handles stand for unless a document says otherwise. -/
def defaultHandles : List (Text × Text) := [("!", "!"), ("!!", "tag:yaml.org,2002:")]

/-- The directives before a document.  Neither the version nor a handle may be given twice, and only
one version is known. -/
def directives (versioned : Bool) : (fuel : Nat) → Composer Unit
  | 0 => failure
  | fuel + 1 => do
    match ← peek with
    | .directive (.version major minor) =>
      if versioned || major ≠ 1 || minor ≠ 1 then failure
      drop
      directives true fuel
    | .directive (.tag handle start) =>
      let c ← get
      if (c.handles.lookup handle).isSome then failure
      set { c with handles := c.handles ++ [(handle, start)] }
      drop
      directives versioned fuel
    | _ => modify fun c => { c with handles := c.handles ++ defaultHandles }

/-- Whether a document that has been begun holds nothing before a token. -/
def endsDocument : Token → Bool
  | .directive _ | .documentStart | .documentEnd | .streamEnd => true
  | _ => false

/-- The node of the first document, if there is one.  Of what follows only the next token is
read. -/
def document (fuel : Nat) : Composer (Option Node) := do
  let t ← peek
  if t == .streamEnd then return none
  directives false fuel
  let n ← if endsDocument t && t != .documentEnd then do
      if (← peek) != .documentStart then failure
      if endsDocument (← next) then pure .absent else node true false fuel
    else node true false fuel
  let _ ← peek
  return some n

end Composer

/-- The first document of a file. -/
def Document.ofBytes? (bytes : Text) : Option Document := do
  let source := Source.ofBytes bytes
  let size := source.characters.length
  let (root, c) ← Composer.document (8 * size + 16) { stream := .ofSource source }
  return ⟨root, c.anchored, c.aliasCount, size⟩

end TripleStore.Yaml
