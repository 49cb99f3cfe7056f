import TripleStore.Yaml.Meaning
import TripleStore.Yaml.Node

/-!
# The fields of maps

A map gives values to fields by name.  No key may be written twice.  The key `<<` takes over what
another map, or each map of a list, gives to fields that have no value yet; no map may take over
itself.

* `Document.fields?` are the values that a map gives to some fields.
* `Document.text?` and `Document.integer?` are values as a text and as an integer.
-/

namespace TripleStore.Yaml

namespace Node

/-- What makes two keys the same: the sort of node and its text or name. -/
def identity : Node → Nat × Text
  | .scalar _ _ t => (0, t)
  | .alias _ name _ => (1, name)
  | .list _ => (2, [])
  | .map _ => (3, [])

/-- Whether a key takes over another map. -/
def isMerge : Node → Bool
  | .scalar none plain t => plain && t == ("<<" : Text)
  | .scalar (some tag) _ t => t == ("<<" : Text) && Meaning.shortened tag == ("!!merge" : Text)
  | _ => false

/-- Whether a node is a map. -/
def isMap : Node → Bool
  | .map _ => true
  | _ => false

end Node

namespace Document

/-- The node that an alias stands for; other nodes stand for themselves. -/
def follow (d : Document) : Node → Node
  | .alias _ _ anchor => (d.anchored.lookup anchor).getD .absent
  | n => n

/-- What a node means that has to be a scalar. -/
def meaning? (d : Document) (n : Node) : Option Meaning :=
  match d.follow n with
  | .scalar tag plain t => Meaning.ofScalar? tag plain t
  | _ => none

/-- The text of a node that has to be a scalar; it may stand for nothing. -/
def text? (d : Document) (n : Node) : Option (Option Text) :=
  match d.follow n with
  | .scalar tag plain t => (Meaning.ofScalar? tag plain t).map fun
    | .nothing => none
    | .text u => some u
    | _ => some t
  | _ => none

/-- The integer of a node that has to be a scalar; it may stand for nothing. -/
def integer? (d : Document) (n : Node) : Option (Option Int) :=
  (d.meaning? n).bind fun
    | .nothing => some none
    | m => m.integer?.map some

/-- A node that is a value, with the aliases that lead to it. -/
structure Value where
  node : Node
  aliases : List Nat := []

/-- Values of fields. -/
abbrev Fields := List (Text × Value)

/-- The value that an alias stands for; other values stand for themselves.  No alias may lead to
itself. -/
def enter? (d : Document) (v : Value) : Option Value :=
  match v.node with
  | .alias number name anchor =>
    if v.aliases.contains number then none
    else some ⟨d.follow (.alias number name anchor), number :: v.aliases⟩
  | _ => some v

/-- What was found in a map. -/
structure Finding where
  fields : Fields := []
  /-- The names that no longer get a value, if the map is taken over by another. -/
  taken : Option (List Text) := none
  /-- The names of all keys. -/
  names : List Text := []
  /-- What is taken over. -/
  merged : Option Node := none

/-- The finding with one more entry, of which only known fields matter. -/
def addEntry (d : Document) (known : List Text) (aliases : List Nat) (f : Finding)
    (e : Node × Node) : Option Finding :=
  if e.1.isMerge then some { f with merged := some e.2 }
  else do
    match ← d.text? e.1 with
    | none => some f
    | some name =>
      if (f.taken.getD []).contains name then some f
      else
        let f := { f with taken := f.taken.map (name :: ·), names := name :: f.names }
        if !known.contains name then some f
        else if (f.fields.map Prod.fst).contains name then none
        else some { f with fields := f.fields ++ [(name, ⟨e.2, aliases⟩)] }

/-- Whether no key is written twice. -/
def distinctKeys (entries : List (Node × Node)) : Bool :=
  decide (entries.map fun e => e.1.identity).Nodup

/-- The maps that a value takes over: itself or the items of a list. -/
def mergedMaps? (d : Document) (v : Value) : Option (List Value) :=
  match v.node with
  | .list items => items.mapM fun item => (d.enter? ⟨item, v.aliases⟩).filter (·.node.isMap)
  | _ => ((d.enter? v).filter (·.node.isMap)).map ([·])

/-- The values that a map gives to known fields, and the names that no longer get one if it is taken
over by another map. -/
def fieldsFrom? (d : Document) (known : List Text) : (fuel : Nat) →
    (taken : Option (List Text)) → Value → Option (Fields × List Text)
  | fuel + 1, taken, ⟨.map entries, aliases⟩ => do
    if !distinctKeys entries then none
    let f ← entries.foldlM (d.addEntry known aliases) { taken }
    let start := (f.fields, f.taken.getD f.names)
    match f.merged with
    | none => return start
    | some n =>
      (← d.mergedMaps? ⟨n, aliases⟩).foldlM (fun (acc : Fields × List Text) m => do
        let (more, taken) ← d.fieldsFrom? known fuel (some acc.2) m
        return (acc.1 ++ more, taken)) start
  | _, _, _ => none

/-- The values that a map gives to known fields.  What stands for nothing gives none, and all else
is no map. -/
def fields? (d : Document) (known : List Text) (v : Value) : Option Fields := do
  let v ← d.enter? v
  match v.node with
  | .scalar tag plain t =>
    if Meaning.ofScalar? tag plain t = some .nothing then some [] else none
  | _ => (d.fieldsFrom? known ((d.aliases + 1) * (d.size + 1)) none v).map Prod.fst

end Document

end TripleStore.Yaml
