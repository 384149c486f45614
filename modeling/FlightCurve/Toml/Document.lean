import FlightCurve.Toml.Scalar

/-!
TOML documents: keys, arrays, inline tables, and the statements that build up the root table. A
table that a header or a dotted key has opened is not opened again by a header, and a value that
was written out is not extended.
-/

namespace FlightCurve.Toml

/-- A key with dots, by its parts. -/
abbrev Key := List String

/-! Tables -/

def Table.replace (key : String) (value : Value) : Table → Table
  | [] => []
  | entry :: rest =>
      if entry.1 = key then (key, value) :: rest else entry :: Table.replace key value rest

/-- Changes the table at a path, and makes the tables on the way that are not there. A path may lead
through the last table of an array where that is allowed. -/
def Table.modify (throughArrays : Bool) (change : Table → Option Table) :
    Key → Table → Option Table
  | [], t => change t
  | part :: path, t =>
      match t.lookup part with
      | none => (Table.modify throughArrays change path []).map fun inner =>
          t ++ [(part, .table inner)]
      | some (.table inner) => (Table.modify throughArrays change path inner).map fun inner =>
          t.replace part (.table inner)
      | some (.array items) =>
          match throughArrays, items.getLast? with
          | true, some (.table last) =>
              (Table.modify throughArrays change path last).map fun last =>
                t.replace part (.array (items.dropLast ++ [.table last]))
          | _, _ => none
      | some _ => none

/-- Adds an entry whose key is new. -/
def Table.add? (key : String) (value : Value) (t : Table) : Option Table :=
  if (t.lookup key).isSome then none else some (t ++ [(key, value)])

/-- Adds an empty table to the array at a key. -/
def Table.addItem? (key : String) (t : Table) : Option Table :=
  match t.lookup key with
  | none => some (t ++ [(key, .array [.table []])])
  | some (.array items) => some (t.replace key (.array (items ++ [.table []])))
  | some _ => none

/-- Whether a value is written out as a whole, so that nothing is added to it later. -/
def Value.isContainer : Value → Bool
  | .array _ => true
  | .table _ => true
  | _ => false

/-- Whether one of the keys begins the given one. -/
def covers (keys : List Key) (key : Key) : Bool := keys.any (·.isPrefixOf key)

/-- The failure of a step as a fault of the text. -/
def orMalformed {α : Type} : Option α → Except Fault α
  | none => .error .malformed
  | some a => .ok a

/-! Keys -/

def isBareKeyChar (c : Char) : Bool := c.isAlphanum || c = '-' || c = '_'

/-- One part of a key: bare, or a string on one line. -/
def keyPart : List Char → Except Fault (String × List Char)
  | '"' :: cs => (basicString cs).map fun (text, rest) => (String.ofList text, rest)
  | '\'' :: cs => (literalString cs).map fun (text, rest) => (String.ofList text, rest)
  | cs =>
      let part := cs.takeWhile isBareKeyChar
      if part.isEmpty then .error .malformed
      else .ok (String.ofList part, cs.dropWhile isBareKeyChar)

/-- A key and the blanks after it. -/
def key (cs : List Char) : Except Fault (Key × List Char) :=
  match keyPart cs with
  | .error fault => .error fault
  | .ok (part, rest) =>
      match skipBlanks rest with
      | '.' :: more =>
          if (skipBlanks more).length < cs.length then
            (key (skipBlanks more)).map fun (parts, rest) => (part :: parts, rest)
          else .error .malformed
      | rest => .ok ([part], rest)
termination_by cs.length

/-! Values -/

/-- A reader of values off the front of a text. -/
abbrev ValueReader := List Char → Except Fault (Value × List Char)

/-- The items of an array after its opening bracket and the filler there. -/
def items (value : ValueReader) (cs : List Char) : Except Fault (List Value × List Char) := do
  let (item, rest) ← value cs
  match ← skipFiller false rest with
  | ']' :: after => .ok ([item], after)
  | ',' :: after =>
      match ← skipFiller false after with
      | ']' :: rest => .ok ([item], rest)
      | next =>
          if next.length < cs.length then
            let (others, rest) ← items value next
            .ok (item :: others, rest)
          else .error .malformed
  | _ => .error .malformed
termination_by cs.length

def array (value : ValueReader) (cs : List Char) : Except Fault (Value × List Char) := do
  match ← skipFiller false cs with
  | ']' :: rest => .ok (.array [], rest)
  | cs =>
      let (items, rest) ← items value cs
      .ok (.array items, rest)

/-- A key, an equals sign and a value. -/
def pair (value : ValueReader) (cs : List Char) : Except Fault ((Key × Value) × List Char) := do
  match ← key cs with
  | (parts, '=' :: rest) =>
      let (v, rest) ← value (skipBlanks rest)
      .ok ((parts, v), rest)
  | _ => .error .malformed

/-- The entries of an inline table, of which some are read. Those in `closed` are complete. -/
def entries (value : ValueReader) (t : Table) (closed : List Key) (cs : List Char) :
    Except Fault (Table × List Char) := do
  let ((parts, v), rest) ← pair value cs
  if covers closed parts then .error .malformed
  else
    let t ← orMalformed (t.modify false (Table.add? (parts.getLast?.getD "") v) parts.dropLast)
    match skipBlanks rest with
    | '\x7d' :: rest => .ok (t, rest)
    | ',' :: rest =>
        if (skipBlanks rest).length < cs.length then
          entries value t (if v.isContainer then parts :: closed else closed) (skipBlanks rest)
        else .error .malformed
    | _ => .error .malformed
termination_by cs.length

def inlineTable (value : ValueReader) (cs : List Char) : Except Fault (Value × List Char) :=
  match skipBlanks cs with
  | '\x7d' :: rest => .ok (.table [], rest)
  | cs => (entries value [] [] cs).map fun (t, rest) => (.table t, rest)

/-- A value whose nesting fits into the room: an array takes up two of it, an inline table three,
and any other value has to find three. -/
def valueWithin : Nat → ValueReader
  | room + 3, cs =>
      match cs with
      | '[' :: rest => array (valueWithin (room + 1)) rest
      | '\x7b' :: rest => inlineTable (valueWithin room) rest
      | cs => scalar cs
  | _, _ => .error .tooDeep

/-- The room for a value. -/
def maxRoom : Nat := 985

def value : ValueReader := valueWithin maxRoom

/-! Statements -/

/-- A document as far as it is read. `opened` are the tables that no header may open again, those in
`pending` from the next header on; what lies in `closed` is complete. -/
structure Document where
  root : Table := []
  header : Key := []
  opened : List Key := []
  pending : List Key := []
  closed : List Key := []

namespace Document

/-- The proper beginnings of a key, the shortest of them first. -/
def properPrefixes (parts : Key) : List Key :=
  (List.range (parts.length - 1)).map fun n => parts.take (n + 1)

/-- Adds a key and its value to the table of the last header. -/
def assign (d : Document) (parts : Key) (v : Value) : Except Fault Document :=
  let path := d.header ++ parts.dropLast
  let dotted := (properPrefixes parts).map (d.header ++ ·)
  if dotted.any d.opened.contains || covers d.closed path then .error .malformed
  else do
    let root ← orMalformed (d.root.modify true (Table.add? (parts.getLast?.getD "") v) path)
    .ok { d with
      root
      pending := dotted ++ d.pending
      closed := if v.isContainer then (d.header ++ parts) :: d.closed else d.closed }

/-- Puts the tables of dotted keys among the opened ones. -/
def settle (d : Document) : Document := { d with opened := d.pending ++ d.opened, pending := [] }

/-- Opens the table of a header. -/
def openTable (d : Document) (parts : Key) : Except Fault Document :=
  if d.opened.contains parts || covers d.closed parts then .error .malformed
  else do
    let root ← orMalformed (d.root.modify true some parts)
    .ok { d with root, header := parts, opened := parts :: d.opened }

/-- Opens a new table at the end of an array. What was said of the table before it is void. -/
def openItem (d : Document) (parts : Key) : Except Fault Document :=
  if covers d.closed parts then .error .malformed
  else do
    let root ← orMalformed
      (d.root.modify true (Table.addItem? (parts.getLast?.getD "")) parts.dropLast)
    .ok { d with
      root
      header := parts
      opened := parts :: d.opened.filter fun key => !parts.isPrefixOf key
      closed := d.closed.filter fun key => !parts.isPrefixOf key }

/-- A statement: a header, or a key with its value. -/
def statement (d : Document) (cs : List Char) : Except Fault (Document × List Char) :=
  match cs with
  | '[' :: '[' :: rest => do
      match ← key (skipBlanks rest) with
      | (parts, ']' :: ']' :: rest) => do
          let d ← d.settle.openItem parts
          .ok (d, rest)
      | _ => .error .malformed
  | '[' :: rest => do
      match ← key (skipBlanks rest) with
      | (parts, ']' :: rest) => do
          let d ← d.settle.openTable parts
          .ok (d, rest)
      | _ => .error .malformed
  | cs => do
      let ((parts, v), rest) ← pair value cs
      let d ← d.assign parts v
      .ok (d, rest)

/-- Reads the lines of a document: on each a statement or none, and a comment or none. -/
def readLines (d : Document) (cs : List Char) : Except Fault Document := do
  let line := skipBlanks cs
  let isEmptyLine := match line with
    | c :: _ => c = '\n' || c = '#'
    | [] => true
  let (d, rest) ← if isEmptyLine then .ok (d, line) else d.statement line
  match ← skipComment (skipBlanks rest) with
  | [] => .ok d
  | '\n' :: rest => if rest.length < cs.length then d.readLines rest else .error .malformed
  | _ => .error .malformed
termination_by cs.length

end Document

/-- The root table of a document. -/
def parse (cs : List Char) : Except Fault Table := do
  let d ← Document.readLines { root := [] } cs
  .ok d.root

end FlightCurve.Toml
