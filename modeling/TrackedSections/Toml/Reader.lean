import TrackedSections.Toml.Scalar

/-!
# Reading TOML

A document is a list of statements: blank lines, keys with values, and headers that open a table or
add one to an array. `Draft` holds what was read so far. Besides the tables themselves it remembers
which of them can no longer be opened by a header and which can no longer be extended at all.
`Toml.read` gives the table of the whole document.
-/

namespace TrackedSections.Toml

/-! ## Keys and values -/

/-- The characters of a bare key. -/
def isBare (c : Char) : Bool := c.isAlphanum || c = '-' || c = '_'

/-- Reads one part of a key. -/
def readKeyPart (t : Text) : Except Fault (Text × Text) :=
  match t with
  | '\'' :: rest => readLiteral rest
  | '"' :: rest => readQuoted rest
  | _ =>
    let part := t.takeWhile isBare
    if part = [] then .error .malformed else .ok (part, t.dropWhile isBare)

/-- Reads a key of parts with dots between them and drops the spaces after it. At most `fuel` parts
are read. -/
def readKey : (fuel : Nat) → Text → Except Fault (Key × Text)
  | 0, _ => .error .malformed
  | fuel + 1, t => do
    let (part, rest) ← readKeyPart t
    match skipSpaces rest with
    | '.' :: rest =>
      let (parts, rest) ← readKey fuel (skipSpaces rest)
      pure (part :: parts, rest)
    | rest => pure ([part], rest)

/-- Drops a comment, whose characters are no controls, up to the end of its line. -/
def skipComment : Text → Except Fault Text
  | '#' :: rest =>
    let comment := rest.takeWhile (· ≠ '\n')
    if comment.any isForbidden then .error .malformed else .ok (rest.dropWhile (· ≠ '\n'))
  | t => .ok t

/-- Drops blanks, line feeds and at most `fuel` comments between the items of an array. -/
def skipBetweenItems : (fuel : Nat) → Text → Except Fault Text
  | 0, t => .ok t
  | fuel + 1, t =>
    match skipSpaceLines t with
    | '#' :: rest => do
      let rest ← skipComment ('#' :: rest)
      skipBetweenItems fuel rest
    | rest => .ok rest

/-- `updateNest intoArrays f key table` applies `f` to the table behind a key. Missing tables on the
way are made. With `intoArrays` an array on the way stands for its last item. -/
def updateNest (intoArrays : Bool) (f : Table → Except Fault Table) : Key → Table → Except Fault Table
  | [], table => f table
  | name :: key, table =>
    let replace (value : Value) : Table :=
      table.map fun (other, old) => if other = name then (other, value) else (other, old)
    match table.lookup name with
    | none => do
      let inner ← updateNest intoArrays f key []
      pure (table ++ [(name, .table inner)])
    | some (.table inner) => do
      let inner ← updateNest intoArrays f key inner
      pure (replace (.table inner))
    | some (.array items) =>
      match intoArrays, items.getLast? with
      | true, some (.table inner) => do
        let inner ← updateNest intoArrays f key inner
        pure (replace (.array (items.dropLast ++ [.table inner])))
      | _, _ => .error .malformed
    | some _ => .error .malformed

/-- Adds a key that is not there yet. -/
def addEntry (name : Text) (value : Value) (table : Table) : Except Fault Table :=
  if (table.lookup name).isSome then .error .malformed else .ok (table ++ [(name, value)])

/-- `below frozen key` holds when `key` is one of the keys or continues one. -/
def below (frozen : List Key) (key : Key) : Bool := frozen.any fun start => start.isPrefixOf key

/-- Text as a value. -/
def textValue (r : Except Fault (Text × Text)) : Except Fault (Value × Text) :=
  r.map fun (t, rest) => (.text t, rest)

mutual

/-- Reads a value. Arrays and inline tables nest at most as deep as `fuel` allows. -/
def readValue : (fuel : Nat) → Text → Except Fault (Value × Text)
  | 0, _ => .error .malformed
  | fuel + 1, t =>
    match t with
    | '"' :: '"' :: '"' :: rest => textValue (readLongQuoted (dropLineFeed rest))
    | '"' :: rest => textValue (readQuoted rest)
    | '\'' :: '\'' :: '\'' :: rest => textValue (readLongLiteral (dropLineFeed rest))
    | '\'' :: rest => textValue (readLiteral rest)
    | 't' :: 'r' :: 'u' :: 'e' :: rest => .ok (.boolean true, rest)
    | 'f' :: 'a' :: 'l' :: 's' :: 'e' :: rest => .ok (.boolean false, rest)
    | '[' :: rest => do
      match ← skipBetweenItems fuel rest with
      | ']' :: rest => pure (.array [], rest)
      | rest =>
        let (items, rest) ← readItems fuel rest
        pure (.array items, rest)
    | '{' :: rest =>
      match skipSpaces rest with
      | '}' :: rest => .ok (.table [], rest)
      | rest => do
        let (table, rest) ← readInline fuel [] [] rest
        pure (.table table, rest)
    | _ => readPlain t

/-- Reads the items of an array after its opening bracket. -/
def readItems : (fuel : Nat) → Text → Except Fault (List Value × Text)
  | 0, _ => .error .malformed
  | fuel + 1, t => do
    let (item, rest) ← readValue fuel t
    match ← skipBetweenItems fuel rest with
    | ']' :: rest => pure ([item], rest)
    | ',' :: rest =>
      match ← skipBetweenItems fuel rest with
      | ']' :: rest => pure ([item], rest)
      | rest =>
        let (items, rest) ← readItems fuel rest
        pure (item :: items, rest)
    | _ => .error .malformed

/-- Reads the entries of an inline table after its opening brace, on top of the entries `table` of
which those behind the keys `frozen` cannot be extended. -/
def readInline : (fuel : Nat) → List Key → Table → Text → Except Fault (Table × Text)
  | 0, _, _, _ => .error .malformed
  | fuel + 1, frozen, table, t => do
    let (key, rest) ← readKey fuel t
    match rest with
    | '=' :: rest =>
      let (value, rest) ← readValue fuel (skipSpaces rest)
      if below frozen key then .error .malformed
      else
        let table ← updateNest false (addEntry (key.getLastD []) value) key.dropLast table
        match skipSpaces rest with
        | '}' :: rest => pure (table, rest)
        | ',' :: rest =>
          let frozen := if value.isComposite then key :: frozen else frozen
          readInline fuel frozen table (skipSpaces rest)
        | _ => .error .malformed
    | _ => .error .malformed

end

/-! ## Documents -/

/-- A document read in part. `header` is the key of the open table. A table in `closed` cannot be
opened by a header; one in `frozen` cannot be changed, nor can what is below it. The tables in
`pending` are closed at the next header. -/
structure Draft where
  table : Table
  header : Key
  closed : List Key
  frozen : List Key
  pending : List Key

/-- The draft of an empty document. -/
def Draft.empty : Draft := ⟨[], [], [], [], []⟩

/-- `beginningsOf key` lists the proper non-empty beginnings of a key. -/
def beginningsOf (key : Key) : List Key :=
  (List.range (key.length - 1)).map fun n => key.take (n + 1)

/-- The draft after the pending tables are closed. -/
def Draft.settle (d : Draft) : Draft := { d with closed := d.pending ++ d.closed, pending := [] }

/-- The draft after a key with a value. -/
def Draft.assign (d : Draft) (key : Key) (value : Value) : Except Fault Draft := do
  let onTheWay := (beginningsOf key).map (d.header ++ ·)
  let parent := d.header ++ key.dropLast
  if onTheWay.any (d.closed.contains ·) || below d.frozen parent then .error .malformed
  else
    let table ← updateNest true (addEntry (key.getLastD []) value) parent d.table
    let frozen := if value.isComposite then (d.header ++ key) :: d.frozen else d.frozen
    pure { d with table, frozen, pending := onTheWay ++ d.pending }

/-- The draft after a header that opens a table. -/
def Draft.openTable (d : Draft) (key : Key) : Except Fault Draft := do
  if d.closed.contains key || below d.frozen key then .error .malformed
  else
    let table ← updateNest true .ok key d.table
    pure { d with table, header := key, closed := key :: d.closed }

/-- Adds an empty table to the array at a name. -/
def addItem (name : Text) (table : Table) : Except Fault Table :=
  match table.lookup name with
  | none => .ok (table ++ [(name, .array [.table []])])
  | some (.array items) =>
    .ok (table.map fun (other, old) =>
      if other = name then (other, .array (items ++ [.table []])) else (other, old))
  | some _ => .error .malformed

/-- The draft after a header that adds a table to an array. What was said of the tables below the
key was said of the item before. -/
def Draft.openItem (d : Draft) (key : Key) : Except Fault Draft := do
  if below d.frozen key then .error .malformed
  else
    let table ← updateNest true (addItem (key.getLastD [])) key.dropLast d.table
    let closed := key :: d.closed.filter fun other => !key.isPrefixOf other
    let frozen := d.frozen.filter fun other => !key.isPrefixOf other
    pure { d with table, header := key, closed, frozen }

/-- Reads a statement, at most `fuel` characters long, up to the comment or line end after it. -/
def readStatement (fuel : Nat) (d : Draft) (t : Text) : Except Fault (Draft × Text) :=
  match t with
  | '[' :: '[' :: rest => do
    let d := d.settle
    let (key, rest) ← readKey fuel (skipSpaces rest)
    let d ← d.openItem key
    match rest with
    | ']' :: ']' :: rest => pure (d, rest)
    | _ => .error .malformed
  | '[' :: rest => do
    let d := d.settle
    let (key, rest) ← readKey fuel (skipSpaces rest)
    let d ← d.openTable key
    match rest with
    | ']' :: rest => pure (d, rest)
    | _ => .error .malformed
  | '#' :: _ => .ok (d, t)
  | _ => do
    let (key, rest) ← readKey fuel t
    match rest with
    | '=' :: rest =>
      let (value, rest) ← readValue fuel (skipSpaces rest)
      let d ← d.assign key value
      pure (d, rest)
    | _ => .error .malformed

/-- Reads the lines of a document, at most `fuel` of them. -/
def readLines : (fuel : Nat) → Draft → Text → Except Fault Table
  | 0, _, _ => .error .malformed
  | fuel + 1, d, t =>
    match skipSpaces t with
    | [] => .ok d.table
    | '\n' :: rest => readLines fuel d rest
    | t => do
      let (d, rest) ← readStatement (t.length + 1) d t
      match ← skipComment (skipSpaces rest) with
      | [] => pure d.table
      | '\n' :: rest => readLines fuel d rest
      | _ => .error .malformed

/-- `read t` is the table of the document `t`, whose lines end in line feeds. -/
def read (t : Text) : Except Fault Table := readLines (t.length + 1) .empty t

end TrackedSections.Toml
