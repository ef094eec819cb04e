import TrackedSections.Yaml.Graph
import TrackedSections.Yaml.Lexer
import TrackedSections.Yaml.Source

/-!
# From tokens to nodes

The reader follows the grammar: each nonterminal takes its tokens from the lexer and adds its node to
the graph. A node with an anchor is known by it as soon as it begins. No two nodes have the same
anchor.
-/

namespace TrackedSections.Yaml

/-- What the reader of nodes holds: the lexer, the nodes with anchors so far, and all nodes so far. -/
structure NodeReader where
  lexer : Lexer
  anchors : List (Text × NodeId)
  graph : Graph

/-- A step of the reader. -/
abbrev Reading := StateT NodeReader (Except Fault)

namespace Reading

/-- The next token. -/
def peek : Reading (Option Token) := do
  let s ← get
  let (token, lexer) ← s.lexer.next
  set { s with lexer }
  pure token

/-- Drops the next token. -/
def drop : Reading Unit := modify fun s => { s with lexer := s.lexer.take }

/-- Takes a token that must come next. -/
def expect (token : Token) : Reading Unit := do
  if (← peek) = some token then drop else throw .malformed

/-- Whether one of some tokens comes next. -/
def isNext (tokens : List Token) : Reading Bool := do
  match ← peek with
  | some token => pure (tokens.contains token)
  | none => pure false

/-- Adds a node, with an anchor or without. -/
def add (anchor : Option Text) (node : Node) : Reading NodeId :=
  modifyGet fun s =>
    let id := s.graph.size
    let anchors := match anchor with
      | none => s.anchors
      | some name => (name, id) :: s.anchors
    (id, { s with graph := s.graph.add node, anchors })

/-- Sets what a node consists of. -/
def fill (id : NodeId) (content : NodeContent) : Reading Unit :=
  modify fun s => { s with graph := s.graph.set id { s.graph.node id with content } }

/-- The node with an anchor. -/
def named (name : Text) : Reading NodeId := do
  match (← get).anchors.lookup name with
  | some id => pure id
  | none => throw .malformed

/-- Makes sure that an anchor is new. -/
def requireNew (anchor : Option Text) : Reading Unit := do
  match anchor with
  | none => pure ()
  | some name => if ((← get).anchors.lookup name).isSome then throw .malformed

end Reading

open Reading

/-- Takes the anchor and the tag before a node, in either order. -/
def readProperties : Reading (Option Text × Option (Option Text × Text)) := do
  match ← peek with
  | some (.anchor name) =>
    drop
    match ← peek with
    | some (.tag handle rest) => drop; pure (some name, some (handle, rest))
    | _ => pure (some name, none)
  | some (.tag handle rest) =>
    drop
    match ← peek with
    | some (.anchor name) => drop; pure (some name, some (handle, rest))
    | _ => pure (none, some (handle, rest))
  | _ => pure (none, none)

/-- The tag that a handle and the text after it stand for. -/
def fullTag (handles : List (Text × Text)) : Option Text × Text → Except Fault Text
  | (none, rest) => .ok rest
  | (some handle, rest) =>
    match handles.lookup handle with
    | none => .error .malformed
    | some start => .ok (start ++ rest)

/-- The tag of a scalar, given the one that is written before it. -/
def scalarTag (written : Option Text) (content : Text) (isPlain : Bool) : Text :=
  match written with
  | none => if isPlain then tagOfPlain content else commonTag "str"
  | some tag => if tag = ['!'] then tagOfPlain content else tag

/-- The tag of a collection, given the one that is written before it. -/
def collectionTag (written : Option Text) (kind : String) : Text :=
  match written with
  | none => commonTag kind
  | some tag => if tag = ['!'] then commonTag kind else tag

mutual

/-- Reads a node. Block collections begin only where `block` is set, and a block sequence without
indentation of its own only where `indentless` is. -/
def readNode (handles : List (Text × Text)) (block indentless : Bool) :
    (fuel : Nat) → Reading NodeId
  | 0 => throw .malformed
  | fuel + 1 => do
    match ← peek with
    | some (.alias name) =>
      drop
      named name
    | _ =>
      let (anchor, property) ← readProperties
      let written ← match property with
        | none => pure none
        | some property => (fullTag handles property).map some
      let token ← peek
      requireNew anchor
      let sequenceOf (items : Reading (List NodeId)) : Reading NodeId := do
        let id ← add anchor ⟨collectionTag written "seq", .sequence []⟩
        fill id (.sequence (← items))
        pure id
      let mappingOf (entries : Reading (List (NodeId × NodeId))) : Reading NodeId := do
        let id ← add anchor ⟨collectionTag written "map", .mapping []⟩
        fill id (.mapping (← entries))
        pure id
      let nothing : Reading NodeId :=
        if anchor.isSome || written.isSome then add anchor ⟨scalarTag written [] true, .scalar []⟩
        else throw .malformed
      match token with
      | some .blockEntry => if indentless then sequenceOf (readIndentless handles fuel) else nothing
      | some (.scalar content isPlain) =>
        drop
        add anchor ⟨scalarTag written content isPlain, .scalar content⟩
      | some .flowSequenceStart => drop; sequenceOf (readFlowSequence handles true fuel)
      | some .flowMappingStart => drop; mappingOf (readFlowMapping handles true fuel)
      | some .blockSequenceStart =>
        if block then drop; sequenceOf (readBlockSequence handles fuel) else nothing
      | some .blockMappingStart =>
        if block then drop; mappingOf (readBlockMapping handles fuel) else nothing
      | _ => nothing

/-- Reads the items of a block sequence and its end. -/
def readBlockSequence (handles : List (Text × Text)) : (fuel : Nat) → Reading (List NodeId)
  | 0 => throw .malformed
  | fuel + 1 => do
    if ← isNext [.blockEntry] then
      drop
      let item ←
        if ← isNext [.blockEntry, .blockEnd] then add none .empty
        else readNode handles true false fuel
      pure (item :: (← readBlockSequence handles fuel))
    else
      expect .blockEnd
      pure []

/-- Reads the items of a sequence in a mapping of the same indentation. -/
def readIndentless (handles : List (Text × Text)) : (fuel : Nat) → Reading (List NodeId)
  | 0 => throw .malformed
  | fuel + 1 => do
    if ← isNext [.blockEntry] then
      drop
      let item ←
        if ← isNext [.blockEntry, .key, .value, .blockEnd] then add none .empty
        else readNode handles true false fuel
      pure (item :: (← readIndentless handles fuel))
    else pure []

/-- Reads the entries of a block mapping and its end. -/
def readBlockMapping (handles : List (Text × Text)) : (fuel : Nat) → Reading (List (NodeId × NodeId))
  | 0 => throw .malformed
  | fuel + 1 => do
    if ← isNext [.key] then
      drop
      let key ←
        if ← isNext [.key, .value, .blockEnd] then add none .empty
        else readNode handles true true fuel
      let value ←
        if ← isNext [.value] then do
          drop
          if ← isNext [.key, .value, .blockEnd] then add none .empty
          else readNode handles true true fuel
        else add none .empty
      pure ((key, value) :: (← readBlockMapping handles fuel))
    else
      expect .blockEnd
      pure []

/-- Reads the items of a flow sequence and its end. An item may be a single entry of a mapping. -/
def readFlowSequence (handles : List (Text × Text)) (isFirst : Bool) :
    (fuel : Nat) → Reading (List NodeId)
  | 0 => throw .malformed
  | fuel + 1 => do
    if ← isNext [.flowSequenceEnd] then drop; pure []
    else
      if !isFirst then expect .flowEntry
      if ← isNext [.key] then
        drop
        let item ← add none ⟨commonTag "map", .mapping []⟩
        let key ←
          if ← isNext [.value, .flowEntry, .flowSequenceEnd] then add none .empty
          else readNode handles false false fuel
        let value ←
          if ← isNext [.value] then do
            drop
            if ← isNext [.flowEntry, .flowSequenceEnd] then add none .empty
            else readNode handles false false fuel
          else add none .empty
        fill item (.mapping [(key, value)])
        pure (item :: (← readFlowSequence handles false fuel))
      else if ← isNext [.flowSequenceEnd] then drop; pure []
      else
        let item ← readNode handles false false fuel
        pure (item :: (← readFlowSequence handles false fuel))

/-- Reads the entries of a flow mapping and its end. -/
def readFlowMapping (handles : List (Text × Text)) (isFirst : Bool) :
    (fuel : Nat) → Reading (List (NodeId × NodeId))
  | 0 => throw .malformed
  | fuel + 1 => do
    if ← isNext [.flowMappingEnd] then drop; pure []
    else
      if !isFirst then expect .flowEntry
      if ← isNext [.key] then
        drop
        let key ←
          if ← isNext [.value, .flowEntry, .flowMappingEnd] then add none .empty
          else readNode handles false false fuel
        let value ←
          if ← isNext [.value] then do
            drop
            if ← isNext [.flowEntry, .flowMappingEnd] then add none .empty
            else readNode handles false false fuel
          else add none .empty
        pure ((key, value) :: (← readFlowMapping handles false fuel))
      else if ← isNext [.flowMappingEnd] then drop; pure []
      else
        let key ← readNode handles false false fuel
        let value ← add none .empty
        pure ((key, value) :: (← readFlowMapping handles false fuel))

end

/-- The tag handles that every document has. -/
def defaultHandles : List (Text × Text) := [(['!'], ['!']), (['!', '!'], tagStart)]

/-- Takes the directives before a document. There is at most one version, of major number 1, and at
most one tag for each handle. -/
def readDirectives : (fuel : Nat) → (hasVersion : Bool) → List (Text × Text) →
    Reading (List (Text × Text))
  | 0, _, handles => pure handles
  | fuel + 1, hasVersion, handles => do
    match ← peek with
    | some (.directive (.version major)) =>
      if hasVersion ∨ major ≠ 1 then throw .malformed
      else
        drop
        readDirectives fuel true handles
    | some (.directive (.tag handle start)) =>
      if (handles.lookup handle).isSome then throw .malformed
      else
        drop
        readDirectives fuel hasVersion ((handle, start) :: handles)
    | some (.directive .reserved) =>
      drop
      readDirectives fuel hasVersion handles
    | _ => pure handles

/-- Whether a directive comes next. -/
def isDirectiveNext : Reading Bool := do
  match ← peek with
  | some (.directive _) => pure true
  | _ => pure false

/-- Drops the marks of the end of a document, at most `fuel` of them. -/
def dropDocumentEnds : (fuel : Nat) → Reading Unit
  | 0 => pure ()
  | fuel + 1 => do
    if ← isNext [.documentEnd] then
      drop
      dropDocumentEnds fuel

/-- Reads the only document of a stream. There is none in an empty stream. -/
def readDocument (fuel : Nat) : Reading (Option NodeId) := do
  if (← peek).isNone then pure none
  else
    let isMarked := (← isDirectiveNext) || (← isNext [.documentStart])
    let root ←
      if isMarked then do
        let handles ← readDirectives fuel false []
        expect .documentStart
        let isEmpty := (← peek).isNone || (← isDirectiveNext) ||
          (← isNext [.documentStart, .documentEnd])
        if isEmpty then add none .empty
        else readNode (handles ++ defaultHandles) true false fuel
      else readNode defaultHandles true false fuel
    dropDocumentEnds fuel
    if (← peek).isNone then pure (some root)
    else
      let _ ← readDirectives fuel false []
      throw .malformed

/-- The graph of a document and the number of its root, if the stream has a document. -/
def Graph.read (source : Source) : Except Fault (Option NodeId × Graph) := do
  let lexer := Lexer.start source.text source.stop
  let (root, s) ← (readDocument (8 * source.text.length + 16)).run ⟨lexer, [], .empty⟩
  pure (root, s.graph)

end TrackedSections.Yaml
