import IndexAudit.Yaml.Token

/-!
The nodes that the tokens of a document make up, before tags and aliases are looked up.

Each reader takes a bound on its steps, which the number of tokens always allows.
-/

namespace IndexAudit

/-- What stands in front of a node. -/
structure YamlProperties where
  anchor : Option (List Char)
  tag : Option (List Char)
deriving Repr

/-- A node of a document. -/
inductive YamlNode where
  | alias (name : List Char)
  | scalar (properties : YamlProperties) (text : List Char) (plain : Bool)
  | sequence (properties : YamlProperties) (items : List YamlNode)
  | mapping (properties : YamlProperties) (entries : List (YamlNode × YamlNode))
deriving Repr

namespace YamlProperties

/-- Nothing in front of a node. -/
def none : YamlProperties := ⟨.none, .none⟩

end YamlProperties

namespace YamlNode

/-- The handles of tags that are declared, with what they expand to. -/
abbrev Handles := List (List Char × List Char)

/-- A node that is not written out. -/
def empty : YamlNode := .scalar .none [] true

/-- The text of a tag, if its handle is declared. -/
def expandTag? (handles : Handles) (handle ending : List Char) : Option (List Char) :=
  if handle.isEmpty then some ending else (handles.lookup handle).map (· ++ ending)

/-- The anchor and the tag in front of a node, in either order, and the tokens behind them. -/
def readProperties? (handles : Handles) (tokens : List YamlToken) :
    Option (YamlProperties × List YamlToken) :=
  match tokens with
  | .anchor name :: .tag handle ending :: rest => do
    some (⟨some name, some (← expandTag? handles handle ending)⟩, rest)
  | .tag handle ending :: .anchor name :: rest => do
    some (⟨some name, some (← expandTag? handles handle ending)⟩, rest)
  | .anchor name :: rest => some (⟨some name, none⟩, rest)
  | .tag handle ending :: rest => do
    some (⟨none, some (← expandTag? handles handle ending)⟩, rest)
  | _ => some (.none, tokens)

/-- A scalar under its properties; the tag that is only a mark leaves it untagged. -/
def ofScalar (properties : YamlProperties) (text : List Char) (plain : Bool) : YamlNode :=
  let tag := properties.tag.filter (· != ['!'])
  .scalar { properties with tag := tag } text plain

/-- Whether a token ends the item of a block collection that it could be the node of. -/
def endsBlockItem (indentless : Bool) : List YamlToken → Bool
  | .blockEnd :: _ => true
  | .blockEntry :: _ => true
  | .key :: _ => indentless
  | .value :: _ => indentless
  | _ => false

/-- Whether a token stands where a key or value of a block mapping is left out. -/
def endsBlockPart : List YamlToken → Bool
  | .key :: _ => true
  | .value :: _ => true
  | .blockEnd :: _ => true
  | _ => false

/-- Whether a token stands where a key or value inside a flow collection is left out. -/
def endsFlowPart (closing : YamlToken) (keyed : Bool) : List YamlToken → Bool
  | token :: _ => token == closing || token == .flowEntry || (keyed && token == .value)
  | [] => false

mutual

/--
A node and the tokens behind it.

`block` allows block collections, and `indentless` a sequence that is not indented.
-/
def read? (handles : Handles) (block indentless : Bool) (tokens : List YamlToken) :
    Nat → Option (YamlNode × List YamlToken)
  | 0 => none
  | steps + 1 =>
    match tokens with
    | .alias name :: rest => some (.alias name, rest)
    | _ => do
      let (properties, behind) ← readProperties? handles tokens
      match behind with
      | .scalar text plain :: rest => some (ofScalar properties text plain, rest)
      | .flowSequenceStart :: rest => do
        let (items, after) ← readFlowItems? handles true rest steps
        some (.sequence properties items, after)
      | .flowMappingStart :: rest => do
        let (entries, after) ← readFlowEntries? handles true rest steps
        some (.mapping properties entries, after)
      -- The items of a sequence that is not indented begin without a mark for it.
      | .blockEntry :: _ =>
        if indentless then do
          let (items, after) ← readBlockItems? handles true behind steps
          some (.sequence properties items, after)
        else leftOut? properties behind
      | .blockSequenceStart :: rest =>
        if block then do
          let (items, after) ← readBlockItems? handles false rest steps
          some (.sequence properties items, after)
        else leftOut? properties behind
      | .blockMappingStart :: rest =>
        if block then do
          let (entries, after) ← readBlockEntries? handles rest steps
          some (.mapping properties entries, after)
        else leftOut? properties behind
      | _ => leftOut? properties behind

/-- A node of which only the properties are there. -/
def leftOut? (properties : YamlProperties) (tokens : List YamlToken) :
    Option (YamlNode × List YamlToken) :=
  if properties.anchor.isSome || properties.tag.isSome then
    some (.scalar properties [] true, tokens)
  else none

/-- The items of a block sequence; one that is not indented ends without a mark of its own. -/
def readBlockItems? (handles : Handles) (indentless : Bool) (tokens : List YamlToken) :
    Nat → Option (List YamlNode × List YamlToken)
  | 0 => none
  | steps + 1 =>
    match tokens with
    | .blockEntry :: rest => do
      let (item, after) ←
        if endsBlockItem indentless rest then some (empty, rest)
        else read? handles true false rest steps
      let (items, behind) ← readBlockItems? handles indentless after steps
      some (item :: items, behind)
    -- The mark ends the collection around a sequence that is not indented, so it is left there.
    | .blockEnd :: rest => some ([], if indentless then tokens else rest)
    | _ => if indentless then some ([], tokens) else none

/-- The entries of a block mapping. -/
def readBlockEntries? (handles : Handles) (tokens : List YamlToken) :
    Nat → Option (List (YamlNode × YamlNode) × List YamlToken)
  | 0 => none
  | steps + 1 =>
    match tokens with
    | .blockEnd :: rest => some ([], rest)
    | .key :: rest => do
      let (key, after) ←
        if endsBlockPart rest then some (empty, rest) else read? handles true true rest steps
      let (value, behind) ← readBlockValue? handles after steps
      let (entries, ending) ← readBlockEntries? handles behind steps
      some ((key, value) :: entries, ending)
    | _ => none

/-- The value of an entry of a block mapping, which may be left out. -/
def readBlockValue? (handles : Handles) (tokens : List YamlToken) :
    Nat → Option (YamlNode × List YamlToken)
  | 0 => none
  | steps + 1 =>
    match tokens with
    | .value :: rest =>
      if endsBlockPart rest then some (empty, rest) else read? handles true true rest steps
    | _ => some (empty, tokens)

/-- The items of a flow sequence. -/
def readFlowItems? (handles : Handles) (first : Bool) (tokens : List YamlToken) :
    Nat → Option (List YamlNode × List YamlToken)
  | 0 => none
  | steps + 1 => do
    if tokens.head? = some .flowSequenceEnd then some ([], tokens.drop 1)
    else
      let start ←
        if first then some tokens
        else if tokens.head? = some .flowEntry then some (tokens.drop 1) else none
      match start with
      -- A comma may stand behind the last item.
      | .flowSequenceEnd :: rest => some ([], rest)
      | .key :: rest => do
        let (item, after) ← readFlowPair? handles rest steps
        let (items, behind) ← readFlowItems? handles false after steps
        some (item :: items, behind)
      | _ => do
        let (item, after) ← read? handles false false start steps
        let (items, behind) ← readFlowItems? handles false after steps
        some (item :: items, behind)

/-- The mapping of a single entry that a pair inside a flow sequence stands for. -/
def readFlowPair? (handles : Handles) (tokens : List YamlToken) :
    Nat → Option (YamlNode × List YamlToken)
  | 0 => none
  | steps + 1 => do
    -- Where the key is left out, the token behind the question mark is lost.
    let (key, after) ←
      if endsFlowPart .flowSequenceEnd true tokens then some (empty, tokens.drop 1)
      else read? handles false false tokens steps
    let (value, behind) ←
      match after with
      | .value :: rest =>
        if endsFlowPart .flowSequenceEnd false rest then some (empty, rest)
        else read? handles false false rest steps
      | _ => some (empty, after)
    some (.mapping .none [(key, value)], behind)

/-- The entries of a flow mapping. -/
def readFlowEntries? (handles : Handles) (first : Bool) (tokens : List YamlToken) :
    Nat → Option (List (YamlNode × YamlNode) × List YamlToken)
  | 0 => none
  | steps + 1 => do
    if tokens.head? = some .flowMappingEnd then some ([], tokens.drop 1)
    else
      let start ←
        if first then some tokens
        else if tokens.head? = some .flowEntry then some (tokens.drop 1) else none
      match start with
      -- A comma may stand behind the last entry.
      | .flowMappingEnd :: rest => some ([], rest)
      | .key :: rest => do
        let (key, after) ←
          if endsFlowPart .flowMappingEnd true rest then some (empty, rest)
          else read? handles false false rest steps
        let (value, behind) ← readFlowValue? handles after steps
        let (entries, ending) ← readFlowEntries? handles false behind steps
        some ((key, value) :: entries, ending)
      | _ => do
        let (key, after) ← read? handles false false start steps
        let (entries, ending) ← readFlowEntries? handles false after steps
        some ((key, empty) :: entries, ending)

/-- The value of an entry of a flow mapping, which may be left out. -/
def readFlowValue? (handles : Handles) (tokens : List YamlToken) :
    Nat → Option (YamlNode × List YamlToken)
  | 0 => none
  | steps + 1 =>
    match tokens with
    | .value :: rest =>
      if endsFlowPart .flowMappingEnd false rest then some (empty, rest)
      else read? handles false false rest steps
    | _ => some (empty, tokens)

end

/-- The directives in front of a document, and the tokens behind them. -/
def readDirectives? (versioned : Bool) (handles : Handles) :
    List YamlToken → Option (Handles × List YamlToken)
  | .version major minor :: rest =>
    if versioned || major ≠ 1 || (minor ≠ 1 && minor ≠ 2) then none
    else readDirectives? true handles rest
  | .tagHandle handle expansion :: rest =>
    if (handles.lookup handle).isSome then none
    else readDirectives? versioned ((handle, expansion) :: handles) rest
  | tokens => some (handles, tokens)

/-- The handles that need no declaration. -/
def defaultHandles : Handles :=
  [(['!'], ['!']), (['!', '!'], "tag:yaml.org,2002:".toList)]

/-- The tokens behind any marks that end a document. -/
def skipEnds : List YamlToken → List YamlToken
  | .documentEnd :: rest => skipEnds rest
  | tokens => tokens

/-- Whether a document that is opened by a mark has no node. -/
def endsDocument : List YamlToken → Bool
  | token :: _ =>
    match token with
    | .version .. => true
    | .tagHandle .. => true
    | .documentStart => true
    | .documentEnd => true
    | .streamEnd => true
    | _ => false
  | [] => true

/-- The node of the only document that tokens make up; an empty text has an empty one. -/
def ofTokens? (tokens : List YamlToken) : Option YamlNode := do
  let (declared, behind) ← readDirectives? false [] tokens
  let handles := declared ++ defaultHandles
  let directed := behind.length < tokens.length
  -- Behind directives the mark of the start of a document may not be missing.
  let (node, after) ←
    match behind with
    | .documentStart :: rest =>
      if endsDocument rest then some (empty, rest)
      else read? handles true false rest (3 * tokens.length + 3)
    | .streamEnd :: _ => if directed then none else some (empty, behind)
    | _ => if directed then none else read? handles true false behind (3 * tokens.length + 3)
  if skipEnds after = [.streamEnd] then some node else none

end YamlNode

end IndexAudit
