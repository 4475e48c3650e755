import Harvest.Yaml.Token

/-!
The tree of a YAML document: scalars, sequences, mappings, and references to anchors. A text holds
one document at most.
-/
namespace Harvest.Yaml

/-- A scalar. Its tag, in octets, is there if it is written and says more than that there is none.
-/
structure Scalar where
  text : String
  writing : Writing := .plain
  tag : Option (List Nat) := none
deriving DecidableEq, Repr

/-- What stands where nothing is written. -/
def Scalar.missing : Scalar := { text := "" }

inductive Node where
  | scalar (s : Scalar)
  | sequence (items : List Node)
  | mapping (entries : List (Node × Node))
  | reference (number : Nat)

/-- The node of a document, and the scalars that references lead to; nothing stands for a sequence
or a mapping. -/
structure Content where
  root : Option Node
  anchored : List (Nat × Option Scalar) := []

namespace Content

/-- The scalar that a node is or leads to. -/
def scalar? (d : Content) : Node → Option Scalar
  | .scalar s => some s
  | .reference number => (d.anchored.lookup number).join
  | _ => none

end Content

/-- Tokens that are left, what the handles of tags stand for, and the anchors met. -/
structure Composing where
  tokens : List Token
  handles : List (String × List Nat) := []
  /-- The numbers of anchors; one that is given again gets another number. -/
  numbers : List (String × Nat) := []
  anchored : List (Nat × Option Scalar) := []

abbrev Compose := StateT Composing Option

namespace Compose

def peek : Compose Token := do (← get).tokens.head?

def pass : Compose Unit := modify fun c => { c with tokens := c.tokens.tail }

/-- Passes the next token if it is `t`, and says so. -/
def accept (t : Token) : Compose Bool := do
  if (← peek) = t then
    pass
    return true
  else return false

def expect (t : Token) : Compose Unit := do
  if !(← accept t) then failure

/-- Whether the next token is one of some. -/
def meets (ts : List Token) : Compose Bool := return ts.contains (← peek)

/-- Gives what stands at an anchor the number of names known before. -/
def note (name : String) (s : Option Scalar) : Compose Unit :=
  modify fun c =>
    let names := (c.numbers.map Prod.fst).eraseDups
    { c with
      numbers := (name, names.length) :: c.numbers,
      anchored := (names.length, s) :: c.anchored }

def noteAny (anchor : Option String) (s : Option Scalar) : Compose Unit :=
  match anchor with
  | none => return
  | some name => note name s

/-- What tags begin with by their handles, unless directives say otherwise. -/
def usualHandles : List (String × List Nat) :=
  [("!", "!".toUTF8.toList.map UInt8.toNat),
   ("!!", "tag:yaml.org,2002:".toUTF8.toList.map UInt8.toNat)]

/-- The octets of a tag. A tag without handle is written in full. -/
def resolveTag (handle : String) (octets : List Nat) : Compose (List Nat) := do
  if handle.isEmpty then return octets
  else
    let start ← ((← get).handles ++ usualHandles).lookup handle
    return start ++ octets

def anchor? : Compose (Option String) := do
  match ← peek with
  | .anchor name =>
    pass
    return some name
  | _ => return none

def tag? : Compose (Option (List Nat)) := do
  match ← peek with
  | .tag handle octets =>
    pass
    return some (← resolveTag handle octets)
  | _ => return none

/-- An anchor and a tag, in either order. -/
def properties : Compose (Option String × Option (List Nat)) := do
  match ← anchor? with
  | some name => return (some name, ← tag?)
  | none =>
    let tag ← tag?
    return (← anchor?, tag)

/-- A tag that only says that the scalar has none. -/
def emptyTag : List Nat := ['!'.toNat]

def empty : Node := .scalar Scalar.missing

mutual

/-- A node. Block sequences and mappings begin only where `block` says so, and a sequence that is
not indented only behind the key of a mapping. -/
def node (block unindented : Bool) : Nat → Compose Node
  | 0 => failure
  | limit + 1 => do
    match ← peek with
    | .reference name =>
      pass
      return .reference (← (← get).numbers.lookup name)
    | _ =>
      let (anchor, tag) ← properties
      let start ← peek
      match start with
      | .scalar text writing =>
        pass
        let s : Scalar := { text, writing, tag := tag.filter (· != emptyTag) }
        noteAny anchor (some s)
        return .scalar s
      | _ =>
        if unindented && start = .dash then
          noteAny anchor none
          return .sequence (← unindentedItems limit)
        else if start = .openSequence then
          pass
          noteAny anchor none
          if ← accept .closeSequence then return .sequence []
          else return .sequence (← flowItems limit)
        else if start = .openMapping then
          pass
          noteAny anchor none
          if ← accept .closeMapping then return .mapping []
          else return .mapping (← flowEntries limit)
        else if block && start = .blockSequence then
          pass
          noteAny anchor none
          return .sequence (← blockItems limit)
        else if block && start = .blockMapping then
          pass
          noteAny anchor none
          return .mapping (← blockEntries limit)
        else if anchor.isSome || tag.isSome then
          let s : Scalar := { text := "", tag := tag.filter (· != emptyTag) }
          noteAny anchor (some s)
          return .scalar s
        else failure

/-- A node, unless a token follows that can only come after it. -/
def nodeUnless (ends : List Token) (block unindented : Bool) : Nat → Compose Node
  | 0 => failure
  | limit + 1 => do
    if ← meets ends then return empty else node block unindented limit

def blockItems : Nat → Compose (List Node)
  | 0 => failure
  | limit + 1 => do
    if ← accept .blockEnd then return []
    else
      expect .dash
      let first ← nodeUnless [.dash, .blockEnd] true false limit
      return first :: (← blockItems limit)

/-- A sequence as deep as the keys around it, which ends at the next key. -/
def unindentedItems : Nat → Compose (List Node)
  | 0 => failure
  | limit + 1 => do
    if ← accept .dash then
      let first ← nodeUnless [.dash, .key, .value, .blockEnd] true false limit
      return first :: (← unindentedItems limit)
    else return []

def blockEntries : Nat → Compose (List (Node × Node))
  | 0 => failure
  | limit + 1 => do
    if ← accept .blockEnd then return []
    else
      expect .key
      let key ← nodeUnless [.key, .value, .blockEnd] true true limit
      let value ←
        if ← accept .value then nodeUnless [.key, .value, .blockEnd] true true limit
        else pure empty
      return (key, value) :: (← blockEntries limit)

/-- The items of a sequence in brackets, up to its end. An item with a key is a mapping. A missing
key takes the next token with it. -/
def flowItems : Nat → Compose (List Node)
  | 0 => failure
  | limit + 1 => do
    let item ←
      if ← accept .key then do
        let key ←
          if ← meets [.value, .comma, .closeSequence] then
            pass
            pure empty
          else node false false limit
        let value ←
          if ← accept .value then nodeUnless [.comma, .closeSequence] false false limit
          else pure empty
        pure (.mapping [(key, value)])
      else node false false limit
    if ← accept .closeSequence then return [item]
    else
      expect .comma
      if ← accept .closeSequence then return [item]
      else return item :: (← flowItems limit)

/-- The entries of a mapping in brackets, up to its end. -/
def flowEntries : Nat → Compose (List (Node × Node))
  | 0 => failure
  | limit + 1 => do
    let entry ←
      if ← accept .key then do
        let key ← nodeUnless [.value, .comma, .closeMapping] false false limit
        let value ←
          if ← accept .value then nodeUnless [.comma, .closeMapping] false false limit
          else pure empty
        pure (key, value)
      else do
        let key ← node false false limit
        pure (key, empty)
    if ← accept .closeMapping then return [entry]
    else
      expect .comma
      if ← accept .closeMapping then return [entry]
      else return entry :: (← flowEntries limit)

end

/-- The directives before a document. There is one version at most, which is 1.1 or 1.2, and one
meaning of each handle. Gives whether there are any. -/
def directives (versioned : Bool) : Nat → Compose Bool
  | 0 => failure
  | limit + 1 => do
    match ← peek with
    | .directive (.version major minor) =>
      if versioned || major != 1 || (minor != 1 && minor != 2) then failure
      else
        pass
        let _ ← directives true limit
        return true
    | .directive (.handle name octets) =>
      if ((← get).handles.lookup name).isSome then failure
      else
        pass
        modify fun c => { c with handles := (name, octets) :: c.handles }
        let _ ← directives versioned limit
        return true
    | _ => return false

def finishDocuments : Nat → Compose Unit
  | 0 => failure
  | limit + 1 => do
    if ← accept .documentEnd then finishDocuments limit else expect .streamEnd

/-- A stream of one document at most. Where the document is marked, it may be empty. -/
def stream (limit : Nat) : Compose (Option Node) := do
  if ← accept .streamEnd then return none
  else
    let directed ← directives false limit
    let marked ← accept .documentStart
    if directed && !marked then failure
    else
      let root ←
        if marked then
          nodeUnless [.documentStart, .documentEnd, .streamEnd] true false limit
        else node true false limit
      finishDocuments limit
      return some root

end Compose

/-- The content of a text, if it can be read and holds no second document. -/
def Content.ofText? (s : String) : Option Content := do
  let tokens ← Token.ofText? s
  let (root, c) ← (Compose.stream (3 * (tokens.length + 1))).run { tokens }
  some { root, anchored := c.anchored }

end Harvest.Yaml
