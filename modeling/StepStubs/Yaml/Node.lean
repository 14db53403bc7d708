/-
The document of a YAML text.

A document is one node: a scalar, a sequence or a mapping, with an anchor or without, or an
alias for a node with an anchor.  The tokens are read from left to right by functions that
call each other; what is left out counts as an empty plain scalar.  Every call but a few
takes a token, so the number of tokens bounds the depth of the calls.
-/
import StepStubs.Yaml.Scanner

namespace StepStubs
namespace Yaml

inductive Node where
  | scalar (isPlain : Bool) (text : Text)
  | sequence (elements : List Node)
  | mapping (members : List (Node × Node))
  | anchored (number : Nat) (node : Node)
  | aliasFor (number : Nat)
  deriving Repr

namespace Node

/-- What stands where something is left out. -/
def empty : Node := scalar true []

/-! ## Anchors -/

mutual

/-- The nodes with anchors, with their numbers, in the order of their starts. -/
def anchors : Node → List (Nat × Node)
  | scalar _ _ => []
  | sequence elements => elementAnchors elements
  | mapping members => memberAnchors members
  | anchored number node => (number, node) :: anchors node
  | aliasFor _ => []

def elementAnchors : List Node → List (Nat × Node)
  | [] => []
  | node :: nodes => anchors node ++ elementAnchors nodes

def memberAnchors : List (Node × Node) → List (Nat × Node)
  | [] => []
  | (k, v) :: members => anchors k ++ (anchors v ++ memberAnchors members)

end

/-- The last node whose anchor has the number. -/
def anchored? (root : Node) (number : Nat) : Option Node :=
  ((root.anchors.filter fun a => a.1 = number).getLast?).map Prod.snd

/-- The node itself, or the node of the document `root` that it is an alias for, without
its anchor. -/
def target (node root : Node) : Node :=
  match node with
  | anchored _ bare => bare
  | aliasFor number => (root.anchored? number).getD empty
  | bare => bare

end Node

/-! ## Reading tokens -/

/-- Where a node is read. -/
inductive Place where
  | block
  /-- In a block mapping, where the entries of a sequence need no indentation. -/
  | mapping
  | flow
  deriving Repr, DecidableEq

/-- Is the first token one of the given ones? -/
def startsWith (ks : List Token) (ts : List Token) : Bool :=
  match ts with
  | k :: _ => ks.contains k
  | [] => false

/-- The anchor and the tag's handle in front of a node, and the tokens after them. -/
def properties : List Token → Option Nat × Option Text × List Token
  | .anchor n :: .tag h :: ts => (some n, some h, ts)
  | .anchor n :: ts => (some n, none, ts)
  | .tag h :: .anchor n :: ts => (some n, some h, ts)
  | .tag h :: ts => (none, some h, ts)
  | ts => (none, none, ts)

/-- The node with an anchor, if there is one. -/
def withAnchor (anchor : Option Nat) (node : Node) : Node :=
  match anchor with
  | some n => .anchored n node
  | none => node

mutual

def readNode (handles : List Text) : (depth : Nat) → Place → List Token →
    Except Error (Node × List Token)
  | 0, _, _ => .error .missingEnd
  | _ + 1, _, .aliasFor n :: ts => .ok (.aliasFor n, ts)
  | depth + 1, place, ts => do
    let (anchor, tag, rest) := properties ts
    if tag.any fun h => !handles.contains h then .error .undefinedHandle
    else
      let (node, after) ← readContent handles depth place (anchor.isSome || tag.isSome) rest
      return (withAnchor anchor node, after)

/-- Reads what follows the anchor and the tag of a node.  After one of these the node may
be left out. -/
def readContent (handles : List Text) : (depth : Nat) → Place → (mayBeEmpty : Bool) →
    List Token → Except Error (Node × List Token)
  | 0, _, _, _ => .error .missingEnd
  | depth + 1, place, mayBeEmpty, ts =>
    match ts, place with
    | .scalar isPlain text :: rest, _ => .ok (.scalar isPlain text, rest)
    | .flowSequence :: rest, _ => do
      let (elements, after) ← readFlowElements handles depth true rest
      return (.sequence elements, after)
    | .flowMapping :: rest, _ => do
      let (members, after) ← readFlowMembers handles depth true rest
      return (.mapping members, after)
    | .entry :: _, .mapping => do
      let (elements, after) ← readEntries handles depth false ts
      return (.sequence elements, after)
    | .blockSequence :: rest, .block => do
      let (elements, after) ← readEntries handles depth true rest
      return (.sequence elements, after)
    | .blockSequence :: rest, .mapping => do
      let (elements, after) ← readEntries handles depth true rest
      return (.sequence elements, after)
    | .blockMapping :: rest, .block => do
      let (members, after) ← readMembers handles depth rest
      return (.mapping members, after)
    | .blockMapping :: rest, .mapping => do
      let (members, after) ← readMembers handles depth rest
      return (.mapping members, after)
    | _, _ => if mayBeEmpty then .ok (.empty, ts) else .error .missingContent

/-- Reads a node, unless one of the tokens `ends` shows that it is left out. -/
def readOptional (handles : List Text) : (depth : Nat) → Place → (ends : List Token) →
    List Token → Except Error (Node × List Token)
  | 0, _, _, _ => .error .missingEnd
  | depth + 1, place, ends, ts =>
    if startsWith ends ts then .ok (.empty, ts) else readNode handles depth place ts

def readValue (handles : List Text) : (depth : Nat) → Place → (ends : List Token) →
    List Token → Except Error (Node × List Token)
  | 0, _, _, _ => .error .missingEnd
  | depth + 1, place, ends, .value :: ts => readOptional handles depth place ends ts
  | _ + 1, _, _, ts => .ok (.empty, ts)

/-- Reads the entries of a block sequence.  If it is indented the indentation has to end. -/
def readEntries (handles : List Text) : (depth : Nat) → (indented : Bool) →
    List Token → Except Error (List Node × List Token)
  | 0, _, _ => .error .missingEnd
  | depth + 1, indented, .entry :: ts => do
    let ends := if indented then [.entry, .blockEnd] else [.entry, .key, .value, .blockEnd]
    let (node, rest) ← readOptional handles depth .block ends ts
    let (nodes, after) ← readEntries handles depth indented rest
    return (node :: nodes, after)
  | _ + 1, true, .blockEnd :: ts => .ok ([], ts)
  | _ + 1, true, _ => .error .missingEnd
  | _ + 1, false, ts => .ok ([], ts)

def readMembers (handles : List Text) : (depth : Nat) → List Token →
    Except Error (List (Node × Node) × List Token)
  | 0, _ => .error .missingEnd
  | depth + 1, .key :: ts => do
    let ends := [.key, .value, .blockEnd]
    let (k, rest) ← readOptional handles depth .mapping ends ts
    let (v, rest) ← readValue handles depth .mapping ends rest
    let (members, after) ← readMembers handles depth rest
    return ((k, v) :: members, after)
  | _ + 1, .blockEnd :: ts => .ok ([], ts)
  | _ + 1, _ => .error .missingEnd

/-- Reads the elements of a flow sequence.  All but the first follow a comma. -/
def readFlowElements (handles : List Text) : (depth : Nat) → (isFirst : Bool) →
    List Token → Except Error (List Node × List Token)
  | 0, _, _ => .error .missingEnd
  | _ + 1, _, .flowSequenceEnd :: ts => .ok ([], ts)
  | depth + 1, false, .comma :: ts => readFlowElement handles depth ts
  | _ + 1, false, _ => .error .missingEnd
  | depth + 1, true, ts => readFlowElement handles depth ts

/-- Reads an element of a flow sequence and the elements after it.  An element with a key is
a mapping with one member. -/
def readFlowElement (handles : List Text) : (depth : Nat) → List Token →
    Except Error (List Node × List Token)
  | 0, _ => .error .missingEnd
  | _ + 1, .flowSequenceEnd :: ts => .ok ([], ts)
  | depth + 1, .key :: ts => do
    let ends := [.value, .comma, .flowSequenceEnd]
    let (k, rest) ←
      if startsWith ends ts then Except.ok (.empty, ts.drop 1)
      else readNode handles depth .flow ts
    let (v, rest) ← readValue handles depth .flow [.comma, .flowSequenceEnd] rest
    let (nodes, after) ← readFlowElements handles depth false rest
    return (.mapping [(k, v)] :: nodes, after)
  | depth + 1, ts => do
    let (node, rest) ← readNode handles depth .flow ts
    let (nodes, after) ← readFlowElements handles depth false rest
    return (node :: nodes, after)

/-- Reads the members of a flow mapping.  All but the first follow a comma. -/
def readFlowMembers (handles : List Text) : (depth : Nat) → (isFirst : Bool) →
    List Token → Except Error (List (Node × Node) × List Token)
  | 0, _, _ => .error .missingEnd
  | _ + 1, _, .flowMappingEnd :: ts => .ok ([], ts)
  | depth + 1, false, .comma :: ts => readFlowMember handles depth ts
  | _ + 1, false, _ => .error .missingEnd
  | depth + 1, true, ts => readFlowMember handles depth ts

/-- Reads a member of a flow mapping and the members after it. -/
def readFlowMember (handles : List Text) : (depth : Nat) → List Token →
    Except Error (List (Node × Node) × List Token)
  | 0, _ => .error .missingEnd
  | _ + 1, .flowMappingEnd :: ts => .ok ([], ts)
  | depth + 1, .key :: ts => do
    let (k, rest) ← readOptional handles depth .flow [.value, .comma, .flowMappingEnd] ts
    let (v, rest) ← readValue handles depth .flow [.comma, .flowMappingEnd] rest
    let (members, after) ← readFlowMembers handles depth false rest
    return ((k, v) :: members, after)
  | depth + 1, ts => do
    let (k, rest) ← readNode handles depth .flow ts
    let (members, after) ← readFlowMembers handles depth false rest
    return ((k, .empty) :: members, after)

end

/-! ## Reading a document -/

/-- The handles that are defined in every document. -/
def standardHandles : List Text := [['!'], ['!', '!']]

/-- The handles that the directives at the front of the tokens define, and the tokens after
the directives.  `versioned` says whether a version was given before. -/
def readDirectives : (versioned : Bool) → (handles : List Text) → List Token →
    Except Error (List Text × List Token)
  | versioned, handles, .version major minor :: ts =>
    if versioned then .error .repeatedDirective
    else if major = 1 ∧ (minor = 1 ∨ minor = 2) then readDirectives true handles ts
    else .error .badVersion
  | versioned, handles, .handle name :: ts =>
    if handles.contains name then .error .repeatedDirective
    else readDirectives versioned (name :: handles) ts
  | _, handles, ts => .ok (handles, ts)

/-- Reads the node of a document, which may be left out after its start. -/
def readRoot (handles : List Text) (ts : List Token) : Except Error (Node × List Token) :=
  match ts with
  | [] => .ok (.empty, ts)
  | .documentStart :: _ => .ok (.empty, ts)
  | .documentEnd :: _ => .ok (.empty, ts)
  | .version _ _ :: _ => .ok (.empty, ts)
  | .handle _ :: _ => .ok (.empty, ts)
  | _ => readNode (standardHandles ++ handles) (6 * ts.length + 6) .block ts

/-- Reads a document with its start, if it has one. -/
def readDocument (ts : List Token) : Except Error (Node × List Token) := do
  let (handles, rest) ← readDirectives false [] ts
  match rest with
  | .documentStart :: content => readRoot handles content
  | _ =>
    if rest.length < ts.length then .error .missingDocumentStart
    else if startsWith [.documentEnd] rest then .error .missingContent
    else readRoot handles rest

/-- The node of the only document of a text, or none if the text holds no document. -/
def document? (t : Text) : Except Error (Option Node) := do
  match ← tokens t with
  | [] => return none
  | ts =>
    let (root, after) ← readDocument ts
    if (after.dropWhile fun k => k = .documentEnd).isEmpty then return some root
    else .error .severalDocuments

end Yaml
end StepStubs
