import Qualification.Document.Decoder
import Qualification.Yaml.Token.Lexer

/-! # Trees from tokens

Tokens make up a tree as far as they fit together. Where they do not, the tree is cut, and
nothing behind that place is read. A text that holds a character which no YAML text may hold
is no document at all; any other text gives a tree, as far as it is well formed.
-/

namespace Qualification.Yaml

open Document

/-- The anchors met so far. An anchor names the node behind it. A reference stands for the
    node that bore the name last; while that node is still being read, the reference can only
    be passed over. -/
structure Anchors where
  /-- The number of the anchor that each name had last, the newest first. -/
  names : List (String × Nat)
  /-- The nodes that are read, by the number of their anchor. -/
  nodes : List (Nat × Node)

namespace Anchors

def empty : Anchors :=
  ⟨[], []⟩

/-- Name the node that is read next; gives the number of the anchor. -/
def bind (anchors : Anchors) (name : String) : Nat × Anchors :=
  let number := anchors.names.length
  (number, { anchors with names := (name, number) :: anchors.names })

def close (anchors : Anchors) (number : Option Nat) (node : Node) : Anchors :=
  match number with
  | none => anchors
  | some n => { anchors with nodes := (n, node) :: anchors.nodes }

/-- What a reference to a name stands for. -/
def find? (anchors : Anchors) (name : String) : Option Node :=
  (anchors.names.lookup name).map fun number =>
    (anchors.nodes.lookup number).getD (.damaged .unreadable none)

end Anchors

/-- The place between two tokens of a document. -/
structure Position where
  tokens : List Token
  anchors : Anchors

/-- A node and, if the tokens can be read on behind it, the place behind it. -/
abbrev Reading := Node × Option Position

/-- A place that the tokens cannot be read on from. -/
def stuck : Reading :=
  (.damaged .unreadable (some .unreadable), none)

def emptyScalar : Node :=
  .written ⟨"", .plain, .untagged⟩

namespace Position

/-- The token here, if the text has not broken off. -/
def head? (p : Position) : Option Token :=
  p.tokens.head?

def next (p : Position) : Position :=
  { p with tokens := p.tokens.tail }

def sees (p : Position) (ts : List Token) : Bool :=
  p.head?.any ts.contains

def close (p : Position) (number : Option Nat) (node : Node) : Position :=
  { p with anchors := p.anchors.close number node }

end Position

def sequenceEnd (items : List Node) (p : Position) : Reading :=
  (.sequence none items.reverse none, some p)

def sequenceCut (items : List Node) : Reading :=
  (.sequence none items.reverse (some .unreadable), none)

/-- A sequence whose last item cannot be read on. -/
def sequenceStuck (items : List Node) : Reading :=
  (.sequence none items.reverse none, none)

def mappingEnd (entries : List (Node × Node)) (p : Position) : Reading :=
  (.mapping none entries.reverse none, some p)

def mappingCut (entries : List (Node × Node)) : Reading :=
  (.mapping none entries.reverse (some .unreadable), none)

/-- A mapping whose last entry cannot be read on. -/
def mappingStuck (entries : List (Node × Node)) : Reading :=
  (.mapping none entries.reverse none, none)

/-- What tag handles stand for, in a document without directives. -/
def standardHandles : List (String × String) :=
  [("!", "!"), ("!!", "tag:yaml.org,2002:")]

/-- The form that a tag of the document's own names; the mark alone is a name too. -/
def formOf? (tag : String) : Option String :=
  match tag.toList with
  | ['!'] => some "!"
  | '!' :: name => some (String.ofList name)
  | _ => none

def tagNamed (tag : String) : Tag :=
  match tag with
  | "tag:yaml.org,2002:bool" => .bool
  | "tag:yaml.org,2002:int" => .int
  | "tag:yaml.org,2002:float" => .float
  | "tag:yaml.org,2002:null" => .null
  | _ => ((formOf? tag).map Tag.named).getD .text

/-- The tag of a token, written out; a handle that stands for nothing gives none. -/
def tagOf? (handles : List (String × String)) (handle rest : String) : Option String :=
  if handle.isEmpty then some rest
  else (handles.lookup handle).map fun expansion => expansion ++ rest

/-- What stands before a node. -/
structure Properties where
  anchor : Option Nat
  /-- The tag, written out. -/
  tag : Option String

def Properties.isEmpty (properties : Properties) : Bool :=
  properties.anchor.isNone && properties.tag.isNone

/-- Read an anchor and a tag, each at most once and in any order. -/
def readProperties (handles : List (String × String)) :
    Nat → Properties → Position → Option (Properties × Position)
  | 0, found, p => some (found, p)
  | fuel + 1, found, p =>
      match p.head? with
      | some (.anchor name) =>
          if found.anchor.isSome then some (found, p)
          else
            let (number, anchors) := p.anchors.bind name
            readProperties handles fuel { found with anchor := some number }
              ⟨p.next.tokens, anchors⟩
      | some (.tag handle rest) =>
          if found.tag.isSome then some (found, p)
          else
            match tagOf? handles handle rest with
            | some tag => readProperties handles fuel { found with tag := some tag } p.next
            | none => none
      | _ => some (found, p)

/-- Tie a node that is read to its anchor. -/
def Properties.bind (properties : Properties) : Reading → Reading
  | (node, some p) => (node, some (p.close properties.anchor node))
  | (node, none) => (node, none)

/-- A scalar behind properties; the mark alone is no tag of a scalar. -/
def Properties.scalar (properties : Properties) (text : String) (style : Style) : Node :=
  let tag := properties.tag.filter (· != "!")
  .written ⟨text, style, (tag.map tagNamed).getD .untagged⟩

/-- The empty scalar of properties with nothing behind them. -/
def Properties.nothing (properties : Properties) : Node :=
  .written ⟨"", .plain, (properties.tag.map tagNamed).getD .untagged⟩

/-- A sequence or a mapping behind properties. -/
def Properties.collection (properties : Properties) : Reading → Reading
  | (.sequence _ items cut, p) => (.sequence (properties.tag.bind formOf?) items cut, p)
  | (.mapping _ entries cut, p) => (.mapping (properties.tag.bind formOf?) entries cut, p)
  | other => other

mutual

/-- The node that begins here. Every step takes a token or leads to one that does within a
    few steps, so a multiple of the number of tokens is enough fuel. -/
def readNode (handles : List (String × String)) :
    Nat → (inBlock indentless : Bool) → Position → Reading
  | 0, _, _, _ => stuck
  | fuel + 1, inBlock, indentless, p =>
      match p.head? with
      | some (.alias name) =>
          match p.anchors.find? name with
          | some node => (node, some p.next)
          | none => stuck
      | _ =>
          match readProperties handles 2 ⟨none, none⟩ p with
          | none => stuck
          | some (properties, p) =>
              properties.bind <|
                match p.head? with
                | some (.scalar text style) => (properties.scalar text style, some p.next)
                | some .flowSequence =>
                    properties.collection (readFlowItems handles fuel [] p.next)
                | some .flowMapping =>
                    properties.collection (readFlowEntries handles fuel [] p.next)
                | some .blockEntry =>
                    if indentless then
                      properties.collection (readIndentlessItems handles fuel [] p)
                    else if properties.isEmpty then stuck
                    else (properties.nothing, some p)
                | some .blockSequence =>
                    if inBlock then
                      properties.collection (readBlockItems handles fuel [] p.next)
                    else if properties.isEmpty then stuck
                    else (properties.nothing, some p)
                | some .blockMapping =>
                    if inBlock then
                      properties.collection (readBlockEntries handles fuel [] p.next)
                    else if properties.isEmpty then stuck
                    else (properties.nothing, some p)
                | some _ =>
                    if properties.isEmpty then stuck
                    else (properties.nothing, some p)
                | none => stuck

/-- The node here, or an empty scalar before one of the given tokens. -/
def readNodeBefore (handles : List (String × String)) (ends : List Token) :
    Nat → (inBlock indentless : Bool) → Position → Reading
  | 0, _, _, _ => stuck
  | fuel + 1, inBlock, indentless, p =>
      if p.head?.isNone then stuck
      else if p.sees ends then (emptyScalar, some p)
      else readNode handles fuel inBlock indentless p

/-- The items of a sequence that indentation holds open, those so far in reverse. -/
def readBlockItems (handles : List (String × String)) :
    Nat → List Node → Position → Reading
  | 0, items, _ => sequenceCut items
  | fuel + 1, items, p =>
      match p.head? with
      | some .blockEntry =>
          match readNodeBefore handles [.blockEntry, .blockEnd] fuel true false p.next with
          | (node, some p) => readBlockItems handles fuel (node :: items) p
          | (node, none) => sequenceStuck (node :: items)
      | some .blockEnd => sequenceEnd items p.next
      | _ => sequenceCut items

/-- The items of a sequence that stands no deeper than its key, those so far in reverse. -/
def readIndentlessItems (handles : List (String × String)) :
    Nat → List Node → Position → Reading
  | 0, items, _ => sequenceCut items
  | fuel + 1, items, p =>
      match p.head? with
      | some .blockEntry =>
          match readNodeBefore handles [.blockEntry, .key, .value, .blockEnd] fuel true false
              p.next with
          | (node, some p) => readIndentlessItems handles fuel (node :: items) p
          | (node, none) => sequenceStuck (node :: items)
      | some _ => sequenceEnd items p
      | none => sequenceCut items

/-- The entries of a mapping that indentation holds open, those so far in reverse. -/
def readBlockEntries (handles : List (String × String)) :
    Nat → List (Node × Node) → Position → Reading
  | 0, entries, _ => mappingCut entries
  | fuel + 1, entries, p =>
      match p.head? with
      | some .key =>
          match readNodeBefore handles [.key, .value, .blockEnd] fuel true true p.next with
          | (key, some p) =>
              match readBlockValue handles fuel p with
              | (node, some p) => readBlockEntries handles fuel ((key, node) :: entries) p
              | (node, none) => mappingStuck ((key, node) :: entries)
          | (key, none) => mappingStuck ((key, key) :: entries)
      | some .blockEnd => mappingEnd entries p.next
      | _ => mappingCut entries

/-- The value of an entry that indentation holds open. -/
def readBlockValue (handles : List (String × String)) : Nat → Position → Reading
  | 0, _ => stuck
  | fuel + 1, p =>
      match p.head? with
      | some .value =>
          readNodeBefore handles [.key, .value, .blockEnd] fuel true true p.next
      | some _ => (emptyScalar, some p)
      | none => stuck

/-- The items of a sequence in brackets, those so far in reverse. -/
def readFlowItems (handles : List (String × String)) : Nat → List Node → Position → Reading
  | 0, items, _ => sequenceCut items
  | fuel + 1, items, p =>
      match p.head? with
      | some .flowSequenceEnd => sequenceEnd items p.next
      | some t =>
          if !items.isEmpty && t != .flowEntry then sequenceCut items
          else
            let p := if items.isEmpty then p else p.next
            match p.head? with
            | some .flowSequenceEnd => sequenceEnd items p.next
            | some .key =>
                match readFlowPair handles fuel p.next with
                | (node, some p) => readFlowItems handles fuel (node :: items) p
                | (node, none) => sequenceStuck (node :: items)
            | some _ =>
                match readNode handles fuel false false p with
                | (node, some p) => readFlowItems handles fuel (node :: items) p
                | (node, none) => sequenceStuck (node :: items)
            | none => sequenceCut items
      | none => sequenceCut items

/-- A mapping of one entry that is an item in brackets. A key that is left out takes the
    mark behind it along. -/
def readFlowPair (handles : List (String × String)) : Nat → Position → Reading
  | 0, _ => stuck
  | fuel + 1, p =>
      let ends := [Token.flowEntry, .flowSequenceEnd]
      let key : Reading :=
        if p.sees (.value :: ends) then (emptyScalar, some p.next)
        else readNodeBefore handles [] fuel false false p
      match key with
      | (key, some p) =>
          let value : Reading :=
            match p.head? with
            | some .value => readNodeBefore handles ends fuel false false p.next
            | some _ => (emptyScalar, some p)
            | none => stuck
          match value with
          | (node, some p) =>
              if p.head?.isNone then mappingCut [(key, node)] else mappingEnd [(key, node)] p
          | (node, none) => mappingStuck [(key, node)]
      | (key, none) => mappingStuck [(key, key)]

/-- The entries of a mapping in braces, those so far in reverse. -/
def readFlowEntries (handles : List (String × String)) :
    Nat → List (Node × Node) → Position → Reading
  | 0, entries, _ => mappingCut entries
  | fuel + 1, entries, p =>
      match p.head? with
      | some .flowMappingEnd => mappingEnd entries p.next
      | some t =>
          if !entries.isEmpty && t != .flowEntry then mappingCut entries
          else
            let p := if entries.isEmpty then p else p.next
            match p.head? with
            | some .flowMappingEnd => mappingEnd entries p.next
            | some .key =>
                match readNodeBefore handles [.value, .flowEntry, .flowMappingEnd] fuel false
                    false p.next with
                | (key, some p) =>
                    match readFlowValue handles fuel p with
                    | (node, some p) =>
                        readFlowEntries handles fuel ((key, node) :: entries) p
                    | (node, none) => mappingStuck ((key, node) :: entries)
                | (key, none) => mappingStuck ((key, key) :: entries)
            | some _ =>
                match readNode handles fuel false false p with
                | (key, some p) =>
                    if p.head?.isNone then mappingStuck ((key, stuck.1) :: entries)
                    else readFlowEntries handles fuel ((key, emptyScalar) :: entries) p
                | (key, none) => mappingStuck ((key, key) :: entries)
            | none => mappingCut entries
      | none => mappingCut entries

def readFlowValue (handles : List (String × String)) : Nat → Position → Reading
  | 0, _ => stuck
  | fuel + 1, p =>
      match p.head? with
      | some .value =>
          readNodeBefore handles [.flowEntry, .flowMappingEnd] fuel false false p.next
      | some _ => (emptyScalar, some p)
      | none => stuck

end

/-- What the directives before a document say. -/
structure Prologue where
  versioned : Bool
  handles : List (String × String)

/-- Take a directive; a version may be given once and must be known, and a handle may be
    given once. -/
def Prologue.add? (prologue : Prologue) : Directive → Option Prologue
  | .version major minor =>
      if prologue.versioned || major != 1 || (minor != 1 && minor != 2) then none
      else some { prologue with versioned := true }
  | .tagHandle handle expansion =>
      if (prologue.handles.lookup handle).isSome then none
      else some { prologue with handles := prologue.handles ++ [(handle, expansion)] }

/-- Read the directives before a document and its mark, with what is said so far. -/
def readPrologue : Prologue → List Token → Option (Prologue × List Token)
  | prologue, .directive d :: rest =>
      match prologue.add? d with
      | some more => readPrologue more rest
      | none => none
  | prologue, .documentStart :: rest => some (prologue, rest)
  | _, _ => none

def isLast : List Token → Bool
  | .documentEnd :: rest => isLast rest
  | .textEnd :: _ => true
  | _ => false

def readDocument (handles : List (String × String)) (tokens : List Token) : Source :=
  match readNode handles (4 * tokens.length + 4) true false ⟨tokens, .empty⟩ with
  | (node, some p) => ⟨node, if isLast p.tokens then none else some .unreadable⟩
  | (node, none) => ⟨node, some .unreadable⟩

/-- Does a document have no content before the token? -/
def endsContent : Token → Bool
  | .directive _ | .documentStart | .documentEnd | .textEnd => true
  | _ => false

/-- The document that tokens make up. A text without any holds nothing. -/
def sourceOfTokens (tokens : List Token) : Source :=
  let faulty : Source := ⟨.damaged .unreadable (some .unreadable), none⟩
  match tokens with
  | [] => faulty
  | .textEnd :: _ => ⟨emptyScalar, none⟩
  | .directive _ :: _ | .documentStart :: _ =>
      match readPrologue ⟨false, []⟩ tokens with
      | none => faulty
      | some (prologue, rest) =>
          match rest.head? with
          | none => faulty
          | some t =>
              if endsContent t then
                ⟨emptyScalar, if isLast rest then none else some .unreadable⟩
              else readDocument (prologue.handles ++ standardHandles) rest
  | _ => readDocument standardHandles tokens

def source (text : String) : Source :=
  let cs := text.toList
  if cs.all isAdmitted then sourceOfTokens (tokens cs)
  else ⟨.damaged .unreadable (some .unreadable), none⟩

def decode {α : Type} (decoder : Decoder α) (text : String) : Except Failure α :=
  (source text).decode .yaml decoder

end Qualification.Yaml
