/-! # Faults of a text

A fault is where a text stops being a document of its format. It says nothing about the
shape that a reader wanted; that is the business of `Document.Failure`.
-/

namespace Qualification.Document

/-- Why a text is not a well-formed document from some place on. -/
inductive Fault where
  /-- The text ends where a value must begin or go on. -/
  | endOfValue
  | endOfString
  | endOfList
  | endOfObject
  | expectedValue
  /-- A word begins like `true`, `false` or `null` and is none of them. -/
  | expectedWord
  | expectedColon
  /-- Neither a comma nor the end after an item. -/
  | expectedItemEnd
  /-- Neither a comma nor the end after a member. -/
  | expectedMemberEnd
  | trailingComma
  | trailingCharacters
  /-- A key that is not a string. -/
  | keyNotText
  | badNumber
  | numberOutOfRange
  | badEscape
  /-- A leading surrogate with nothing to pair it. -/
  | endOfEscape
  | loneSurrogate
  | control
  | tooDeep
  /-- Any fault of a YAML text; its wording is free. -/
  | unreadable
  deriving Repr, DecidableEq

namespace Fault

def message : Fault → String
  | endOfValue => "EOF while parsing a value"
  | endOfString => "EOF while parsing a string"
  | endOfList => "EOF while parsing a list"
  | endOfObject => "EOF while parsing an object"
  | expectedValue => "expected value"
  | expectedWord => "expected ident"
  | expectedColon => "expected `:`"
  | expectedItemEnd => "expected `,` or `]`"
  | expectedMemberEnd => "expected `,` or `\x7d`"
  | trailingComma => "trailing comma"
  | trailingCharacters => "trailing characters"
  | keyNotText => "key must be a string"
  | badNumber => "invalid number"
  | numberOutOfRange => "number out of range"
  | badEscape => "invalid escape"
  | endOfEscape => "unexpected end of hex escape"
  | loneSurrogate => "lone leading surrogate in hex escape"
  | control => "control character (\\u0000-\\u001F) found while parsing a string"
  | tooDeep => "recursion limit exceeded"
  | unreadable => "not valid YAML"

def isEnd : Fault → Bool
  | endOfValue | endOfString | endOfList | endOfObject => true
  | _ => false

/-- How a list that ends in a fault fails when it is passed over. -/
def inSkippedList : Fault → Fault
  | trailingComma => expectedValue
  | f => f

/-- How an object that ends in a fault fails when it is passed over. -/
def inSkippedObject : Fault → Fault
  | trailingComma => keyNotText
  | endOfValue => endOfObject
  | f => f

/-- How a list fails that must end here and has a fault instead. -/
def atListEnd : Fault → Fault
  | trailingComma => trailingComma
  | endOfList => endOfList
  | _ => trailingCharacters

end Fault

end Qualification.Document
