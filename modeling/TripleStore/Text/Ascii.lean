import TripleStore.Text.Basic

/-!
# ASCII bytes

Names for the bytes that the formats give a meaning to, and the byte classes their scanners use.
The names may stand in patterns.
-/

namespace TripleStore.Ascii

/-- Backspace. -/
@[match_pattern] abbrev backspace : UInt8 := 8
/-- Horizontal tab. -/
@[match_pattern] abbrev tab : UInt8 := 9
/-- Line feed, which ends a line. -/
@[match_pattern] abbrev lineFeed : UInt8 := 10
/-- Form feed. -/
@[match_pattern] abbrev formFeed : UInt8 := 12
/-- Carriage return. -/
@[match_pattern] abbrev carriageReturn : UInt8 := 13
/-- Space. -/
@[match_pattern] abbrev space : UInt8 := 32
/-- Double quote. -/
@[match_pattern] abbrev quote : UInt8 := 34
/-- Hash sign. -/
@[match_pattern] abbrev hash : UInt8 := 35
/-- Percent sign. -/
@[match_pattern] abbrev percent : UInt8 := 37
/-- Single quote. -/
@[match_pattern] abbrev apostrophe : UInt8 := 39
/-- Opening parenthesis. -/
@[match_pattern] abbrev openParen : UInt8 := 40
/-- Closing parenthesis. -/
@[match_pattern] abbrev closeParen : UInt8 := 41
/-- Plus sign. -/
@[match_pattern] abbrev plus : UInt8 := 43
/-- Comma. -/
@[match_pattern] abbrev comma : UInt8 := 44
/-- Minus sign. -/
@[match_pattern] abbrev minus : UInt8 := 45
/-- Full stop. -/
@[match_pattern] abbrev dot : UInt8 := 46
/-- Slash. -/
@[match_pattern] abbrev slash : UInt8 := 47
/-- Digit zero. -/
@[match_pattern] abbrev zero : UInt8 := 48
/-- Colon. -/
@[match_pattern] abbrev colon : UInt8 := 58
/-- Semicolon. -/
@[match_pattern] abbrev semicolon : UInt8 := 59
/-- Less-than sign, which opens an IRI. -/
@[match_pattern] abbrev lessThan : UInt8 := 60
/-- Equals sign. -/
@[match_pattern] abbrev equals : UInt8 := 61
/-- Greater-than sign, which closes an IRI. -/
@[match_pattern] abbrev greaterThan : UInt8 := 62
/-- Question mark. -/
@[match_pattern] abbrev questionMark : UInt8 := 63
/-- At sign. -/
@[match_pattern] abbrev atSign : UInt8 := 64
/-- Opening square bracket. -/
@[match_pattern] abbrev openBracket : UInt8 := 91
/-- Backslash. -/
@[match_pattern] abbrev backslash : UInt8 := 92
/-- Closing square bracket. -/
@[match_pattern] abbrev closeBracket : UInt8 := 93
/-- Circumflex accent. -/
@[match_pattern] abbrev caret : UInt8 := 94
/-- Low line. -/
@[match_pattern] abbrev underscore : UInt8 := 95
/-- Opening brace. -/
@[match_pattern] abbrev openBrace : UInt8 := 123
/-- Vertical line. -/
@[match_pattern] abbrev bar : UInt8 := 124
/-- Closing brace. -/
@[match_pattern] abbrev closeBrace : UInt8 := 125

/-- A decimal digit. -/
def isDigit (b : UInt8) : Bool := 48 ≤ b && b ≤ 57

/-- A capital letter. -/
def isUpper (b : UInt8) : Bool := 65 ≤ b && b ≤ 90

/-- A small letter. -/
def isLower (b : UInt8) : Bool := 97 ≤ b && b ≤ 122

/-- A letter. -/
def isLetter (b : UInt8) : Bool := isLower b || isUpper b

/-- The small letter of a capital one; other bytes stay. -/
def toLower (b : UInt8) : UInt8 := if isUpper b then b + 32 else b

/-- The capital letter of a small one; other bytes stay. -/
def toUpper (b : UInt8) : UInt8 := if isLower b then b - 32 else b

/-- The value of a hexadecimal digit. -/
def hexValue? (b : UInt8) : Option Nat :=
  if isDigit b then some (b.toNat - 48)
  else if 97 ≤ b && b ≤ 102 then some (b.toNat - 87)
  else if 65 ≤ b && b ≤ 70 then some (b.toNat - 55)
  else none

/-- The small hexadecimal digit of a value below 16. -/
def hexDigit (n : Nat) : UInt8 := if n < 10 then (48 + n).toUInt8 else (87 + n).toUInt8

/-- The capital hexadecimal digit of a value below 16. -/
def hexDigitUpper (n : Nat) : UInt8 := if n < 10 then (48 + n).toUInt8 else (55 + n).toUInt8

/-- A byte that continues a UTF-8 sequence; it takes no column of its own. -/
def isContinuation (b : UInt8) : Bool := b &&& 0xC0 == 0x80

end TripleStore.Ascii
