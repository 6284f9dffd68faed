import TokenRing.Json.Fault
import TokenRing.Text.Hex
import TokenRing.Text.Utf8

/-!
# Text literals

Texts between double quotes. A backslash starts an escape; four hexadecimal digits behind `\u`
give a UTF-16 code unit, and the two halves of a surrogate pair must follow each other.
-/

namespace TokenRing.Json

def escapedChar? : Char → Option Char
  | '"' => some '"'
  | '\\' => some '\\'
  | '/' => some '/'
  | 'b' => some '\x08'
  | 'f' => some '\x0c'
  | 'n' => some '\n'
  | 'r' => some '\r'
  | 't' => some '\t'
  | _ => none

def isLeading (unit : Nat) : Bool :=
  0xD800 ≤ unit && unit < 0xDC00

def isTrailing (unit : Nat) : Bool :=
  0xDC00 ≤ unit && unit < 0xE000

inductive Position where
  /-- Between characters. -/
  | between
  /-- Behind a backslash. -/
  | escape
  /-- Among the digits of a code unit, so many of which are missing. The first half of a pair, to
  which this is the second, may have been read. -/
  | unit (leading : Option Nat) (missing : Nat) (value : Nat)
  /-- Behind the first half of a surrogate pair. -/
  | pair (leading : Nat)
  /-- Behind the first half of a surrogate pair and a backslash. -/
  | pairEscape (leading : Nat)
  deriving DecidableEq, Repr

/-- What a complete code unit gives: a character, the first half of a pair, or a fault. -/
def closeUnit (leading : Option Nat) (unit : Nat) : Except Fault (Char ⊕ Nat) :=
  match leading with
  | none =>
    if isTrailing unit then .error .malformed
    else if isLeading unit then .ok (.inr unit)
    else .ok (.inl (Char.ofNat unit))
  | some first =>
    if isTrailing unit then
      .ok (.inl (Char.ofNat (0x10000 + 0x400 * (first - 0xD800) + (unit - 0xDC00))))
    else .error .malformed

/-- Fewer bytes left than digits missing: a document that ends is reported before a bad digit. -/
def badDigit (missing : Nat) (rest : List Char) : Fault :=
  if (Text.utf8 (rest.take missing)).length < missing then .truncated else .malformed

/-- Reads a literal behind its opening quote. The characters read are kept in reverse.
Without `pairs`, code units need not make pairs, and count for nothing. -/
def readLiteral (pairs : Bool) :
    Position → List Char → List Char → Except Fault (List Char × List Char)
  | _, _, [] => .error .truncated
  | .between, read, c :: rest =>
    if c = '"' then .ok (read.reverse, rest)
    else if c = '\\' then readLiteral pairs .escape read rest
    else if c.toNat < 0x20 then .error .malformed
    else readLiteral pairs .between (c :: read) rest
  | .escape, read, c :: rest =>
    if c = 'u' then readLiteral pairs (.unit none 4 0) read rest
    else
      match escapedChar? c with
      | some char => readLiteral pairs .between (char :: read) rest
      | none => .error .malformed
  | .unit leading missing value, read, c :: rest =>
    match Text.hexValue? c with
    | none => .error (badDigit missing (c :: rest))
    | some digit =>
      let value := 16 * value + digit
      if 1 < missing then readLiteral pairs (.unit leading (missing - 1) value) read rest
      else if !pairs then readLiteral pairs .between read rest
      else
        match closeUnit leading value with
        | .error fault => .error fault
        | .ok (.inl char) => readLiteral pairs .between (char :: read) rest
        | .ok (.inr first) => readLiteral pairs (.pair first) read rest
  | .pair first, read, c :: rest =>
    if c = '\\' then readLiteral pairs (.pairEscape first) read rest else .error .malformed
  | .pairEscape first, read, c :: rest =>
    if c = 'u' then readLiteral pairs (.unit (some first) 4 0) read rest else .error .malformed

/-- A character as it is written in a literal. Only what must be escaped is. -/
def writeChar (c : Char) : List Char :=
  if c = '"' then ['\\', '"']
  else if c = '\\' then ['\\', '\\']
  else if c = '\x08' then ['\\', 'b']
  else if c = '\x0c' then ['\\', 'f']
  else if c = '\n' then ['\\', 'n']
  else if c = '\r' then ['\\', 'r']
  else if c = '\t' then ['\\', 't']
  else if c.toNat < 0x20 then '\\' :: 'u' :: Text.hexFixed 4 c.toNat
  else [c]

def writeLiteral (text : List Char) : List Char :=
  '"' :: text.flatMap writeChar ++ ['"']

end TokenRing.Json
