import CloudberryEtl.Schema

/-! Identifier and literal rendering of `target::sql`. -/
namespace CloudberryEtl.SqlText
open Schema

inductive SqlRenderError where
  | emptyIdentifier
  | nulByte (kind : String)
  deriving DecidableEq, Repr

def doubleQuotes : List Char → List Char
  | [] => []
  | c :: rest => if c = '"' then '"' :: '"' :: doubleQuotes rest else c :: doubleQuotes rest

def quoteIdentifier (identifier : String) : Except SqlRenderError String :=
  if identifier = "" then .error .emptyIdentifier
  else if '\x00' ∈ identifier.toList then .error (.nulByte "identifier")
  else .ok (String.ofList ('"' :: doubleQuotes identifier.toList ++ ['"']))

def quoteQualifiedName (name : QualifiedName) : Except SqlRenderError String := do
  let schema ← quoteIdentifier name.schema
  let name ← quoteIdentifier name.name
  return schema ++ "." ++ name

def isControl (c : Char) : Bool := c.toNat < 0x20 || (0x7f ≤ c.toNat && c.toNat < 0xa0)

def hexUpper (n : Nat) : Char := (Nat.digitChar n).toUpper

def unicodeEscape (c : Char) : List Char :=
  ['\\','u',hexUpper (c.toNat / 4096),hexUpper (c.toNat / 256 % 16),hexUpper (c.toNat / 16 % 16),
    hexUpper (c.toNat % 16)]

def escapeLiteralChar (c : Char) : List Char :=
  if c = '\'' then ['\'','\'']
  else if c = '\\' then ['\\','\\']
  else if c = '\n' then ['\\','n']
  else if c = '\r' then ['\\','r']
  else if c = '\t' then ['\\','t']
  else if c = '\x08' then ['\\','b']
  else if c = '\x0c' then ['\\','f']
  else if isControl c then unicodeEscape c
  else [c]

def quoteLiteral (value : String) : Except SqlRenderError String :=
  if '\x00' ∈ value.toList then .error (.nulByte "literal")
  else .ok (String.ofList ("E'".toList ++ value.toList.flatMap escapeLiteralChar ++ ['\'']))

def quoteIdentifierList (values : List String) : Except SqlRenderError String := do
  return ", ".intercalate (← values.mapM quoteIdentifier)

end CloudberryEtl.SqlText
