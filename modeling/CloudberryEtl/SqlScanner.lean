import Mathlib.Data.String.Basic

/-! The part of PostgreSQL 14's scanner (`scan.l`) that reads escape-string literals, quoted identifiers and
the dot between them, on a server whose encoding is UTF-8. It names nothing of the program whose output is
scanned. -/
namespace CloudberryEtl.SqlScanner

inductive Token where
  | literal (value : String)
  | identifier (value : String)
  | dot
  deriving DecidableEq, Repr

def isSpace (c : Char) : Bool := c = ' ' || c = '\t' || c = '\n' || c = '\r' || c = '\x0c'

def isNewline (c : Char) : Bool := c = '\n' || c = '\r'

def afterWhitespace (text : List Char) : List Char := text.dropWhile isSpace

/- The text behind whitespace and line comments; the flag says whether the text begins inside a comment. -/
def skipBlanks : Bool → List Char → List Char
  | _,[] => []
  | true,c :: rest => skipBlanks (!isNewline c) rest
  | false,'-' :: '-' :: rest => skipBlanks true rest
  | false,c :: rest => if isSpace c then skipBlanks false rest else c :: rest

def afterBlanks (text : List Char) : List Char := skipBlanks false text

/- Where the scanner stands inside an escape string. `closing` has just read a quote, which ends the literal, is
the first of a doubled quote, or is followed by a continuation. In the last three states that quote lies behind:
the literal goes on if nothing but blanks and line comments, a newline among them, comes before another quote,
and otherwise everything after the closing quote is given back. -/
inductive Mode where
  | inside
  | escape
  | unicode (left value : Nat)
  | closing (saved : List Char)
  | blanks (saved : List Char) (newline : Bool)
  | dash (saved : List Char)
  | comment (saved : List Char)
  deriving DecidableEq, Repr

def hexDigitValue (c : Char) : Option Nat :=
  if '0' ≤ c ∧ c ≤ '9' then some (c.toNat - '0'.toNat)
  else if 'A' ≤ c ∧ c ≤ 'F' then some (c.toNat - 'A'.toNat + 10)
  else if 'a' ≤ c ∧ c ≤ 'f' then some (c.toNat - 'a'.toNat + 10)
  else none

-- `unescape_single_char`. An octal or `\x` escape names one byte and is left out.
def unescapeSingleChar (c : Char) : Option Char :=
  if c = 'b' then some '\x08'
  else if c = 'f' then some '\x0c'
  else if c = 'n' then some '\n'
  else if c = 'r' then some '\r'
  else if c = 't' then some '\t'
  else if ('0' ≤ c ∧ c ≤ '7') ∨ c = 'x' then none
  else some c

-- `addunicode`: the code point must be a character. A pair of surrogates is left out.
def unicodeChar (value : Nat) : Option Char :=
  if value ≠ 0 ∧ value.isValidChar then some (Char.ofNat value) else none

def emit (c : Char) : Option (List Char × List Char) → Option (List Char × List Char)
  | some found => some (c :: found.1,found.2)
  | none => none

def scanEscapeString : Mode → List Char → Option (List Char × List Char)
  | .closing saved,[] => some ([],saved)
  | .blanks saved _,[] => some ([],saved)
  | .dash saved,[] => some ([],saved)
  | .comment saved,[] => some ([],saved)
  | _,[] => none
  | .inside,c :: rest =>
    if c = '\'' then scanEscapeString (.closing rest) rest
    else if c = '\\' then scanEscapeString .escape rest
    else emit c (scanEscapeString .inside rest)
  | .escape,c :: rest =>
    if c = 'u' then scanEscapeString (.unicode 3 0) rest
    else if c = 'U' then scanEscapeString (.unicode 7 0) rest
    else match unescapeSingleChar c with
      | some plain => emit plain (scanEscapeString .inside rest)
      | none => none
  | .unicode left value,c :: rest =>
    match hexDigitValue c with
    | none => none
    | some digit =>
      match left with
      | left + 1 => scanEscapeString (.unicode left (16 * value + digit)) rest
      | 0 => match unicodeChar (16 * value + digit) with
        | some c => emit c (scanEscapeString .inside rest)
        | none => none
  | .closing saved,c :: rest =>
    if c = '\'' then emit '\'' (scanEscapeString .inside rest)
    else if isSpace c then scanEscapeString (.blanks saved (isNewline c)) rest
    else if c = '-' then scanEscapeString (.dash saved) rest
    else some ([],saved)
  | .blanks saved newline,c :: rest =>
    if c = '\'' then if newline then scanEscapeString .inside rest else some ([],saved)
    else if isSpace c then scanEscapeString (.blanks saved (newline || isNewline c)) rest
    else if c = '-' then scanEscapeString (.dash saved) rest
    else some ([],saved)
  | .dash saved,c :: rest => if c = '-' then scanEscapeString (.comment saved) rest else some ([],saved)
  | .comment saved,c :: rest =>
    if isNewline c then scanEscapeString (.blanks saved true) rest else scanEscapeString (.comment saved) rest

def scanQuotedIdentifier : List Char → Option (List Char × List Char)
  | [] => none
  | ['"'] => some ([],[])
  | '"' :: c :: rest => if c = '"' then emit '"' (scanQuotedIdentifier rest) else some ([],c :: rest)
  | c :: rest => emit c (scanQuotedIdentifier rest)

def nameMaxBytes : Nat := 63

-- `truncate_identifier`: the longest run of whole characters within a number of bytes.
def truncateIdentifier : Nat → List Char → List Char
  | _,[] => []
  | room,c :: rest => if c.utf8Size ≤ room then c :: truncateIdentifier (room - c.utf8Size) rest else []

/- One token from the beginning of the text. The dot of a qualified name is not followed by a digit or by
another dot, which make other tokens of it; tokens that are neither literals nor quoted names are left out. -/
def nextToken : List Char → Option (Token × List Char)
  | 'E' :: '\'' :: rest => (scanEscapeString .inside rest).map fun found => (.literal (String.ofList found.1),found.2)
  | 'e' :: '\'' :: rest => (scanEscapeString .inside rest).map fun found => (.literal (String.ofList found.1),found.2)
  | '"' :: rest =>
    match scanQuotedIdentifier rest with
    | some found =>
      if found.1 = [] then none
      else some (.identifier (String.ofList (truncateIdentifier nameMaxBytes found.1)),found.2)
    | none => none
  | '.' :: c :: rest => if c = '.' ∨ c.isDigit then none else some (.dot,c :: rest)
  | ['.'] => some (.dot,[])
  | _ => none

def readTokens : Nat → List Char → Option (List Token × List Char)
  | 0,text => some ([],text)
  | n + 1,text => do
    let first ← nextToken text
    let others ← readTokens n first.2
    return (first.1 :: others.1,others.2)

def pastQuote (saved : List Char) (comment newline : Bool) : Mode :=
  if comment then .comment saved else .blanks saved newline

theorem blanksGivenBack (comment : Bool) (text saved : List Char) (newline : Bool)
    (plain : (skipBlanks comment text).head? ≠ some '\'') :
    scanEscapeString (pastQuote saved comment newline) text = some ([],saved) := by
  fun_induction skipBlanks comment text generalizing newline with
  | case1 comment => cases comment <;> rfl
  | case2 c rest ih =>
    simp only [pastQuote,if_true,scanEscapeString]
    split
    next ended => simpa [pastQuote,ended] using ih true (by simpa [ended] using plain)
    next inComment => simpa [pastQuote,inComment] using ih newline (by simpa [inComment] using plain)
  | case3 rest ih => simpa [pastQuote,scanEscapeString,isSpace] using ih newline plain
  | case4 c rest notComment space ih =>
    have unquoted : c ≠ '\'' := by intro same; subst same; simp [isSpace] at space
    simpa [pastQuote,scanEscapeString,space,unquoted] using ih (newline || isNewline c) plain
  | case5 c rest notComment visible =>
    have unquoted : c ≠ '\'' := by simpa using plain
    simp only [pastQuote,Bool.false_eq_true,if_false,scanEscapeString,unquoted,visible]
    split
    next dash =>
      subst dash
      cases rest with
      | nil => rfl
      | cons d rest =>
        have single : d ≠ '-' := fun same => notComment rest rfl (by rw [same])
        simp [scanEscapeString,single]
    next => rfl

/-- A closing quote ends the literal unless another quote is the first thing behind blanks and line
comments. -/
theorem closingKept (rest : List Char) (plain : (afterBlanks rest).head? ≠ some '\'') :
    scanEscapeString (.closing rest) rest = some ([],rest) := by
  have after := blanksGivenBack false rest rest false plain
  cases rest with
  | nil => rfl
  | cons c rest =>
    simp only [pastQuote,Bool.false_eq_true,if_false,scanEscapeString,Bool.false_or] at after ⊢
    split
    next quote => subst quote; simp [afterBlanks,skipBlanks,isSpace] at plain
    next unquoted => simpa only [unquoted,if_false] using after

theorem truncateKept (value : List Char) (room : Nat) (fits : String.utf8Len value ≤ room) :
    truncateIdentifier room value = value := by
  induction value generalizing room with
  | nil => rfl
  | cons c rest ih =>
    rw [String.utf8Len_cons] at fits
    have first : c.utf8Size ≤ room := by omega
    simp only [truncateIdentifier,first,if_true,ih (room - c.utf8Size) (by omega)]

end CloudberryEtl.SqlScanner
