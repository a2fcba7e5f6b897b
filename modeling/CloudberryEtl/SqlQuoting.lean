import CloudberryEtl.SqlText
import CloudberryEtl.SqlScanner

/-! What the server's scanner reads back from the identifiers and literals that `target::sql` renders, and from
the text that follows them. -/
namespace CloudberryEtl.SqlQuoting
open Schema SqlText SqlScanner

theorem hexUpperValue {n : Nat} (digit : n < 16) : hexDigitValue (hexUpper n) = some n := by
  interval_cases n <;> rfl

theorem unicodeRead (c : Char) (rest : List Char) (present : c ≠ '\x00') (short : c.toNat < 65536) :
    scanEscapeString .inside (unicodeEscape c ++ rest) = emit c (scanEscapeString .inside rest) := by
  have positive : c.toNat ≠ 0 := by
    intro zero
    exact present (Char.ext (UInt32.toNat_inj.mp zero))
  have valid : c.toNat.isValidChar := c.valid
  have joined : 16 * (16 * (16 * (c.toNat / 4096) + c.toNat / 256 % 16) + c.toNat / 16 % 16) + c.toNat % 16 = c.toNat := by
    omega
  have character : unicodeChar c.toNat = some c := by simp [unicodeChar,positive,valid,Char.ofNat_toNat]
  simp only [unicodeEscape,List.cons_append,List.nil_append,scanEscapeString]
  simp only [hexUpperValue (show c.toNat / 4096 < 16 by omega),hexUpperValue (show c.toNat / 256 % 16 < 16 by omega),
    hexUpperValue (show c.toNat / 16 % 16 < 16 by omega),hexUpperValue (show c.toNat % 16 < 16 by omega),Nat.mul_zero,
    Nat.zero_add,joined,character]
  simp

theorem controlShort {c : Char} (control : isControl c = true) : c.toNat < 65536 := by
  simp only [isControl,Bool.or_eq_true,Bool.and_eq_true,decide_eq_true_eq] at control
  omega

theorem charRead (c : Char) (rest : List Char) (present : c ≠ '\x00') :
    scanEscapeString .inside (escapeLiteralChar c ++ rest) = emit c (scanEscapeString .inside rest) := by
  unfold escapeLiteralChar
  split
  next quote => subst quote; simp [scanEscapeString]
  next unquoted =>
  split
  next backslash => subst backslash; simp [scanEscapeString,unescapeSingleChar]
  next plain =>
  split
  next newline => subst newline; simp [scanEscapeString,unescapeSingleChar]
  next =>
  split
  next carriage => subst carriage; simp [scanEscapeString,unescapeSingleChar]
  next =>
  split
  next tab => subst tab; simp [scanEscapeString,unescapeSingleChar]
  next =>
  split
  next backspace => subst backspace; simp [scanEscapeString,unescapeSingleChar]
  next =>
  split
  next formFeed => subst formFeed; simp [scanEscapeString,unescapeSingleChar]
  next =>
  split
  next control => exact unicodeRead c rest present (controlShort control)
  next => simp [scanEscapeString,unquoted,plain]

theorem valueRead (value rest : List Char) (nulFree : '\x00' ∉ value)
    (plain : (afterBlanks rest).head? ≠ some '\'') :
    scanEscapeString .inside (value.flatMap escapeLiteralChar ++ '\'' :: rest) = some (value,rest) := by
  induction value with
  | nil => simpa [scanEscapeString] using closingKept rest plain
  | cons c value ih =>
    have present : c ≠ '\x00' := fun nul => nulFree (by simp [nul])
    rw [List.flatMap_cons,List.append_assoc,charRead c _ present,ih (fun mem => nulFree (by simp [mem]))]
    rfl

theorem literalRead (value : String) (rest : List Char) (nulFree : '\x00' ∉ value.toList)
    (plain : (afterBlanks rest).head? ≠ some '\'') :
    ∃ quoted, quoteLiteral value = .ok quoted ∧ nextToken (quoted.toList ++ rest) = some (.literal value,rest) := by
  exists String.ofList ("E'".toList ++ value.toList.flatMap escapeLiteralChar ++ ['\''])
  simp only [quoteLiteral,nulFree,if_false,true_and,String.toList_ofList]
  have read := valueRead value.toList rest nulFree plain
  simp [nextToken,read]

theorem doubledRead (value rest : List Char) (apart : rest.head? ≠ some '"') :
    scanQuotedIdentifier (doubleQuotes value ++ '"' :: rest) = some (value,rest) := by
  induction value with
  | nil =>
    cases rest with
    | nil => rfl
    | cons c rest =>
      have unquoted : c ≠ '"' := by simpa using apart
      simp [doubleQuotes,scanQuotedIdentifier,unquoted]
  | cons c value ih =>
    unfold doubleQuotes
    split
    next quote => subst quote; simp [scanQuotedIdentifier,ih,emit]
    next unquoted =>
      rw [List.cons_append,scanQuotedIdentifier.eq_def]
      simp [unquoted,ih,emit]

theorem identifierRead (value : String) (rest : List Char) (valid : IdentifierValid value)
    (apart : rest.head? ≠ some '"') :
    ∃ quoted, quoteIdentifier value = .ok quoted ∧
      nextToken (quoted.toList ++ rest) = some (.identifier value,rest) := by
  obtain ⟨present,nulFree,short⟩ := valid
  exists String.ofList ('"' :: doubleQuotes value.toList ++ ['"'])
  simp only [quoteIdentifier,present,nulFree,if_false,true_and,String.toList_ofList]
  have read := doubledRead value.toList rest apart
  have whole : truncateIdentifier nameMaxBytes value.toList = value.toList :=
    truncateKept value.toList nameMaxBytes (by rw [String.utf8Len_toList]; exact short)
  have named : value.toList ≠ [] := fun empty => present (String.toList_eq_nil_iff.mp empty)
  simp [nextToken,read,whole,named]

theorem qualifiedNameRead (name : QualifiedName) (rest : List Char) (apart : rest.head? ≠ some '"') :
    ∃ quoted, quoteQualifiedName name = .ok quoted ∧
      readTokens 3 (quoted.toList ++ rest) = some ([.identifier name.schema,.dot,.identifier name.name],rest) := by
  obtain ⟨second,secondQuoted,secondRead⟩ := identifierRead name.name rest name.nameValid apart
  obtain ⟨first,firstQuoted,firstRead⟩ := identifierRead name.schema ('.' :: (second.toList ++ rest)) name.schemaValid
    (by simp)
  have opened : second.toList = '"' :: doubleQuotes name.name.toList ++ ['"'] := by
    simp only [quoteIdentifier] at secondQuoted
    split at secondQuoted
    next => cases secondQuoted
    next =>
      split at secondQuoted
      next => cases secondQuoted
      next => rw [← Except.ok.inj secondQuoted,String.toList_ofList]
  have dotRead : nextToken ('.' :: (second.toList ++ rest)) = some (.dot,second.toList ++ rest) := by
    rw [opened]
    rfl
  exists first ++ "." ++ second
  constructor
  · simp [quoteQualifiedName,firstQuoted,secondQuoted,bind,Except.bind,pure,Except.pure]
  · have split : (first ++ "." ++ second).toList ++ rest = first.toList ++ '.' :: (second.toList ++ rest) := by simp
    rw [split]
    simp [readTokens,firstRead,dotRead,secondRead]

theorem apartOfVisible {rest : List Char} (apart : (afterWhitespace rest).head? ≠ some '"') : rest.head? ≠ some '"' := by
  intro quote
  cases rest with
  | nil => cases quote
  | cons c rest =>
    have same : c = '"' := Option.some.inj quote
    subst same
    exact apart rfl

/-- The scanner reads every literal back as one token with the value that was quoted, every identifier as one
name and every qualified name as two names with a dot between them, and it stops where the text that follows
begins. A line comment behind a literal does not separate it from a quote on a later line. -/
theorem quotingReadBack :
    (∀ value rest, '\x00' ∉ value.toList → (afterBlanks rest).head? ≠ some '\'' →
      ∃ quoted, quoteLiteral value = .ok quoted ∧ nextToken (quoted.toList ++ rest) = some (.literal value,rest)) ∧
    (∀ value rest, IdentifierValid value → (afterWhitespace rest).head? ≠ some '"' →
      ∃ quoted, quoteIdentifier value = .ok quoted ∧
        nextToken (quoted.toList ++ rest) = some (.identifier value,rest)) ∧
    (∀ (name : QualifiedName) rest, (afterWhitespace rest).head? ≠ some '"' →
      ∃ quoted, quoteQualifiedName name = .ok quoted ∧
        readTokens 3 (quoted.toList ++ rest) = some ([.identifier name.schema,.dot,.identifier name.name],rest)) :=
  ⟨literalRead,fun value rest valid apart => identifierRead value rest valid (apartOfVisible apart),
    fun name rest apart => qualifiedNameRead name rest (apartOfVisible apart)⟩

theorem quotingInStatement :
    (∃ quoted, quoteLiteral "O'Reilly" = .ok quoted ∧
      nextToken (quoted.toList ++ " -- name\n AND".toList) = some (.literal "O'Reilly"," -- name\n AND".toList)) ∧
    (∃ quoted, quoteIdentifier "a\"b" = .ok quoted ∧
      nextToken (quoted.toList ++ " = 1".toList) = some (.identifier "a\"b"," = 1".toList)) :=
  ⟨quotingReadBack.1 "O'Reilly" " -- name\n AND".toList (by decide) (by decide),
    quotingReadBack.2.1 "a\"b" " = 1".toList (by decide) (by decide)⟩

/- The first visible character behind the literal is that of a comment, yet the literal takes the quoted text on
the line after the comment for its continuation. -/
theorem commentContinues :
    (afterWhitespace " -- c\n'b'".toList).head? = some '-' ∧ quoteLiteral "a" = .ok "E'a'" ∧
      nextToken ("E'a'".toList ++ " -- c\n'b'".toList) = some (.literal "ab",[]) := by
  decide

end CloudberryEtl.SqlQuoting
