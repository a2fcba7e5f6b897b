import CloudberryEtl.Resume
import CloudberryEtl.StagingColumns

/-! The compact text of a JSON value determines the value, also in front of the text that follows it in an array
or an object. -/
namespace CloudberryEtl.JsonText
open Change Manifest Activation Planning Resume StagingColumns

section Strings

def unescape : List Char → Option (Char × List Char)
  | '\\' :: 'u' :: '0' :: '0' :: high :: low :: rest => some (Char.ofNat (16 * digitValue high + digitValue low),rest)
  | '\\' :: c :: rest =>
    if c = 'b' then some ('\x08',rest) else if c = 't' then some ('\t',rest) else if c = 'n' then some ('\n',rest)
    else if c = 'f' then some ('\x0c',rest) else if c = 'r' then some ('\r',rest) else some (c,rest)
  | c :: rest => if c = '"' then none else some (c,rest)
  | [] => none

theorem unescapeEscape (c : Char) (rest : List Char) : unescape (escapeChar c ++ rest) = some (c,rest) := by
  unfold escapeChar
  split
  next quote => subst quote; rfl
  next unquoted =>
  split
  next backslash => subst backslash; rfl
  next plain =>
  split
  next backspace => subst backspace; rfl
  next =>
  split
  next tab => subst tab; rfl
  next =>
  split
  next newline => subst newline; rfl
  next =>
  split
  next formFeed => subst formFeed; rfl
  next =>
  split
  next carriage => subst carriage; rfl
  next =>
  split
  next control =>
    have byte : (UInt8.ofNat c.toNat).toNat = c.toNat := by
      rw [UInt8.toNat_ofNat']
      exact Nat.mod_eq_of_lt (by omega)
    have high := digitValueDigit (c.toNat / 16) (by omega)
    have low := digitValueDigit (c.toNat % 16) (by omega)
    have joined : 16 * (c.toNat / 16) + c.toNat % 16 = c.toNat := by omega
    simp [unescape,hexByte,byte,high,low,joined]
  next => simp [unescape,unquoted,plain]

theorem escapedApart (left : List Char) : ∀ {right rest rest' : List Char},
    left.flatMap escapeChar ++ '"' :: rest = right.flatMap escapeChar ++ '"' :: rest' → left = right ∧ rest = rest' := by
  have ended : ∀ rest, unescape ('"' :: rest) = none := fun _ => rfl
  induction left with
  | nil =>
    intro right rest rest' same
    cases right with
    | nil => exact ⟨rfl,(List.cons.inj same).2⟩
    | cons d right =>
      have read := congrArg unescape same
      rw [List.flatMap_cons,List.append_assoc,unescapeEscape] at read
      cases read
  | cons c left ih =>
    intro right rest rest' same
    cases right with
    | nil =>
      have read := congrArg unescape same
      rw [List.flatMap_cons,List.append_assoc,unescapeEscape] at read
      cases read
    | cons d right =>
      have read := congrArg unescape same
      simp only [List.flatMap_cons,List.append_assoc,unescapeEscape,Option.some.injEq,Prod.mk.injEq] at read
      obtain ⟨tails,behind⟩ := ih read.2
      exact ⟨by rw [read.1,tails],behind⟩

theorem quotedApart {left right : String} {rest rest' : List Char} (same : quoted left ++ rest = quoted right ++ rest') :
    left = right ∧ rest = rest' := by
  simp only [quoted,List.cons_append,List.append_assoc,List.nil_append,List.cons.injEq,true_and] at same
  obtain ⟨chars,behind⟩ := escapedApart _ same
  exact ⟨String.toList_inj.mp chars,behind⟩

end Strings

section Numbers

def numeric (c : Char) : Bool := c.isDigit || c = '-'

def Delimited (rest : List Char) : Prop := ∀ c, rest.head? = some c → numeric c = false

theorem digitsNumeric (n : Nat) : ∀ c ∈ Nat.toDigits 10 n, numeric c = true := by
  intro c mem
  simp [numeric,Nat.isDigit_of_mem_toDigits (by decide) le_rfl mem]

theorem numberNumeric (value : Int) : ∀ c ∈ (toString value).toList, numeric c = true := by
  cases value with
  | ofNat n =>
    rw [naturalText]
    exact digitsNumeric n
  | negSucc n =>
    intro c mem
    rcases List.mem_cons.mp (negativeText n ▸ mem) with minus | digit
    · rw [minus]
      rfl
    · exact digitsNumeric (n + 1) c digit

theorem spanned {text rest : List Char} (all : ∀ c ∈ text, numeric c = true) (delimited : Delimited rest) :
    (text ++ rest).takeWhile numeric = text ∧ (text ++ rest).dropWhile numeric = rest := by
  induction text with
  | nil =>
    cases rest with
    | nil => exact ⟨rfl,rfl⟩
    | cons c rest =>
      have stops := delimited c rfl
      simp [stops]
  | cons c text ih =>
    have first := all c (by simp)
    obtain ⟨taken,dropped⟩ := ih fun c mem => all c (by simp [mem])
    simp [first,taken,dropped]

theorem numberApart {left right : Int} {rest rest' : List Char} (delimited : Delimited rest)
    (delimited' : Delimited rest') (same : (toString left).toList ++ rest = (toString right).toList ++ rest') :
    left = right ∧ rest = rest' := by
  obtain ⟨taken,dropped⟩ := spanned (numberNumeric left) delimited
  obtain ⟨taken',dropped'⟩ := spanned (numberNumeric right) delimited'
  rw [same,taken'] at taken
  rw [same,dropped'] at dropped
  exact ⟨intTextInjective (String.toList_inj.mp taken.symm),dropped.symm⟩

end Numbers

section Values

def opens (c : Char) : Nat :=
  if c = 'n' then 0 else if c = 't' ∨ c = 'f' then 1 else if c = '"' then 2 else if c = '[' then 3
  else if c = '\x7b' then 4 else if numeric c then 5 else 6

def valueSort : Json → Nat
  | .null => 0
  | .bool _ => 1
  | .str _ => 2
  | .arr _ => 3
  | .obj _ => 4
  | .num _ => 5

theorem numericOpens {c : Char} (number : numeric c = true) : opens c = 5 := by
  unfold opens
  split
  next n => subst n; cases number
  next =>
  split
  next bool => rcases bool with rfl | rfl <;> cases number
  next =>
  split
  next quote => subst quote; cases number
  next =>
  split
  next bracket => subst bracket; cases number
  next =>
  split
  next brace => subst brace; cases number
  next => rfl

theorem compactOpens (value : Json) : ∃ c rest, value.compact = c :: rest ∧ opens c = valueSort value := by
  cases value with
  | null => exact ⟨_,_,rfl,rfl⟩
  | bool value => cases value <;> exact ⟨_,_,rfl,rfl⟩
  | str value => exact ⟨_,_,rfl,rfl⟩
  | arr values => exact ⟨_,_,rfl,rfl⟩
  | obj fields => exact ⟨_,_,rfl,rfl⟩
  | num value =>
    obtain ⟨c,rest,text,_⟩ := intText value
    exact ⟨c,rest,text,numericOpens (numberNumeric value c (text ▸ List.mem_cons_self))⟩

theorem sameSort {left right : Json} {rest rest' : List Char} (same : left.compact ++ rest = right.compact ++ rest') :
    valueSort left = valueSort right := by
  obtain ⟨c,tail,text,sort⟩ := compactOpens left
  obtain ⟨c',tail',text',sort'⟩ := compactOpens right
  rw [text,text'] at same
  rw [← sort,← sort',(List.cons.inj same).1]

theorem notClosed (value : Json) (rest rest' : List Char) : value.compact ++ rest ≠ ']' :: rest' := by
  intro same
  obtain ⟨c,tail,text,sort⟩ := compactOpens value
  rw [text] at same
  rw [(List.cons.inj same).1] at sort
  cases value <;> cases sort

theorem delimitedBy {c : Char} (rest : List Char) (stops : numeric c = false) : Delimited (c :: rest) := by
  intro d head
  rw [← Option.some.inj head]
  exact stops

def following {α : Type} (members : List α) (text : List Char) (close : Char) (rest : List Char) : List Char :=
  if members = [] then close :: rest else ',' :: (text ++ close :: rest)

theorem followingDelimited {α : Type} (members : List α) (text : List Char) {close : Char} (rest : List Char)
    (stops : numeric close = false) : Delimited (following members text close rest) := by
  unfold following
  split
  next => exact delimitedBy rest stops
  next => exact delimitedBy _ rfl

theorem followingApart {α : Type} {members members' : List α} {text text' rest rest' : List Char} {close : Char}
    (other : close ≠ ',') (same : following members text close rest = following members' text' close rest') :
    (members = [] ∧ members' = [] ∧ rest = rest') ∨ text ++ close :: rest = text' ++ close :: rest' := by
  unfold following at same
  split at same
  next ended =>
    split at same
    next ended' => exact .inl ⟨ended,ended',(List.cons.inj same).2⟩
    next => exact absurd (List.cons.inj same).1 other
  next =>
    split at same
    next => exact absurd (List.cons.inj same).1.symm other
    next => exact .inr (List.cons.inj same).2

theorem compactValuesCons (value : Json) (values : List Json) (rest : List Char) :
    compactValues (value :: values) ++ ']' :: rest = value.compact ++ following values (compactValues values) ']' rest := by
  cases values with
  | nil => simp [compactValues,following]
  | cons next values => simp [compactValues,following]

theorem compactFieldsCons (name : String) (value : Json) (fields : List (String × Json)) (rest : List Char) :
    compactFields ((name,value) :: fields) ++ '\x7d' :: rest =
      quoted name ++ ':' :: (value.compact ++ following fields (compactFields fields) '\x7d' rest) := by
  cases fields with
  | nil => simp [compactFields,following]
  | cons next fields => simp [compactFields,following]

mutual
theorem compactApart : ∀ (left right : Json) (rest rest' : List Char), Delimited rest → Delimited rest' →
    left.compact ++ rest = right.compact ++ rest' → left = right ∧ rest = rest'
  | .null,right,rest,rest',delimited,delimited',same => by
    have sort := sameSort same
    cases right <;> try cases sort
    exact ⟨rfl,by simpa [Json.compact] using same⟩
  | .bool left,right,rest,rest',delimited,delimited',same => by
    have sort := sameSort same
    cases right <;> try cases sort
    rename_i right
    cases left <;> cases right <;> simp_all [Json.compact]
  | .num left,right,rest,rest',delimited,delimited',same => by
    have sort := sameSort same
    cases right <;> try cases sort
    obtain ⟨values,behind⟩ := numberApart delimited delimited' same
    exact ⟨by rw [values],behind⟩
  | .str left,right,rest,rest',delimited,delimited',same => by
    have sort := sameSort same
    cases right <;> try cases sort
    obtain ⟨values,behind⟩ := quotedApart same
    exact ⟨by rw [values],behind⟩
  | .arr left,right,rest,rest',delimited,delimited',same => by
    have sort := sameSort same
    cases right <;> try cases sort
    simp only [Json.compact,List.cons_append,List.append_assoc,List.nil_append,List.cons.injEq,true_and] at same
    obtain ⟨values,behind⟩ := valuesApart left _ rest rest' same
    exact ⟨by rw [values],behind⟩
  | .obj left,right,rest,rest',delimited,delimited',same => by
    have sort := sameSort same
    cases right <;> try cases sort
    simp only [Json.compact,List.cons_append,List.append_assoc,List.nil_append,List.cons.injEq,true_and] at same
    obtain ⟨fields,behind⟩ := fieldsApart left _ rest rest' same
    exact ⟨by rw [fields],behind⟩

theorem valuesApart : ∀ (left right : List Json) (rest rest' : List Char),
    compactValues left ++ ']' :: rest = compactValues right ++ ']' :: rest' → left = right ∧ rest = rest'
  | [],[],rest,rest',same => ⟨rfl,by simpa [compactValues] using same⟩
  | [],value :: right,rest,rest',same => by
    rw [compactValuesCons] at same
    exact absurd same.symm (notClosed value _ _)
  | value :: left,[],rest,rest',same => by
    rw [compactValuesCons] at same
    exact absurd same (notClosed value _ _)
  | value :: left,value' :: right,rest,rest',same => by
    rw [compactValuesCons,compactValuesCons] at same
    obtain ⟨first,behind⟩ := compactApart value value' _ _ (followingDelimited left _ rest rfl)
      (followingDelimited right _ rest' rfl) same
    rcases followingApart (by decide) behind with ended | continued
    · exact ⟨by rw [first,ended.1,ended.2.1],ended.2.2⟩
    · obtain ⟨others,last⟩ := valuesApart left right rest rest' continued
      exact ⟨by rw [first,others],last⟩

theorem fieldsApart : ∀ (left right : List (String × Json)) (rest rest' : List Char),
    compactFields left ++ '\x7d' :: rest = compactFields right ++ '\x7d' :: rest' → left = right ∧ rest = rest'
  | [],[],rest,rest',same => ⟨rfl,by simpa [compactFields] using same⟩
  | [],(name,value) :: right,rest,rest',same => by
    rw [compactFieldsCons] at same
    cases same
  | (name,value) :: left,[],rest,rest',same => by
    rw [compactFieldsCons] at same
    cases same
  | (name,value) :: left,(name',value') :: right,rest,rest',same => by
    rw [compactFieldsCons,compactFieldsCons] at same
    obtain ⟨names,same⟩ := quotedApart same
    obtain ⟨first,behind⟩ := compactApart value value' _ _ (followingDelimited left _ rest rfl)
      (followingDelimited right _ rest' rfl) (List.cons.inj same).2
    rcases followingApart (by decide) behind with ended | continued
    · exact ⟨by rw [names,first,ended.1,ended.2.1],ended.2.2⟩
    · obtain ⟨others,last⟩ := fieldsApart left right rest rest' continued
      exact ⟨by rw [names,first,others],last⟩
end

/-- The bytes of the compact text determine the value: no name and no string in it can stand for structure. -/
theorem compactBytesInjective {left right : Json} (same : compactBytes left = compactBytes right) : left = right := by
  have texts : left.compact = right.compact := by
    have bytes := String.toByteArray_inj.mp (ByteArray.ext (Array.toList_inj.mp same))
    exact String.ofList_injective bytes
  have ended : Delimited [] := by
    intro c head
    cases head
  exact (compactApart left right [] [] ended ended (by rw [texts])).1

end Values

end CloudberryEtl.JsonText
