import CloudberryEtl.Publication
import CloudberryEtl.SqlQuoting

/-! The text of an LSN: `core::lsn`, the second parser of `source-postgres::publication`, and the replication command into
which that one lets a start position. A `&str` is the list of its characters and a `PgLsn` its u64 value. -/
namespace CloudberryEtl.LsnText
open Schema Change Result Catalog Publication SqlText SqlScanner SqlQuoting

section Grammar

def hexOf (part : List Char) : Nat := part.foldl (fun value c => 16 * value + (hexDigitValue c).getD 0) 0

def HexDigits (part : List Char) : Prop := ∀ c ∈ part, (hexDigitValue c).isSome

structure HexPart (part : List Char) : Prop where
  present : 1 ≤ part.length
  short : part.length ≤ 8
  digits : HexDigits part

def IsLsn (text : List Char) (value : PgLsn) : Prop :=
  ∃ high low, text = high ++ '/' :: low ∧ HexPart high ∧ HexPart low ∧ value = hexOf high * 2 ^ 32 + hexOf low

end Grammar

section Parsers

def splitOnce (separator : Char) : List Char → Option (List Char × List Char)
  | [] => none
  | c :: rest =>
    if c = separator then some ([],rest)
    else (splitOnce separator rest).map (fun parts => (c :: parts.1,parts.2))

def pushDigit (value : Nat) (c : Char) : Option Nat :=
  match hexDigitValue c with
  | some digit => if 16 * value + digit < 2 ^ 32 then some (16 * value + digit) else none
  | none => none

-- `u32::from_str_radix` with radix 16. A sign is skipped only before another character.
def fromStrRadix : List Char → Option Nat
  | [] => none
  | '+' :: rest => if rest = [] then none else rest.foldlM pushDigit 0
  | part => part.foldlM pushDigit 0

def fromStr (value : String) : Except CoreError PgLsn :=
  match splitOnce '/' value.toList with
  | none => .error (.invalidLsn value)
  | some (high,low) =>
    if high = [] ∨ low = [] ∨ 8 < String.utf8Len low then .error (.invalidLsn value)
    else match fromStrRadix high with
    | none => .error (.invalidLsn value)
    | some high =>
      match fromStrRadix low with
      | none => .error (.invalidLsn value)
      | some low => .ok (high <<< 32 ||| low)

def validateLsn (value : String) : Except SourceError Unit :=
  match splitOnce '/' value.toList with
  | none => .error (.invalidLsn value)
  | some (high,low) =>
    if high = [] ∨ low = [] ∨ 8 < String.utf8Len low then .error (.invalidLsn value)
    else match (fromStrRadix high).bind (fun _ => fromStrRadix low) with
    | some _ => .ok ()
    | none => .error (.invalidLsn value)

def upperHex (n : Nat) : List Char := (Nat.toDigits 16 n).map Char.toUpper

def paddedHex (n : Nat) : List Char := List.replicate (8 - (upperHex n).length) '0' ++ upperHex n

def display (lsn : PgLsn) : String := String.ofList (upperHex (lsn / 2 ^ 32) ++ '/' :: paddedHex (lsn % 2 ^ 32))

end Parsers

section Command

structure ReplicationCapabilities where
  protoVersion : Nat
  messages : Bool
  streaming : Bool
  twoPhase : Bool
  deriving DecidableEq, Repr

def ReplicationCapabilities.default : ReplicationCapabilities := ⟨1,true,false,false⟩

def ReplicationCapabilities.validate (capabilities : ReplicationCapabilities) : Except SourceError Unit :=
  if capabilities.protoVersion ≠ 1 then
    .error (.unsupported ("pgoutput protocol version " ++ toString capabilities.protoVersion ++
      " is not supported by the pinned decoder"))
  else if !capabilities.messages then
    .error (.contract "pgoutput messages must be enabled for transactional DDL notices")
  else if capabilities.streaming || capabilities.twoPhase then
    .error (.unsupported "streaming/two-phase logical replication is unavailable; pause and rebuild instead")
  else .ok ()

def quoteSourceIdentifier (identifier : String) : Except SourceError String :=
  if identifier = "" ∨ '\x00' ∈ identifier.toList then .error (.invalidIdentifier identifier)
  else .ok (String.ofList ('"' :: doubleQuotes identifier.toList ++ ['"']))

def quoteSourceLiteral (value : String) : Except SourceError String :=
  if '\x00' ∈ value.toList then .error (.invalidIdentifier value)
  else .ok (String.ofList ('\'' :: value.toList.flatMap (fun c => if c = '\'' then ['\'','\''] else [c]) ++ ['\'']))

def startReplicationSqlWithCapabilities (slotName startLsn publicationName : String)
    (capabilities : ReplicationCapabilities) : Except SourceError String := do
  validateName slotName
  validateName publicationName
  validateLsn startLsn
  capabilities.validate
  let slot ← quoteSourceIdentifier slotName
  let version ← quoteSourceLiteral (toString capabilities.protoVersion)
  let publication ← quoteSourceLiteral publicationName
  let messages ← quoteSourceLiteral (if capabilities.messages then "true" else "false")
  return "START_REPLICATION SLOT " ++ slot ++ " LOGICAL " ++ startLsn ++ " (\"proto_version\" " ++ version ++
    ", \"publication_names\" " ++ publication ++ ", \"messages\" " ++ messages ++ ")"

def startReplicationSql (slotName startLsn publicationName : String) : Except SourceError String :=
  startReplicationSqlWithCapabilities slotName startLsn publicationName .default

end Command

section Radix

theorem splitIff {separator : Char} {text high low : List Char} :
    splitOnce separator text = some (high,low) ↔ text = high ++ separator :: low ∧ separator ∉ high := by
  induction text generalizing high with
  | nil => simp [splitOnce]
  | cons c rest ih =>
    unfold splitOnce
    split
    next same =>
      subst same
      cases high with
      | nil => simp
      | cons d high =>
        simp only [Option.some.injEq,Prod.mk.injEq,List.nil_eq,reduceCtorEq,false_and,List.cons_append,List.cons.injEq,
          List.mem_cons,not_or,false_iff,not_and]
        exact fun same apart _ => absurd same.1 apart
    next apart =>
      cases high with
      | nil => simp [apart]
      | cons d high =>
        simp only [Option.map_eq_some_iff,Prod.exists,Prod.mk.injEq,List.cons.injEq,List.cons_append,List.mem_cons,not_or]
        constructor
        · intro found
          obtain ⟨first,second,inner,⟨rfl,rfl⟩,rfl⟩ := found
          obtain ⟨same,outside⟩ := ih.mp inner
          exact ⟨⟨rfl,same⟩,Ne.symm apart,outside⟩
        · intro found
          obtain ⟨⟨rfl,same⟩,_,outside⟩ := found
          exact ⟨high,low,ih.mpr ⟨same,outside⟩,⟨rfl,rfl⟩,rfl⟩

theorem hexFold (part : List Char) (value : Nat) :
    part.foldl (fun value c => 16 * value + (hexDigitValue c).getD 0) value = value * 16 ^ part.length + hexOf part := by
  unfold hexOf
  induction part generalizing value with
  | nil => simp
  | cons c part ih =>
    simp only [List.foldl_cons,List.length_cons]
    rw [ih,ih (16 * 0 + (hexDigitValue c).getD 0)]
    ring

theorem hexCons (c : Char) (part : List Char) :
    hexOf (c :: part) = (hexDigitValue c).getD 0 * 16 ^ part.length + hexOf part := by
  have folded := hexFold part (16 * 0 + (hexDigitValue c).getD 0)
  simpa [hexOf] using folded

theorem digitSmall {c : Char} {digit : Nat} (read : hexDigitValue c = some digit) : digit < 16 := by
  unfold hexDigitValue at read
  split at read
  next decimal =>
    have high : c.toNat ≤ '9'.toNat := decimal.2
    cases Option.some.inj read
    have nine : '9'.toNat = 57 := rfl
    have zero : '0'.toNat = 48 := rfl
    omega
  next =>
    split at read
    next upper =>
      have high : c.toNat ≤ 'F'.toNat := upper.2
      cases Option.some.inj read
      have last : 'F'.toNat = 70 := rfl
      have first : 'A'.toNat = 65 := rfl
      omega
    next =>
      split at read
      next lower =>
        have high : c.toNat ≤ 'f'.toNat := lower.2
        cases Option.some.inj read
        have last : 'f'.toNat = 102 := rfl
        have first : 'a'.toNat = 97 := rfl
        omega
      next => contradiction

theorem hexSmall (part : List Char) : hexOf part < 16 ^ part.length := by
  induction part with
  | nil => decide
  | cons c part ih =>
    rw [hexCons,List.length_cons,Nat.pow_succ]
    have digit : (hexDigitValue c).getD 0 ≤ 15 := by
      cases read : hexDigitValue c with
      | none => exact Nat.zero_le _
      | some digit => exact Nat.le_of_lt_succ (digitSmall read)
    have scaled := Nat.mul_le_mul_right (16 ^ part.length) digit
    omega

theorem digitsIff (part : List Char) : ∀ value < 2 ^ 32, ∀ result, part.foldlM pushDigit value = some result ↔
    HexDigits part ∧ result = value * 16 ^ part.length + hexOf part ∧ result < 2 ^ 32 := by
  -- The bound that every step checks is that of the whole value.
  induction part with
  | nil =>
    intro value small result
    have none' : HexDigits [] := by simp [HexDigits]
    simp only [List.foldlM_nil,pure,Option.some.injEq,none',true_and,List.length_nil,Nat.pow_zero,Nat.mul_one]
    exact ⟨fun same => ⟨by rw [same]; rfl,same ▸ small⟩,fun found => found.1.symm⟩
  | cons c part ih =>
    intro value small result
    have digits : HexDigits (c :: part) ↔ (hexDigitValue c).isSome ∧ HexDigits part := List.forall_mem_cons
    rw [List.foldlM_cons,hexCons,digits,List.length_cons,Nat.pow_succ]
    unfold pushDigit
    cases read : hexDigitValue c with
    | none => simp [bind]
    | some digit =>
      have whole : value * (16 ^ part.length * 16) + (digit * 16 ^ part.length + hexOf part) =
          (16 * value + digit) * 16 ^ part.length + hexOf part := by ring
      simp only [Option.isSome_some,true_and,Option.getD_some,whole]
      split
      next fits => exact ih _ fits result
      next large =>
        have positive : 1 ≤ 16 ^ part.length := Nat.one_le_pow _ _ (by decide)
        have least := Nat.mul_le_mul_left (16 * value + digit) positive
        simp only [bind,Option.bind_none,reduceCtorEq,false_iff,not_and]
        intro _ same
        omega

def unsigned : List Char → List Char
  | '+' :: rest => rest
  | part => part

structure Number (part : List Char) : Prop where
  present : unsigned part ≠ []
  digits : HexDigits (unsigned part)

theorem radixIff (part : List Char) (result : Nat) :
    fromStrRadix part = some result ↔ Number part ∧ result = hexOf (unsigned part) ∧ result < 2 ^ 32 := by
  have digits (rest : List Char) := digitsIff rest 0 (by decide) result
  simp only [Nat.zero_mul,Nat.zero_add] at digits
  have number : Number part ↔ unsigned part ≠ [] ∧ HexDigits (unsigned part) :=
    ⟨fun number => ⟨number.present,number.digits⟩,fun both => ⟨both.1,both.2⟩⟩
  rw [number]
  unfold fromStrRadix
  split
  next => simp [unsigned]
  next rest =>
    by_cases empty : rest = []
    · simp [empty,unsigned]
    · simp only [empty,if_false,unsigned,ne_eq,not_false_eq_true,true_and]
      exact digits rest
  next present unsigned' =>
    have same : unsigned part = part := by
      unfold unsigned
      split
      next rest => exact absurd rfl (unsigned' rest)
      next => rfl
    have some' : part ≠ [] := present
    simp only [same,some',ne_eq,not_false_eq_true,true_and]
    exact digits part

end Radix

section Acceptance

theorem slashNoDigit : hexDigitValue '/' = none := by decide

theorem plusNoDigit : hexDigitValue '+' = none := by decide

theorem digitByte {c : Char} (digit : (hexDigitValue c).isSome) : c.utf8Size = 1 := by
  have low : c.toNat ≤ 'f'.toNat := by
    unfold hexDigitValue at digit
    split at digit
    next decimal => exact le_trans (show c.toNat ≤ '9'.toNat from decimal.2) (by decide)
    next =>
      split at digit
      next upper => exact le_trans (show c.toNat ≤ 'F'.toNat from upper.2) (by decide)
      next =>
        split at digit
        next lower => exact lower.2
        next => contradiction
  exact Char.utf8Size_eq_one_iff.mpr (UInt32.le_iff_toNat_le.mpr (le_trans low (by decide)))

theorem digitsWithoutSign {part : List Char} (digits : HexDigits part) {c : Char} (other : hexDigitValue c = none) :
    c ∉ part := by
  intro mem
  have digit := digits c mem
  rw [other] at digit
  contradiction

theorem unsignedCases (part : List Char) : part = '+' :: unsigned part ∨ part = unsigned part := by
  unfold unsigned
  split
  · exact .inl rfl
  · exact .inr rfl

theorem numberWithoutSlash {part : List Char} (number : Number part) : '/' ∉ part := by
  have inside := digitsWithoutSign number.digits slashNoDigit
  rcases unsignedCases part with sign | plain
  · rw [sign]
    simpa using inside
  · rwa [plain]

theorem numberBytes {part : List Char} (number : Number part) : String.utf8Len part = part.length := by
  refine asciiBytes ?_
  intro c mem
  have digits (c : Char) (mem : c ∈ unsigned part) : c.utf8Size = 1 := digitByte (number.digits c mem)
  rcases unsignedCases part with sign | plain
  · rw [sign] at mem
    rcases List.mem_cons.mp mem with rfl | mem
    · rfl
    · exact digits c mem
  · rw [plain] at mem
    exact digits c mem

theorem unsignedShorter (part : List Char) : (unsigned part).length ≤ part.length := by
  rcases unsignedCases part with sign | plain
  · rw [sign]
    simp [unsigned]
  · rw [← plain]

theorem hexWithin {part : List Char} (short : part.length ≤ 8) : hexOf part < 2 ^ 32 :=
  (hexSmall part).trans_le ((Nat.pow_le_pow_right (by decide) short).trans (by decide))

structure Accepted (high low : List Char) : Prop where
  highNumber : Number high
  lowNumber : Number low
  short : low.length ≤ 8
  small : hexOf (unsigned high) < 2 ^ 32

theorem presentOfNumber {part : List Char} (number : Number part) : part ≠ [] := by
  intro empty
  rw [empty] at number
  exact number.present rfl

theorem fromStrIff (value : String) (lsn : PgLsn) : fromStr value = .ok lsn ↔
    ∃ high low, value.toList = high ++ '/' :: low ∧ Accepted high low ∧
      lsn = hexOf (unsigned high) * 2 ^ 32 + hexOf (unsigned low) := by
  have joined {high low : Nat} (small : low < 2 ^ 32) : high <<< 32 ||| low = high * 2 ^ 32 + low := by
    rw [← Nat.shiftLeft_add_eq_or_of_lt small,Nat.shiftLeft_eq]
  unfold fromStr
  constructor
  · intro ok
    split at ok
    next => contradiction
    next high low split' =>
      split at ok
      next => contradiction
      next parts =>
        push Not at parts
        split at ok
        next => contradiction
        next highValue readHigh =>
          split at ok
          next => contradiction
          next lowValue readLow =>
            obtain ⟨numberHigh,sameHigh,small⟩ := (radixIff _ _).mp readHigh
            obtain ⟨numberLow,sameLow,smallLow⟩ := (radixIff _ _).mp readLow
            refine ⟨high,low,(splitIff.mp split').1,⟨numberHigh,numberLow,numberBytes numberLow ▸ parts.2.2,
              sameHigh ▸ small⟩,?_⟩
            rw [← Except.ok.inj ok,joined smallLow,sameHigh,sameLow]
  · intro found
    obtain ⟨high,low,text,accepted,rfl⟩ := found
    have small := hexWithin ((unsignedShorter low).trans accepted.short)
    have bytes := numberBytes accepted.lowNumber
    have short := accepted.short
    rw [splitIff.mpr ⟨text,numberWithoutSlash accepted.highNumber⟩]
    simp only [presentOfNumber accepted.highNumber,presentOfNumber accepted.lowNumber,bytes,Nat.not_lt.mpr short,or_self,
      if_false,(radixIff high _).mpr ⟨accepted.highNumber,rfl,accepted.small⟩,
      (radixIff low _).mpr ⟨accepted.lowNumber,rfl,small⟩,joined small]

/-- Both parsers accept the same texts. -/
theorem parsersAgree (value : String) : validateLsn value = .ok () ↔ ∃ lsn, fromStr value = .ok lsn := by
  unfold validateLsn fromStr
  cases splitOnce '/' value.toList with
  | none => simp
  | some parts =>
    rcases parts with ⟨high,low⟩
    simp only
    split
    next => simp
    next =>
      cases fromStrRadix high with
      | none => simp
      | some highValue => cases fromStrRadix low <;> simp

end Acceptance

section Exactness

theorem partOfNumber {part : List Char} (number : Number part) (plain : '+' ∉ part) (short : part.length ≤ 8) :
    HexPart part ∧ unsigned part = part := by
  have same : unsigned part = part := by
    rcases unsignedCases part with sign | same
    · exact absurd (sign ▸ List.mem_cons_self) plain
    · exact same.symm
  have digits := number.digits
  rw [same] at digits
  exact ⟨⟨List.length_pos_iff.mpr (presentOfNumber number),short,digits⟩,same⟩

theorem numberOfPart {part : List Char} (hex : HexPart part) : Number part ∧ unsigned part = part := by
  have plain := digitsWithoutSign hex.digits plusNoDigit
  have same : unsigned part = part := by
    rcases unsignedCases part with sign | same
    · exact absurd (sign ▸ List.mem_cons_self) plain
    · exact same.symm
  exact ⟨⟨same.symm ▸ List.length_pos_iff.mp hex.present,same.symm ▸ hex.digits⟩,same⟩

theorem fromStrOfLsn {value : String} {lsn : PgLsn} (text : IsLsn value.toList lsn) : fromStr value = .ok lsn := by
  obtain ⟨high,low,split',hexHigh,hexLow,same⟩ := text
  obtain ⟨numberHigh,plainHigh⟩ := numberOfPart hexHigh
  obtain ⟨numberLow,plainLow⟩ := numberOfPart hexLow
  refine (fromStrIff value lsn).mpr ⟨high,low,split',⟨numberHigh,numberLow,hexLow.short,?_⟩,?_⟩
  · rw [plainHigh]
    exact hexWithin hexHigh.short
  · rw [plainHigh,plainLow]
    exact same

/- A text that both parsers accept though the server's grammar does not: with a sign before one of the numbers, or with
leading zeros that make the first number longer than eight digits. -/
def Loose (text : List Char) : Prop :=
  ∃ high low, text = high ++ '/' :: low ∧ Accepted high low ∧ ('+' ∈ text ∨ 8 < high.length)

theorem lsnOfAccepted {high low : List Char} (accepted : Accepted high low) (strict : ¬ Loose (high ++ '/' :: low)) :
    IsLsn (high ++ '/' :: low) (hexOf (unsigned high) * 2 ^ 32 + hexOf (unsigned low)) := by
  have plain : '+' ∉ high ++ '/' :: low := fun sign => strict ⟨high,low,rfl,accepted,.inl sign⟩
  have short : high.length ≤ 8 := by
    by_contra long
    exact strict ⟨high,low,rfl,accepted,.inr (Nat.not_le.mp long)⟩
  simp only [List.mem_append,List.mem_cons,not_or] at plain
  obtain ⟨hexHigh,plainHigh⟩ := partOfNumber accepted.highNumber plain.1 short
  obtain ⟨hexLow,plainLow⟩ := partOfNumber accepted.lowNumber plain.2.2 accepted.short
  exact ⟨high,low,rfl,hexHigh,hexLow,by rw [plainHigh,plainLow]⟩

theorem looseNoLsn {text : List Char} {lsn : PgLsn} (loose : Loose text) : ¬ IsLsn text lsn := by
  intro grammar
  obtain ⟨high,low,split',accepted,excess⟩ := loose
  obtain ⟨first,second,same,hexFirst,hexSecond,_⟩ := grammar
  have plain : '+' ∉ text := by
    rw [same]
    simp only [List.mem_append,List.mem_cons,not_or]
    exact ⟨digitsWithoutSign hexFirst.digits plusNoDigit,by decide,digitsWithoutSign hexSecond.digits plusNoDigit⟩
  have one := splitIff.mpr ⟨split',numberWithoutSlash accepted.highNumber⟩
  have other := splitIff.mpr ⟨same,digitsWithoutSign hexFirst.digits slashNoDigit⟩
  rw [one] at other
  have equal : high = first := congrArg Prod.fst (Option.some.inj other)
  rcases excess with sign | long
  · exact plain sign
  · rw [equal] at long
    exact absurd hexFirst.short (Nat.not_le.mpr long)

/- What the parsers and the command owe a text: the first reads exactly the server's texts, with their value, the second
accepts exactly these, and a start position that gets into a command is one of them. -/
structure ReadsExactly (value : String) : Prop where
  parsed : ∀ lsn, fromStr value = .ok lsn ↔ IsLsn value.toList lsn
  validated : validateLsn value = .ok () ↔ ∃ lsn, IsLsn value.toList lsn
  started : ∀ slotName publicationName capabilities sql,
    startReplicationSqlWithCapabilities slotName value publicationName capabilities = .ok sql →
      ∃ lsn, IsLsn value.toList lsn

theorem startValidated {slotName startLsn publicationName sql : String} {capabilities : ReplicationCapabilities}
    (ok : startReplicationSqlWithCapabilities slotName startLsn publicationName capabilities = .ok sql) :
    validateLsn startLsn = .ok () := by
  obtain ⟨_,_,ok⟩ := bindOk.mp ok
  obtain ⟨_,_,ok⟩ := bindOk.mp ok
  obtain ⟨_,valid,_⟩ := bindOk.mp ok
  exact valid

theorem readsExactlyIff (value : String) : ReadsExactly value ↔ ¬ Loose value.toList := by
  constructor
  · intro reads loose
    have excess := loose
    obtain ⟨high,low,split',accepted,_⟩ := loose
    have ok := (fromStrIff value _).mpr ⟨high,low,split',accepted,rfl⟩
    exact looseNoLsn excess ((reads.parsed _).mp ok)
  · intro strict
    have parsed (lsn : PgLsn) : fromStr value = .ok lsn ↔ IsLsn value.toList lsn := by
      refine ⟨?_,fromStrOfLsn⟩
      intro ok
      obtain ⟨high,low,split',accepted,rfl⟩ := (fromStrIff value lsn).mp ok
      rw [split'] at strict ⊢
      exact lsnOfAccepted accepted strict
    have validated : validateLsn value = .ok () ↔ ∃ lsn, IsLsn value.toList lsn := by
      rw [parsersAgree]
      exact exists_congr parsed
    exact ⟨parsed,validated,fun _ _ _ _ ok => validated.mp (startValidated ok)⟩

end Exactness

section RoundTrip

theorem upperDigit (c : Char) (mem : c ∈ upperHex n) : (hexDigitValue c).isSome := by
  induction n using Nat.strongRecOn with
  | ind n ih =>
    unfold upperHex at mem
    rw [Nat.toDigits_eq_if (by decide)] at mem
    split at mem
    next small =>
      rw [List.map_singleton,List.mem_singleton] at mem
      rw [mem,← hexUpper,hexUpperValue small]
      rfl
    next large =>
      rw [List.map_append,List.map_singleton,List.mem_append,List.mem_singleton] at mem
      rcases mem with mem | last
      · exact ih (n / 16) (Nat.div_lt_self (by omega) (by decide)) mem
      · rw [last,← hexUpper,hexUpperValue (Nat.mod_lt n (by decide))]
        rfl

theorem hexSnoc (part : List Char) (c : Char) : hexOf (part ++ [c]) = 16 * hexOf part + (hexDigitValue c).getD 0 := by
  simp [hexOf,List.foldl_append]

theorem upperValue (n : Nat) : hexOf (upperHex n) = n := by
  induction n using Nat.strongRecOn with
  | ind n ih =>
    unfold upperHex
    rw [Nat.toDigits_eq_if (by decide)]
    split
    next small =>
      have digit : hexDigitValue (Nat.digitChar n).toUpper = some n := hexUpperValue small
      simp [hexOf,digit]
    next large =>
      have digit : hexDigitValue (Nat.digitChar (n % 16)).toUpper = some (n % 16) :=
        hexUpperValue (Nat.mod_lt n (by decide))
      have head : hexOf (List.map Char.toUpper (Nat.toDigits 16 (n / 16))) = n / 16 :=
        ih (n / 16) (Nat.div_lt_self (by omega) (by decide))
      rw [List.map_append,List.map_singleton,hexSnoc,head,digit,Option.getD_some]
      omega

theorem zerosValue (count : Nat) (part : List Char) : hexOf (List.replicate count '0' ++ part) = hexOf part := by
  induction count with
  | zero => rfl
  | succ count ih =>
    have zero : hexDigitValue '0' = some 0 := by decide
    rw [List.replicate_succ,List.cons_append,hexCons,zero,ih,Option.getD_some,Nat.zero_mul,Nat.zero_add]

theorem upperPart {n : Nat} (small : n < 2 ^ 32) : HexPart (upperHex n) where
  present := by
    unfold upperHex
    rw [List.length_map]
    exact Nat.length_toDigits_pos
  short := by
    unfold upperHex
    rw [List.length_map]
    exact Nat.toDigits_length 16 n 8 (by decide) (small.trans_le (by decide))
  digits := upperDigit

theorem paddedPart {n : Nat} (small : n < 2 ^ 32) : HexPart (paddedHex n) := by
  have upper := upperPart small
  have length : (paddedHex n).length = 8 := by
    have short := upper.short
    simp only [paddedHex,List.length_append,List.length_replicate]
    omega
  refine ⟨length ▸ by decide,length.le,?_⟩
  intro c mem
  rcases List.mem_append.mp mem with zero | mem
  · rw [List.eq_of_mem_replicate zero]
    decide
  · exact upper.digits c mem

theorem displayIsLsn {lsn : Nat} (small : lsn < 2 ^ 64) : IsLsn (display lsn).toList lsn := by
  have high : lsn / 2 ^ 32 < 2 ^ 32 := by omega
  have low : lsn % 2 ^ 32 < 2 ^ 32 := Nat.mod_lt _ (by decide)
  refine ⟨upperHex (lsn / 2 ^ 32),paddedHex (lsn % 2 ^ 32),String.toList_ofList,upperPart high,paddedPart low,?_⟩
  rw [upperValue,paddedHex,zerosValue,upperValue]
  exact (Nat.div_add_mod' lsn (2 ^ 32)).symm

end RoundTrip

/-- Every u64 is read back from its text. The parsers and the replication command take exactly the server's texts, with
their values, except the loose ones, which both parsers accept. -/
theorem lsnTextExact (lsn : UInt64) (value : String) :
    fromStr (display lsn.toNat) = .ok lsn.toNat ∧ (ReadsExactly value ↔ ¬ Loose value.toList) :=
  ⟨fromStrOfLsn (displayIsLsn lsn.toNat_lt),readsExactlyIff value⟩

theorem signedLsnAccepted : fromStr "+1/0" = .ok 4294967296 ∧ fromStr "000000001/0" = .ok 4294967296 ∧
    (startReplicationSql "slot" "+1/0" "pub").toOption.isSome ∧ ¬ ∀ value, ReadsExactly value := by
  have signed : fromStr "+1/0" = .ok 4294967296 := by decide +kernel
  have padded : fromStr "000000001/0" = .ok 4294967296 := by decide +kernel
  refine ⟨signed,padded,by decide +kernel,?_⟩
  intro reads
  obtain ⟨high,low,split',accepted,_⟩ := (fromStrIff "+1/0" _).mp signed
  exact (readsExactlyIff "+1/0").mp (reads "+1/0") ⟨high,low,split',accepted,.inl (by decide)⟩

end CloudberryEtl.LsnText
