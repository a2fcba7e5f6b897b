import CloudberryEtl.Change
import CloudberryEtl.Result

/-! Text COPY rows: the encoder of `target::copy` and the server's reading of its output. The server cuts the
stream at newlines and a line at tabs, skipping the octet after a backslash; `\N` is NULL before unescaping. -/
namespace CloudberryEtl.CopyText
open Change Result

inductive CopyEncodeError where
  | emptyRow
  | unchangedToast
  | binaryValue
  deriving DecidableEq, Repr

def encodeByte (byte : UInt8) : Bytes :=
  if byte = 92 then [92,92]
  else if byte = 9 then [92,116]
  else if byte = 10 then [92,110]
  else if byte = 13 then [92,114]
  else if byte = 8 then [92,98]
  else if byte = 12 then [92,102]
  else if byte = 11 then [92,118]
  else if byte = 0 then [92,48,48,48]
  else [byte]

def encodeTextBytes (value : Bytes) : Bytes := value.flatMap encodeByte

def encodeField : Cell → Except CopyEncodeError Bytes
  | .null => .ok [92,78]
  | .unchangedToast => .error .unchangedToast
  | .binary _ => .error .binaryValue
  | .text value => .ok (encodeTextBytes value)

def encodeRest : List Cell → Except CopyEncodeError Bytes
  | [] => .ok []
  | cell :: rest => do
      let field ← encodeField cell
      let tail ← encodeRest rest
      return 9 :: field ++ tail

def encodeRow : List Cell → Except CopyEncodeError Bytes
  | [] => .error .emptyRow
  | first :: rest => do
      let field ← encodeField first
      let tail ← encodeRest rest
      return field ++ tail ++ [10]

def pushHead (byte : UInt8) : List Bytes → List Bytes
  | [] => [[byte]]
  | head :: rest => (byte :: head) :: rest

def splitFrom (delimiter : UInt8) : Bool → Bytes → List Bytes
  | _,[] => [[]]
  | true,c :: rest => pushHead c (splitFrom delimiter false rest)
  | false,c :: rest =>
      if c = delimiter then [] :: splitFrom delimiter false rest
      else pushHead c (splitFrom delimiter (c == 92) rest)

inductive EscapeMode where
  | plain
  | escaped
  | octal (value : UInt8) (remaining : Nat)
  | hexStart
  | hex (value : UInt8)
  deriving DecidableEq, Repr

def isOctal (c : UInt8) : Bool := 48 ≤ c && c ≤ 55

def hexValue (c : UInt8) : Option UInt8 :=
  if 48 ≤ c ∧ c ≤ 57 then some (c - 48)
  else if 97 ≤ c ∧ c ≤ 102 then some (c - 87)
  else if 65 ≤ c ∧ c ≤ 70 then some (c - 55)
  else none

def simpleEscape (c : UInt8) : UInt8 :=
  if c = 98 then 8 else if c = 102 then 12 else if c = 110 then 10 else if c = 114 then 13
  else if c = 116 then 9 else if c = 118 then 11 else c

/- Octal escapes take up to three digits and hexadecimal ones up to two; the value is reduced to an octet. -/
def unescapeFrom : EscapeMode → Bytes → Bytes
  | .plain,[] => []
  | .plain,c :: rest => if c = 92 then unescapeFrom .escaped rest else c :: unescapeFrom .plain rest
  | .escaped,[] => [92]
  | .escaped,c :: rest =>
      if isOctal c then unescapeFrom (.octal (c - 48) 2) rest
      else if c = 120 then unescapeFrom .hexStart rest
      else simpleEscape c :: unescapeFrom .plain rest
  | .octal value _,[] => [value]
  | .octal value remaining,c :: rest =>
      if isOctal c && remaining = 2 then unescapeFrom (.octal (value * 8 + (c - 48)) 1) rest
      else if isOctal c && remaining = 1 then (value * 8 + (c - 48)) :: unescapeFrom .plain rest
      else value :: (if c = 92 then unescapeFrom .escaped rest else c :: unescapeFrom .plain rest)
  | .hexStart,[] => [120]
  | .hexStart,c :: rest =>
      match hexValue c with
      | some value => unescapeFrom (.hex value) rest
      | none => 120 :: (if c = 92 then unescapeFrom .escaped rest else c :: unescapeFrom .plain rest)
  | .hex value,[] => [value]
  | .hex value,c :: rest =>
      match hexValue c with
      | some digit => (value * 16 + digit) :: unescapeFrom .plain rest
      | none => value :: (if c = 92 then unescapeFrom .escaped rest else c :: unescapeFrom .plain rest)

def decodeField (raw : Bytes) : Option Bytes := if raw = [92,78] then none else some (unescapeFrom .plain raw)

def decodeLine (line : Bytes) : List (Option Bytes) := (splitFrom 9 false line).map decodeField

/- What follows the last newline is a line only when it is not empty; a line `\.` ends the data. -/
def readLines (stream : Bytes) : List Bytes :=
  let parts := splitFrom 10 false stream
  let lines := if parts.getLast? = some [] then parts.dropLast else parts
  lines.takeWhile (· ≠ [92,46])

def decodeStream (stream : Bytes) : List (List (Option Bytes)) := (readLines stream).map decodeLine

inductive Sealed (delimiter : UInt8) : Bytes → Prop where
  | nil : Sealed delimiter []
  | plain {c rest} (apart : c ≠ 92) (other : c ≠ delimiter) (tail : Sealed delimiter rest) :
      Sealed delimiter (c :: rest)
  | pair {c rest} (backslash : (92 : UInt8) ≠ delimiter) (tail : Sealed delimiter rest) :
      Sealed delimiter (92 :: c :: rest)

theorem Sealed.append {delimiter a b} (left : Sealed delimiter a) (right : Sealed delimiter b) :
    Sealed delimiter (a ++ b) := by
  induction left with
  | nil => exact right
  | plain apart other tail ih => exact .plain apart other ih
  | pair backslash tail ih => exact .pair backslash ih

def prependHead (bytes : Bytes) : List Bytes → List Bytes
  | [] => [bytes]
  | head :: rest => (bytes ++ head) :: rest

theorem splitFromNeNil (delimiter : UInt8) (escaped : Bool) (bytes : Bytes) :
    splitFrom delimiter escaped bytes ≠ [] := by
  cases bytes with
  | nil => simp [splitFrom]
  | cons c rest =>
    cases escaped
    · simp only [splitFrom]
      split
      · simp
      · cases h : splitFrom delimiter (c == 92) rest <;> simp [pushHead]
    · simp only [splitFrom]
      cases h : splitFrom delimiter false rest <;> simp [pushHead]

theorem pushHeadPrepend (c : UInt8) (bytes : Bytes) {parts : List Bytes} (some : parts ≠ []) :
    pushHead c (prependHead bytes parts) = prependHead (c :: bytes) parts := by
  cases parts with
  | nil => exact absurd rfl some
  | cons head rest => rfl

theorem sealedSplit {delimiter bytes} (closed : Sealed delimiter bytes) (tail : Bytes) :
    splitFrom delimiter false (bytes ++ tail) = prependHead bytes (splitFrom delimiter false tail) := by
  have some := splitFromNeNil delimiter false tail
  induction closed with
  | nil =>
    cases h : splitFrom delimiter false tail with
    | nil => exact absurd h some
    | cons head rest => simp [prependHead,h]
  | @plain c rest apart other closed ih =>
    have notSlash : (c == 92) = false := by simpa using apart
    simp only [List.cons_append,splitFrom,if_neg other,notSlash,ih]
    exact pushHeadPrepend c rest some
  | @pair c rest backslash closed ih =>
    simp only [List.cons_append,splitFrom,if_neg backslash,beq_self_eq_true,ih,pushHeadPrepend _ _ some]

theorem sealedSplitEnd {delimiter bytes} (closed : Sealed delimiter bytes) :
    splitFrom delimiter false bytes = [bytes] := by
  simpa [splitFrom,prependHead] using sealedSplit closed []

theorem sealedSplitDelimiter {delimiter bytes} (closed : Sealed delimiter bytes) (tail : Bytes) :
    splitFrom delimiter false (bytes ++ delimiter :: tail) = bytes :: splitFrom delimiter false tail := by
  rw [sealedSplit closed]
  simp [splitFrom,prependHead]

def cellValue : Cell → Option Bytes
  | .text value => some value
  | _ => none

theorem encodeByteSealed {delimiter : UInt8} (known : delimiter = 9 ∨ delimiter = 10) (byte : UInt8) :
    Sealed delimiter (encodeByte byte) := by
  have slash : (92 : UInt8) ≠ delimiter := by rcases known with rfl | rfl <;> decide
  have zero : (48 : UInt8) ≠ delimiter := by rcases known with rfl | rfl <;> decide
  unfold encodeByte
  split_ifs with h1 h2 h3 h4 h5 h6 h7 h8
  case pos => exact .pair slash .nil
  case pos => exact .pair slash .nil
  case pos => exact .pair slash .nil
  case pos => exact .pair slash .nil
  case pos => exact .pair slash .nil
  case pos => exact .pair slash .nil
  case pos => exact .pair slash .nil
  case pos => exact .pair slash (.plain (by decide) zero (.plain (by decide) zero .nil))
  case neg => exact .plain h1 (by rcases known with rfl | rfl <;> assumption) .nil

theorem encodeTextSealed {delimiter : UInt8} (known : delimiter = 9 ∨ delimiter = 10) (value : Bytes) :
    Sealed delimiter (encodeTextBytes value) := by
  induction value with
  | nil => exact .nil
  | cons byte rest ih => exact (encodeByteSealed known byte).append ih

theorem unescapeEncodeByte (byte : UInt8) (rest : Bytes) :
    unescapeFrom .plain (encodeByte byte ++ rest) = byte :: unescapeFrom .plain rest := by
  unfold encodeByte
  split_ifs with h1 h2 h3 h4 h5 h6 h7 h8
  case neg => simp [unescapeFrom,h1]
  all_goals simp_all [unescapeFrom,isOctal,simpleEscape]

theorem unescapeEncodeText (value : Bytes) : unescapeFrom .plain (encodeTextBytes value) = value := by
  induction value with
  | nil => rfl
  | cons byte rest ih => exact (unescapeEncodeByte byte (encodeTextBytes rest)).trans (congrArg _ ih)

theorem decodeEncodeText (value : Bytes) : decodeField (encodeTextBytes value) = some value := by
  have differs : encodeTextBytes value ≠ [92,78] := by
    intro same
    have decoded := unescapeEncodeText value
    rw [same] at decoded
    subst decoded
    exact absurd same (by decide)
  simp [decodeField,differs,unescapeEncodeText]

theorem encodeFieldSealed {delimiter : UInt8} (known : delimiter = 9 ∨ delimiter = 10) {cell field}
    (ok : encodeField cell = .ok field) : Sealed delimiter field := by
  cases cell with
  | null =>
    cases Except.ok.inj ok
    exact .pair (by rcases known with rfl | rfl <;> decide) .nil
  | unchangedToast => contradiction
  | text value => cases Except.ok.inj ok; exact encodeTextSealed known value
  | binary value => contradiction

theorem decodeEncodeField {cell field} (ok : encodeField cell = .ok field) : decodeField field = cellValue cell := by
  cases cell with
  | null => cases Except.ok.inj ok; rfl
  | unchangedToast => contradiction
  | text value => cases Except.ok.inj ok; exact decodeEncodeText value
  | binary value => contradiction

theorem encodeRestSealed {rest bytes} (ok : encodeRest rest = .ok bytes) : Sealed 10 bytes := by
  induction rest generalizing bytes with
  | nil => cases Except.ok.inj ok; exact .nil
  | cons cell rest ih =>
    obtain ⟨field,hf,ok⟩ := bindOk.mp ok
    obtain ⟨tail,ht,ok⟩ := bindOk.mp ok
    cases Except.ok.inj ok
    exact .plain (by decide) (by decide) ((encodeFieldSealed (.inr rfl) hf).append (ih ht))

theorem decodeEncodeRest {field rest bytes} (closed : Sealed 9 field) (ok : encodeRest rest = .ok bytes) :
    decodeLine (field ++ bytes) = decodeField field :: rest.map cellValue := by
  induction rest generalizing field bytes with
  | nil =>
    cases Except.ok.inj ok
    simp [decodeLine,sealedSplitEnd closed]
  | cons cell rest ih =>
    obtain ⟨next,hf,ok⟩ := bindOk.mp ok
    obtain ⟨tail,ht,ok⟩ := bindOk.mp ok
    cases Except.ok.inj ok
    have following := ih (encodeFieldSealed (.inl rfl) hf) ht
    unfold decodeLine at following ⊢
    rw [List.cons_append,sealedSplitDelimiter closed,List.map_cons,following,decodeEncodeField hf,List.map_cons]

/-- One encoded row is a closed line and its newline, and the line reads back as the cells' values. -/
theorem encodeRowLine {row bytes} (ok : encodeRow row = .ok bytes) :
    ∃ line, bytes = line ++ [10] ∧ Sealed 10 line ∧ decodeLine line = row.map cellValue := by
  cases row with
  | nil => contradiction
  | cons first rest =>
    obtain ⟨field,hf,ok⟩ := bindOk.mp ok
    obtain ⟨tail,ht,ok⟩ := bindOk.mp ok
    cases Except.ok.inj ok
    refine ⟨field ++ tail,rfl,(encodeFieldSealed (.inr rfl) hf).append (encodeRestSealed ht),?_⟩
    rw [decodeEncodeRest (encodeFieldSealed (.inl rfl) hf) ht,decodeEncodeField hf,List.map_cons]

theorem encodeRowNotMarker {row line} (ok : encodeRow row = .ok (line ++ [10]))
    (decoded : decodeLine line = row.map cellValue) : line ≠ [92,46] := by
  rintro rfl
  have single : row.map cellValue = [some [46]] := decoded.symm.trans (by decide)
  match row,single with
  | [.text value],single =>
    simp only [List.map_cons,List.map_nil,cellValue,List.cons.injEq,Option.some.injEq,and_true] at single
    subst single
    exact absurd ok (by decide)

theorem splitRows {rows : List (List Cell)} {chunks : List Bytes}
    (encoded : List.Forall₂ (fun row bytes => encodeRow row = .ok bytes) rows chunks) :
    ∃ lines, splitFrom 10 false chunks.flatten = lines ++ [[]] ∧ (∀ line ∈ lines, line ≠ [92,46]) ∧
      lines.map decodeLine = rows.map (List.map cellValue) := by
  induction encoded with
  | nil => exact ⟨[],rfl,by simp,rfl⟩
  | @cons row bytes rows chunks ok tail ih =>
    obtain ⟨lines,split,markers,decoded⟩ := ih
    obtain ⟨line,rfl,closed,read⟩ := encodeRowLine ok
    refine ⟨line :: lines,?_,?_,by simp [read,decoded]⟩
    · rw [List.flatten_cons,List.append_assoc,List.singleton_append,sealedSplitDelimiter closed,split,List.cons_append]
    · simpa using ⟨encodeRowNotMarker ok read,markers⟩

theorem decodeStreamRows {rows : List (List Cell)} {chunks : List Bytes}
    (encoded : List.Forall₂ (fun row bytes => encodeRow row = .ok bytes) rows chunks) :
    decodeStream chunks.flatten = rows.map (List.map cellValue) := by
  obtain ⟨lines,split,markers,decoded⟩ := splitRows encoded
  have kept : lines.takeWhile (· ≠ [92,46]) = lines := by
    rw [List.takeWhile_eq_self_iff]
    simpa using markers
  simp only [decodeStream,readLines,split,List.getLast?_concat,if_true,List.dropLast_concat,kept,decoded]

structure CopyRow where
  cells : List Cell
  filled : cells ≠ []
  valued : ∀ cell ∈ cells, cell = .null ∨ ∃ value, cell = .text value

def valueCell : Option Bytes → Cell
  | none => .null
  | some value => .text value

def Framed (field : Bytes) : Prop := 9 ∉ field ∧ 10 ∉ field ∧ 13 ∉ field

theorem encodeByteFramed (byte : UInt8) : Framed (encodeByte byte) := by
  unfold encodeByte
  split_ifs with h1 h2 h3 h4 h5 h6 h7 h8
  case neg => exact ⟨by simpa using Ne.symm h2,by simpa using Ne.symm h3,by simpa using Ne.symm h4⟩
  all_goals exact ⟨by decide,by decide,by decide⟩

theorem encodeTextFramed (value : Bytes) : Framed (encodeTextBytes value) := by
  induction value with
  | nil => exact ⟨by simp [encodeTextBytes],by simp [encodeTextBytes],by simp [encodeTextBytes]⟩
  | cons byte rest ih =>
    have head := encodeByteFramed byte
    simp only [Framed,encodeTextBytes,List.flatMap_cons,List.mem_append,not_or] at ih head ⊢
    exact ⟨⟨head.1,ih.1⟩,⟨head.2.1,ih.2.1⟩,⟨head.2.2,ih.2.2⟩⟩

theorem encodeFieldFramed {cell field} (ok : encodeField cell = .ok field) : Framed field := by
  cases cell with
  | null =>
    cases Except.ok.inj ok
    exact ⟨by decide,by decide,by decide⟩
  | unchangedToast => contradiction
  | text value =>
    cases Except.ok.inj ok
    exact encodeTextFramed value
  | binary value => contradiction

theorem encodeFieldOk {cell : Cell} (valued : cell = .null ∨ ∃ value, cell = .text value) :
    ∃ field, encodeField cell = .ok field := by
  rcases valued with same | ⟨value,same⟩
  · exact ⟨[92,78],by rw [same]; rfl⟩
  · exact ⟨encodeTextBytes value,by rw [same]; rfl⟩

abbrev FieldOf (cell : Cell) (field : Bytes) : Prop := encodeField cell = .ok field ∧ Framed field

theorem encodeRestFields {rest : List Cell} (valued : ∀ cell ∈ rest, cell = .null ∨ ∃ value, cell = .text value) :
    ∃ fields : List Bytes, List.Forall₂ FieldOf rest fields ∧
      encodeRest rest = .ok (fields.map (fun field => 9 :: field)).flatten := by
  induction rest with
  | nil => exact ⟨[],.nil,rfl⟩
  | cons cell rest ih =>
    obtain ⟨field,encoded⟩ := encodeFieldOk (valued cell List.mem_cons_self)
    obtain ⟨fields,each,tail⟩ := ih (fun cell mem => valued cell (List.mem_cons_of_mem _ mem))
    refine ⟨field :: fields,.cons ⟨encoded,encodeFieldFramed encoded⟩ each,?_⟩
    simp [encodeRest,encoded,tail,bind,Except.bind,pure,Except.pure]

theorem intercalateCons (first : Bytes) (fields : List Bytes) :
    [9].intercalate (first :: fields) = first ++ (fields.map (fun field => 9 :: field)).flatten := by
  induction fields generalizing first with
  | nil => simp
  | cons next fields ih =>
    rw [List.intercalate_cons_cons,ih]
    simp

theorem encodeRowFields (row : CopyRow) : ∃ fields : List Bytes, List.Forall₂ FieldOf row.cells fields ∧
    encodeRow row.cells = .ok ([9].intercalate fields ++ [10]) := by
  obtain ⟨cells,filled,valued⟩ := row
  cases cells with
  | nil => exact absurd rfl filled
  | cons first rest =>
    obtain ⟨field,encoded⟩ := encodeFieldOk (valued first List.mem_cons_self)
    obtain ⟨fields,each,tail⟩ := encodeRestFields (fun cell mem => valued cell (List.mem_cons_of_mem _ mem))
    refine ⟨field :: fields,.cons ⟨encoded,encodeFieldFramed encoded⟩ each,?_⟩
    rw [intercalateCons]
    simp [encodeRow,encoded,tail,bind,Except.bind,pure,Except.pure]

theorem valueCellValue {row : CopyRow} : (row.cells.map cellValue).map valueCell = row.cells := by
  rw [List.map_map]
  refine (List.map_congr_left fun cell mem => ?_).trans (List.map_id _)
  rcases row.valued cell mem with same | ⟨value,same⟩ <;> simp [same,cellValue,valueCell]

theorem encodeRowMarker {row bytes} (ok : encodeRow row = .ok bytes) : bytes ≠ [92,46,10] := by
  intro marker
  obtain ⟨line,same,_,decoded⟩ := encodeRowLine ok
  have cut : line = [92,46] := List.append_cancel_right (same.symm.trans marker)
  exact encodeRowNotMarker (same ▸ ok) decoded cut

/-- Every list of rows is encoded, reads back as the same rows, and each record is made of fields without a raw tab,
newline or carriage return and is never the end-of-data marker. -/
theorem copyRoundTrip (rows : List CopyRow) :
    ∃ records, rows.mapM (fun row => encodeRow row.cells) = .ok records ∧
      (decodeStream records.flatten).map (List.map valueCell) = rows.map CopyRow.cells ∧
      List.Forall₂ (fun row record => record ≠ [92,46,10] ∧ ∃ fields : List Bytes,
        List.Forall₂ FieldOf row.cells fields ∧ record = [9].intercalate fields ++ [10]) rows records := by
  have encoded : ∃ records, rows.mapM (fun row => encodeRow row.cells) = .ok records := by
    induction rows with
    | nil => exact ⟨[],rfl⟩
    | cons row rows ih =>
      obtain ⟨records,tail⟩ := ih
      obtain ⟨fields,_,head⟩ := encodeRowFields row
      exact ⟨_,mapMOk.mpr (.cons head (mapMOk.mp tail))⟩
  obtain ⟨records,encoded⟩ := encoded
  have each := mapMOk.mp encoded
  refine ⟨records,encoded,?_,each.imp fun row record ok => ?_⟩
  · have chunks : List.Forall₂ (fun cells bytes => encodeRow cells = .ok bytes) (rows.map CopyRow.cells) records :=
      List.forall₂_map_left_iff.mpr each
    rw [decodeStreamRows chunks,List.map_map,List.map_map]
    exact List.map_congr_left fun row _ => valueCellValue
  · obtain ⟨fields,fieldwise,same⟩ := encodeRowFields row
    exact ⟨encodeRowMarker ok,fields,fieldwise,Except.ok.inj (ok.symm.trans same)⟩

end CloudberryEtl.CopyText
