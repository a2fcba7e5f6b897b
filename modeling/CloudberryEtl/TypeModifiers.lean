import CloudberryEtl.TypeResolution
import CloudberryEtl.UserTypes

/-! What a type modifier declares, in a source column and in the text of a planned target type, and when the scalar
families keep it. Each family packs its modifier in its own way. -/
namespace CloudberryEtl.TypeModifiers
open Schema Result Settings Catalog TablePlan UserTypes

inductive Modifier where
  | unconstrained
  | length (n : Nat)
  | numeric (precision : Nat) (scale : Int)
  | precision (n : Nat)
  deriving DecidableEq, Repr

section Source

inductive ModifierFamily where
  | plain | character | bit | numeric | time | interval
  deriving DecidableEq, Repr

def familyOf (name : String) : ModifierFamily :=
  match name with
  | "varchar" => .character
  | "bpchar" => .character
  | "bit" => .bit
  | "varbit" => .bit
  | "numeric" => .numeric
  | "time" => .time
  | "timetz" => .time
  | "timestamp" => .time
  | "timestamptz" => .time
  | "interval" => .interval
  | _ => .plain

def intervalFullRange : Nat := 0x7FFF

def intervalFullPrecision : Nat := 0xFFFF

/- The field combinations of the grammar: each field alone, runs of fields that are in use, and all fields. -/
def intervalMasks : List Nat :=
  [4,2,8,0x400,0x800,0x1000,6,0x408,0xC08,0x1C08,0xC00,0x1C00,0x1800,intervalFullRange]

def storable (name : String) (typmod : Int) : Prop :=
  typmod = -1 ∨ match familyOf name with
  | .plain => False
  | .character => ∃ n : Nat, 1 ≤ n ∧ n ≤ 10485760 ∧ typmod = n + 4
  | .bit => ∃ n : Nat, 1 ≤ n ∧ n ≤ 83886080 ∧ typmod = n
  | .numeric => ∃ (p : Nat) (s : Int), 1 ≤ p ∧ p ≤ 1000 ∧ -1000 ≤ s ∧ s ≤ 1000 ∧ typmod = p * 65536 + s % 2048 + 4
  | .time => 0 ≤ typmod ∧ typmod ≤ 6
  | .interval => ∃ mask ∈ intervalMasks, ∃ p : Nat, (p ≤ 6 ∨ p = intervalFullPrecision) ∧ typmod = mask * 65536 + p

def signedScale (bits : Int) : Int := if bits < 1024 then bits else bits - 2048

/- How PostgreSQL reads a stored modifier. The fields of an interval are no length, precision or scale, and with the full
precision it declares none. -/
def sourceDeclares (name : String) (typmod : Int) : Modifier :=
  if typmod = -1 then .unconstrained
  else match familyOf name with
  | .plain => .unconstrained
  | .character => .length (typmod - 4).toNat
  | .bit => .length typmod.toNat
  | .numeric => .numeric ((typmod - 4) / 65536).toNat (signedScale ((typmod - 4) % 2048))
  | .time => .precision typmod.toNat
  | .interval => if typmod % 65536 = intervalFullPrecision then .unconstrained else .precision (typmod % 65536).toNat

end Source

section Target

def typeWords (sql : List Char) : List Char := sql.takeWhile (· ≠ '(') ++ (sql.dropWhile (· ≠ ')')).tail

def typeArguments (sql : List Char) : List Nat :=
  (((sql.dropWhile (· ≠ '(')).tail.takeWhile (· ≠ ')')).splitOn ',').filterMap parseDigits

/- How the target reads a built-in type. `character` and `bit` without a length have length one. -/
def wordsDeclare (words : String) (arguments : List Nat) : Modifier :=
  match words,arguments with
  | "character",[] => .length 1
  | "character",[n] => .length n
  | "character varying",[n] => .length n
  | "bit",[] => .length 1
  | "bit",[n] => .length n
  | "bit varying",[n] => .length n
  | "numeric",[p] => .numeric p 0
  | "numeric",[p,s] => .numeric p s
  | _,[p] => .precision p
  | _,_ => .unconstrained

def targetDeclares (sql : String) : Modifier :=
  wordsDeclare (String.ofList (typeWords sql.toList)) (typeArguments sql.toList)

theorem takeUntil {stop : Char} {front : List Char} (back : List Char) (absent : stop ∉ front) :
    (front ++ stop :: back).takeWhile (· ≠ stop) = front ∧ (front ++ stop :: back).dropWhile (· ≠ stop) = stop :: back := by
  induction front with
  | nil => simp
  | cons c front ih =>
    obtain ⟨differs,absent⟩ := List.ne_and_not_mem_of_not_mem_cons absent
    simpa [differs.symm] using ih absent

section Texts
variable {words inner : List Char} (suffix : List Char)

theorem modifierText (open' : '(' ∉ words) (close : ')' ∉ words) (inside : ')' ∉ inner) :
    typeWords (words ++ '(' :: (inner ++ ')' :: suffix)) = words ++ suffix ∧
    typeArguments (words ++ '(' :: (inner ++ ')' :: suffix)) = (inner.splitOn ',').filterMap parseDigits := by
  obtain ⟨before,after⟩ := takeUntil (inner ++ ')' :: suffix) open'
  have closing : ')' ∉ words ++ '(' :: inner := by simp [close,inside]
  have whole := (takeUntil suffix closing).2
  rw [List.append_assoc,List.cons_append] at whole
  simp only [typeWords,typeArguments,before,after,whole,List.tail_cons,(takeUntil suffix inside).1,and_self]

theorem lengthText (open' : '(' ∉ words) (close : ')' ∉ words) (n : Nat) :
    typeWords (words ++ '(' :: (Nat.toDigits 10 n ++ ')' :: suffix)) = words ++ suffix ∧
    typeArguments (words ++ '(' :: (Nat.toDigits 10 n ++ ')' :: suffix)) = [n] := by
  obtain ⟨front,arguments⟩ := modifierText suffix open' close (digitsWithout n (by decide))
  have one : (Nat.toDigits 10 n).splitOn ',' = [Nat.toDigits 10 n] := List.splitOn_eq_singleton (digitsWithout n (by decide))
  exact ⟨front,by simp [arguments,one,digitsRead]⟩

theorem scaleText (open' : '(' ∉ words) (close : ')' ∉ words) (p s : Nat) :
    typeWords (words ++ '(' :: (Nat.toDigits 10 p ++ ',' :: Nat.toDigits 10 s ++ ')' :: suffix)) = words ++ suffix ∧
    typeArguments (words ++ '(' :: (Nat.toDigits 10 p ++ ',' :: Nat.toDigits 10 s ++ ')' :: suffix)) = [p,s] := by
  have inside : ')' ∉ Nat.toDigits 10 p ++ ',' :: Nat.toDigits 10 s := by
    simp [digitsWithout p (c := ')') (by decide),digitsWithout s (c := ')') (by decide)]
  obtain ⟨front,arguments⟩ := modifierText suffix open' close inside
  have first : (Nat.toDigits 10 p ++ ',' :: Nat.toDigits 10 s).splitOn ',' = [Nat.toDigits 10 p,Nat.toDigits 10 s] := by
    rw [List.splitOn_append_cons_self_of_not_mem (digitsWithout p (by decide)),
      List.splitOn_eq_singleton (digitsWithout s (by decide))]
  exact ⟨front,by rw [arguments,first]; simp [digitsRead]⟩

end Texts

theorem lengthDeclares (dataType suffix : String) (open' : '(' ∉ dataType.toList) (close : ')' ∉ dataType.toList) (n : Nat) :
    targetDeclares (dataType ++ "(" ++ toString n ++ ")" ++ suffix) = wordsDeclare (dataType ++ suffix) [n] := by
  have text : (dataType ++ "(" ++ toString n ++ ")" ++ suffix).toList =
      dataType.toList ++ '(' :: (Nat.toDigits 10 n ++ ')' :: suffix.toList) := by
    simp
  obtain ⟨front,arguments⟩ := lengthText suffix.toList open' close n
  rw [targetDeclares,text,front,arguments]
  simp [String.ofList_append]

theorem bareDeclares (dataType : String) (open' : '(' ∉ dataType.toList) (close : ')' ∉ dataType.toList) (n : Nat) :
    targetDeclares (dataType ++ "(" ++ toString n ++ ")") = wordsDeclare dataType [n] := by
  simpa only [String.append_empty] using lengthDeclares dataType "" open' close n

theorem scaleDeclares (p s : Nat) :
    targetDeclares ("numeric(" ++ toString p ++ "," ++ toString (s : Int) ++ ")") = .numeric p s := by
  have digits : ∀ n : Nat, (toString n).toList = Nat.toDigits 10 n := fun n => Nat.toList_repr
  have scale : (toString (s : Int)).toList = Nat.toDigits 10 s := digits s
  have text : ("numeric(" ++ toString p ++ "," ++ toString (s : Int) ++ ")").toList =
      "numeric".toList ++ '(' :: (Nat.toDigits 10 p ++ ',' :: Nat.toDigits 10 s ++ ')' :: []) := by
    simp only [String.toList_append,digits,scale]
    simp
  have plain : '(' ∉ "numeric".toList ∧ ')' ∉ "numeric".toList := by decide
  obtain ⟨front,arguments⟩ := scaleText [] plain.1 plain.2 p s
  rw [targetDeclares,text,front,arguments]
  simp [wordsDeclare]

end Target

section Kept

def leafText (name : QualifiedName) (schema : String) (kind : PgTypeKind) : Except SchemaError String :=
  (planKindInner name schema [] kind).map Prod.fst

/- The modifiers a scalar family keeps, as the type of a column itself and below an array or a domain, where
`resolve_type` reads no modifier. -/
def keepsModifier (nested : Bool) (name : String) (modifier : Int) : Prop :=
  match name with
  | "bpchar" => if nested then modifier = 5 else modifier ≠ -1
  | "bit" => modifier = 1 ∨ (nested = false ∧ modifier = 4)
  | "varbit" => modifier = -1 ∨ (nested = false ∧ modifier = 4)
  | "interval" => modifier = -1 ∨ modifier % 65536 = intervalFullPrecision
  | _ => nested = false ∨ modifier = -1

def keeps (typeName : QualifiedName) (schema : String) (code : Int) (name : String) (modifier : Int) : Prop :=
  ∀ text, leafText typeName schema (scalarKind name code) = .ok text → targetDeclares text = sourceDeclares name modifier

variable {typeName : QualifiedName} {schema : String} {code modifier : Int}

theorem keepsText {name text : String} (planned : leafText typeName schema (scalarKind name code) = .ok text) :
    keeps typeName schema code name modifier ↔ targetDeclares text = sourceDeclares name modifier := by
  constructor
  · intro all
    exact all text planned
  · intro same other planned'
    cases Except.ok.inj (planned.symm.trans planned')
    exact same

theorem keepsRejected {name : String} {error : SchemaError}
    (refused : leafText typeName schema (scalarKind name code) = .error error) :
    keeps typeName schema code name modifier := by
  intro text planned
  rw [refused] at planned
  contradiction

theorem lengthOf {n : Int} (fits : 4 ≤ n) (range : n - 4 < 2 ^ 32) : typmodLength n = some (n - 4).toNat :=
  if_pos ⟨fits,range⟩

theorem characterText (dataType : String) {n : Nat} (low : 1 ≤ n) (high : n ≤ 10485760) :
    characterSql dataType (typmodLength ((n : Int) + 4)) = .ok (dataType ++ "(" ++ toString n ++ ")") := by
  have read : typmodLength ((n : Int) + 4) = some n := by
    rw [lengthOf (by omega) (by omega)]
    congr 1
    omega
  rw [read]
  exact if_pos ⟨low,high⟩

theorem characterSource (name : String) (family : familyOf name = .character) (n : Nat) :
    sourceDeclares name ((n : Int) + 4) = .length n := by
  rw [sourceDeclares,if_neg (by omega),family]
  simp

theorem varcharKept (nested : Bool) (stored : storable "varchar" modifier) :
    keeps typeName schema (if nested then -1 else modifier) "varchar" modifier ↔ keepsModifier nested "varchar" modifier := by
  have unlimited : leafText typeName schema (scalarKind "varchar" (-1)) = .ok "character varying" := rfl
  have declared : targetDeclares "character varying" = .unconstrained := by decide
  obtain rfl | ⟨n,low,high,rfl⟩ := stored
  · simp [keepsText unlimited,declared,sourceDeclares,keepsModifier]
  · have limited : leafText typeName schema (scalarKind "varchar" ((n : Int) + 4)) =
        .ok ("character varying" ++ "(" ++ toString n ++ ")") := by
      simp only [leafText,scalarKind,planKindInner]
      rw [characterText _ low high]
      rfl
    have target := bareDeclares "character varying" (by decide) (by decide) n
    have source := characterSource "varchar" rfl n
    have differs : ((n : Int) + 4 ≠ -1) := by omega
    cases nested with
    | true => simp [keepsText unlimited,declared,source,keepsModifier,differs]
    | false =>
      rw [if_neg (by decide),keepsText limited,target,source]
      simp [keepsModifier,wordsDeclare]

theorem bpcharKept (nested : Bool) (stored : storable "bpchar" modifier) :
    keeps typeName schema (if nested then -1 else modifier) "bpchar" modifier ↔ keepsModifier nested "bpchar" modifier := by
  have unlimited : leafText typeName schema (scalarKind "bpchar" (-1)) = .ok "character" := rfl
  have declared : targetDeclares "character" = .length 1 := by decide
  obtain rfl | ⟨n,low,high,rfl⟩ := stored
  · cases nested <;> simp [keepsText unlimited,declared,sourceDeclares,keepsModifier]
  · have limited : leafText typeName schema (scalarKind "bpchar" ((n : Int) + 4)) =
        .ok ("character" ++ "(" ++ toString n ++ ")") := by
      simp only [leafText,scalarKind,planKindInner]
      rw [characterText _ low high]
      rfl
    have target := bareDeclares "character" (by decide) (by decide) n
    have source := characterSource "bpchar" rfl n
    cases nested with
    | true =>
      rw [if_pos rfl,keepsText unlimited,declared,source,Modifier.length.injEq]
      simp only [keepsModifier,if_true]
      omega
    | false =>
      rw [if_neg (by decide),keepsText limited,target,source]
      have differs : ((n : Int) + 4 ≠ -1) := by omega
      simp [keepsModifier,wordsDeclare,differs]

theorem bitSource {name : String} (family : familyOf name = .bit) {n : Nat} (low : 1 ≤ n) :
    sourceDeclares name (n : Int) = .length n := by
  rw [sourceDeclares,if_neg (by omega),family]
  simp

def bitWords (varying : Bool) : String := if varying then "bit varying" else "bit"

theorem bitText (varying : Bool) {n : Nat} (low : 1 ≤ n) (high : n ≤ 83886080) :
    bitSql (typmodLength (n : Int)) varying = if n < 4 then .ok (bitWords varying)
      else if n = 4 then .error (invalidTypmod (bitWords varying) ("length must be between 1 and " ++ toString maxBitLength))
      else .ok (bitWords varying ++ "(" ++ toString (n - 4) ++ ")") := by
  -- The stored modifier of a bit string is its length, from which four is taken all the same.
  by_cases short : n < 4
  · have read : typmodLength (n : Int) = none := if_neg (by omega)
    rw [read,if_pos short]
    rfl
  · have read : typmodLength (n : Int) = some (n - 4) := by
      rw [lengthOf (by omega) (by omega)]
      congr 1
      omega
    rw [read,if_neg short]
    by_cases four : n = 4
    · subst four
      rfl
    · rw [if_neg four]
      exact if_pos ⟨by omega,by unfold maxBitLength; omega⟩

theorem bitDirect {name : String} {varying : Bool} (kind : ∀ code, scalarKind name code = .bit (typmodLength code) varying)
    (family : familyOf name = .bit) {n : Nat} (low : 1 ≤ n) (high : n ≤ 83886080) :
    keeps typeName schema (n : Int) name (n : Int) ↔ (n < 4 ∧ targetDeclares (bitWords varying) = .length n) ∨ n = 4 := by
  have planned : leafText typeName schema (scalarKind name (n : Int)) = bitSql (typmodLength (n : Int)) varying := by
    simp only [leafText,kind,planKindInner]
    cases bitSql (typmodLength (n : Int)) varying <;> rfl
  rw [bitText varying low high] at planned
  have source := bitSource family low
  by_cases short : n < 4
  · rw [if_pos short] at planned
    rw [keepsText planned,source]
    simp only [short,true_and]
    exact ⟨Or.inl,fun either => either.elim id (by omega)⟩
  · rw [if_neg short] at planned
    by_cases four : n = 4
    · rw [if_pos four] at planned
      exact ⟨fun _ => .inr four,fun _ => keepsRejected planned⟩
    · rw [if_neg four] at planned
      have plain : '(' ∉ (bitWords varying).toList ∧ ')' ∉ (bitWords varying).toList := by cases varying <;> decide
      have target : targetDeclares (bitWords varying ++ "(" ++ toString (n - 4) ++ ")") = .length (n - 4) := by
        rw [bareDeclares _ plain.1 plain.2]
        cases varying <;> rfl
      rw [keepsText planned,source,target,Modifier.length.injEq]
      omega

theorem bitKept (nested : Bool) (stored : storable "bit" modifier) :
    keeps typeName schema (if nested then -1 else modifier) "bit" modifier ↔ keepsModifier nested "bit" modifier := by
  have unlimited : leafText typeName schema (scalarKind "bit" (-1)) = .ok "bit" := rfl
  have declared : targetDeclares "bit" = .length 1 := by decide
  obtain rfl | ⟨n,low,high,rfl⟩ := stored
  · cases nested <;> simp [keepsText unlimited,declared,sourceDeclares,keepsModifier]
  · cases nested with
    | true =>
      rw [if_pos rfl,keepsText unlimited,declared,bitSource rfl low,Modifier.length.injEq]
      simp only [keepsModifier,reduceCtorEq,false_and,or_false]
      omega
    | false =>
      have direct : keeps typeName schema (n : Int) "bit" (n : Int) ↔
          (n < 4 ∧ targetDeclares (bitWords false) = .length n) ∨ n = 4 := bitDirect (fun _ => rfl) rfl low high
      have words : targetDeclares (bitWords false) = .length 1 := declared
      rw [if_neg (by decide),direct,words,Modifier.length.injEq]
      simp only [keepsModifier,true_and]
      omega

theorem varbitKept (nested : Bool) (stored : storable "varbit" modifier) :
    keeps typeName schema (if nested then -1 else modifier) "varbit" modifier ↔ keepsModifier nested "varbit" modifier := by
  have unlimited : leafText typeName schema (scalarKind "varbit" (-1)) = .ok "bit varying" := rfl
  have declared : targetDeclares "bit varying" = .unconstrained := by decide
  obtain rfl | ⟨n,low,high,rfl⟩ := stored
  · cases nested <;> simp [keepsText unlimited,declared,sourceDeclares,keepsModifier]
  · have differs : ((n : Int) ≠ -1) := by omega
    cases nested with
    | true =>
      rw [if_pos rfl,keepsText unlimited,declared,bitSource rfl low]
      simp [keepsModifier,differs]
    | false =>
      have direct : keeps typeName schema (n : Int) "varbit" (n : Int) ↔
          (n < 4 ∧ targetDeclares (bitWords true) = .length n) ∨ n = 4 := bitDirect (fun _ => rfl) rfl low high
      have words : targetDeclares (bitWords true) = .unconstrained := declared
      rw [if_neg (by decide),direct,words]
      simp only [keepsModifier,reduceCtorEq,and_false,false_or,true_and]
      omega

theorem numericRead {p bits : Nat} (low : 1 ≤ p) (high : p ≤ 1000) (short : bits < 2048) :
    numericTypmod ((p : Int) * 65536 + bits + 4) = (some p,some (bits : Int)) := by
  have value : ((p : Int) * 65536 + bits + 4 - 4).toNat = p * 65536 + bits := by omega
  have scale : (p * 65536 + bits) % 65536 = bits := by omega
  have precision : (p * 65536 + bits) / 65536 % 65536 = p := by omega
  unfold numericTypmod
  rw [if_neg (by omega)]
  simp only [value,scale,precision]
  rw [if_pos (by omega)]

theorem numericText {p bits : Nat} (low : 1 ≤ p) (high : p ≤ 1000) :
    numericSql (some p) (some (bits : Int)) =
      if bits > p then .error (invalidTypmod "numeric" "scale must not exceed precision on Cloudberry 2.1")
      else .ok ("numeric(" ++ toString p ++ "," ++ toString (bits : Int) ++ ")") := by
  have valid : validatePrecision p = .ok () := if_pos ⟨low,high⟩
  simp only [numericSql,valid,bind,Except.bind]
  rw [if_neg (by omega),Int.toNat_natCast]

theorem numericKept (nested : Bool) (stored : storable "numeric" modifier) :
    keeps typeName schema (if nested then -1 else modifier) "numeric" modifier ↔ keepsModifier nested "numeric" modifier := by
  have unlimited : leafText typeName schema (scalarKind "numeric" (-1)) = .ok "numeric" := rfl
  have declared : targetDeclares "numeric" = .unconstrained := by decide
  obtain rfl | ⟨p,s,low,high,lowScale,highScale,rfl⟩ := stored
  · simp [keepsText unlimited,declared,sourceDeclares,keepsModifier]
  · have differs : ((p : Int) * 65536 + s % 2048 + 4 ≠ -1) := by omega
    have source : sourceDeclares "numeric" ((p : Int) * 65536 + s % 2048 + 4) = .numeric p s := by
      have precision : (((p : Int) * 65536 + s % 2048 + 4 - 4) / 65536).toNat = p := by omega
      have scale : signedScale (((p : Int) * 65536 + s % 2048 + 4 - 4) % 2048) = s := by
        unfold signedScale
        split <;> omega
      rw [sourceDeclares,if_neg differs]
      simp only [familyOf,precision,scale]
    cases nested with
    | true => simp [keepsText unlimited,declared,source,keepsModifier,differs]
    | false =>
      have kept : keeps typeName schema ((p : Int) * 65536 + s % 2048 + 4) "numeric" ((p : Int) * 65536 + s % 2048 + 4) := by
        obtain ⟨bits,same⟩ : ∃ bits : Nat, s % 2048 = bits := ⟨(s % 2048).toNat,by omega⟩
        have planned : leafText typeName schema (scalarKind "numeric" ((p : Int) * 65536 + s % 2048 + 4)) =
            numericSql (some p) (some (bits : Int)) := by
          simp only [leafText,scalarKind,planKindInner]
          rw [same,numericRead low high (by omega)]
          cases numericSql (some p) (some (bits : Int)) <;> rfl
        rw [numericText low high] at planned
        by_cases above : bits > p
        · rw [if_pos above] at planned
          exact keepsRejected planned
        · rw [if_neg above] at planned
          have scale : (bits : Int) = s := by omega
          rw [keepsText planned,source,scaleDeclares,scale]
      simp [kept,keepsModifier]

theorem timeKept {name : String} {words suffix : String} (nested : Bool) (family : familyOf name = .time)
    (planned : ∀ code, leafText typeName schema (scalarKind name code) =
      (precisionSuffix words (timePrecision code)).map (fun precision => words ++ precision ++ suffix))
    (unlimited : targetDeclares (words ++ suffix) = .unconstrained)
    (limited : ∀ n : Nat, targetDeclares (words ++ "(" ++ toString n ++ ")" ++ suffix) = .precision n)
    (stored : storable name modifier) :
    keeps typeName schema (if nested then -1 else modifier) name modifier ↔ nested = false ∨ modifier = -1 := by
  have none' : leafText typeName schema (scalarKind name (-1)) = .ok (words ++ suffix) := by
    have absent : timePrecision (-1) = none := rfl
    have direct := planned (-1)
    rw [absent] at direct
    simpa only [precisionSuffix,Except.map,String.append_empty] using direct
  rw [storable,family] at stored
  obtain rfl | ⟨low,high⟩ := stored
  · simp [keepsText none',unlimited,sourceDeclares]
  · obtain ⟨n,rfl⟩ := Int.eq_ofNat_of_zero_le low
    have differs : ((n : Int) ≠ -1) := by omega
    have source : sourceDeclares name (n : Int) = .precision n := by
      rw [sourceDeclares,if_neg differs,family]
      simp
    cases nested with
    | true => simp [keepsText none',unlimited,source,differs]
    | false =>
      have read : timePrecision (n : Int) = some n := by
        unfold timePrecision
        rw [if_pos (by omega),Int.toNat_natCast]
      have text : precisionSuffix words (some n) = .ok ("(" ++ toString n ++ ")") :=
        if_pos (by unfold maxDatetimePrecision; omega)
      have direct := planned (n : Int)
      rw [read,text,Except.map,← String.append_assoc,← String.append_assoc] at direct
      rw [if_neg (by decide),keepsText direct,limited,source]
      simp

theorem datetimeKept {name words : String} {zone : Bool} (nested : Bool) (family : familyOf name = .time)
    (planned : ∀ code, leafText typeName schema (scalarKind name code) = datetimeSql words (timePrecision code) zone)
    (known : words = "time" ∨ words = "timestamp") (stored : storable name modifier) :
    keeps typeName schema (if nested then -1 else modifier) name modifier ↔ nested = false ∨ modifier = -1 := by
  have plain : '(' ∉ words.toList ∧ ')' ∉ words.toList := by rcases known with rfl | rfl <;> decide
  apply timeKept nested family _ _ _ stored
  · exact words
  · exact if zone then " with time zone" else " without time zone"
  · intro code
    rw [planned]
    simp only [datetimeSql]
    cases precisionSuffix words (timePrecision code) <;> rfl
  · rcases known with rfl | rfl <;> cases zone <;> decide
  · intro n
    rw [lengthDeclares _ _ plain.1 plain.2]
    rcases known with rfl | rfl <;> cases zone <;> rfl

theorem intervalKept (nested : Bool) (stored : storable "interval" modifier) :
    keeps typeName schema (if nested then -1 else modifier) "interval" modifier ↔
      keepsModifier nested "interval" modifier := by
  -- The mask in the high half puts every stored modifier of an interval out of the range of a precision.
  have declared : targetDeclares "interval" = .unconstrained := by decide
  have unlimited : ∀ code : Int, code = -1 ∨ 256 ≤ code →
      leafText typeName schema (scalarKind "interval" code) = .ok "interval" := by
    intro code outside
    have none' : timePrecision code = none := if_neg (by omega)
    simp only [leafText,scalarKind,planKindInner,none']
    rfl
  obtain rfl | ⟨mask,known,p,_,rfl⟩ := stored
  · simp [keepsText (unlimited (-1) (.inl rfl)),declared,sourceDeclares,keepsModifier]
  · have positive : 2 ≤ mask := by
      have each : ∀ mask ∈ intervalMasks, 2 ≤ mask := by decide
      exact each mask known
    have differs : ((mask : Int) * 65536 + p ≠ -1) := by omega
    have text : leafText typeName schema (scalarKind "interval" (if nested then -1 else (mask : Int) * 65536 + p)) =
        .ok "interval" := by
      apply unlimited
      split
      · exact .inl rfl
      · exact .inr (by omega)
    rw [keepsText text,declared,sourceDeclares,if_neg differs]
    simp only [familyOf,keepsModifier,differs,false_or]
    split
    · rename_i full
      exact iff_of_true rfl full
    · rename_i short
      exact iff_of_false (by simp) short

theorem plainKept {name : String} (nested : Bool) (family : familyOf name = .plain) (stored : storable name modifier) :
    keeps typeName schema (if nested then -1 else modifier) name modifier ∧ modifier = -1 := by
  rw [storable,family] at stored
  obtain rfl | none' := stored
  · have source : sourceDeclares name (-1) = .unconstrained := rfl
    have code : (if nested then (-1 : Int) else -1) = -1 := by split <;> rfl
    rw [code]
    refine ⟨?_,rfl⟩
    intro text planned
    rw [source]
    unfold scalarKind at planned
    split at planned <;> first | contradiction | (cases Except.ok.inj planned; decide)
  · exact none'.elim

theorem characterNames {name : String} (family : familyOf name = .character) : name = "varchar" ∨ name = "bpchar" := by
  unfold familyOf at family
  split at family <;> simp_all

theorem bitNames {name : String} (family : familyOf name = .bit) : name = "bit" ∨ name = "varbit" := by
  unfold familyOf at family
  split at family <;> simp_all

theorem timeNames {name : String} (family : familyOf name = .time) :
    name = "time" ∨ name = "timetz" ∨ name = "timestamp" ∨ name = "timestamptz" := by
  unfold familyOf at family
  split at family <;> simp_all

theorem numericName {name : String} (family : familyOf name = .numeric) : name = "numeric" := by
  unfold familyOf at family
  split at family <;> simp_all

theorem intervalName {name : String} (family : familyOf name = .interval) : name = "interval" := by
  unfold familyOf at family
  split at family <;> simp_all

theorem datetimePlanned (words : String) (precision : Option Nat) (zone : Bool) {kind : PgTypeKind}
    (known : (words = "time" ∧ kind = .time precision zone) ∨ (words = "timestamp" ∧ kind = .timestamp precision zone)) :
    leafText typeName schema kind = datetimeSql words precision zone := by
  obtain ⟨rfl,rfl⟩ | ⟨rfl,rfl⟩ := known
  · simp only [leafText,planKindInner]
    cases datetimeSql "time" precision zone <;> rfl
  · simp only [leafText,planKindInner]
    cases datetimeSql "timestamp" precision zone <;> rfl

theorem plainKeeps {name : String} (nested : Bool) (family : familyOf name = .plain) (modifier : Int) :
    modifier = -1 → keepsModifier nested name modifier := by
  rintro rfl
  unfold keepsModifier
  unfold familyOf at family
  split <;> simp_all

theorem leafKept {name : String} (nested : Bool) (stored : storable name modifier) :
    keeps typeName schema (if nested then -1 else modifier) name modifier ↔ keepsModifier nested name modifier := by
  cases family : familyOf name with
  | plain =>
    have both : keeps typeName schema (if nested then -1 else modifier) name modifier ∧ modifier = -1 :=
      plainKept nested family stored
    obtain ⟨kept,none'⟩ := both
    exact ⟨fun _ => plainKeeps nested family modifier none',fun _ => kept⟩
  | character =>
    rcases characterNames family with rfl | rfl
    · exact varcharKept nested stored
    · exact bpcharKept nested stored
  | bit =>
    rcases bitNames family with rfl | rfl
    · exact bitKept nested stored
    · exact varbitKept nested stored
  | numeric =>
    obtain rfl := numericName family
    exact numericKept nested stored
  | time =>
    rcases timeNames family with rfl | rfl | rfl | rfl
    · exact datetimeKept nested rfl (fun code => datetimePlanned "time" (timePrecision code) false (.inl ⟨rfl,rfl⟩))
        (.inl rfl) stored
    · exact datetimeKept nested rfl (fun code => datetimePlanned "time" (timePrecision code) true (.inl ⟨rfl,rfl⟩))
        (.inl rfl) stored
    · exact datetimeKept nested rfl (fun code => datetimePlanned "timestamp" (timePrecision code) false (.inr ⟨rfl,rfl⟩))
        (.inr rfl) stored
    · exact datetimeKept nested rfl (fun code => datetimePlanned "timestamp" (timePrecision code) true (.inr ⟨rfl,rfl⟩))
        (.inr rfl) stored
  | interval =>
    obtain rfl := intervalName family
    exact intervalKept nested stored

end Kept

end CloudberryEtl.TypeModifiers
