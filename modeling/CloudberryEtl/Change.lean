import CloudberryEtl.Schema

/-! Decoded source changes of `core::change`. `Bytes` is the list of its octets and a `PgLsn` its u64 value;
both are compared only for equality and order by the modules that follow. -/
namespace CloudberryEtl.Change
open Schema

abbrev Bytes := List UInt8
abbrev PgLsn := Nat

inductive Cell where
  | null
  | unchangedToast
  | text (value : Bytes)
  | binary (value : Bytes)
  deriving DecidableEq, Repr

structure Tuple where
  cells : List Cell
  deriving DecidableEq, Repr

def Tuple.validate (tuple : Tuple) (schema : TableSchema) : Except CoreError Unit :=
  if tuple.cells.length ≠ schema.columns.length then
    .error (.invalidTupleArity schema.relationId schema.columns.length tuple.cells.length)
  else .ok ()

inductive RowChange where
  | insert (new : Tuple)
  | update (oldKey : Option Tuple) (new : Tuple)
  | delete (oldKey : Tuple)
  deriving DecidableEq, Repr

structure TableChange where
  relationId : Nat
  generation : Nat
  change : RowChange
  deriving DecidableEq, Repr

structure SourcePosition where
  nodeId : Int
  systemIdentifier : Nat
  timeline : Nat
  lsn : PgLsn
  deriving DecidableEq, Repr

structure DdlMessage where
  version : Nat
  commandTag : String
  relationIds : List Nat
  affectedSchemas : List String
  schemaFingerprint : String
  deriving DecidableEq, Repr

inductive TransactionChange where
  | row (change : TableChange)
  | truncate (relationIds : List Nat) (cascade restartIdentity : Bool)
  | ddl (message : DdlMessage)
  deriving DecidableEq, Repr

def TransactionChange.requiresGenerationBarrier : TransactionChange → Bool
  | .truncate .. | .ddl _ => true
  | .row _ => false

structure SourceTransaction where
  xid : Nat
  commitTime : Int
  finalPosition : SourcePosition
  changes : List TransactionChange
  deriving DecidableEq, Repr

end CloudberryEtl.Change
