import Mathlib

/-! Three-valued SQL conditions. A condition is an `Option Bool`, unknown being `none`; a WHERE, an ON and a HAVING
keep exactly the rows whose condition is `some true`. -/
namespace CloudberryEtl.SqlLogic

variable {α : Type}

def and3 : Option Bool → Option Bool → Option Bool
  | some false,_ => some false
  | _,some false => some false
  | some true,some true => some true
  | _,_ => none

def or3 : Option Bool → Option Bool → Option Bool
  | some true,_ => some true
  | _,some true => some true
  | some false,some false => some false
  | _,_ => none

def not3 (a : Option Bool) : Option Bool := a.map (!·)

def all3 (conditions : List (Option Bool)) : Option Bool := conditions.foldr and3 (some true)

def any3 (conditions : List (Option Bool)) : Option Bool := conditions.foldr or3 (some false)

def eq3 (equal : α → α → Bool) : Option α → Option α → Option Bool
  | some a,some b => some (equal a b)
  | _,_ => none

def isNull (a : Option α) : Option Bool := some a.isNone

def isNotNull (a : Option α) : Option Bool := some a.isSome

def holds (condition : Option Bool) : Bool := condition == some true

@[simp] theorem holdsSome (b : Bool) : holds (some b) = b := by cases b <;> rfl

@[simp] theorem holdsAnd (a b : Option Bool) : holds (and3 a b) = (holds a && holds b) := by
  rcases a with _ | _ | _ <;> rcases b with _ | _ | _ <;> rfl

@[simp] theorem holdsOr (a b : Option Bool) : holds (or3 a b) = (holds a || holds b) := by
  rcases a with _ | _ | _ <;> rcases b with _ | _ | _ <;> rfl

@[simp] theorem holdsNotSome (b : Bool) : holds (not3 (some b)) = !b := by cases b <;> rfl

@[simp] theorem holdsAll (conditions : List (Option Bool)) : holds (all3 conditions) = conditions.all holds := by
  induction conditions with
  | nil => rfl
  | cons head tail ih => rw [all3,List.foldr_cons,holdsAnd,List.all_cons,← ih,all3]

@[simp] theorem holdsAny (conditions : List (Option Bool)) : holds (any3 conditions) = conditions.any holds := by
  induction conditions with
  | nil => rfl
  | cons head tail ih => rw [any3,List.foldr_cons,holdsOr,List.any_cons,← ih,any3]

theorem holdsEq {equal : α → α → Bool} {a b : Option α} :
    holds (eq3 equal a b) = true ↔ ∃ x y, a = some x ∧ b = some y ∧ equal x y := by
  cases a <;> cases b <;> simp [eq3,holds]

theorem all3Known (flags : List Bool) : all3 (flags.map some) = some (flags.all id) := by
  induction flags with
  | nil => rfl
  | cons head tail ih =>
    rw [List.map_cons,all3,List.foldr_cons,← all3,ih,List.all_cons]
    cases head <;> cases tail.all id <;> rfl

end CloudberryEtl.SqlLogic
