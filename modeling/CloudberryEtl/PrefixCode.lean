import Mathlib.Data.List.Basic

/-! Codes whose words end by themselves: what follows a word never changes how the word is read. Built from words of one
width by pairs, counts and marks, such codes can be written one after the other and still be told apart. -/
namespace CloudberryEtl.PrefixCode

structure Code (α β : Type) where
  encode : α → List β
  valid : α → Prop
  delimits : ∀ left right rest rest', valid left → valid right →
    encode left ++ rest = encode right ++ rest' → left = right ∧ rest = rest'

namespace Code
variable {α β γ : Type}

def fixed (width : Nat) (encode : α → List β) (valid : α → Prop) (size : ∀ value, (encode value).length = width)
    (apart : ∀ left right, valid left → valid right → encode left = encode right → left = right) : Code α β where
  encode := encode
  valid := valid
  delimits := by
    intro left right rest rest' here there same
    obtain ⟨words,rests⟩ := List.append_inj same (by rw [size,size])
    exact ⟨apart left right here there words,rests⟩

def pair (left : Code α β) (right : Code γ β) : Code (α × γ) β where
  encode value := left.encode value.1 ++ right.encode value.2
  valid value := left.valid value.1 ∧ right.valid value.2
  delimits := by
    intro first second rest rest' here there same
    rw [List.append_assoc,List.append_assoc] at same
    obtain ⟨firsts,same⟩ := left.delimits _ _ _ _ here.1 there.1 same
    obtain ⟨seconds,rests⟩ := right.delimits _ _ _ _ here.2 there.2 same
    exact ⟨Prod.ext firsts seconds,rests⟩

def comap (code : Code α β) (view : γ → α) (injective : Function.Injective view) : Code γ β where
  encode value := code.encode (view value)
  valid value := code.valid (view value)
  delimits := by
    intro left right rest rest' here there same
    obtain ⟨views,rests⟩ := code.delimits _ _ _ _ here there same
    exact ⟨injective views,rests⟩

def marked (mark : β) (code : Code α β) : Code α β where
  encode value := mark :: code.encode value
  valid := code.valid
  delimits := by
    intro left right rest rest' here there same
    exact code.delimits left right rest rest' here there (List.cons.inj same).2

def framed (count : Code Nat β) : Code (List β) β where
  encode value := count.encode value.length ++ value
  valid value := count.valid value.length
  delimits := by
    intro left right rest rest' here there same
    rw [List.append_assoc,List.append_assoc] at same
    obtain ⟨sizes,same⟩ := count.delimits _ _ _ _ here there same
    exact List.append_inj same sizes

theorem listDelimits (code : Code α β) (left right : List α) (rest rest' : List β)
    (sizes : left.length = right.length) (here : ∀ value ∈ left, code.valid value)
    (there : ∀ value ∈ right, code.valid value)
    (same : left.flatMap code.encode ++ rest = right.flatMap code.encode ++ rest') : left = right ∧ rest = rest' := by
  induction left generalizing right with
  | nil =>
    cases List.length_eq_zero_iff.mp sizes.symm
    exact ⟨rfl,same⟩
  | cons value left ih =>
    cases right with
    | nil => cases sizes
    | cons value' right =>
      obtain ⟨head,here⟩ := List.forall_mem_cons.mp here
      obtain ⟨head',there⟩ := List.forall_mem_cons.mp there
      rw [List.flatMap_cons,List.flatMap_cons,List.append_assoc,List.append_assoc] at same
      obtain ⟨values,same⟩ := code.delimits _ _ _ _ head head' same
      obtain ⟨others,rests⟩ := ih right (Nat.succ.inj sizes) here there same
      exact ⟨by rw [values,others],rests⟩

def counted (count : Code Nat β) (code : Code α β) : Code (List α) β where
  encode values := count.encode values.length ++ values.flatMap code.encode
  valid values := count.valid values.length ∧ ∀ value ∈ values, code.valid value
  delimits := by
    intro left right rest rest' here there same
    rw [List.append_assoc,List.append_assoc] at same
    obtain ⟨sizes,same⟩ := count.delimits _ _ _ _ here.1 there.1 same
    exact code.listDelimits left right rest rest' sizes here.2 there.2 same

/-- Words that are never empty can be written one after the other to the end of the input, with no count. -/
theorem streamInjective (code : Code α β) (filled : ∀ value, code.encode value ≠ []) (left right : List α)
    (here : ∀ value ∈ left, code.valid value) (there : ∀ value ∈ right, code.valid value)
    (same : left.flatMap code.encode = right.flatMap code.encode) : left = right := by
  induction left generalizing right with
  | nil =>
    cases right with
    | nil => rfl
    | cons value' right => exact absurd (List.append_eq_nil_iff.mp same.symm).1 (filled value')
  | cons value left ih =>
    cases right with
    | nil => exact absurd (List.append_eq_nil_iff.mp same).1 (filled value)
    | cons value' right =>
      obtain ⟨head,here⟩ := List.forall_mem_cons.mp here
      obtain ⟨head',there⟩ := List.forall_mem_cons.mp there
      rw [List.flatMap_cons,List.flatMap_cons] at same
      obtain ⟨values,same⟩ := code.delimits _ _ _ _ head head' same
      rw [values,ih right here there same]

def Apart (first : Code α β) (second : Code γ β) : Prop :=
  ∀ value value' rest rest', first.valid value → second.valid value' →
    first.encode value ++ rest ≠ second.encode value' ++ rest'

/-- Two streams one after the other, with neither counts nor a mark between them, are told apart when their words are. -/
theorem streamsInjective (first : Code α β) (second : Code γ β) (apart : first.Apart second)
    (filled : ∀ value, first.encode value ≠ []) (filled' : ∀ value, second.encode value ≠ [])
    (left right : List α) (left' right' : List γ)
    (here : ∀ value ∈ left, first.valid value) (there : ∀ value ∈ right, first.valid value)
    (here' : ∀ value ∈ left', second.valid value) (there' : ∀ value ∈ right', second.valid value)
    (same : left.flatMap first.encode ++ left'.flatMap second.encode =
      right.flatMap first.encode ++ right'.flatMap second.encode) : left = right ∧ left' = right' := by
  -- where one list has ended, a word of the other cannot start
  have ends : ∀ (value : α) (rest : List β) (tail : List γ), first.valid value → (∀ other ∈ tail, second.valid other) →
      first.encode value ++ rest ≠ tail.flatMap second.encode := by
    intro value rest tail head each same
    cases tail with
    | nil => exact filled value (List.append_eq_nil_iff.mp same).1
    | cons value' tail => exact apart value value' rest _ head (each value' List.mem_cons_self) same
  induction left generalizing right with
  | nil =>
    cases right with
    | nil => exact ⟨rfl,second.streamInjective filled' left' right' here' there' same⟩
    | cons value' right =>
      obtain ⟨head',there⟩ := List.forall_mem_cons.mp there
      rw [List.flatMap_cons,List.append_assoc] at same
      exact absurd same.symm (ends value' _ left' head' here')
  | cons value left ih =>
    obtain ⟨head,here⟩ := List.forall_mem_cons.mp here
    cases right with
    | nil =>
      rw [List.flatMap_cons,List.append_assoc] at same
      exact absurd same (ends value _ right' head there')
    | cons value' right =>
      obtain ⟨head',there⟩ := List.forall_mem_cons.mp there
      rw [List.flatMap_cons,List.flatMap_cons,List.append_assoc,List.append_assoc] at same
      obtain ⟨values,same⟩ := first.delimits _ _ _ _ head head' same
      obtain ⟨others,tails⟩ := ih right here there same
      exact ⟨by rw [values,others],tails⟩

end Code

end CloudberryEtl.PrefixCode
