import Mathlib

/-! A log is a list whose entries have strictly increasing positions. Its part up to a position and its part behind it,
and how both move when the position moves. -/
namespace CloudberryEtl.SortedLog

variable {α : Type} (position : α → Nat)

def Increasing (log : List α) : Prop := log.Pairwise (fun left right => position left < position right)

instance (log : List α) : Decidable (Increasing position log) :=
  inferInstanceAs (Decidable (log.Pairwise (fun left right => position left < position right)))

def between (log : List α) (low high : Nat) : List α :=
  log.filter (fun entry => low < position entry ∧ position entry ≤ high)

def behind (log : List α) (low : Nat) : List α := log.filter (fun entry => low < position entry)

variable {position}

theorem increasingSplit {log : List α} (increasing : Increasing position log) (low : Nat) :
    log = log.filter (fun entry => position entry ≤ low) ++ behind position log low := by
  induction log with
  | nil => rfl
  | cons entry log ih =>
    obtain ⟨first,rest⟩ := List.pairwise_cons.mp increasing
    by_cases here : position entry ≤ low
    · have later : ¬ low < position entry := by omega
      simpa [behind,here,later] using ih rest
    · have none' : log.filter (fun entry => position entry ≤ low) = [] := by
        refine List.filter_eq_nil_iff.mpr fun other mem => ?_
        have := first other mem
        simp only [decide_eq_true_eq]
        omega
      have all : behind position log low = log := by
        refine List.filter_eq_self.mpr fun other mem => ?_
        have := first other mem
        simp only [decide_eq_true_eq]
        omega
      have later : low < position entry := by omega
      rw [behind] at all
      simp [behind,here,later,none',all]

theorem increasingInjective {log : List α} (increasing : Increasing position log) {a b : α} (memA : a ∈ log)
    (memB : b ∈ log) (same : position a = position b) : a = b := by
  induction log with
  | nil => simp at memA
  | cons entry log ih =>
    obtain ⟨first,rest⟩ := List.pairwise_cons.mp increasing
    rcases List.mem_cons.mp memA with rfl | afterA
    · rcases List.mem_cons.mp memB with rfl | afterB
      · rfl
      · exact absurd same (Nat.ne_of_lt (first b afterB))
    · rcases List.mem_cons.mp memB with rfl | afterB
      · exact absurd same (Nat.ne_of_gt (first a afterA))
      · exact ih rest afterA afterB

theorem cutBehind {log first rest : List α} {initial low high : Nat} (increasing : Increasing position log)
    (start : initial ≤ low) (cut : behind position log low = first ++ rest) (upTo : ∀ entry ∈ first, position entry ≤ high)
    (above : ∀ entry ∈ rest, high < position entry) (forward : low ≤ high) :
    between position log initial high = between position log initial low ++ first ∧ behind position log high = rest := by
  have split := increasingSplit increasing low
  have beyond : ∀ entry ∈ first ++ rest, low < position entry := by
    intro entry mem
    rw [← cut] at mem
    simpa [behind] using (List.mem_filter.mp mem).2
  have keepFirst : first.filter (fun entry => initial < position entry ∧ position entry ≤ high) = first := by
    refine List.filter_eq_self.mpr fun entry mem => ?_
    have := upTo entry mem
    have := beyond entry (by simp [mem])
    simp only [decide_eq_true_eq]
    omega
  have dropRest : rest.filter (fun entry => initial < position entry ∧ position entry ≤ high) = [] := by
    refine List.filter_eq_nil_iff.mpr fun entry mem => ?_
    have := above entry mem
    simp only [decide_eq_true_eq]
    omega
  have keepRest : rest.filter (fun entry => high < position entry) = rest :=
    List.filter_eq_self.mpr fun entry mem => by simpa using above entry mem
  have dropFirst : first.filter (fun entry => high < position entry) = [] := by
    refine List.filter_eq_nil_iff.mpr fun entry mem => ?_
    have := upTo entry mem
    simp only [decide_eq_true_eq]
    omega
  constructor
  · have settled : (log.filter (fun entry => position entry ≤ low)).filter
        (fun entry => initial < position entry ∧ position entry ≤ high) = between position log initial low := by
      rw [List.filter_filter,between]
      refine List.filter_congr fun entry _ => ?_
      by_cases here : position entry ≤ low
      · have : position entry ≤ high := by omega
        simp [here,this]
      · simp [here]
    calc between position log initial high
        = (log.filter (fun entry => position entry ≤ low) ++ (first ++ rest)).filter
            (fun entry => initial < position entry ∧ position entry ≤ high) := by rw [← cut,← split,between]
      _ = between position log initial low ++ first := by
          rw [List.filter_append,settled,List.filter_append,keepFirst,dropRest,List.append_nil]
  · have later : behind position log high = (behind position log low).filter (fun entry => high < position entry) := by
      rw [behind,behind,List.filter_filter]
      refine List.filter_congr fun entry _ => ?_
      by_cases here : high < position entry
      · have : low < position entry := by omega
        simp [here,this]
      · simp [here]
    rw [later,cut,List.filter_append,dropFirst,keepRest,List.nil_append]

end CloudberryEtl.SortedLog
