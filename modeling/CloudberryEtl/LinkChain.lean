import Mathlib.Data.List.Perm.Subperm
import Mathlib.Data.List.Nodup

/-! Chains of a partial function: from a value, the function is applied until it has no answer. A chain that ends visits
no value twice, so it is no longer than the list its links lie in. -/
namespace CloudberryEtl.LinkChain

variable {α : Type} {next : α → Option α}

inductive Ends (next : α → Option α) : α → Nat → Prop
  | here {a} (last : next a = none) : Ends next a 0
  | there {a b steps} (link : next a = some b) (rest : Ends next b steps) : Ends next a (steps + 1)

theorem endsUnique {a : α} {one other : Nat} (first : Ends next a one) (second : Ends next a other) : one = other := by
  induction first generalizing other with
  | here last =>
    cases second with
    | here _ => rfl
    | there link _ => simp [last] at link
  | there link _ ih =>
    cases second with
    | here last => simp [last] at link
    | there link' rest =>
      cases Option.some.inj (link.symm.trans link')
      rw [ih rest]

theorem endsPath {a : α} {steps : Nat} (ends : Ends next a steps) :
    ∃ path : List α, path.length = steps ∧ path.Nodup ∧
      ∀ b ∈ path, (∃ c, next c = some b) ∧ ∃ left < steps, Ends next b left := by
  -- Along a chain the number of steps that are left falls, so the values are distinct.
  induction ends with
  | here _ => exact ⟨[],rfl,List.nodup_nil,by simp⟩
  | @there a b steps link rest ih =>
    obtain ⟨path,length,distinct,each⟩ := ih
    have fresh : b ∉ path := by
      intro mem
      obtain ⟨left,fewer,again⟩ := (each b mem).2
      have same := endsUnique rest again
      omega
    refine ⟨b :: path,by simp [length],List.nodup_cons.mpr ⟨fresh,distinct⟩,?_⟩
    intro c mem
    rcases List.mem_cons.mp mem with rfl | mem
    · exact ⟨⟨a,link⟩,steps,by omega,rest⟩
    · obtain ⟨linked,left,fewer,ends⟩ := each c mem
      exact ⟨linked,left,by omega,ends⟩

theorem endsWithin {all : List α} (inside : ∀ a b, next a = some b → b ∈ all) {a : α} {steps : Nat}
    (ends : Ends next a steps) : steps ≤ all.length := by
  obtain ⟨path,length,distinct,each⟩ := endsPath ends
  have subset : path ⊆ all := by
    intro b mem
    obtain ⟨⟨c,link⟩,_⟩ := each b mem
    exact inside c b link
  rw [← length]
  exact (List.subperm_of_subset distinct subset).length_le

end CloudberryEtl.LinkChain
