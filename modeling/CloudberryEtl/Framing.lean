import CloudberryEtl.Manifest
import CloudberryEtl.PrefixCode

/-! The byte strings that digests are taken of, as words of prefix codes. A number has its width, a text the length in front
of it, so a word is never read past its end. -/
namespace CloudberryEtl.Framing
open Change Manifest PrefixCode

theorem beBytesSize (width value : Nat) : (beBytes width value).length = width := by simp [beBytes]

theorem beBytesSucc (width value : Nat) :
    beBytes (width + 1) value = UInt8.ofNat (value / 256 ^ width) :: beBytes width value := by
  simp [beBytes,List.range_succ]

theorem byteApart {left right : Nat} (same : UInt8.ofNat left = UInt8.ofNat right) : left % 256 = right % 256 := by
  simpa using congrArg UInt8.toNat same

theorem beBytesMod {width left right : Nat} (same : beBytes width left = beBytes width right) :
    left % 256 ^ width = right % 256 ^ width := by
  induction width with
  | zero => rw [pow_zero,Nat.mod_one,Nat.mod_one]
  | succ width ih =>
    rw [beBytesSucc,beBytesSucc] at same
    obtain ⟨high,low⟩ := List.cons.inj same
    rw [pow_succ,Nat.mod_mul,Nat.mod_mul,ih low,byteApart high]

theorem beBytesInjective {width left right : Nat} (here : left < 256 ^ width) (there : right < 256 ^ width)
    (same : beBytes width left = beBytes width right) : left = right := by
  rw [← Nat.mod_eq_of_lt here,← Nat.mod_eq_of_lt there]
  exact beBytesMod same

theorem beInt32Injective {left right : Int} (here : -2 ^ 31 ≤ left ∧ left < 2 ^ 31)
    (there : -2 ^ 31 ≤ right ∧ right < 2 ^ 31) (same : beInt 4 left = beInt 4 right) : left = right := by
  have small : ∀ value : Int, (value % 256 ^ 4).toNat < 256 ^ 4 := by
    intro value
    omega
  have wrapped := beBytesInjective (small left) (small right) same
  omega

theorem strBytesInjective : Function.Injective strBytes := by
  intro left right same
  exact String.toByteArray_inj.mp (ByteArray.ext (Array.toList_inj.mp same))

def lengthCode : Code Nat UInt8 :=
  Code.fixed 8 (beBytes 8) (fun length => length < 2 ^ 64) (beBytesSize 8)
    (fun _ _ here there => beBytesInjective here there)

def fieldCode : Code Bytes UInt8 := Code.framed lengthCode

theorem fieldEncode (value : Bytes) : fieldCode.encode value = hashField value := rfl

end CloudberryEtl.Framing
