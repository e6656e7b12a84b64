/-
  Powers of two and of ten.
-/

namespace Idempotence

/-- 2 to the power of `k`. -/
def twoTo (k : Nat) : Nat := Nat.pow 2 k

/-- 10 to the power of `k`. -/
def tenTo (k : Nat) : Nat := Nat.pow 10 k

theorem tenTo_zero : tenTo 0 = 1 := rfl

theorem tenTo_succ (k : Nat) : tenTo (k + 1) = tenTo k * 10 := rfl

end Idempotence
