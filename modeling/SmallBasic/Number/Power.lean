/-!
# Powers of two and ten

The weights of binary and decimal places, with the few laws that rounding needs.
-/

namespace SmallBasic

/-- Two to the power `k`. -/
def twoTo (k : Nat) : Nat := Nat.pow 2 k

/-- Ten to the power `k`. -/
def tenTo (k : Nat) : Nat := Nat.pow 10 k

theorem twoTo_pos (k : Nat) : 0 < twoTo k := Nat.two_pow_pos k

theorem tenTo_pos (k : Nat) : 0 < tenTo k := Nat.pow_pos (by decide)

theorem twoTo_add (a b : Nat) : twoTo (a + b) = twoTo a * twoTo b := Nat.pow_add 2 a b

theorem tenTo_add (a b : Nat) : tenTo (a + b) = tenTo a * tenTo b := Nat.pow_add 10 a b

theorem twoTo_lt_twoTo_iff {a b : Nat} : twoTo a < twoTo b ↔ a < b :=
  Nat.pow_lt_pow_iff_right (by decide)

/-- A positive number has at most `k` bits exactly when it is below the weight of bit `k`. -/
theorem log2_lt_iff {n k : Nat} (h : n ≠ 0) : n.log2 < k ↔ n < twoTo k := Nat.log2_lt h

/-- A positive number has bit `k` or a higher one exactly when it reaches the weight of bit `k`. -/
theorem le_log2_iff {n k : Nat} (h : n ≠ 0) : k ≤ n.log2 ↔ twoTo k ≤ n := Nat.le_log2 h

end SmallBasic
