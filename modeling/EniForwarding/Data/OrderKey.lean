/-! Orders that are read off a key.

A type whose values are told apart by a key takes the order of its keys; the
order is then total, transitive and antisymmetric because that of the keys is.
-/

set_option autoImplicit false

namespace EniForwarding

/-- Comparing by an injective key never calls two values equal. -/
theorem lawfulEqCmp_compareOn {α β : Type} [Ord β] [Std.LawfulEqOrd β] {key : α → β}
    (injective : ∀ a b, key a = key b → a = b) : Std.LawfulEqCmp (compareOn key) where
  compare_self {a} := Std.ReflCmp.compare_self (a := key a)
  eq_of_compare {a b} h := injective a b (Std.LawfulEqOrd.eq_of_compare h)

end EniForwarding
