/-
Powers of whole numbers.

Bounds, scales and times are written with powers, `2 ^ 96` or `10 ^ n`. With algebra
imported there would be a second reading of them, by way of monoids. This keeps to
the core one everywhere, so that the same powers are the same terms.
-/
set_option autoImplicit false

namespace TeamLedger

@[default_instance 10000]
instance (priority := high) corePow {M : Type} [NatPow M] : Pow M Nat := instPowNat

end TeamLedger
