/-!
# Decimal text of floats

A float is written with the fewest digits that read back as it, the nearest of those when there are several. Positional notation is
used for exponents from -5 to 15, and a whole number keeps a zero behind its point.
-/

namespace TypedSfc

namespace Json

/-- A finite float without its sign: it is `mantissa * 2 ^ exponent`. -/
structure Binary where
  mantissa : Nat
  exponent : Int
  deriving DecidableEq, Repr, Inhabited

namespace Binary

/-- The smallest mantissa of a float that is not near zero. -/
def leadingBit : Nat := Nat.pow 2 52

/-- The float of some bits, the sign left out. -/
def ofBits (bits : UInt64) : Binary :=
  let e := (bits >>> 52).toNat % 2048
  let m := bits.toNat % leadingBit
  if e = 0 then ⟨m, -1074⟩ else ⟨leadingBit + m, (e : Int) - 1075⟩

/-- `n * 2 ^ exponent / 10 ^ k` as a fraction. -/
def scaled (n : Nat) (exponent k : Int) : Nat × Nat :=
  (n * Nat.pow 2 exponent.toNat * Nat.pow 10 (-k).toNat, Nat.pow 2 (-exponent).toNat * Nat.pow 10 k.toNat)

/-- The decimal exponent of a float that is not zero: its first digit counts `10 ^ k`. -/
def decimalExponent (b : Binary) : Int :=
  let (n, d) := scaled b.mantissa b.exponent 0
  if d ≤ n then ((toString (n / d)).length : Int) - 1
  else -(((List.range 400).find? fun j => decide (d ≤ n * Nat.pow 10 j)).getD 0 : Int)

/-- Whether `digits * 10 ^ k` reads back as a float: it lies nearer to it than to its neighbours, or halfway if the mantissa is
even. -/
def readsBack (b : Binary) (digits : Nat) (k : Int) : Bool :=
  let atPower := b.mantissa = leadingBit ∧ b.exponent ≠ -1074
  let (lo, d) := scaled (4 * b.mantissa - (if atPower then 1 else 2)) (b.exponent - 2) k
  let (hi, _) := scaled (4 * b.mantissa + 2) (b.exponent - 2) k
  if b.mantissa % 2 = 0 then decide (lo ≤ digits * d) && decide (digits * d ≤ hi)
  else decide (lo < digits * d) && decide (digits * d < hi)

/-- The number of `count` digits, with its exponent, that reads back as a float and is nearest to it. -/
def digitsOf? (b : Binary) (count : Nat) : Option (Nat × Int) :=
  let k := b.decimalExponent - (count : Int) + 1
  let (n, d) := scaled b.mantissa b.exponent k
  let below := n / d
  let down := b.readsBack below k
  let up := b.readsBack (below + 1) k
  if down && (!up || decide (2 * (n - below * d) ≤ d)) then some (below, k)
  else if up then some (below + 1, k)
  else none

/-- The fewest digits that read back as a float, and their exponent. -/
def shortest (b : Binary) : Nat × Int :=
  ((List.range 17).findSome? fun i => b.digitsOf? (i + 1)).getD (0, 0)

end Binary

/-- Digits with an exponent as text. -/
def decimalText (digits : Nat) (k : Int) : String :=
  let ds := (toString digits).toList
  let point := (ds.length : Int) + k
  let zeros := fun (n : Int) => List.replicate n.toNat '0'
  String.ofList <|
    if 0 ≤ k ∧ point ≤ 16 then ds ++ zeros k ++ ['.', '0']
    else if 0 < point ∧ point ≤ 16 then ds.take point.toNat ++ '.' :: ds.drop point.toNat
    else if -5 < point ∧ point ≤ 0 then '0' :: '.' :: zeros (-point) ++ ds
    else
      let tail := 'e' :: (toString (point - 1)).toList
      match ds with
      | d :: e :: more => d :: '.' :: e :: more ++ tail
      | ds => ds ++ tail

/-- A number without the zeros at its end, which go to the exponent; `fuel` bounds their number. -/
def dropZeros : Nat → Nat → Int → Nat × Int
  | 0, n, k => (n, k)
  | fuel + 1, n, k => if n ≠ 0 ∧ n % 10 = 0 then dropZeros fuel (n / 10) (k + 1) else (n, k)

/-- A finite float as text. -/
def floatText (x : Float) : String :=
  let bits := x.toBits
  let sign := if bits >>> 63 = 1 then "-" else ""
  let b := Binary.ofBits bits
  if b.mantissa = 0 then sign ++ "0.0"
  else
    let (n, k) := b.shortest
    let (n, k) := dropZeros 20 n k
    sign ++ decimalText n k

end Json

end TypedSfc
