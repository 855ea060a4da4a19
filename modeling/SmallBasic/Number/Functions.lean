import SmallBasic.Number.Basic

/-!
# Elementary functions

Roots, logarithms and trigonometry. Their results are those of the platform's mathematical library,
reached through the 64-bit encoding; conversions between degrees and radians are ordinary products.
-/

namespace SmallBasic

namespace Number

/-- Applies a function of the platform. -/
def viaFloat (f : Float → Float) (x : Number) : Number :=
  ofBits (f (Float.ofBits x.toBits)).toBits

def arcCos : Number → Number := viaFloat Float.acos

def arcSin : Number → Number := viaFloat Float.asin

def arcTan : Number → Number := viaFloat Float.atan

def cos : Number → Number := viaFloat Float.cos

def sin : Number → Number := viaFloat Float.sin

def tan : Number → Number := viaFloat Float.tan

def log10 : Number → Number := viaFloat Float.log10

def naturalLog : Number → Number := viaFloat Float.log

def squareRoot : Number → Number := viaFloat Float.sqrt

/-- `x` to the power `y`. -/
def power (x y : Number) : Number :=
  ofBits (Float.pow (Float.ofBits x.toBits) (Float.ofBits y.toBits)).toBits

/-- The number nearest to the circumference of a circle of diameter one. -/
def pi : Number := ofBits 0x400921FB54442D18

/-- Radians to degrees: the factor is rounded before it is used. -/
def degrees (x : Number) : Number := x.mul ((ofInt 180).div pi)

/-- Degrees to radians: the factor is rounded before it is used. -/
def radians (x : Number) : Number := x.mul (pi.div (ofInt 180))

end Number

end SmallBasic
