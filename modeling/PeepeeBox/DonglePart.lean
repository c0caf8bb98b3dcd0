import PeepeeBox.Bytes

set_option autoImplicit false

namespace PeepeeBox

/-- The fields of `pp_t` that `pp_init` fills and nothing writes afterwards. -/
structure Part where
  hdProbe : Bool
  hdAbits : ℕ
  hsTable : BitVec 64
  hbGate : Bool
  hbPw : BitVec 32
  tKey : BitVec 32
  tInit : BitVec 16
  tSessHi : Bool
  tSynthIdent : ℕ
  ngSweep : Bool
  ngVal : Byte

end PeepeeBox
