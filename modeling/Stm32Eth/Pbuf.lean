import Stm32Eth.Lib.Linked
import Mathlib.Data.BitVec

/-!
# Packet buffers and status codes

The part of lwIP's `struct pbuf` that `ethif.c` reads or writes, the chains pbufs form through
`next`, and the status codes of the HAL and of lwIP. Addresses are those of the 32-bit core.
-/

namespace Stm32Eth

/-- An address of the 32-bit core. -/
abbrev Addr := BitVec 32

/-- The null pointer. -/
abbrev NULL : Addr := 0

/-- `struct pbuf`: the fields the driver uses. -/
structure Pbuf where
  next : Addr
  payload : Addr
  totLen : BitVec 16
  len : BitVec 16
  deriving DecidableEq, Repr

/-- `HAL_StatusTypeDef`. -/
inductive HalStatus
  | halOk
  | halError
  | halBusy
  | halTimeout
  deriving DecidableEq, Repr

/-- The two `err_t` values the driver returns. -/
inductive ErrT
  | errOk
  | errIf
  deriving DecidableEq, Repr

/-- `PbufChain m p l`: following `next` from `p` in the memory `m` visits the pbufs `l`. -/
abbrev PbufChain (m : Addr → Pbuf) (p : Addr) (l : List Addr) : Prop :=
  Linked.Chain NULL (fun a => (m a).next) p l

end Stm32Eth
