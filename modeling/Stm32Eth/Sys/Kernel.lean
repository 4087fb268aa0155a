import Stm32Eth.Lib.BoundedQueue
import Stm32Eth.Lib.RecursiveMutex
import Stm32Eth.Pbuf

/-!
# The kernel under the port

What the functions of `sys_arch.c` share: the kernel's return values and ticks, and lwIP's. The
kernel's objects are `RecursiveMutex` and `BoundedQueue`, as `semphr.h` and `queue.h` document one
attempt of each operation. Whether a thread that cannot go on waits or gives up is the caller's
`xTicksToWait`.
-/

namespace Stm32Eth.Sys

/-- `LWIP_ASSERT(message, assertion)` prints the message and goes on. -/
def lwipAssert (message : String) (assertion : Bool) : List String :=
  if assertion then [] else [message]

@[simp] theorem lwipAssert_true (message : String) : lwipAssert message true = [] := rfl

/-! ## Return values and ticks -/

/-- `pdTRUE`. -/
def pdTrue : ℤ := 1

/-- `errQUEUE_FULL`. -/
def errQueueFull : ℤ := 0

/-- `errQUEUE_EMPTY`. -/
def errQueueEmpty : ℤ := 0

/-- `portMAX_DELAY`: the kernel waits without end. -/
def portMaxDelay : BitVec 32 := 0xFFFFFFFF

/-- `portTICK_RATE_MS`, with 1000 ticks a second. -/
def portTickRateMs : BitVec 32 := 1

/-- `SYS_ARCH_TIMEOUT`. -/
def sysArchTimeout : BitVec 32 := 0xFFFFFFFF

/-- The `err_t` values of the port's functions. -/
inductive SysErr
  | errOk
  | errMem
  | errNeedSched
  deriving DecidableEq, Repr

/-- The ticks a function of the port waits for a timeout in milliseconds; 0 is no timeout. -/
def timeoutTicks (timeoutMs : BitVec 32) : BitVec 32 :=
  if timeoutMs = 0 then portMaxDelay else timeoutMs / portTickRateMs

end Stm32Eth.Sys
