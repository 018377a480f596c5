import Mathlib.Tactic

/-!
This module contains the error codes of the kernel.
-/

namespace Jrinx

inductive InternalError where
  | repeatInitialization
  | devProbeError
  | devReadError
  | devWriteError
  | devBadState
  | netAgain
  | netFail
  | wouldBlock
  | elfParseError
  | notEnoughMem
  | invalidCpuId
  | invalidVirtAddr
  | duplicateTaskId
  | invalidExecutorId
  | duplicateExecutorId
  | invalidInspectorId
  | duplicateInspectorId
  | invalidInspectorStatus
  | invalidRuntimeStatus
  | invalidRuntimeSchedTable
  | invalidParam
  | duplicateRuntimeSchedTable
  | invalidTimedEventStatus
  deriving DecidableEq, Repr

end Jrinx
