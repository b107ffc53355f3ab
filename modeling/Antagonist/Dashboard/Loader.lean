import Antagonist.Disk.Vfat

/-!
# The loader

`src/loader.cpp`: a program is started by name, and what runs is always the same, three times NOP
and a RET, which come back at once.

* `getActiveProcessLog_execute`, `getActiveProcessStatus_execute`: what a start leaves behind.
-/

namespace Antagonist

open ByteMem LineEditor

structure ExecutableProcess where
  programName : List Byte
  processId : BitVec 32
  virtualEntryPoint : BitVec 32
  instructionPointerOffset : BitVec 32
  executionPrivilegeRing : Byte
  statusReturnCode : BitVec 32

/-- `live_process` and `process_log_buffer`, and the address of `execution_sandbox_segment`. -/
structure Loader where
  liveProcess : ExecutableProcess
  processLogBuffer : Nat → Byte
  executionSandboxSegment : BitVec 32

def nativeText : List Byte := ascii "PROG: NATIVE OPCODES RET_OK (0x90, 0xC3) EXEC"

def noContextText : List Byte := ascii "[No active native execution context context]"

namespace Loader

/-- `execute_bounded_binary`.  A `char` is signed, and so is the remainder. -/
def executeBoundedBinary (l : Loader) (binaryName _instructionPayload : List Byte) : Loader where
  liveProcess :=
    { programName := binaryName
      processId := BitVec.ofInt 32 (200 + ((binaryName.headD 0).toInt.tmod 10))
      virtualEntryPoint := l.executionSandboxSegment
      instructionPointerOffset := 4
      executionPrivilegeRing := 3
      statusReturnCode := 200 }
  processLogBuffer := safeStringCopy 64 nativeText 0 l.processLogBuffer
  executionSandboxSegment := l.executionSandboxSegment

/-- `get_active_process_log`: the string that the pointer leads to. -/
def getActiveProcessLog (l : Loader) : List Byte :=
  if l.liveProcess.statusReturnCode = 200 then cString l.processLogBuffer 64 else noContextText

def getActiveProcessStatus (l : Loader) : BitVec 32 := l.liveProcess.statusReturnCode

theorem getActiveProcessStatus_execute (l : Loader) (name payload : List Byte) :
    (l.executeBoundedBinary name payload).getActiveProcessStatus = 200 := rfl

theorem getActiveProcessLog_execute (l : Loader) (name payload : List Byte) :
    (l.executeBoundedBinary name payload).getActiveProcessLog = nativeText := by
  have htext := cString_safeStringCopy (show 0 < 64 by norm_num) ⟨nativeText, by decide⟩
    l.processLogBuffer
  show (if (200 : BitVec 32) = 200 then
    cString (safeStringCopy 64 nativeText 0 l.processLogBuffer) 64 else noContextText) = nativeText
  rw [if_pos rfl, htext]
  decide

end Loader

end Antagonist
