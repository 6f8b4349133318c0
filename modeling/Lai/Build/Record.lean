import Lai.Build
/-!
# Build records

A record sums a build up for the history of builds.
-/

namespace Lai.Build

/-- A summary of one build; times are in milliseconds and microseconds. -/
structure Record where
  files : List String
  errorCount : Nat
  succeeded : Bool
  outputSize : Nat
  startedMs : Int
  durationUs : Int
  deriving DecidableEq, Inhabited, Repr

namespace Record

/-- The record of a build of the documents that produced `code` and reported `count` errors. -/
def make (docs : List Document) (count : Nat) (code : String) (startedMs durationUs : Int) : Record where
  files := docs.map (·.name)
  errorCount := count
  succeeded := count == 0 && code != ""
  outputSize := code.utf8ByteSize
  startedMs := startedMs
  durationUs := durationUs

/-- The duration in whole milliseconds, what is left over being cut off. -/
def durationMs (record : Record) : Int :=
  record.durationUs.tdiv 1000

end Record

end Lai.Build
