import Temnion.Library.Lines
import Temnion.Mcp.Server

/-
This file runs the server on the lines of its standard input and says when each response is one line of its output.
-/

namespace Temnion.Mcp

open JsonValue Text

/-- Answers what the reader yields line by line, up to the first line that cannot be read. -/
def runStdio (handle : Text → Option Text) : List (Except Text Text) → Text × Except Text Unit
  | [] => ([], .ok ())
  | .error failure :: _ => ([], .error failure)
  | .ok line :: rest => ((handle line).elim [] (· ++ ['\n']) ++ (runStdio handle rest).1, (runStdio handle rest).2)

section Framing

variable {handle : Text → Option Text} {input : List (Except Text Text)}

end Framing

section Breaks

variable [JsonNumber]

end Breaks

section Server

variable [JsonNumber]

variable {debug : Option Char → Text} {handlers : Text → Option (JsonValue → Reply)} {line answer : Text}

end Server

section Samples

/-- A message that is no request, a blank line and a line that cannot be read. -/
def sampleInput : List (Except Text Text) := [.ok "[]".toList, .ok " ".toList, .error "closed".toList]

/-- The key of an id breaks the line of its response. -/
theorem key_breaks_line :
    letI := JsonNumber.integers
    (Text.lines (runStdio (handleMessage (fun _ => []) fun _ => none)
      [.ok "\x7b\"id\":\x7b\"a\\nb\":null\x7d\x7d".toList]).1).length = 2 := by
  decide +kernel

end Samples

end Temnion.Mcp
