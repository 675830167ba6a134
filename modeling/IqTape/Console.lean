/-!
# Consoles and exit codes

A tool prints on two channels and ends with a code.  What it reports goes to one
channel, and what went wrong to the other; only the order within a channel counts.

## Main definitions

* `Console` — what has been printed on both.
* `Console.report`, `Console.complain` — a text on one of them.
* `ToolResult` — what a tool has printed, and its exit code.
-/

namespace IqTape

/-- What has been printed. -/
structure Console where
  out : String
  /-- The channel for what went wrong. -/
  err : String
  deriving DecidableEq, Repr, Inhabited

namespace Console

def silent : Console := ⟨"", ""⟩

def report (text : String) : Console := ⟨text, ""⟩

/-- Something that went wrong. -/
def complain (text : String) : Console := ⟨"", text⟩

/-- One after the other. -/
def append (a b : Console) : Console := ⟨a.out ++ b.out, a.err ++ b.err⟩

instance : Append Console := ⟨append⟩

/-- All of them in order. -/
def join (cs : List Console) : Console := cs.foldl append silent

end Console

/-- The end of a tool. -/
structure ToolResult where
  console : Console
  /-- Its exit code; zero is success. -/
  code : Nat
  deriving DecidableEq, Repr, Inhabited

namespace ToolResult

/-- A good end with a report. -/
def success (text : String) : ToolResult := ⟨.report text, 0⟩

def failure (console : Console) : ToolResult := ⟨console, 1⟩

/-- The end of a tool that was not prepared for something: the system stops it, and a
shell shows that as this code.  What the system prints is left out. -/
def aborted : ToolResult := ⟨.silent, 134⟩

/-- The same end after something else was printed. -/
def after (console : Console) (r : ToolResult) : ToolResult :=
  { r with console := console ++ r.console }

end ToolResult

/-- A line across the banner of a tool. -/
def bannerLine : String := "========================================\n"

/-- A banner: the name of a tool, and lines about what it will do. -/
def banner (name version : String) (lines : List String) : String :=
  String.join [bannerLine, name, " v", version, "\n", bannerLine, String.join lines, bannerLine,
    "\n"]

end IqTape
