import IqTape.Control.Server

/-!
# The replayer

The replayer takes its settings from the command line, sets up a session, listens
for control requests if it is told to, and replays the tape.

## Main definitions

* `ReplayerTool.prepare` — the settings, or the end of the tool.
* `ReplayerTool.launch` — a session that is ready to run, or the end of the tool.
-/

namespace IqTape

namespace ReplayerTool

/-- The settings that a command line asks for; or the end of the tool, if there is
nothing to replay. -/
def prepare [JsonLibrary] (program : String) (files : FileTexts) (arguments : List String) :
    Except ToolResult ReplayConfig :=
  match ReplayConfig.parseArguments files .initial arguments with
  | (_, some (.notCaught _)) => .error .aborted
  | (_, some f) => .error (.failure ⟨ReplayConfig.usage program, f.notice⟩)
  | (c, none) =>
    if c.help then .error (.success (ReplayConfig.usage program))
    else if c.version then .error (.success ReplayConfig.versionText)
    else .ok c

/-- What is printed before replaying. -/
def banner (c : ReplayConfig) (s : ReplaySession) : Console :=
  if c.quiet then .silent
  else .report <| IqTape.banner ReplayConfig.toolName toolsVersion [
    "Input:          ", c.input, "\n",
    "Target:         udp://", s.config.target, "\n",
    "Bind:           ", c.bind, " (port ", decimal (s.port.getD 0).toNat, ")\n",
    "Speed:          ", Layout.plain.write c.speed, "x\n",
    "Loop:           ", if c.loop then "yes\n" else "no\n",
    if 0 < c.controlPort then "Control port:   " ++ integerText c.controlPort ++ "\n" else ""]

/-- A session that is ready to run. -/
structure Launch where
  session : ReplaySession
  server : ControlServer
  console : Console

/-- Set up a session and a control server; or end the tool, if one of them fails.
The calls that make the sockets come with it; `net` answers for the first socket and
`control` for the second. -/
def launch (now : Int) (tape : Option Source) (net control : SocketAnswers) (c : ReplayConfig) :
    List SocketCall × Except ToolResult Launch :=
  match (ReplaySession.idle c now).setUp now tape net with
  | (_, calls, some f) => (calls, .error (.failure (.complain f.notice)))
  | (s, calls, none) =>
    let greeting := banner c s
    if c.controlPort ≤ 0 then (calls, .ok ⟨s, .idle, greeting⟩)
    else
      let (server, more, f) := ControlServer.idle.start c.controlPort control
      let said := greeting ++ ControlServer.idle.startNotice c.quiet server f
      (calls ++ more, if f.isSome then .error (.failure said) else .ok ⟨s, server, said⟩)

end ReplayerTool

end IqTape
