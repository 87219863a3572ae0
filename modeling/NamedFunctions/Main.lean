import NamedFunctions.Daemon.CommandLine
import NamedFunctions.Daemon.Console

/-!
# The program

Reads the command line and the configuration, and lets lines on standard input drive the daemon. The
lines that answer go to standard output, and what goes wrong to standard error.
-/

namespace NamedFunctions

/-- Say why the program ends. -/
def giveUp (reasons : List String) : IO UInt32 := do
  IO.eprintln (": ".intercalate reasons)
  return 1

/-- The configuration in a file; the defaults if there is no such file. `nfnd/src/main:128–138`. -/
def loadConfig (path : String) : IO (Option DaemonConfig) := do
  try
    return DaemonConfig.ofToml? (← IO.FS.readFile path)
  catch
    | .noFileOrDirectory .. => return some {}
    | _ => return none

/-- Carry out the instructions that are left on standard input. -/
partial def Console.serve (c : Console) (input : IO.FS.Stream) : IO UInt32 := do
  let line ← input.getLine
  if line.isEmpty then return 0
  match Instruction.ofLine? line.trimAscii.toString with
  | none =>
    IO.eprintln ("not an instruction: " ++ line.trimAscii.toString)
    c.serve input
  | some instruction =>
    match c.carryOut instruction with
    | .error error => giveUp ("Failed to start daemon" :: error.chain)
    | .ok (answers, c) =>
      answers.forM IO.println
      (← IO.getStdout).flush
      c.serve input

/-- Serve with what the command line and the configuration file set. `nfnd/src/main:139–178`. -/
def runDaemon (args : Arguments) : IO UInt32 := do
  let some config ← loadConfig args.configFile
    | giveUp ["Failed to load configuration", args.configFile]
  match config.override args with
  | .error error => giveUp ["Invalid arguments", error.message]
  | .ok config =>
    let seed ← IO.rand 0 0xFFFFFFFF
    match Daemon.new config (.ofSeed (.ofNat seed)) with
    | .error error => giveUp ["Invalid configuration", error.message]
    | .ok daemon => Console.serve { daemon } (← IO.getStdin)

end NamedFunctions

open NamedFunctions in
/-- Run a daemon, unless the command line asks for something else. `nfnd/src/main:124–178`. -/
def main (arguments : List String) : IO UInt32 := do
  match Arguments.ofCommandLine arguments with
  | .ok args => runDaemon args
  | .error exit =>
    match exit with
    | .help | .version =>
      IO.println exit.message
      return 0
    | _ =>
      IO.eprintln exit.message
      return 2
