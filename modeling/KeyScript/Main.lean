import KeyScript.CommandLine.Perform

/-!
The program itself. It looks up the files that the command line names, has the
work done on them, and then makes good what the work asks of the outside: text
on the two outputs, and time between actions. A watched script is looked at
again and again until the program is stopped.
-/

namespace KeyScript
namespace Terminal

def writeText (stream : IO.FS.Stream) (t : Text) : IO Unit := do
  stream.write (ByteArray.mk t.toArray)
  stream.flush

def faultOf : IO.Error → FileFault
  | .inappropriateType .. => .notDirectory
  | .invalidArgument .. => .invalidArgument
  | .permissionDenied .. => .permissionDenied
  | .hardwareFault .. => .inputOutput
  | _ => .notFound

def look (path : Text) : IO (Except FileFault Entry) := do
  match String.fromUTF8? (ByteArray.mk path.toArray) with
  | none | some "" => return .error .notFound
  | some name =>
    try
      let place := (← IO.currentDir) / name
      match (← place.metadata).type with
      | .dir => return .ok .directory
      | .file =>
        try return .ok (.file (← IO.FS.readBinFile place).toList)
        catch e => return .ok (.locked (faultOf e))
      | _ => return .ok .device
    catch e => return .error (faultOf e)

/-- What some paths name now, as a disk with nothing else on it. -/
def lookAll (paths : List Text) : IO Disk := do
  let found ← paths.mapM fun path => return (path, ← look path)
  return fun path => (found.lookup path).getD (.error .notFound)

def pathsOf (home : Text) : Invocation → List Text
  | .work _ options path => path :: (Settings.placeOf home options.config).toList
  | .completion _ | .help _ => []

def environment (name : String) : IO Text := do
  return utf8 ((← IO.getEnv name).getD "")

def surroundings (home : Text) (paths : List Text) : IO Surroundings := do
  let noColour ← environment "NO_COLOR"
  return {
    disk := ← lookAll paths
    home
    colourOut := usesColours (← (← IO.getStdout).isTty) false noColour
    colourErr := usesColours (← (← IO.getStderr).isTty) false noColour }

def replay (echoed : Bool) : Event → IO Unit
  | .sleep length => IO.sleep (min (length.tdiv 1000000).toNat 4294967295).toUInt32
  | .act action => do if echoed then writeText (← IO.getStdout) (Recorder.echo [action])

def conclude (f : Finish) : IO UInt32 := do
  writeText (← IO.getStdout) f.printed
  f.events.forM (replay f.echoed)
  writeText (← IO.getStderr) f.errorOutput
  return f.code.toUInt32

/-- How often a watched script is looked at, in milliseconds. -/
def interval : UInt32 := 100

/-- Loads a script whenever what its path names is another thing than `seen`. -/
partial def follow (s : Settings) (colours : Bool) (script : Script)
    (seen : Option (Except FileFault Entry)) (last : Option Plan) : IO UInt32 := do
  let found ← look script.path
  let same :=
    match seen, found with
    | some (.ok a), .ok b => a == b
    | some (.error _), .error _ => true
    | _, _ => false
  if same then
    IO.sleep interval
    follow s colours script seen last
  else
    let r := Watch.reload script (fun _ => found) (seen.map fun _ => .written)
    writeText (← IO.getStderr) (CommandLine.logText s r.records)
    let (text, last) := CommandLine.announce script.path colours last r
    writeText (← IO.getStdout) text
    follow s colours r.script (some found) last

def watch (w : Surroundings) (o : Options) (path : Text) : IO UInt32 := do
  match CommandLine.prepare w o path with
  | .error f => conclude { failure := f, colours := w.colourErr && !o.noColour }
  | .ok (s, script) =>
    writeText (← IO.getStderr) (CommandLine.logText s [Watch.startRecord path])
    follow s (w.colourOut && !o.noColour) script none none

def run (args : List String) : IO UInt32 := do
  let words := args.map utf8
  let home ← environment "HOME"
  match Invocation.ofWords words with
  | .error _ => conclude (Finish.ofWords (← surroundings home []) words)
  | .ok invocation =>
    let w ← surroundings home (pathsOf home invocation)
    match invocation with
    | .work .check options path =>
      if options.watch then watch w options path
      else conclude (CommandLine.perform w invocation)
    | _ => conclude (CommandLine.perform w invocation)

end Terminal
end KeyScript

def main (args : List String) : IO UInt32 :=
  KeyScript.Terminal.run args
