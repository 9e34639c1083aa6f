import KeyScript.CommandLine.Invocation
import KeyScript.Settings.Load

/-!
The help texts: what a task does, how it is called, and its flags in columns.
-/

namespace KeyScript

namespace Flag

/-- The word for the value of a flag in its help; flags that are given or not have none. -/
def valueWord : Flag → Text
  | .backend | .config | .format => utf8 " string"
  | .defaultDelay => utf8 " int"
  | .pause => utf8 " duration"
  | .verbose => utf8 " count"
  | .dryRun | .help | .noColour | .noFailSafe | .vverbose | .watch => []

/-- What a flag does; `owner` is the name of the program or task it belongs to. -/
def purpose (owner : Text) : Flag → Text
  | .backend => utf8 "Injection backend: xdotool or dry-run (default \"xdotool\")"
  | .config => utf8 "Settings file (default " ++ Settings.usualPath ++ utf8 ")"
  | .defaultDelay => utf8 "Initial default delay in milliseconds"
  | .dryRun => utf8 "Print the input that would be injected instead of injecting it"
  | .format => utf8 "Output format: text or cbor (default \"text\")"
  | .help => utf8 "help for " ++ owner
  | .noColour => utf8 "Disable colored output"
  | .noFailSafe => utf8 "Do not abort when the pointer is in a screen corner"
  | .pause => utf8 "Pause after every injected action"
  | .verbose => utf8 "Log progress (-v info, -vv debug)"
  | .vverbose => utf8 "Log debug output, same as -vv"
  | .watch => utf8 "Re-check the script every time it changes"

def heading (f : Flag) : Text :=
  (if f.letter.isSome then utf8 "  " else utf8 "      ") ++ f.spellings ++ f.valueWord

end Flag

namespace Help

def flagLines (owner : Text) (flags : List Flag) : Text :=
  let flags := flags.mergeSort fun f g => f.name ≤ g.name
  let width := (flags.map fun f => f.heading.length).foldl max 0
  flags.flatMap fun f => f.heading.padRight (width + 3) ++ f.purpose owner ++ [newline]

end Help

namespace Task

def title : Task → Text
  | .run => utf8 "ducky"
  | .check => utf8 "check"
  | .plan => utf8 "plan"
  | .help => utf8 "help"

def summary : Task → Text
  | .run => utf8 "Run a ducky-script keystroke macro"
  | .check => utf8 "Load a script and report problems without running it"
  | .plan => utf8 "Print the resolved steps of a script and its digest"
  | .help => utf8 "Help about any command"

def description : Task → Text
  | .run => utf8 "Run a ducky-script file, injecting its keystrokes into the focused window.

Each line is one statement: REM, DELAY, DEFAULT_DELAY, STRING, REPEAT, or a
key combination such as \"CTRL-ALT DELETE\". Moving the pointer into a screen
corner aborts the run."
  | .help => utf8 "Help provides help for any command in the application.
Simply type ducky help [path to command] for full details."
  | t => t.summary

def usage : Task → Text
  | .run => utf8 "  ducky <script> [flags]\n  ducky [command]\n"
  | .check => utf8 "  ducky check <script> [flags]\n"
  | .plan => utf8 "  ducky plan <script> [flags]\n"
  | .help => utf8 "  ducky help [command] [flags]\n"

def listing : Text :=
  ([(Task.check.title, Task.check.summary),
    (completionName, utf8 "Generate the autocompletion script for the specified shell"),
    (Task.help.title, Task.help.summary),
    (Task.plan.title, Task.plan.summary)] : List (Text × Text)).flatMap fun (name, summary) =>
    utf8 "  " ++ name.padRight 12 ++ summary ++ [newline]

def helpText (t : Task) : Text :=
  let opening := t.description ++ utf8 "\n\nUsage:\n" ++ t.usage
  if t = .run then
    opening ++ utf8 "\nAvailable Commands:\n" ++ listing ++ utf8 "\nFlags:\n" ++
      Help.flagLines t.title t.flags ++
      utf8 "\nUse \"ducky [command] --help\" for more information about a command.\n"
  else
    opening ++ utf8 "\nFlags:\n" ++ Help.flagLines t.title (.help :: t.ownFlags) ++
      utf8 "\nGlobal Flags:\n" ++ Help.flagLines t.title commonFlags

end Task
end KeyScript
