import KeyScript.CommandLine.Flag
import KeyScript.Failure

/-!
Reading the command line. The first word that is neither a flag nor the value of
one may name a task; the remaining words are read with the flags of that task.
-/

namespace KeyScript

inductive Task where
  | run
  | check
  | plan
  | help
deriving DecidableEq, Repr

namespace Task

def commonFlags : List Flag := [.config, .defaultDelay, .noColour, .verbose, .vverbose]

def ownFlags : Task → List Flag
  | .run => [.backend, .dryRun, .noFailSafe, .pause]
  | .check => [.watch]
  | .plan => [.format]
  | .help => []

def flags (t : Task) : List Flag :=
  .help :: (t.ownFlags ++ commonFlags)

/-- The task with a name; running a script has none. -/
def named (word : Text) : Option Task :=
  if word = utf8 "check" then some .check
  else if word = utf8 "plan" then some .plan
  else if word = utf8 "help" then some .help
  else none

end Task

/-- The name under which help lists the completion of command lines, which is a program of its
own. -/
def completionName : Text := utf8 "completion"

def completionRequests : List Text := [utf8 "__complete", utf8 "__completeNoDesc"]

inductive UsageFault where
  | badSyntax (word : Text)
  | unknownFlag (name : Text)
  | unknownLetter (letter : UInt8) (cluster : Text)
  | missingValue (name : Text)
  | badValue (flag : Flag) (value : Text) (cause : ValueFault)
  /-- The wrong number of words besides the flags. -/
  | operands (count : Nat)
deriving DecidableEq, Repr

/-- The character by which an unknown letter is shown: the first byte of the form that the byte has
as a character. -/
def shownLetter (b : UInt8) : Char :=
  Char.ofNat ((String.utf8EncodeChar (Char.ofNat b.toNat)).headD 0).toNat

def UsageFault.message : UsageFault → Text
  | .badSyntax word => utf8 "bad flag syntax: " ++ word
  | .unknownFlag name => utf8 "unknown flag: --" ++ name
  | .unknownLetter letter cluster =>
    utf8 "unknown shorthand flag: " ++ quoteChar (shownLetter letter) ++ utf8 " in -" ++ cluster
  | .missingValue name => utf8 "flag needs an argument: --" ++ name
  | .badValue flag value cause =>
    utf8 "invalid argument " ++ value.quote ++ utf8 " for " ++ flag.spellings.quote ++
      utf8 " flag: " ++ cause.message value
  | .operands count => utf8 "accepts 1 arg(s), received " ++ Text.ofNat count

def UsageFault.failure (f : UsageFault) : Failure := [.plain f.message]

namespace CommandLine

def dash : UInt8 := 45

def terminator : Text := utf8 "--"

def setFlag (o : Options) (flag : Flag) (value : Text) : Except UsageFault Options :=
  (o.set flag value).mapError (.badValue flag value)

/-- The flags of a cluster of letters: each takes its implied value, or the last one the value
behind an equals sign. A cluster that starts like the flags of a test run is passed over. -/
def readCluster (flags : List Flag) (o : Options) : Text → Except UsageFault Options
  | [] => .ok o
  | b :: rest =>
    if (utf8 "test.").isPrefixOf (b :: rest) then .ok o
    else
      match flags.find? fun f => f.letter == some b with
      | none => .error (.unknownLetter b (b :: rest))
      | some flag =>
        match rest with
        | 61 :: c :: value => setFlag o flag (c :: value)
        | rest =>
          match setFlag o flag (flag.implied.getD []) with
          | .ok o => readCluster flags o rest
          | .error fault => .error fault

def splitLong (word : Text) : Except UsageFault (Text × Option Text) :=
  match word.drop 2 with
  | [] => .error (.badSyntax word)
  | b :: rest =>
    if b == dash || b == 61 then .error (.badSyntax word) else .ok (Text.cut 61 (b :: rest))

/-- Whether a word is a flag rather than an operand; a single dash is an operand. -/
def isFlagWord (word : Text) : Bool :=
  word.head? == some dash && word.length != 1

def readWords (flags : List Flag) (o : Options) (operands : List Text) :
    List Text → Except UsageFault (Options × List Text)
  | [] => .ok (o, operands)
  | word :: rest =>
    if !isFlagWord word then readWords flags o (operands ++ [word]) rest
    else if word = terminator then .ok (o, operands ++ rest)
    else if terminator.isPrefixOf word then
      match splitLong word with
      | .error fault => .error fault
      | .ok (name, given) =>
        match flags.find? fun f => f.name == name with
        | none => .error (.unknownFlag name)
        | some flag =>
          match given.or flag.implied, rest with
          | some value, rest =>
            match setFlag o flag value with
            | .ok o => readWords flags o operands rest
            | .error fault => .error fault
          | none, value :: rest =>
            match setFlag o flag value with
            | .ok o => readWords flags o operands rest
            | .error fault => .error fault
          | none, [] => .error (.missingValue name)
    else
      match readCluster flags o (word.drop 1) with
      | .ok o => readWords flags o operands rest
      | .error fault => .error fault

def searchFlags : List Flag :=
  Task.run.ownFlags ++ Task.commonFlags

/-- Whether a word, while the task is looked for, counts as a flag with its value in the next
word. -/
def takesNext (word : Text) : Bool :=
  if word.contains 61 then false
  else if terminator.isPrefixOf word then
    !(searchFlags.any fun f => f.name == word.drop 2 && f.implied.isSome)
  else
    match word with
    | [45, b] => !(searchFlags.any fun f => f.letter == some b && f.implied.isSome)
    | _ => false

/-- The words that are neither flags nor their values. A flag whose value would be the last word
ends the search. -/
def plainWords : List Text → List Text
  | [] => []
  | word :: rest =>
    if word = terminator then []
    else if takesNext word then
      match rest with
      | _ :: next :: more => plainWords (next :: more)
      | _ => []
    else if word.isEmpty || word.head? == some dash then plainWords rest
    else word :: plainWords rest

def dropName (name : Text) : List Text → List Text
  | [] => []
  | word :: rest =>
    if word = terminator then word :: rest
    else if takesNext word then
      match rest with
      | value :: more => word :: value :: dropName name more
      | [] => [word]
    else if word = name then rest
    else word :: dropName name rest

def names (known words : List Text) : Bool :=
  (plainWords words).head?.any known.contains

def findTask (words : List Text) : Task × List Text :=
  match plainWords words with
  | [] => (.run, words)
  | name :: _ =>
    match Task.named name with
    | some task => (task, dropName name words)
    | none => (.run, words)

end CommandLine

inductive Invocation where
  /-- A task on the script at a path. -/
  | work (task : Task) (options : Options) (path : Text)
  /-- The help for a task. -/
  | help (task : Task)
  /-- The words go to the completion of command lines. -/
  | completion (words : List Text)
deriving Repr

/-- Reads a command line. Help wins over the number of operands, but not over flags that cannot be
read. -/
def Invocation.ofWords (words : List Text) : Except UsageFault Invocation :=
  if CommandLine.names (completionName :: completionRequests) words then .ok (.completion words)
  else
    let (task, rest) := CommandLine.findTask words
    match CommandLine.readWords task.flags {} [] rest with
    | .error fault => .error fault
    | .ok (options, operands) =>
      if options.help then .ok (.help task)
      else if task = .help then
        if CommandLine.names [completionName] operands then .ok (.completion words)
        else .ok (.help (CommandLine.findTask operands).1)
      else
        match operands with
        | [path] => .ok (.work task options path)
        | _ => .error (.operands operands.length)

end KeyScript
