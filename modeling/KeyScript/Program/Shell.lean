import KeyScript.Text.Number

/-!
A small command language, as far as one-line programs need it: commands with
quoted words and numbered parameters, joined by `;`, `&&` and `||`, whose output
can be sent to the other stream. The commands are those that need no program of
their own.
-/

namespace KeyScript
namespace Shell

/-- A piece of a word: text as it stands, or a parameter. Only pieces outside quotes are split at
blanks. -/
inductive Piece where
  | literal (b : UInt8)
  | parameter (name : UInt8) (quoted : Bool)
deriving DecidableEq, Repr

inductive Stream where
  | out
  | err
  | nowhere
deriving DecidableEq, Repr

inductive Joint where
  | always
  | onSuccess
  | onFailure
deriving DecidableEq, Repr

inductive Token where
  | word (pieces : List Piece)
  /-- Sends a stream where another goes. -/
  | duplicate (source target : UInt8)
  /-- Sends a stream to the file named by the next word. -/
  | toFile (source : UInt8)
  | joint (j : Joint)
deriving DecidableEq, Repr

inductive Quotes where
  | bare
  | single
  | double
deriving DecidableEq, Repr

def endWord (tokens : Array Token) (word : Option (Array Piece)) : Array Token :=
  match word with
  | some pieces => tokens.push (.word pieces.toList)
  | none => tokens

def extend (word : Option (Array Piece)) (p : Piece) : Option (Array Piece) :=
  some ((word.getD #[]).push p)

/-- The stream a redirection is about: the digit right in front of it, else the output. -/
def redirected (word : Option (Array Piece)) : UInt8 × Option (Array Piece) :=
  match word with
  | some #[.literal d] => if Text.isDigit d then (d, none) else (49, word)
  | _ => (49, word)

def isParameter (b : UInt8) : Bool :=
  Text.isDigit b || b == 64 || b == 42 || b == 35 || b == 63 || b == 36

def tokens (quotes : Quotes) (word : Option (Array Piece)) (found : Array Token) :
    Text → Option (List Token)
  | [] => if quotes = .bare then some (endWord found word).toList else none
  | b :: rest =>
    match quotes with
    | .single =>
      if b == 39 then tokens .bare word found rest
      else tokens .single (extend word (.literal b)) found rest
    | .double =>
      if b == 34 then tokens .bare word found rest
      else
        match b, rest with
        | 92, c :: rest =>
          if c == 34 || c == 92 || c == 36 || c == 96 then
            tokens .double (extend word (.literal c)) found rest
          else tokens .double (extend (extend word (.literal 92)) (.literal c)) found rest
        | 36, c :: rest =>
          if isParameter c then tokens .double (extend word (.parameter c true)) found rest
          else tokens .double (extend (extend word (.literal 36)) (.literal c)) found rest
        | _, rest => tokens .double (extend word (.literal b)) found rest
    | .bare =>
      if b == 39 then tokens .single (some (word.getD #[])) found rest
      else if b == 34 then tokens .double (some (word.getD #[])) found rest
      else if b == 32 || b == 9 then tokens .bare none (endWord found word) rest
      else if b == 59 || b == 10 then
        tokens .bare none ((endWord found word).push (.joint .always)) rest
      else
        match b, rest with
        | 38, 38 :: rest => tokens .bare none ((endWord found word).push (.joint .onSuccess)) rest
        | 124, 124 :: rest => tokens .bare none ((endWord found word).push (.joint .onFailure)) rest
        | 62, 38 :: c :: rest =>
          let (source, word) := redirected word
          tokens .bare none ((endWord found word).push (.duplicate source c)) rest
        | 62, rest =>
          let (source, word) := redirected word
          tokens .bare none ((endWord found word).push (.toFile source)) rest
        | 92, c :: rest => tokens .bare (extend word (.literal c)) found rest
        | 36, c :: rest =>
          if isParameter c then tokens .bare (extend word (.parameter c false)) found rest
          else tokens .bare (extend (extend word (.literal 36)) (.literal c)) found rest
        | _, rest => tokens .bare (extend word (.literal b)) found rest

structure State where
  out : Text := []
  err : Text := []
  status : Nat := 0
  ended : Bool := false
  /-- The signal that ended the program, if one did. -/
  signal : Option Text := none
deriving Repr

def ownNumber : Text := utf8 "1"

/-- The signals that end a program: their numbers, their names and what they are called when they
do. -/
def signals : List (List Text × Text) :=
  [([utf8 "1", utf8 "HUP"], utf8 "hangup"), ([utf8 "2", utf8 "INT"], utf8 "interrupt"),
   ([utf8 "9", utf8 "KILL"], utf8 "killed"), ([utf8 "13", utf8 "PIPE"], utf8 "broken pipe"),
   ([utf8 "15", utf8 "TERM"], utf8 "terminated")]

def ownSignal (arguments : List Text) : Option Text :=
  let found (spelling : Text) := (signals.find? fun s => s.1.contains spelling).map (·.2)
  match arguments with
  | [target] => if target = ownNumber then found (utf8 "TERM") else none
  | [45 :: spelling, target] => if target = ownNumber then found spelling else none
  | [flag, spelling, target] =>
    if flag = utf8 "-s" ∧ target = ownNumber then found spelling else none
  | _ => none

/-- The value of a parameter; `arguments` starts with the name of the program. -/
def valueOf (arguments : List Text) (status : Nat) (name : UInt8) : Text :=
  if Text.isDigit name then arguments.getD (name.toNat - 48) []
  else if name == 35 then Text.ofNat (arguments.length - 1)
  else if name == 63 then Text.ofNat status
  else if name == 36 then ownNumber
  else Text.join (utf8 " ") arguments.tail

/-- The words that a word becomes: blanks in the value of a bare parameter divide it. `parts` are
the finished words and `part` is the one being read. -/
def expand (arguments : List Text) (status : Nat) (parts : Array Text) (part : Option Text) :
    List Piece → List Text
  | [] => (match part with | some p => parts.push p | none => parts).toList
  | .literal b :: rest => expand arguments status parts (some (part.getD [] ++ [b])) rest
  | .parameter name true :: rest =>
    expand arguments status parts (some (part.getD [] ++ valueOf arguments status name)) rest
  | .parameter name false :: rest =>
    let value := valueOf arguments status name
    let isBlank (b : UInt8) : Bool := b == 32 || b == 9 || b == 10
    match Text.splitAt isBlank [] [] value with
    | [] => expand arguments status parts part rest
    | [only] =>
      expand arguments status parts
        (if only.isEmpty then part else some (part.getD [] ++ only)) rest
    | first :: more =>
      let start := part.getD [] ++ first
      let words := (start :: more.dropLast).filter fun w => !w.isEmpty
      let last := more.getLastD []
      expand arguments status (parts ++ words.toArray)
        (if last.isEmpty then none else some last) rest

def octal : Nat → Nat → Text → Nat × Text
  | 0, value, t => (value, t)
  | _ + 1, value, [] => (value, [])
  | n + 1, value, b :: rest =>
    if 48 ≤ b && b ≤ 55 then octal n (value * 8 + (b.toNat - 48)) rest else (value, b :: rest)

def escaped (c : UInt8) : Option UInt8 :=
  if c == 110 then some 10
  else if c == 116 then some 9
  else if c == 114 then some 13
  else if c == 97 then some 7
  else if c == 98 then some 8
  else if c == 102 then some 12
  else if c == 118 then some 11
  else if c == 92 then some 92
  else none

def unescape : Nat → Text → Text
  | _, [] => []
  | 0, t => t
  | fuel + 1, 92 :: c :: rest =>
    match escaped c with
    | some b => b :: unescape fuel rest
    | none =>
      if 48 ≤ c && c ≤ 55 then
        let (value, rest) := octal 3 0 (c :: rest)
        value.toUInt8 :: unescape fuel rest
      else 92 :: c :: unescape fuel rest
  | fuel + 1, b :: rest => b :: unescape fuel rest

def formatOnce : Nat → Text → List Text → Text → Text × List Text
  | 0, _, arguments, done => (done, arguments)
  | _ + 1, [], arguments, done => (done, arguments)
  | fuel + 1, 37 :: c :: rest, arguments, done =>
    if c == 37 then formatOnce fuel rest arguments (done ++ [37])
    else if c == 115 then formatOnce fuel rest arguments.tail (done ++ arguments.headD [])
    else if c == 98 then
      let value := arguments.headD []
      formatOnce fuel rest arguments.tail (done ++ unescape value.length value)
    else if c == 100 || c == 105 then
      let value := match Text.readInt (arguments.headD []) with
        | .ok n => n
        | .error _ => 0
      formatOnce fuel rest arguments.tail (done ++ Text.ofInt value)
    else formatOnce fuel rest arguments (done ++ [37, c])
  | fuel + 1, b :: rest, arguments, done => formatOnce fuel rest arguments (done ++ [b])

def format (layout : Text) : Nat → List Text → Text
  | 0, _ => []
  | n + 1, arguments =>
    let (text, left) := formatOnce (layout.length + 1) layout arguments []
    if left.isEmpty || left.length == arguments.length then text
    else text ++ format layout n left

def State.print (s : State) (stream : Stream) (t : Text) : State :=
  match stream with
  | .out => { s with out := s.out ++ t }
  | .err => { s with err := s.err ++ t }
  | .nowhere => s

structure Streams where
  out : Stream := .out
  err : Stream := .err

def Streams.send (streams : Streams) (source : UInt8) (target : Stream) : Streams :=
  if source == 50 then { streams with err := target } else { streams with out := target }

def Streams.get (streams : Streams) (number : UInt8) : Stream :=
  if number == 50 then streams.err else streams.out

def runCommand (name : Text) (streams : Streams) (words : List Text) (s : State) : State :=
  match words with
  | [] => s
  | command :: arguments =>
    if command = utf8 "echo" then
      let (arguments, ending) :=
        if arguments.head? = some (utf8 "-n") then (arguments.tail, []) else (arguments, [newline])
      let text := Text.join (utf8 " ") arguments
      { s.print streams.out (unescape text.length text ++ ending) with status := 0 }
    else if command = utf8 "printf" then
      match arguments with
      | [] => { s.print streams.err (name ++ utf8 ": 1: printf: usage: printf format [arg ...]\n") with
                status := 2 }
      | layout :: arguments =>
        let plain := unescape layout.length layout
        { s.print streams.out (format plain (arguments.length + 1) arguments) with status := 0 }
    else if command = utf8 "exit" then
      match arguments with
      | [] => { s with ended := true }
      | code :: _ =>
        match Text.readDecimal code with
        | .ok n => { s with status := (n % 256).toNat, ended := true }
        | .error _ =>
          { s.print streams.err (name ++ utf8 ": 1: exit: Illegal number: " ++ code ++ [newline]) with
            status := 2, ended := true }
    else if command = utf8 "kill" ∧ (ownSignal arguments).isSome then
      { s with ended := true, signal := ownSignal arguments }
    else if command = utf8 "true" ∨ command = utf8 ":" then { s with status := 0 }
    else if command = utf8 "false" then { s with status := 1 }
    else
      { s.print streams.err (name ++ utf8 ": 1: " ++ command ++ utf8 ": not found\n") with status := 127 }

def finish (arguments : List Text) (joint : Joint) (words : Array (List Piece))
    (streams : Streams) (s : State) : State :=
  let wanted := match joint with
    | .always => true
    | .onSuccess => s.status == 0
    | .onFailure => s.status != 0
  if s.ended || !wanted then s
  else
    runCommand (arguments.headD []) streams
      (words.toList.flatMap fun w => expand arguments s.status #[] none w) s

def run (arguments : List Text) (joint : Joint) (words : Array (List Piece)) (streams : Streams) :
    List Token → State → State
  | [], s => finish arguments joint words streams s
  | .joint next :: rest, s =>
    run arguments next #[] {} rest (finish arguments joint words streams s)
  | .duplicate source target :: rest, s =>
    run arguments joint words (streams.send source (streams.get target)) rest s
  | .toFile source :: .word _ :: rest, s =>
    run arguments joint words (streams.send source .nowhere) rest s
  | .toFile _ :: rest, s => run arguments joint words streams rest s
  | .word pieces :: rest, s => run arguments joint (words.push pieces) streams rest s

def runText (program : Text) (arguments : List Text) : State :=
  match tokens .bare none #[] program with
  | some ts => run arguments .always #[] {} ts {}
  | none =>
    { err := arguments.headD [] ++ utf8 ": 1: Syntax error: Unterminated quoted string\n",
      status := 2 }

end Shell
end KeyScript
