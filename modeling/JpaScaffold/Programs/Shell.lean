import JpaScaffold.Programs.Simple

/-!
The program `sh`: it runs other programs one behind the other, over one input.
-/
namespace JpaScaffold.Programs.Shell

/-- What stands between two commands: it tells when the second one runs. -/
inductive Joint where
  /-- Always, with the input of the script. -/
  | always
  | onSuccess
  | onFailure
  /-- With the output of the command before it as input. -/
  | pipe
  deriving DecidableEq

/-- Where the output or the reports of a command go. -/
inductive Target where
  | output
  | errors
  | nowhere
  deriving DecidableEq

inductive Token where
  | word (text : String)
  | joint (joint : Joint)
  /-- What is written to the channel `from_` goes to the target. -/
  | redirect (fromErrors : Bool) (target : Target)
  /-- The command has no input. -/
  | noInput
  deriving DecidableEq

def endsWord (c : Char) : Bool := " \t\n;&|<>'\"\\".contains c

/-- The text up to the closing quote, and what follows it. Between double quotes a backslash takes a
character with a meaning of its own. -/
def quoted (quote : Char) : List Char → Option (List Char × List Char)
  | [] => none
  | [c] => if c = quote then some ([], []) else none
  | c :: d :: rest =>
    if c = quote then some ([], d :: rest)
    else if c = '\\' ∧ quote = '"' then
      (quoted quote rest).map fun (t, r) =>
        (if "\"\\$\x60".contains d then d :: t else c :: d :: t, r)
    else (quoted quote (d :: rest)).map fun (t, r) => (c :: t, r)

/-- A piece of a word, and what follows it. Nothing if a quote stays open, no piece where a word
ends. -/
def piece : List Char → Option (Option (List Char) × List Char)
  | [] => some (none, [])
  | '\'' :: rest => (quoted '\'' rest).map fun (t, r) => (some t, r)
  | '"' :: rest => (quoted '"' rest).map fun (t, r) => (some t, r)
  | '\\' :: c :: rest => some (some [c], rest)
  | c :: rest =>
    if endsWord c then some (none, c :: rest)
    else some (some (c :: rest.takeWhile (!endsWord ·)), rest.dropWhile (!endsWord ·))

/-- A word, if one is at the front, and what follows it. `fuel` bounds its pieces. -/
def word (cs : List Char) : Nat → Option (Option (List Char) × List Char)
  | 0 => some (none, cs)
  | fuel + 1 =>
    (piece cs).bind fun
      | (none, rest) => some (none, rest)
      | (some t, rest) => (word rest fuel).map fun (more, rest) => (some (t ++ more.getD []), rest)

/-- The redirection or the joint at the front, and what follows it. -/
def sign : List Char → Option (List Token × List Char)
  | ' ' :: rest | '\t' :: rest => some ([], rest)
  | '\n' :: rest | ';' :: rest => some ([.joint .always], rest)
  | '&' :: '&' :: rest => some ([.joint .onSuccess], rest)
  | '|' :: '|' :: rest => some ([.joint .onFailure], rest)
  | '|' :: rest => some ([.joint .pipe], rest)
  | '2' :: '>' :: '&' :: '1' :: rest => some ([.redirect true .output], rest)
  | '1' :: '>' :: '&' :: '2' :: rest | '>' :: '&' :: '2' :: rest =>
    some ([.redirect false .errors], rest)
  | '>' :: '&' :: '1' :: rest => some ([], rest)
  | '2' :: '>' :: rest => (target rest).map fun r => ([.redirect true .nowhere], r)
  | '>' :: rest => (target rest).map fun r => ([.redirect false .nowhere], r)
  | '<' :: rest => (target rest).map fun r => ([.noInput], r)
  | _ => none
where
  /-- What follows the name of the empty file. -/
  target (cs : List Char) : Option (List Char) :=
    let cs := cs.dropWhile (· == ' ')
    let name := "/dev/null".toList
    if name.isPrefixOf cs then some (cs.drop name.length) else none

/-- The tokens of a script. Nothing if a quote stays open or a sign is not known. `fuel` bounds the
tokens. -/
def tokens (cs : List Char) : Nat → Option (List Token)
  | 0 => some []
  | fuel + 1 =>
    match cs with
    | [] => some []
    | cs =>
      match sign cs with
      | some (ts, rest) => (tokens rest fuel).map (ts ++ ·)
      | none =>
        (word cs (cs.length + 1)).bind fun
          | (none, _) => none
          | (some t, rest) => (tokens rest fuel).map (.word (String.ofList t) :: ·)

structure Command where
  joint : Joint
  words : List String := []
  outputTo : Target := .output
  errorsTo : Target := .errors
  noInput : Bool := false

def Command.add (c : Command) : Token → Command
  | .word text => { c with words := c.words ++ [text] }
  | .redirect false target =>
    { c with outputTo := if target = .errors then c.errorsTo else target }
  | .redirect true target =>
    { c with errorsTo := if target = .output then c.outputTo else target }
  | .noInput => { c with noInput := true }
  | .joint _ => c

/-- The commands of a script, of which `c` is the first. -/
def commands (c : Command) : List Token → List Command
  | [] => [c]
  | .joint j :: rest => c :: commands { joint := j } rest
  | t :: rest => commands (c.add t) rest

/-- What a script has done so far. -/
structure State where
  status : Nat := 0
  input : List UInt8
  output : List UInt8 := []
  errors : List UInt8 := []
  milliseconds : Nat := 0
  /-- The output that the next command reads. -/
  piped : List UInt8 := []
  ended : Bool := false

def runWords (words : List String) (input : List UInt8) : Ended :=
  match words with
  | [] => { status := 0, unread := input }
  | name :: args =>
    if name = ":" then { status := 0, unread := input }
    else
      match simple.lookup name with
      | some program => program args input
      | none =>
        { status := 127, errors := line ("sh: 1: " ++ name ++ ": not found"), unread := input }

/-- The command runs behind what was done before it. -/
def Command.runs (c : Command) (s : State) : Bool :=
  match c.joint with
  | .always | .pipe => true
  | .onSuccess => s.status = 0
  | .onFailure => s.status ≠ 0

/-- What goes to a target, of the output and the reports of a command. -/
def Command.sentTo (c : Command) (target : Target) (e : Ended) : List UInt8 :=
  (if c.outputTo = target then e.output else []) ++ if c.errorsTo = target then e.errors else []

/-- One command behind what was done before it. `intoPipe` tells that the next command reads its
output. -/
def State.step (s : State) (c : Command) (intoPipe : Bool) : State :=
  if s.ended || !c.runs s then s
  else
    match c.words with
    | "exit" :: args =>
      let status := (args.head?.bind String.toNat?).getD s.status
      { s with status := status % 256, ended := !intoPipe && c.joint != .pipe }
    | words =>
      let fromPipe := c.joint == .pipe
      let e := runWords words (if c.noInput then [] else if fromPipe then s.piped else s.input)
      let output := c.sentTo .output e
      { s with
        status := e.status
        input := if c.noInput || fromPipe then s.input else e.unread
        output := if intoPipe then s.output else s.output ++ output
        errors := s.errors ++ c.sentTo .errors e
        milliseconds := s.milliseconds + e.milliseconds
        piped := if intoPipe then output else [] }

def State.steps (s : State) : List Command → State
  | [] => s
  | c :: rest => (s.step c (rest.head?.any (·.joint == .pipe))).steps rest

def runScript (script : String) (input : List UInt8) : Ended :=
  let cs := script.toList
  match tokens cs (cs.length + 1) with
  | none =>
    { status := 2, errors := line "sh: 1: Syntax error: Unterminated quoted string"
      unread := input }
  | some ts =>
    let s := State.steps { input } (commands { joint := .always } ts)
    { status := s.status, output := s.output, errors := s.errors, unread := s.input,
      milliseconds := s.milliseconds }

/-- The program. Without a script among its arguments it reads one from its input. -/
def run : Program := fun args input =>
  match args with
  | "-c" :: script :: _ => runScript script input
  | _ => runScript (String.ofList (Text.decodeLossy input)) []

end Shell

def find? (name : String) : Option Program :=
  if name = "sh" then some Shell.run else simple.lookup name

end JpaScaffold.Programs
