import Conformance.Directive
import Conformance.Host.Image
import Conformance.Host.Tool.Lines

set_option autoImplicit false

/-! # Tools that run programs

The tools that run another program in their place, after they have changed what it starts with, or
run one and wait for it; and those that say which program would be run.
-/

namespace Conformance

namespace Tool

open Shell (Text)

def assignment? (arg : Text) : Option (String × Text) :=
  let name := arg.takeWhile (· ≠ '=')
  match arg.drop name.length with
  | _ :: value => some (str name, value)
  | [] => none

/-- An environment with a variable in it. -/
def withVariable (environment : List (String × Text)) (v : String × Text) : List (String × Text) :=
  if environment.any (·.1 = v.1) then environment.map fun old => if old.1 = v.1 then v else old
  else environment ++ [v]

/-! ## Environments -/

/-- The arguments that a text is split into, in which quotes and escapes are resolved. `current` is
the argument in progress. -/
def splitArgs (environment : List (String × Text)) :
    (fuel : Nat) → Option Text → Text → Except String (List Text)
  | 0, current, _ | _, current, [] => .ok (current.toList)
  | fuel + 1, current, c :: rest =>
    let add (s : Text) (rest : Text) : Except String (List Text) :=
      splitArgs environment fuel (some (current.getD [] ++ s)) rest
    let stop (rest : Text) : Except String (List Text) :=
      (splitArgs environment fuel none rest).map (current.toList ++ ·)
    if Shell.Arithmetic.isSpace c then stop rest
    else if c = '#' ∧ current = none then .ok []
    else if c = '\'' then
      let inner := rest.takeWhile (· ≠ '\'')
      if rest.length = inner.length then .error "no terminating quote in -S string"
      else add inner (rest.drop (inner.length + 1))
    else if c = '"' then
      match quoted (rest.length + 1) rest with
      | some (inner, rest) => add inner rest
      | none => .error "no terminating quote in -S string"
    else match c, rest with
      | '\\', d :: rest => match d with
        | '_' => stop rest
        | 'c' => .ok current.toList
        | _ => match escape? d with
          | some e => add [e] rest
          | none => .error ("invalid sequence '\\" ++ str [d] ++ "' in -S")
      | '\\', [] => .error "invalid backslash at end of string in -S"
      | '$', '\x7b' :: rest =>
        let name := rest.takeWhile (· ≠ '\x7d')
        add ((environment.lookup (str name)).getD []) (rest.drop (name.length + 1))
      | '$', _ => .error "only $\x7bVARNAME\x7d expansion is supported, error at: "
      | _, _ => add [c] rest
where
  /-- The character that a letter behind a backslash stands for. -/
  escape? (d : Char) : Option Char := match d with
    | 'f' => some '\x0c'
    | 'n' => some '\n'
    | 'r' => some '\r'
    | 't' => some '\t'
    | 'v' => some '\x0b'
    | _ => if "\"#$'\\".toList.contains d then some d else none
  /-- A text up to a double quote, and what follows. -/
  quoted : (fuel : Nat) → Text → Option (Text × Text)
    | 0, _ | _, [] => none
    | fuel + 1, c :: rest => match c, rest with
      | '"', _ => some ([], rest)
      | '\\', d :: rest =>
        (quoted fuel rest).map fun (s, after) =>
          ((if d = '_' then [' '] else match escape? d with
            | some e => [e]
            | none => ['\\', d]) ++ s, after)
      | _, _ => (quoted fuel rest).map fun (s, after) => (c :: s, after)

def envOptions : Options :=
  ⟨"i0v", "uCS", [("ignore-environment", 'i'), ("null", '0'), ("unset", 'u'), ("chdir", 'C'),
    ("split-string", 'S'), ("debug", 'v')]⟩

/-- The arguments of `env` with those that are to be split in their places. -/
def splitFirst (environment : List (String × Text)) : List Text → Except String (List Text)
  | ('-' :: 'S' :: value) :: rest =>
    match value, rest with
    | [], value :: rest => (splitArgs environment (value.length + 1) none value).map (· ++ rest)
    | _, _ => (splitArgs environment (value.length + 1) none value).map (· ++ rest)
  | ('-' :: 'v' :: 'S' :: value) :: rest =>
    (splitArgs environment (value.length + 1) none value).map (· ++ rest)
  | args => .ok args

def env (scene : Scene) (args : List Text) : Plan :=
  match splitFirst scene.environment args with
  | .error e => .complain ("env: " ++ e) 125
  | .ok args =>
    envOptions.parseFront "env" 125 args fun p =>
      let (cleared, operands) : Bool × List Text := match p.operands with
        | ['-'] :: rest => (true, rest)
        | rest => (p.has 'i', rest)
      let start := if cleared then [] else scene.environment
      let kept := start.filter fun v => !((p.valuesOf 'u').map str).contains v.1
      let settings := operands.takeWhile fun arg => (assignment? arg).isSome
      let environment := (settings.filterMap assignment?).foldl withVariable kept
      let command := operands.drop settings.length
      let goTo : Except String (Option FileId) := match p.value? 'C' with
        | none => .ok none
        | some path => match scene.tree.find scene.cwd (bytes path) with
          | .ok (id, .directory _ _ _) => .ok (some id)
          | .ok _ => .error ("env: cannot change directory to '" ++ str path ++ "': "
              ++ Errno.notDirectory.description)
          | .error e => .error ("env: cannot change directory to '" ++ str path ++ "': "
              ++ e.description)
      match goTo, command with
      | .error e, _ => .complain e 125
      | .ok _, [] =>
        .print (environment.flatMap fun (name, value) => name.toList ++ '=' :: value
          ++ [if p.has '0' then '\x00' else '\n'])
      | .ok cwd, _ => .become environment cwd [] false command

def printenv (scene : Scene) (args : List Text) : Plan :=
  Options.parse ⟨"0", "", []⟩ "printenv" 2 args fun p =>
    if p.operands = [] then
      .print (scene.environment.flatMap fun (name, value) => name.toList ++ '=' :: value ++ ['\n'])
    else
      let values := p.operands.map fun name => scene.environment.lookup (str name)
      .finish ((values.filterMap id).flatMap (· ++ ['\n'])) []
        (if values.all Option.isSome then 0 else 1)

/-! ## Circumstances -/

/-- Plans a tool that runs a program in its place. -/
def become (program : String) (o : Options) (code : Nat) (ignored : List Signal) (ownGroup : Bool)
    (scene : Scene) (args : List Text) : Plan :=
  o.parseFront program code args fun p =>
    if p.operands = [] then missingOperand program code
    else .become scene.environment none ignored ownGroup p.operands

def nohup (scene : Scene) (args : List Text) : Plan :=
  become "nohup" ⟨"", "", []⟩ 125 [1] false scene args

def setsid (scene : Scene) (args : List Text) : Plan :=
  Options.parseFront ⟨"cfw", "", [("fork", 'f'), ("wait", 'w'), ("ctty", 'c')]⟩ "setsid" 1 args
    fun p =>
    if p.operands = [] then .complain ("setsid: no command specified" ++ hint "setsid") 1
    else .become scene.environment none [] true p.operands

def nice (scene : Scene) (args : List Text) : Plan :=
  let o : Options := ⟨"", "n", [("adjustment", 'n')]⟩
  match args with
  | [] => .print ['0', '\n']
  | ('-' :: c :: _) :: rest =>
    if c.isDigit then become "nice" o 125 [] false scene rest
    else become "nice" o 125 [] false scene args
  | _ => become "nice" o 125 [] false scene args

def stdbuf (scene : Scene) (args : List Text) : Plan :=
  become "stdbuf" ⟨"", "ioe", [("input", 'i'), ("output", 'o'), ("error", 'e')]⟩ 125 [] false scene
    args

/-! ## Times -/

def unitSeconds (c : Char) : Option Nat :=
  match c with
  | 's' => some 1
  | 'm' => some 60
  | 'h' => some 3600
  | 'd' => some 86400
  | _ => none

/-- The nanoseconds that a time has, with an optional unit; a time without end is a very long
one. -/
def nanosOf? (s : Text) : Option Nat :=
  let (number, unit) : Text × Nat := match s.getLast?.bind unitSeconds with
    | some unit => (s.dropLast, unit)
    | none => (s, 1)
  let farAway : Nat := Nat.pow 10 30
  match Directive.sleep? (str number) with
  | some (some time) => some (time.toNanos * unit)
  | some none => some farAway
  | none => none

def sleep (args : List Text) : Plan :=
  Options.parseFront ⟨"", "", []⟩ "sleep" 1 args fun p =>
    let times := p.operands.map fun s => (s, nanosOf? s)
    match p.operands, times.filter (·.2.isNone) with
    | [], _ => missingOperand "sleep" 1
    | _, [] => .pause ((times.filterMap (·.2)).foldl (· + ·) 0)
    | _, bad =>
      let lines := bad.map fun (s, _) => "sleep: invalid time interval '" ++ str s ++ "'"
      .complain (String.intercalate "\n" lines ++ hint "sleep") 1

def timeout (args : List Text) : Plan :=
  Options.parseFront ⟨"vPf", "sk", [("signal", 's'), ("kill-after", 'k'), ("preserve-status", 'P'),
    ("foreground", 'f'), ("verbose", 'v')]⟩ "timeout" 125 args fun p =>
    let bad (what : String) (s : Text) : Plan :=
      .complain ("timeout: invalid " ++ what ++ " '" ++ str s ++ "'" ++ hint "timeout") 125
    match p.operands with
    | [] | [_] => missingOperand "timeout" 125
    | duration :: command =>
      let signal : Option Signal := match p.value? 's' with
        | none => some 15
        | some s => Signal.find? (str s)
      match nanosOf? duration, signal, (p.value? 'k').map fun s => (s, nanosOf? s) with
      | none, _, _ => bad "time interval" duration
      | _, none, _ => .complain ("timeout: '" ++ str ((p.value? 's').getD []) ++ "': invalid signal"
          ++ hint "timeout") 125
      | _, _, some (s, none) => bad "time interval" s
      | some nanos, some signal, grace =>
        .guard ⟨nanos, signal, grace.bind (·.2), p.has 'P'⟩ command

/-! ## Arguments from standard input -/

/-- The words of a text, in which quotes and backslashes hide blanks. -/
def quotedWords : (fuel : Nat) → Option Text → Text → List Text
  | 0, current, _ | _, current, [] => current.toList
  | fuel + 1, current, c :: rest =>
    let add (s rest : Text) : List Text := quotedWords fuel (some (current.getD [] ++ s)) rest
    if c = ' ' ∨ c = '\t' ∨ c = '\n' then current.toList ++ quotedWords fuel none rest
    else if c = '\'' ∨ c = '"' then
      let inner := rest.takeWhile (· ≠ c)
      add inner (rest.drop (inner.length + 1))
    else match c, rest with
      | '\\', d :: rest => add [d] rest
      | _, _ => add [c] rest

/-- A list in pieces of at most `size` elements; `count` bounds their number. -/
def batches {α : Type} (size : Nat) : (count : Nat) → List α → List (List α)
  | 0, xs => [xs]
  | count + 1, xs =>
    if xs.length ≤ size then [xs] else xs.take size :: batches size count (xs.drop size)

/-- A text with each occurrence of another one replaced; `fuel` bounds their number. -/
def replaceText (old new : Text) : (fuel : Nat) → Text → Text
  | 0, s => s
  | _, [] => []
  | fuel + 1, c :: rest =>
    if old ≠ [] ∧ old.isPrefixOf (c :: rest) then
      new ++ replaceText old new fuel ((c :: rest).drop old.length)
    else c :: replaceText old new fuel rest

/-- The commands that `xargs` makes of its input. -/
def argCommands (p : Parsed) (text : Text) : List (List Text) :=
  let command := if p.operands = [] then ["echo".toList] else p.operands
  match p.value? 'I' with
  | some mark =>
    ((lines text).map (·.dropWhile isBlankChar)).filter (· ≠ []) |>.map fun line =>
      command.map fun arg => replaceText mark line (arg.length + 1) arg
  | none =>
    let items := if p.has '0' then (splitAt '\x00' text).filter (· ≠ [])
      else match p.value? 'd' with
        | some mark =>
          let mark := ((Shell.Printing.unescape (mark.length + 1) mark).1.head?).getD '\n'
          let pieces := splitAt mark text
          if pieces.getLast? = some [] then pieces.dropLast else pieces
        | none => quotedWords (text.length + 1) none text
    let groups : List (List Text) := match (p.value? 'n').bind natural?, p.value? 'L' with
      | some n, _ => batches (max 1 n) items.length items
      | none, some _ =>
        ((lines text).map fun line => quotedWords (line.length + 1) none line).filter (· ≠ [])
      | none, none => [items]
    if items = [] then if p.has 'r' then [] else [command]
    else groups.map (command ++ ·)

def xargs (args : List Text) : Plan :=
  Options.parseFront ⟨"0rtxp", "nIdLPsE", [("null", '0'), ("no-run-if-empty", 'r'),
    ("max-args", 'n'), ("replace", 'I'), ("delimiter", 'd'), ("max-lines", 'L'),
    ("max-procs", 'P'), ("verbose", 't')]⟩ "xargs" 1 args fun p =>
    gather [[0x2D]] fun readings =>
      let commands := argCommands p (texts readings).flatten
      let shown := commands.flatMap fun c => Shell.State.joined c ++ ['\n']
      ⟨[], if p.has 't' then shown else [], 0, [], commands⟩

/-! ## Questions about programs -/

def which (scene : Scene) (args : List Text) : Plan :=
  Options.parse ⟨"as", "", []⟩ "which" 2 args fun p =>
    let path := (scene.environment.lookup "PATH").map bytes
    let found := p.operands.map fun name =>
      let candidates := if name.contains '/' then [bytes name]
        else Image.candidates (path.getD Image.defaultSearchPath) (bytes name)
      let there := candidates.filter (scene.tree.isExecutable scene.cwd ·)
      if p.has 'a' then there else there.take 1
    .finish (found.flatten.flatMap fun path => Shell.State.ofBytes path ++ ['\n']) []
      (if found.any (· = []) then 1 else 0)

/-- Plans `kill`, where a signal is given by its name or its number. -/
def kill (args : List Text) : Plan :=
  let targets (signal : Signal) (operands : List Text) : Plan :=
    match operands.mapM Shell.Arithmetic.number? with
    | some targets => if targets = [] then .complain "kill: not enough arguments" 1
        else .send signal targets
    | none => .complain ("kill: failed to parse argument: '"
        ++ str ((operands.find? fun a => (Shell.Arithmetic.number? a).isNone).getD []) ++ "'") 1
  let named (name : Text) (rest : List Text) : Plan :=
    match Signal.find? (str name) with
    | some signal => targets signal rest
    | none => .complain ("kill: unknown signal name " ++ str name) 1
  match args with
  | ['-', '-'] :: rest => targets 15 rest
  | ['-', 's'] :: name :: rest => named name rest
  | ('-' :: name) :: rest => named name rest
  | rest => targets 15 rest

end Tool

end Conformance
