import Conformance.Host.Jobs

set_option autoImplicit false

/-! # Command words

What the first word of a command stands for: a word of the grammar, an alias, a function, a command
of the shell itself, or a program that is sought in the search path. Functions hide the commands of
the shell, except for the special ones, whose names no function can have.

A program that is given by a bare name is first sought, and then run from the place where it was
found; if that cannot be run, the places behind it are tried.
-/

namespace Conformance

open Shell (Text)

namespace CommandWord

/-- The commands of the shell whose faults end it, and in front of which assignments last. -/
def specialNames : List String := Shell.Parser.specialNames

/-- The other commands of the shell. -/
def plainNames : List String :=
  ["[", "alias", "bg", "cd", "chdir", "command", "echo", "false", "fg", "getopts", "hash", "jobs",
   "kill", "printf", "pwd", "read", "test", "true", "type", "ulimit", "umask", "unalias", "wait"]

/-- The commands whose arguments may be assignments. -/
def declaringNames : List String := ["alias", "export", "local", "readonly"]

def isSpecial (name : Text) : Bool := specialNames.contains (String.ofList name)

def isBuiltin (name : Text) : Bool := isSpecial name || plainNames.contains (String.ofList name)

def declares (name : Text) : Bool := declaringNames.contains (String.ofList name)

/-- Words to be run, and how the first of them is understood. -/
structure Invocation where
  words : List Text
  /-- Whether functions are passed over, because `command` stands in front. -/
  plain : Bool
  /-- Whether programs are sought in the usual search path. -/
  usualPath : Bool

/-- The words behind `command` and its options; none if they are for `command` itself. The flag
tells whether the usual search path is asked for. -/
def behindCommand (usualPath : Bool) : List Text → Option Invocation
  | [] => none
  | word :: rest =>
    match word with
    | ['-', '-'] => if rest = [] then none else some ⟨rest, true, usualPath⟩
    | '-' :: c :: more =>
      if (c :: more).all (· = 'p') then behindCommand true rest else none
    | _ => some ⟨word :: rest, true, usualPath⟩

/-- What is run for words; `count` bounds how often `command` stands in front. -/
def resolve (s : Shell.State) : (count : Nat) → Invocation → Invocation
  | 0, i => i
  | count + 1, i =>
    match i.words with
    | name :: args =>
      let hidden : Bool := !i.plain && (s.functions.lookup "command").isSome
      if name = "command".toList ∧ ¬ hidden then
        match behindCommand i.usualPath args with
        | some behind => resolve s count behind
        | none => i
      else i
    | [] => i

def invocation (s : Shell.State) (words : List Text) : Invocation :=
  resolve s words.length ⟨words, false, false⟩

/-! ## Programs -/

/-- The paths at which a program may be, from the first on where there is one that may be executed;
otherwise what has been found wrong last. -/
def seek (tree : FileTree) (cwd : FileId) (e : Errno) : List Bytes → Except Errno (List Bytes)
  | [] => .error e
  | path :: rest =>
    match tree.find cwd path with
    | .ok (_, entry) =>
      if entry.isExecutable then .ok (path :: rest) else seek tree cwd .denied rest
    | .error f => seek tree cwd (if f = .noEntry ∨ f = .notDirectory then e else f) rest

def pathsFor (searchPath name : Text) : List Bytes :=
  Image.candidates (Tool.bytes searchPath) (Tool.bytes name)

/-- What is run for arguments at the first of some paths where there is something that can be run;
otherwise what has gone wrong last, where a program that is not there does not count. -/
def imageAmong (tree : FileTree) (cwd : FileId) (args : List Bytes) (e : Errno) :
    List Bytes → Except Errno Image
  | [] => .error e
  | path :: rest =>
    match Image.findOrScript tree cwd args path with
    | .ok image => .ok image
    | .error f =>
      imageAmong tree cwd args (if f = .noEntry ∨ f = .notDirectory then e else f) rest

def failureStatus (e : Errno) : Nat :=
  if e = .noEntry ∨ e = .notDirectory ∨ e = .linkLoop ∨ e = .nameTooLong then 127 else 126

def failureMessage (name : Text) (e : Errno) : String :=
  String.ofList name ++ ": "
    ++ if e = .noEntry ∨ e = .notDirectory then "not found" else e.description

def imageAt (tree : FileTree) (cwd : FileId) (args : List Text) (path : Text) :
    Except Errno Image :=
  Image.findOrScript tree cwd (args.map Tool.bytes) (Tool.bytes path)

/-- What is run for arguments, or what is wrong and the status. A program that is not found in the
search path always has the same status. -/
def imageFor (tree : FileTree) (cwd : FileId) (searchPath : Text) (args : List Text) :
    Except (Errno × Nat) Image :=
  let name := args.head?.getD []
  let withStatus (e : Errno) : Errno × Nat := (e, failureStatus e)
  if name.contains '/' then (imageAt tree cwd args name).mapError withStatus
  else
    match seek tree cwd .noEntry (pathsFor searchPath name) with
    | .error e => .error (e, 127)
    | .ok paths => (imageAmong tree cwd (args.map Tool.bytes) .noEntry paths).mapError withStatus

/-- What is run in the place of a shell: all paths are tried. -/
def successorFor (tree : FileTree) (cwd : FileId) (searchPath : Text) (args : List Text) :
    Except Errno Image :=
  let name := args.head?.getD []
  if name.contains '/' then imageAt tree cwd args name
  else imageAmong tree cwd (args.map Tool.bytes) .noEntry (pathsFor searchPath name)

def searchPath (s : Shell.State) (usual : Bool) : Text :=
  if usual then World.shellSearchPath else (s.value? "PATH").getD []

/-- The shell, with a program among those that it has found. -/
def track (s : Shell.State) (name : Text) : Shell.State :=
  if name.contains '/' ∨ s.tracked.contains name then s
  else { s with tracked := s.tracked ++ [name] }

/-! ## Descriptions -/

/-- What a command word stands for. -/
inductive Meaning where
  | reserved
  | shortened (value : Text)
  | function
  | builtin (special : Bool)
  /-- A program; `tracked` says that it has been found before. -/
  | program (path : Text) (tracked : Bool)
  | nothing

/-- What a word stands for as the first of a command. -/
def meaningOf (tree : FileTree) (cwd : FileId) (s : Shell.State) (usualPath : Bool) (word : Text) :
    Meaning :=
  let name := String.ofList word
  if Shell.Token.reserved.contains name then .reserved
  else if let some value := s.aliases.lookup name then .shortened value
  else if (s.functions.lookup name).isSome then .function
  else if isBuiltin word then .builtin (isSpecial word)
  else if word.contains '/' then
    match tree.find cwd (Tool.bytes word) with
    | .ok _ => .program word false
    | .error _ => .nothing
  else
    match seek tree cwd .noEntry (pathsFor (searchPath s usualPath) word) with
    | .ok (path :: _) => .program (Shell.State.ofBytes path) (s.tracked.contains word)
    | _ => .nothing

/-- What `type` says about a word, and the status. -/
def sentence (word : Text) (m : Meaning) : Text × Nat :=
  let text (s : String) : Text := word ++ s.toList
  match m with
  | .reserved => (text " is a shell keyword\n", 0)
  | .shortened value => (text " is an alias for " ++ value ++ ['\n'], 0)
  | .function => (text " is a shell function\n", 0)
  | .builtin true => (text " is a special shell builtin\n", 0)
  | .builtin false => (text " is a shell builtin\n", 0)
  | .program path tracked =>
    (text (if tracked then " is a tracked alias for " else " is ") ++ path ++ ['\n'], 0)
  | .nothing => (text ": not found\n", 127)

/-- What `command -v` says about a word, and the status. -/
def brief (word : Text) (m : Meaning) : Text × Nat :=
  match m with
  | .shortened value =>
    ("alias ".toList ++ Shell.Effect.aliasLine (String.ofList word, value), 0)
  | .program path _ => (path ++ ['\n'], 0)
  | .nothing => ([], 127)
  | _ => (word ++ ['\n'], 0)

/-- The shell after a word has been described: a program that was found is tracked. -/
def afterDescription (s : Shell.State) (word : Text) (m : Meaning) : Shell.State :=
  match m with
  | .program _ _ => track s word
  | _ => s

def typeCommand (tree : FileTree) (cwd : FileId) (s : Shell.State) (words : List Text) :
    Shell.Effect :=
  words.foldl (fun e word =>
    let m := meaningOf tree cwd e.state false word
    let (text, status) := sentence word m
    { e with
      state := afterDescription e.state word m, stdout := e.stdout ++ text
      status := max e.status status })
    (.ofStatus s 0)

/-- Runs `command` where it only describes a word. -/
def describe (tree : FileTree) (cwd : FileId) (s : Shell.State) (args : List Text) :
    Shell.Effect :=
  Shell.Effect.withOptions ⟨"pvV", ""⟩ s args fun given rest =>
    let has (c : Char) : Bool := given.any (·.1 = c)
    match rest with
    | [] => .ofStatus s 0
    | word :: _ =>
      if ¬ has 'v' ∧ ¬ has 'V' then .ofStatus s 0
      else
        let m := meaningOf tree cwd s (has 'p') word
        let (text, status) := if has 'V' then sentence word m else brief word m
        { state := afterDescription s word m, stdout := text, status := status }

def hashCommand (tree : FileTree) (cwd : FileId) (s : Shell.State) (args : List Text) :
    Shell.Effect :=
  let pathOf? (s : Shell.State) (name : Text) : Except Errno Text :=
    (seek tree cwd .noEntry (pathsFor (searchPath s false) name)).map fun paths =>
      Shell.State.ofBytes (paths.head?.getD [])
  Shell.Effect.withOptions ⟨"rv", ""⟩ s args fun given rest =>
    if given.any (·.1 = 'r') then .ofStatus { s with tracked := [] } 0
    else if rest = [] then
      .print s (s.tracked.flatMap fun name => ((pathOf? s name).toOption.getD name) ++ ['\n'])
    else rest.foldl (fun e name =>
      if isBuiltin name ∨ (e.state.functions.lookup (String.ofList name)).isSome then e
      else match pathOf? e.state name with
        | .ok _ => { e with state := track e.state name }
        | .error cause =>
          { e with complaints := e.complaints ++ [failureMessage name cause], status := 1 })
      (.ofStatus s 0)

end CommandWord

end Conformance
