import Conformance.Shell.Token

set_option autoImplicit false

/-! # Reading commands

The commands that a source holds, by recursive descent. A source is read one complete command at a
time: what stands on a line, or on several lines if it does not end before. A fault in a later
command therefore does not keep the earlier ones from being run.

Lists of commands stand inside of other commands. The readers of single commands are relative to a
reader of the lists inside of them, and `Parser.list` ties the knot: its depth of nesting is bounded
by the length of the source.
-/

namespace Conformance

namespace Shell

namespace Parser

/-- Where a list of commands ends. -/
inductive ListKind where
  | line
  /-- At a token that cannot belong to it; there is at least one command. -/
  | body
  /-- At a token that cannot belong to it; it may be empty. -/
  | branch
  deriving DecidableEq, Repr

/-- A reader of lists of commands. -/
abbrev Lists := ListKind → Parse Command

section

variable (lists : Lists)

/-- The next token, which is kept. -/
def peek : Parse Token := Token.peek (lists .branch)

/-- The next token where a command may start, which is kept. -/
def peekCommand : Parse Token := Token.peekCommand (lists .branch) 64

def next : Parse Token := do
  let t ← peek lists
  Token.drop
  return t

/-- Passes over line ends; the token behind them is kept. `fuel` bounds their number. -/
def skipLineEnds : (fuel : Nat) → Parse Token
  | 0 => peek lists
  | fuel + 1 => do
    match ← peek lists with
    | .lineEnd =>
      Token.drop
      skipLineEnds fuel
    | t => return t

/-- Passes over line ends, before a command or a reserved word. -/
def skipLines : Parse Token := do
  let _ ← skipLineEnds lists (← Token.enough)
  peekCommand lists

def isOperator (o : String) : Token → Bool
  | .operator name => name = o
  | _ => false

def expectWord (k : String) : Parse Unit := do
  let t ← next lists
  if t.keyword? ≠ some k then Token.unexpected t (some k)

def expectOperator (o : String) : Parse Unit := do
  let t ← next lists
  if !isOperator o t then Token.unexpected t (some o)

/-- Takes an operator, if it comes next. -/
def takeOperator (o : String) : Parse Bool := do
  if isOperator o (← peek lists) then
    Token.drop
    return true
  else return false

/-! ## Redirections -/

/-- The kind of redirection that an operator stands for, and the descriptor it concerns if none is
named. -/
def redirectKind (o : String) : RedirectKind × Nat :=
  match o with
  | "<" => (.input, 0)
  | "<>" => (.inputOutput, 0)
  | ">" => (.output, 1)
  | ">|" => (.clobber, 1)
  | ">>" => (.append, 1)
  | "<&" => (.duplicate, 0)
  | _ => (.duplicate, 1)

/-- The characters of a word as they were written, without the quotes: the mark of a
here-document. -/
def markOf (w : Word) : Text :=
  w.flatMap fun part =>
    match part with
    | .text s _ => s
    | .param name .none _ => '$' :: name.toList
    | _ => []

/-- Reads what follows a redirection operator. -/
def redirectTo (descriptor : Option Nat) (o : String) : Parse (Redirect Word) := do
  match ← next lists with
  | .word w =>
    if o = "<<" ∨ o = "<<-" then
      let s ← get
      let number := s.documents.size
      let awaited : Awaited := ⟨number, markOf w, o = "<<-", w.any Part.isQuoted⟩
      set { s with awaited := s.awaited ++ [awaited], documents := s.documents.push [] }
      return ⟨descriptor.getD 0, .document number, []⟩
    else
      let (kind, usual) := redirectKind o
      return ⟨descriptor.getD usual, kind, w⟩
  | t => Token.unexpected t none

/-- Reads the redirections that come next; `fuel` bounds their number. -/
def redirects : (fuel : Nat) → Parse (List (Redirect Word))
  | 0 => return []
  | fuel + 1 => do
    match ← peek lists with
    | .redirect descriptor o =>
      Token.drop
      let r ← redirectTo lists descriptor o
      return r :: (← redirects fuel)
    | _ => return []

/-- A compound command with the redirections behind it. -/
def withRedirects (line : Nat) (body : Command) : Parse Command := do
  match ← redirects lists (← Token.enough) with
  | [] => return body
  | rs => return .redirected line body rs

/-! ## Simple commands -/

/-- The name and the value of an assignment, if a word is one. -/
def assignment? (w : Word) : Option (String × Word) :=
  match w with
  | .text s false :: rest =>
    let name := s.takeWhile Token.isNameChar
    match s.drop name.length with
    | '=' :: value =>
      if name.head?.any Token.startsName then
        some (String.ofList name, if value = [] then rest else .text value false :: rest)
      else none
    | _ => none
  | _ => none

/-- What has been read of a simple command, the last first. -/
structure Simple where
  assignments : List (String × Word)
  words : List Word
  redirects : List (Redirect Word)

/-- The names that a function cannot have. -/
def specialNames : List String :=
  [".", ":", "break", "continue", "eval", "exec", "exit", "export", "local", "readonly", "return",
   "set", "shift", "times", "trap", "unset"]

/-- Reads the rest of a function definition, behind its name and the opening bracket, where
`command` reads its body. -/
def functionNamed (command : Parse Command) (name : Word) : Parse Command := do
  expectOperator lists ")"
  match name.plain? with
  | some s =>
    if Token.isName s ∧ ¬ specialNames.contains (String.ofList s) then
      let _ ← skipLines lists
      return .define (String.ofList s) (← command)
    else Parse.fault "Bad function name"
  | none => Parse.fault "Bad function name"

/-- Reads a simple command or a function definition; `fuel` bounds the number of its words. -/
def simple (command : Parse Command) (line : Nat) : (fuel : Nat) → Simple → Parse Command
  | 0, _ => Parse.fault "too long"
  | fuel + 1, s => do
    let t ← if s.words.isEmpty then peekCommand lists else peek lists
    match t with
    | .word w =>
      Token.drop
      match (if s.words.isEmpty then assignment? w else none) with
      | some a => simple command line fuel { s with assignments := a :: s.assignments }
      | none => simple command line fuel { s with words := w :: s.words }
    | .redirect descriptor o =>
      Token.drop
      let r ← redirectTo lists descriptor o
      simple command line fuel { s with redirects := r :: s.redirects }
    | _ =>
      match s with
      | ⟨[], [name], []⟩ =>
        if isOperator "(" t then
          Token.drop
          functionNamed lists command name
        else return .simple line [] [name] []
      | _ => return .simple line s.assignments.reverse s.words.reverse s.redirects.reverse

/-! ## Compound commands -/

/-- Reads a conditional behind its `if` or `elif`, and the end of it; `fuel` bounds the number of
its branches. -/
def conditional : (fuel : Nat) → Parse Command
  | 0 => Parse.fault "too long"
  | fuel + 1 => do
    let test ← lists .body
    expectWord lists "then"
    let yes ← lists .body
    let t ← next lists
    match t.keyword? with
    | some "elif" => return .conditional test yes (← conditional fuel)
    | some "else" =>
      let no ← lists .body
      expectWord lists "fi"
      return .conditional test yes no
    | some "fi" => return .conditional test yes .nothing
    | _ => Token.unexpected t (some "fi")

def loop (untilTrue : Bool) : Parse Command := do
  let test ← lists .body
  expectWord lists "do"
  let body ← lists .body
  expectWord lists "done"
  return .loop untilTrue test body

/-- Reads words up to a token that is none, which is taken; `fuel` bounds their number. -/
def wordsBefore : (fuel : Nat) → Parse (List Word × Token)
  | 0 => return ([], .sourceEnd)
  | fuel + 1 => do
    match ← next lists with
    | .word w =>
      let (ws, t) ← wordsBefore fuel
      return (w :: ws, t)
    | t => return ([], t)

def forEach (line : Nat) : Parse Command := do
  let badName : Parse Command := Parse.fault "Bad for loop variable"
  match ← next lists with
  | .word w =>
    match w.plain? with
    | none => badName
    | some name =>
      if !Token.isName name then badName
      else
        let t ← skipLines lists
        let ws : List Word ←
          if t.keyword? = some "in" then do
            Token.drop
            let (ws, t) ← wordsBefore lists (← Token.enough)
            match t with
            | .lineEnd => pure ws
            | t => if isOperator ";" t then pure ws else Token.unexpected t none
          else do
            let _ ← takeOperator lists ";"
            pure [[.text [] true, .param "@" .none true]]
        let _ ← skipLines lists
        expectWord lists "do"
        let body ← lists .body
        expectWord lists "done"
        return .forEach line (String.ofList name) ws body
  | _ => badName

/-- Reads the patterns of a branch, which bars separate; `fuel` bounds their number. -/
def patterns : (fuel : Nat) → Parse (List Word)
  | 0 => return []
  | fuel + 1 => do
    match ← next lists with
    | .word w =>
      let t ← next lists
      if isOperator "|" t then return w :: (← patterns fuel)
      else if isOperator ")" t then return [w]
      else Token.unexpected t (some ")")
    | t => Token.unexpected t (some ")")

/-- Reads the branches of a choice up to its end; `fuel` bounds their number. -/
def branches : (fuel : Nat) → Parse (List (List Word × Command))
  | 0 => return []
  | fuel + 1 => do
    let t ← skipLineEnds lists (← Token.enough)
    if t.keyword? = some "esac" then
      Token.drop
      return []
    else
      let _ ← takeOperator lists "("
      let ps ← patterns lists (← Token.enough)
      let body ← lists .branch
      let t ← skipLineEnds lists (← Token.enough)
      Token.drop
      if t.keyword? = some "esac" then return [(ps, body)]
      else if isOperator ";;" t then return (ps, body) :: (← branches fuel)
      else Token.unexpected t (some ";;")

def choose (line : Nat) : Parse Command := do
  match ← next lists with
  | .word subject =>
    let _ ← skipLines lists
    expectWord lists "in"
    return .choose line subject (← branches lists (← Token.enough))
  | t => Token.unexpected t (some "word")

/-- Reads one command; `fuel` bounds the number of functions that are defined by it. -/
def command : (fuel : Nat) → Parse Command
  | 0 => Parse.fault "too long"
  | fuel + 1 => do
    let t ← peekCommand lists
    let line := (← get).line
    match t.keyword? with
    | some k =>
      Token.drop
      match k with
      | "if" => withRedirects lists line (← conditional lists (← Token.enough))
      | "while" => withRedirects lists line (← loop lists false)
      | "until" => withRedirects lists line (← loop lists true)
      | "for" => withRedirects lists line (← forEach lists line)
      | "case" => withRedirects lists line (← choose lists line)
      | "\x7b" =>
        let body ← lists .body
        expectWord lists "\x7d"
        withRedirects lists line body
      | _ => Token.unexpected t none
    | none =>
      match t with
      | .word _ | .redirect _ _ =>
        simple lists (command fuel) line (← Token.enough) ⟨[], [], []⟩
      | _ =>
        if isOperator "(" t then
          Token.drop
          let body ← lists .body
          expectOperator lists ")"
          withRedirects lists line (.subshell line body)
        else Token.unexpected t none

/-! ## Lists -/

/-- Reads one command, with no function defined in a function more often than there is text. -/
def single : Parse Command := do command lists (← Token.enough)

/-- Reads the further commands of a pipeline; `fuel` bounds their number. -/
def stages : (fuel : Nat) → Parse (List Command)
  | 0 => return []
  | fuel + 1 => do
    if ← takeOperator lists "|" then
      let _ ← skipLines lists
      let c ← single lists
      return c :: (← stages fuel)
    else return []

/-- Reads commands joined by bars, which an exclamation mark in front negates. -/
def pipeline : Parse Command := do
  let negated := (← peekCommand lists).keyword? = some "!"
  if negated then Token.drop
  let first ← single lists
  let body : Command := match ← stages lists (← Token.enough) with
    | [] => first
    | more => .pipeline (first :: more)
  return if negated then .negated body else body

/-- Reads the pipelines that are run if the ones before succeed, or fail; `fuel` bounds their
number. -/
def chain : (fuel : Nat) → Command → Parse Command
  | 0, c => return c
  | fuel + 1, c => do
    if ← takeOperator lists "&&" then
      let _ ← skipLines lists
      chain fuel (.both c (← pipeline lists))
    else if ← takeOperator lists "||" then
      let _ ← skipLines lists
      chain fuel (.either c (← pipeline lists))
    else return c

/-- Whether a token ends a list that stands inside of a command. -/
def endsList (t : Token) : Bool :=
  match t with
  | .sourceEnd => true
  | _ =>
    t.keyword?.any ["then", "else", "elif", "fi", "do", "done", "esac", "\x7d"].contains
      || isOperator ")" t || isOperator ";;" t

/-- A command behind the ones that have been read before. -/
def andThen (before : Option Command) (c : Command) : Command :=
  match before with
  | some b => .sequence b c
  | none => c

/-- Reads the commands of a list, behind those that have been read; `fuel` bounds their number. -/
def listFrom (kind : ListKind) : (fuel : Nat) → Option Command → Parse Command
  | 0, _ => Parse.fault "too long"
  | fuel + 1, before => do
    let finish : Parse Command := return before.getD .nothing
    let t ← if kind = .line then peekCommand lists else skipLines lists
    let mayEnd : Bool := kind = .branch || (kind = .body && before.isSome)
    match t with
    | .lineEnd =>
      Token.drop
      finish
    | .sourceEnd => finish
    | _ =>
      if mayEnd ∧ endsList t then finish
      else
        let c ← chain lists (← Token.enough) (← pipeline lists)
        let t ← peek lists
        match t with
        | .lineEnd | .sourceEnd => listFrom kind fuel (some (andThen before c))
        | _ =>
          if isOperator "&" t then
            Token.drop
            listFrom kind fuel (some (andThen before (.background c)))
          else if isOperator ";" t then
            Token.drop
            listFrom kind fuel (some (andThen before c))
          else if kind = .line then Token.unexpected t none
          else return andThen before c

end

/-- Reads a list of commands; `depth` bounds the nesting. -/
def list : (depth : Nat) → Lists
  | 0, _ => Parse.fault "nested too deeply"
  | depth + 1, kind => do listFrom (list depth) kind (← Token.enough) none

end Parser

namespace Source

/-- What is read from a source in one go: a complete command, whether it ended with the source, and
what is left. -/
structure Portion where
  command : Command
  atEnd : Bool
  rest : Source

/-- Reads a complete command. None if there is nothing left to read. -/
def next (s : Source) : Except Halt (Option Portion) :=
  match StateT.run (Parser.list (s.bound + 8) .line) { s with held := none } with
  | .error halt => .error halt
  | .ok (c, rest) =>
    let atEnd := match rest.held with
      | some .sourceEnd => true
      | _ => false
    match c, atEnd with
    | .nothing, true => .ok none
    | _, _ => .ok (some ⟨c, atEnd, { rest with held := none }⟩)

end Source

end Shell

end Conformance
