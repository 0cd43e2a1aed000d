import Conformance.Shell.Source

set_option autoImplicit false

/-! # Words and tokens

The tokens of a source: words, operators and line ends. Quotes, backslashes and expansions are
recognised here, so that a word already consists of its parts. A command whose output is wanted may
stand in a word; the readers here are therefore relative to a reader of lists of commands.

The number that bounds the steps of a reader need not exceed the length of the source by more than a
constant, because nearly every step takes a character.
-/

namespace Conformance

namespace Shell

namespace Token

/-! ## Characters -/

def endsWord (c : Char) : Bool := " \t\n;&|<>()".toList.contains c

/-- A letter or an underscore. -/
def startsName (c : Char) : Bool := c.isAlpha || c = '_'

def isNameChar (c : Char) : Bool := c.isAlphanum || c = '_'

def isName (s : Text) : Bool := s.head?.any startsName && s.all isNameChar

/-- The single characters that name a parameter, apart from the digits. -/
def isSpecialParam (c : Char) : Bool := "?#$!@*-".toList.contains c

/-- The grave accent, which encloses a script whose output is wanted. -/
def grave : Char := '\x60'

/-- The characters that stand for themselves outside of quotes. -/
def isOrdinary (c : Char) : Bool :=
  !endsWord c && c ≠ '\\' && c ≠ '\'' && c ≠ '"' && c ≠ '$' && c ≠ grave && c ≠ '\x7d'

/-- The characters that stand for themselves between double quotes. -/
def isPlainQuoted (c : Char) : Bool :=
  c ≠ '\n' && c ≠ '\\' && c ≠ '"' && c ≠ '$' && c ≠ grave && c ≠ '\x7d'

/-! ## Names of tokens -/

/-- The words that are not commands where a command may start. -/
def reserved : List String :=
  ["if", "then", "else", "elif", "fi", "while", "until", "do", "done", "for", "case", "esac", "in",
   "\x7b", "\x7d", "!"]

/-- The unquoted text that a token is, if it is one. -/
def plain? : Token → Option String
  | .word w => w.plain?.map String.ofList
  | _ => none

/-- The reserved word that a token is, if it is one. -/
def keyword? (t : Token) : Option String := t.plain?.filter reserved.contains

def describe (t : Token) : String :=
  match t with
  | .sourceEnd => "end of file"
  | .lineEnd => "newline"
  | .operator o => "\"" ++ o ++ "\""
  | .redirect _ _ => "redirection"
  | .word _ =>
    match t.keyword? with
    | some k => "\"" ++ k ++ "\""
    | none => "word"

/-- Stops because a token cannot stand where it stands. -/
def unexpected {α : Type} (t : Token) (expecting : Option String) : Parse α :=
  let wanted := match expecting with
    | some "word" => " (expecting word)"
    | some e => " (expecting \"" ++ e ++ "\")"
    | none => ""
  Parse.fault (t.describe ++ " unexpected" ++ wanted)

/-! ## Pieces of words -/

/-- Where quoted parts end. -/
inductive Ending where
  | quote
  | brace
  /-- At a line that is the mark of a here-document. -/
  | mark (a : Awaited)

/-- Neighbouring unquoted texts as one. -/
def joinTexts : Word → Word
  | [] => []
  | .text a false :: rest =>
    match joinTexts rest with
    | .text b false :: rest => .text (a ++ b) false :: rest
    | rest => .text a false :: rest
  | part :: rest => part :: joinTexts rest

/-- The parts between double quotes as a part of a word. All arguments at once make no field of
their own if there are none; anything else between quotes does. -/
def enclosed (parts : Word) : Word :=
  match parts with
  | [.param "@" .none _] => parts
  | _ => .text [] true :: parts

/-- Reads the characters up to a single quote. `fuel` bounds the number of lines. -/
def singleQuoted : (fuel : Nat) → Parse Text
  | 0 => Parse.fault "Unterminated quoted string"
  | fuel + 1 => do
    let s ← Parse.run fun c => c ≠ '\'' && c ≠ '\n'
    match ← Parse.peek? with
    | none => Parse.fault "Unterminated quoted string"
    | some c =>
      Parse.skip
      if c = '\'' then return s
      else return s ++ '\n' :: (← singleQuoted fuel)

/-- Reads the rest of a name, with joints in it. -/
def nameRest (p : Char → Bool) : (fuel : Nat) → Parse Text
  | 0 => return []
  | fuel + 1 => do
    match ← Parse.look? with
    | some c =>
      if p c then
        let s ← Parse.run p
        return s ++ (← nameRest p fuel)
      else return []
    | none => return []

/-- The characters between grave accents; a backslash in front of some characters is dropped.
`fuel` bounds their number. -/
def graveText (quoted : Bool) : (fuel : Nat) → Parse Text
  | 0 => Parse.fault "EOF in backquote substitution"
  | fuel + 1 => do
    match ← Parse.look? with
    | none => Parse.fault "EOF in backquote substitution"
    | some c =>
      Parse.skip
      if c = grave then return []
      else if c = '\\' then
        match ← Parse.peek? with
        | none => Parse.fault "EOF in backquote substitution"
        | some d =>
          Parse.skip
          let kept := if d = '\\' ∨ d = grave ∨ d = '$' ∨ (quoted ∧ d = '"') then [d] else [c, d]
          return kept ++ (← graveText quoted fuel)
      else return c :: (← graveText quoted fuel)

/-- Whether the line that comes next is a mark, which is passed over. -/
def passMark (mark : Text) : Parse Bool := do
  let s ← get
  if mark.isPrefixOf s.text then
    match s.text.drop mark.length with
    | [] => Parse.atEnd; set { s with text := [] }; return true
    | c :: rest =>
      if c = '\n' then
        set { s with text := rest, line := s.line + 1 }
        return true
      else return false
  else
    if s.text.isPrefixOf mark then Parse.atEnd
    return false

def skipTabs (a : Awaited) : Parse Unit := do
  if a.stripTabs then discard <| Parse.run (· = '\t')

/-- Reads the lines up to a mark, in which nothing is expanded. `fuel` bounds their number. -/
def rawLines (a : Awaited) : (fuel : Nat) → Parse Text
  | 0 => return []
  | fuel + 1 => do
    skipTabs a
    if ← passMark a.mark then return []
    else
      let s ← Parse.run (· ≠ '\n')
      match ← Parse.peek? with
      | none => return s
      | some _ =>
        Parse.skip
        return s ++ '\n' :: (← rawLines a fuel)

/-! ## Parts -/

section

variable (commands : Parse Command)

/-- Reads the commands between the brackets of a part. The documents that are awaited outside stay
so. -/
def bracketed : Parse Command := do
  let outer := (← get).awaited
  modify ({ · with awaited := [] })
  let body ← commands
  let s ← get
  match s.held with
  | some (.operator ")") =>
    set { s with held := none, awaited := outer }
    return body
  | t => unexpected (t.getD .sourceEnd) (some ")")

/-- Reads the commands of a text of its own, whose lines are counted from one. -/
def commandsOf (text : Text) : Parse Command := do
  let outer ← get
  let inner := Source.ofText text true outer.documents outer.aliases
  match StateT.run commands inner with
  | .ok (body, inner) =>
    set { outer with documents := inner.documents }
    return body
  | .error halt => throw halt

/-- Reads the name in a parameter expansion with braces, and whether its length is asked for. None
if there is no name. -/
def bracedName (fuel : Nat) : Parse (Option (Text × Bool)) := do
  let name (c : Char) : Parse Text :=
    if c.isDigit then nameRest Char.isDigit fuel else nameRest isNameChar fuel
  match ← Parse.look? with
  | none => return none
  | some c =>
    if isNameChar c then return some (← name c, false)
    else if c = '\x7d' then return none
    else
      Parse.skip
      if c = '#' then
        match ← Parse.look? with
        | some d =>
          if isNameChar d then return some (← name d, true)
          else if d ≠ '\x7d' ∧ (← Parse.second?) = some '\x7d' then
            if isSpecialParam d then
              Parse.skip
              return some ([d], true)
            else return none
          else return some ([c], false)
        | none => return some ([c], false)
      else if isSpecialParam c then return some ([c], false)
      else return none

/-- Which modifier a character stands for, given whether a colon is in front of it and the word
behind it. -/
def modifierOf? (c : Char) (orEmpty : Bool) (word : Word) : Option Modifier :=
  match c with
  | '-' => some (.default orEmpty word)
  | '=' => some (.assign orEmpty word)
  | '?' => some (.require orEmpty word)
  | '+' => some (.alternative orEmpty word)
  | _ => none

mutual

/-- Reads the parts of a word outside of quotes, up to the end of the word or to a closing brace. -/
def plainParts (inBraces : Bool) : (fuel : Nat) → Parse Word
  | 0 => return []
  | fuel + 1 => do
    match ← Parse.peek? with
    | none => if inBraces then Parse.fault "Missing '\x7d'" else return []
    | some c =>
      if isOrdinary c then
        let s ← Parse.run isOrdinary
        return .text s false :: (← plainParts inBraces fuel)
      else if endsWord c ∧ ¬ inBraces then return []
      else
        Parse.skip
        if c = '\x7d' ∧ inBraces then return []
        else if c = '\\' then
          match ← Parse.peek? with
          | none => return [.text [c] true]
          | some d =>
            Parse.skip
            let rest ← plainParts inBraces fuel
            return if d = '\n' then rest else .text [d] true :: rest
        else if c = '\'' then
          let s ← singleQuoted fuel
          return .text s true :: (← plainParts inBraces fuel)
        else if c = '"' then
          let parts ← quotedParts .quote fuel
          return enclosed parts ++ (← plainParts inBraces fuel)
        else if c = '$' then
          let part ← dollar false fuel
          return part :: (← plainParts inBraces fuel)
        else if c = grave then
          let body ← commandsOf commands (← graveText false fuel)
          return .output body false :: (← plainParts inBraces fuel)
        else return .text [c] false :: (← plainParts inBraces fuel)

/-- Reads parts that are quoted, up to their end. -/
def quotedParts (ending : Ending) : (fuel : Nat) → Parse Word
  | 0 => return []
  | fuel + 1 => do
    match ← Parse.peek? with
    | none =>
      match ending with
      | .mark _ => return []
      | _ => Parse.fault "Unterminated quoted string"
    | some c =>
      if isPlainQuoted c then
        let s ← Parse.run isPlainQuoted
        return .text s true :: (← quotedParts ending fuel)
      else
        Parse.skip
        if c = '\\' then
          match ← Parse.peek? with
          | none => return [.text [c] true]
          | some d =>
            Parse.skip
            let dropped : Bool := d = '\\' || d = grave || d = '$' || match ending with
              | .quote => d = '"'
              | .brace => d = '"' || d = '\x7d'
              | .mark _ => false
            let rest ← quotedParts ending fuel
            return if d = '\n' then rest
              else .text (if dropped then [d] else [c, d]) true :: rest
        else if c = '$' then
          let part ← dollar true fuel
          return part :: (← quotedParts ending fuel)
        else if c = grave then
          let body ← commandsOf commands (← graveText true fuel)
          return .output body true :: (← quotedParts ending fuel)
        else
          match ending with
          | .quote =>
            if c = '"' then return []
            else return .text [c] true :: (← quotedParts ending fuel)
          | .brace =>
            if c = '\x7d' then return []
            else if c = '"' then
              let inner ← quotedParts .quote fuel
              return inner ++ (← quotedParts ending fuel)
            else return .text [c] true :: (← quotedParts ending fuel)
          | .mark a =>
            if c = '\n' then
              skipTabs a
              if ← passMark a.mark then return [.text [c] true]
              else return .text [c] true :: (← quotedParts ending fuel)
            else return .text [c] true :: (← quotedParts ending fuel)

/-- Reads what follows a dollar sign. -/
def dollar (quoted : Bool) : (fuel : Nat) → Parse Part
  | 0 => return .text ['$'] quoted
  | fuel + 1 => do
    match ← Parse.look? with
    | none => return .text ['$'] quoted
    | some c =>
      if c = '(' then
        Parse.skip
        if (← Parse.look?) = some '(' then
          Parse.skip
          return .arith (← arithmetic 0 fuel) quoted
        else return .output (← bracketed commands) quoted
      else if c = '\x7b' then
        Parse.skip
        braced quoted fuel
      else if startsName c then
        return .param (String.ofList (← nameRest isNameChar fuel)) .none quoted
      else if c.isDigit ∨ isSpecialParam c then
        Parse.skip
        return .param (String.singleton c) .none quoted
      else return .text ['$'] quoted

/-- Reads a parameter expansion behind its opening brace. -/
def braced (quoted : Bool) : (fuel : Nat) → Parse Part
  | 0 => return .text ['$'] quoted
  | fuel + 1 => do
    let word : Parse Word :=
      if quoted then quotedParts .brace fuel else return joinTexts (← plainParts true fuel)
    let bad : Parse Part := do
      let _ ← word
      return .param "" .bad quoted
    match ← bracedName fuel with
    | none => bad
    | some (name, asksLength) =>
      let name := String.ofList name
      match ← Parse.look? with
      | none => bad
      | some c =>
        if asksLength then
          if c = '\x7d' then
            Parse.skip
            return .param name .length quoted
          else bad
        else
          Parse.skip
          if c = '\x7d' then return .param name .none quoted
          else if c = '%' ∨ c = '#' then
            let longest := (← Parse.look?) = some c
            if longest then Parse.skip
            let pattern ← plainParts true fuel
            return .param name (.cut ⟨c = '%', longest⟩ pattern) quoted
          else if c = ':' then
            match ← Parse.look? with
            | none => bad
            | some d =>
              Parse.skip
              if d = '\x7d' then return .param name .none quoted
              else match modifierOf? d true (← word) with
                | some m => return .param name m quoted
                | none => return .param "" .bad quoted
          else match modifierOf? c false (← word) with
            | some m => return .param name m quoted
            | none => return .param "" .bad quoted

/-- Reads an arithmetic expression up to the two brackets that close it; `depth` brackets are open
in it. -/
def arithmetic (depth : Nat) : (fuel : Nat) → Parse Word
  | 0 => return []
  | fuel + 1 => do
    match ← Parse.peek? with
    | none => Parse.fault "Missing '))'"
    | some c =>
      Parse.skip
      if c = '(' then return .text [c] true :: (← arithmetic (depth + 1) fuel)
      else if c = ')' then
        if depth = 0 ∧ (← Parse.look?) = some ')' then
          Parse.skip
          return []
        else return .text [c] true :: (← arithmetic (depth - 1) fuel)
      else if c = '\\' then
        match ← Parse.peek? with
        | none => Parse.fault "Missing '))'"
        | some d =>
          Parse.skip
          let dropped : Bool := d = '\\' || d = grave || d = '$' || d = '"'
          let rest ← arithmetic depth fuel
          return if d = '\n' then rest else .text (if dropped then [d] else [c, d]) true :: rest
      else if c = '$' then
        let part ← dollar true fuel
        return part :: (← arithmetic depth fuel)
      else if c = grave then
        let body ← commandsOf commands (← graveText true fuel)
        return .output body true :: (← arithmetic depth fuel)
      else return .text [c] true :: (← arithmetic depth fuel)

end

/-! ## Tokens -/

/-- A number of steps that is enough for what is left of the source. -/
def enough : Parse Nat := return 2 * (← get).bound + 8

/-- Reads the here-documents that are awaited at the end of a line. -/
def readDocuments : List Awaited → Parse Unit
  | [] => return
  | a :: rest => do
    let fuel ← enough
    let body : Word ←
      if a.quoted then pure [.text (← rawLines a fuel) true]
      else do
        skipTabs a
        if ← passMark a.mark then pure [] else quotedParts commands (.mark a) fuel
    modify fun s => { s with documents := s.documents.setIfInBounds a.number body }
    readDocuments rest

def readAwaited : Parse Unit := do
  let awaited := (← get).awaited
  if !awaited.isEmpty then
    modify ({ · with awaited := [] })
    readDocuments commands awaited

/-- Reads the second character of an operator, if it is one of those that are given. -/
def secondOf (options : List Char) : Parse (List Char) := do
  match ← Parse.look? with
  | some c =>
    if options.contains c then
      Parse.skip
      return [c]
    else return []
  | none => return []

/-- Reads a redirection operator; none if there is none. -/
def redirection (descriptor : Option Nat) : Parse (Option Token) := do
  match ← Parse.peek? with
  | some '>' =>
    Parse.skip
    let second ← secondOf ['>', '|', '&']
    return some (.redirect descriptor (String.ofList ('>' :: second)))
  | some '<' =>
    Parse.skip
    let second ← secondOf ['<', '&', '>']
    let third ← if second = ['<'] then secondOf ['-'] else pure []
    return some (.redirect descriptor (String.ofList ('<' :: second ++ third)))
  | _ => return none

def readWord : Parse Token := do
  return .word (joinTexts (← plainParts commands false (← enough)))

def read : Parse Token := do
  Parse.skipBlanks
  match ← Parse.peek? with
  | none =>
    readAwaited commands
    return .sourceEnd
  | some c =>
    let operator (second : List Char) : Parse Token := do
      Parse.skip
      return .operator (String.ofList (c :: (← secondOf second)))
    match c with
    | '\n' =>
      Parse.skip
      readAwaited commands
      return .lineEnd
    | '&' => operator ['&']
    | '|' => operator ['|']
    | ';' => operator [';']
    | '(' | ')' => operator []
    | _ =>
      let next ← if c.isDigit then Parse.second? else pure none
      let descriptor := if next = some '<' ∨ next = some '>' then some (c.toNat - 48) else none
      if descriptor.isSome then Parse.skip
      match ← redirection descriptor with
      | some t => return t
      | none => readWord commands

/-- The next token, which is kept. -/
def peek : Parse Token := do
  match (← get).held with
  | some t => return t
  | none =>
    let t ← read commands
    modify ({ · with held := some t })
    return t

def drop : Parse Unit := modify ({ · with held := none })

/-- The text that an alias stands for, if a token is one that is not being replaced already. -/
def aliasText? (s : Source) (t : Token) : Option (String × Text) :=
  match t with
  | .word w =>
    match w.plain? with
    | some name =>
      if s.aliases.isEmpty then none
      else
        let name := String.ofList name
        let busy := s.expanding.any fun (other, rest) => other = name && rest < s.text.length
        if busy then none else (s.aliases.lookup name).map fun text => (name, text)
    | none => none
  | _ => none

/-- The next token, which is kept, where it may be the start of a command: aliases are replaced by
what they stand for. `fuel` bounds the number of replacements. -/
def peekCommand : (fuel : Nat) → Parse Token
  | 0 => peek commands
  | fuel + 1 => do
    let t ← peek commands
    let s ← get
    match aliasText? s t with
    | none => return t
    | some (name, text) =>
      set { s with
        text := text ++ s.text, bound := s.bound + text.length, held := none,
        expanding := (name, s.text.length) :: s.expanding }
      peekCommand fuel

end

end Token

end Shell

end Conformance
