import Conformance.Host.Tool.Stream

set_option autoImplicit false

/-! # Sorting lines

The tool that puts the lines of its files into an order: by their characters or by the numbers at
their starts, as a whole or by keys. Lines that no key tells apart are ordered as a whole.
-/

namespace Conformance

namespace Tool

open Shell (Text)

/-- How texts are compared. -/
structure Order where
  numeric : Bool
  fold : Bool
  /-- Whether only blanks, letters and digits count. -/
  dictionary : Bool
  skipBlanks : Bool
  reverse : Bool

/-- The part of a line that is compared: fields and characters are counted from one, a zero at the
end being the whole field. -/
structure SortKey where
  field : Nat
  char : Nat
  lastField : Option Nat
  lastChar : Nat
  order : Order

def dropField (mark : Option Char) (s : Text) : Text :=
  match mark with
  | some m => s.dropWhile (· ≠ m)
  | none => (s.dropWhile isBlankChar).dropWhile (!isBlankChar ·)

/-- A text behind several fields and the marks between them. -/
def dropFields (mark : Option Char) : Nat → Text → Text
  | 0, s => s
  | n + 1, s =>
    let rest := dropField mark s
    dropFields mark n (if mark.isSome then rest.drop 1 else rest)

/-- The part of a line that a key is about. -/
def SortKey.part (k : SortKey) (mark : Option Char) (line : Text) : Text :=
  let skip (s : Text) : Text := if k.order.skipBlanks then s.dropWhile isBlankChar else s
  let start := (skip (dropFields mark (k.field - 1) line)).drop (k.char - 1)
  match k.lastField with
  | none => start
  | some n =>
    let behind := if k.lastChar = 0 then dropField mark (dropFields mark (n - 1) line)
      else (skip (dropFields mark (n - 1) line)).drop k.lastChar
    start.take (start.length - behind.length)

/-- The number at the start of a text: a coefficient and the number of its decimal places. -/
def leadingNumber (s : Text) : Int × Nat :=
  let s := s.dropWhile isBlankChar
  let (negative, s) : Bool × Text := match s with
    | '-' :: rest => (true, rest)
    | _ => (false, s)
  let whole := s.takeWhile Char.isDigit
  let places : Text := match s.drop whole.length with
    | '.' :: rest => rest.takeWhile Char.isDigit
    | _ => []
  (Shell.Arithmetic.signed negative (Shell.Arithmetic.ofDigits 10 (whole ++ places)), places.length)

def compareTexts : Text → Text → Ordering
  | [], [] => .eq
  | [], _ => .lt
  | _, [] => .gt
  | a :: s, b :: t => if a < b then .lt else if b < a then .gt else compareTexts s t

def Order.compare (o : Order) (a b : Text) : Ordering :=
  let result :=
    if o.numeric then
      let (m, i) := leadingNumber a
      let (n, j) := leadingNumber b
      Ord.compare (m * Nat.pow 10 j) (n * Nat.pow 10 i)
    else
      let shape (s : Text) : Text :=
        let s := if o.skipBlanks then s.dropWhile isBlankChar else s
        let s := if o.dictionary then s.filter fun c => isBlankChar c || c.isAlphanum else s
        if o.fold then s.map Char.toUpper else s
      compareTexts (shape a) (shape b)
  if o.reverse then result.swap else result

def orderOf (letters : List Char) : Order :=
  ⟨letters.any "nghM".toList.contains, letters.contains 'f', letters.contains 'd',
    letters.contains 'b', letters.contains 'r'⟩

/-- A position in a key: the field, the character and the letters behind them. -/
def readPosition (s : Text) : Option (Nat × Nat × List Char × Text) :=
  let digits := s.takeWhile Char.isDigit
  let (char, rest) : Text × Text := match s.drop digits.length with
    | '.' :: rest => (rest.takeWhile Char.isDigit, rest.dropWhile Char.isDigit)
    | rest => ([], rest)
  let letters := rest.takeWhile Char.isAlpha
  (natural? digits).map fun n =>
    (n, (natural? char).getD 0, letters, rest.drop letters.length)

/-- Reads a key; one without letters is compared in the order of the whole. -/
def readKey (whole : Order) (s : Text) : Option SortKey :=
  match readPosition s with
  | none => none
  | some (field, char, letters, rest) =>
    let key (lastField : Option Nat) (lastChar : Nat) (letters : List Char) : Option SortKey :=
      if field = 0 then none
      else some ⟨field, max 1 char, lastField, lastChar,
        if letters = [] then whole else orderOf letters⟩
    match rest with
    | [] => key none 0 letters
    | ',' :: rest =>
      match readPosition rest with
      | some (n, c, more, []) => key (some n) c (letters ++ more)
      | _ => none
    | _ => none

def compareBy (mark : Option Char) (keys : List SortKey) (a b : Text) : Ordering :=
  keys.foldl (fun result k => result.then (k.order.compare (k.part mark a) (k.part mark b))) .eq

/-- What `sort` does with the lines of its files. -/
def sortLines (p : Parsed) (keys : List SortKey) (mark : Option Char) (all : List Text) :
    List Text :=
  let reverse := p.has 'r'
  let byKeys := compareBy mark keys
  let last (a b : Text) : Ordering :=
    if p.has 's' ∨ p.has 'u' then .eq
    else if reverse then compareTexts b a else compareTexts a b
  let sorted := all.mergeSort fun a b => ((byKeys a b).then (last a b)) ≠ .gt
  if p.has 'u' then
    (sorted.foldl (fun kept line => match kept with
      | previous :: _ => if byKeys previous line = .eq then kept else line :: kept
      | [] => [line]) []).reverse
  else sorted

/-- The first line that is out of order, with its number. -/
def disorder? (p : Parsed) (keys : List SortKey) (mark : Option Char) (all : List Text) :
    Option (Nat × Text) :=
  let order (a b : Text) : Ordering :=
    (compareBy mark keys a b).then (if p.has 's' ∨ p.has 'u' then .eq
      else if p.has 'r' then compareTexts b a else compareTexts a b)
  ((all.zip all.tail).zipIdx.find? fun ((a, b), _) =>
    order a b = .gt || (p.has 'u' && order a b = .eq)).map fun ((_, b), i) => (i + 2, b)

def sortFailure (name : String) (e : Errno) : String :=
  if e = .isDirectory then "sort: read failed: " ++ name ++ ": " ++ e.description
  else "sort: cannot read: " ++ name ++ ": " ++ e.description

def sort (args : List Text) : Plan :=
  Options.parse ⟨"nrfbdgshumczM", "kto", [("numeric-sort", 'n'), ("reverse", 'r'), ("unique", 'u'),
    ("ignore-case", 'f'), ("key", 'k'), ("field-separator", 't'), ("output", 'o'), ("stable", 's'),
    ("check", 'c')]⟩ "sort" 2 args fun p =>
    let whole := orderOf p.flags
    let mark := (p.value? 't').bind List.head?
    let keys := (p.valuesOf 'k').map fun v => (readKey whole v, v)
    match keys.find? (·.1.isNone), (p.value? 't').getD ['x'] with
    | some (_, v), _ => .complain ("sort: invalid key '" ++ str v ++ "'") 2
    | none, t =>
      if t.length ≠ 1 then .complain ("sort: multi-character tab '" ++ str t ++ "'") 2
      else
        let keys := keys.filterMap (·.1)
        let keys := if keys = [] then [⟨1, 1, none, 0, whole⟩] else keys
        gather p.files fun readings =>
          match failures readings sortFailure with
          | [] =>
            let all := (texts readings).flatMap lines
            if p.has 'c' then
              match disorder? p keys mark all, readings with
              | some (n, line), r :: _ =>
                .ofTexts [] ("sort: ".toList ++ Shell.State.ofBytes r.name
                  ++ (":" ++ toString n ++ ": disorder: ").toList ++ line ++ ['\n']) 1
              | _, _ => .ofTexts [] [] 0
            else
              let text := unlines (sortLines p keys mark all)
              match p.value? 'o' with
              | some file =>
                ⟨[], [], 0, [⟨bytes file, fun _ => bytes text, fun e =>
                  "sort: open failed: " ++ str file ++ ": " ++ e.description⟩], []⟩
              | none => .ofTexts text [] 0
          | stderr => .ofTexts [] ((stderr.takeWhile (· ≠ '\n')) ++ ['\n']) 2

end Tool

end Conformance
