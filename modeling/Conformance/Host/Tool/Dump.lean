import Conformance.Host.Tool.Stream

set_option autoImplicit false

/-! # Tools that show bytes

Files as rows of numbers, with the offset of each row, and files in an alphabet of 64 characters.
-/

namespace Conformance

namespace Tool

open Shell (Text)

/-! ## Rows of bytes -/

/-- How a group of bytes is shown. -/
structure Display where
  size : Nat
  width : Nat
  text : Text → Text

/-- The number that bytes make, the first of which counts least. -/
def littleEndian (s : Text) : Nat := s.foldr (fun c n => 256 * n + c.toNat) 0

def digitsOf (base width n : Nat) : Text :=
  let digits := Nat.toDigits base n
  List.replicate (width - digits.length) '0' ++ digits

def digitCount (base size : Nat) : Nat := (Nat.toDigits base (Nat.pow 256 size - 1)).length

def characterText (c : Char) : Text :=
  match c with
  | '\x00' => "\\0".toList
  | '\x07' => "\\a".toList
  | '\x08' => "\\b".toList
  | '\t' => "\\t".toList
  | '\n' => "\\n".toList
  | '\x0b' => "\\v".toList
  | '\x0c' => "\\f".toList
  | '\r' => "\\r".toList
  | c => if 0x20 ≤ c.toNat ∧ c.toNat < 0x7F then [c] else digitsOf 8 3 c.toNat

/-- A display as numbers. -/
def numbers (base size : Nat) : Display :=
  ⟨size, digitCount base size + 1, fun s => digitsOf base (digitCount base size) (littleEndian s)⟩

/-- A display as decimal numbers, with a sign if they have one. -/
def decimals (size : Nat) (signed : Bool) : Display :=
  let width := digitCount 10 size + (if signed then 2 else 1)
  ⟨size, width, fun s =>
    let n := littleEndian s
    if signed ∧ Nat.pow 256 size ≤ 2 * n then '-' :: (toString (Nat.pow 256 size - n)).toList
    else (toString n).toList⟩

/-- The display that a type such as `x1` asks for. -/
def displayOf (type : Text) : Option Display :=
  let size (rest : Text) : Option Nat := match rest with
    | [] => some 4
    | ['C'] => some 1
    | ['S'] => some 2
    | ['I'] => some 4
    | ['L'] => some 8
    | _ => (natural? rest).filter fun n => n = 1 || n = 2 || n = 4 || n = 8
  match type with
  | ['c'] => some ⟨1, 4, (·.flatMap characterText)⟩
  | 'x' :: rest => (size rest).map (numbers 16)
  | 'o' :: rest => (size rest).map (numbers 8)
  | 'u' :: rest => (size rest).map (decimals · false)
  | 'd' :: rest => (size rest).map (decimals · true)
  | _ => none

/-- A text in groups of a size; `count` bounds their number. -/
def groupsOf (size : Nat) : (count : Nat) → Text → List Text
  | 0, _ => []
  | count + 1, s => if s = [] then [] else s.take size :: groupsOf size count (s.drop size)

def displayRow (d : Display) (s : Text) : Text :=
  (groupsOf d.size s.length s).flatMap fun group =>
    let shown := d.text group
    List.replicate (d.width - shown.length) ' ' ++ shown

/-- The offset in front of a row. -/
def offsetText (base : Text) (n : Nat) : Text :=
  match base with
  | ['n'] => []
  | ['d'] => digitsOf 10 7 n
  | ['x'] => digitsOf 16 6 n
  | _ => digitsOf 8 7 n

/-- All rows, a star standing for those that repeat the one in front. -/
def displayRows (d : Display) (base : Text) (all : Bool) (rows : List Text) : Text :=
  let step := fun ((out, last, offset, starred) : List Text × Option Text × Nat × Bool)
      (row : Text) =>
    if ¬ all ∧ last = some row ∧ row.length = 16 then
      (if starred then out else ['*', '\n'] :: out, last, offset + row.length, true)
    else
      ((offsetText base offset ++ displayRow d row ++ ['\n']) :: out, some row,
        offset + row.length, false)
  let (out, _, offset, _) := rows.foldl step ([], none, 0, false)
  out.reverse.flatten ++ (if base = ['n'] then [] else offsetText base offset ++ ['\n'])

def od (args : List Text) : Plan :=
  Options.parse ⟨"bcdoxvs", "AtNjw", [("format", 't'), ("address-radix", 'A'),
    ("output-duplicates", 'v'), ("read-bytes", 'N')]⟩ "od" 1 args fun p =>
    let type : Text := match p.value? 't' with
      | some t => t
      | none =>
        if p.has 'c' then ['c'] else if p.has 'b' then ['o', '1'] else if p.has 'x' then ['x', '2']
        else if p.has 'd' then ['u', '2'] else ['o', '2']
    match displayOf type with
    | none => .complain ("od: invalid character '" ++ str (type.take 1) ++ "' in type string '"
        ++ str type ++ "'" ++ hint "od") 1
    | some d =>
      transform "od" p.files fun text =>
        let text := text.drop (((p.value? 'j').bind count?).getD 0)
        let text := match (p.value? 'N').bind count? with
          | some n => text.take n
          | none => text
        displayRows d ((p.value? 'A').getD ['o']) (p.has 'v') (groupsOf 16 text.length text)

/-! ## Sixty-four characters -/

/-- The characters that stand for six bits. -/
def alphabet : Array Char :=
  "ABCDEFGHIJKLMNOPQRSTUVWXYZabcdefghijklmnopqrstuvwxyz0123456789+/".toList.toArray

/-- A text in the alphabet, three characters at a time. -/
def encode64 : Text → Text
  | a :: b :: c :: rest =>
    let n := (a.toNat * 256 + b.toNat) * 256 + c.toNat
    [n / 262144, n / 4096 % 64, n / 64 % 64, n % 64].map (alphabet.getD · '=') ++ encode64 rest
  | [a, b] =>
    let n := (a.toNat * 256 + b.toNat) * 4
    [n / 4096, n / 64 % 64, n % 64].map (alphabet.getD · '=') ++ ['=']
  | [a] =>
    let n := a.toNat * 16
    [n / 64, n % 64].map (alphabet.getD · '=') ++ ['=', '=']
  | [] => []

/-- The text that characters of the alphabet stand for, four at a time. -/
def decode64 : Text → Option Text
  | a :: b :: c :: d :: rest =>
    let value (c : Char) : Option Nat := alphabet.toList.idxOf? c
    match value a, value b, value c, value d with
    | some a, some b, some c, some d =>
      let n := ((a * 64 + b) * 64 + c) * 64 + d
      (decode64 rest).map ([n / 65536, n / 256 % 256, n % 256].map Char.ofNat ++ ·)
    | some a, some b, some c, none =>
      let n := (a * 64 + b) * 64 + c
      if d = '=' then some ([n / 1024, n / 4 % 256].map Char.ofNat) else none
    | some a, some b, none, none =>
      if c = '=' ∧ d = '=' then some [Char.ofNat ((a * 64 + b) / 16)] else none
    | _, _, _, _ => none
  | [] => some []
  | _ => none

def base64 (args : List Text) : Plan :=
  Options.parse ⟨"di", "w", [("decode", 'd'), ("wrap", 'w')]⟩ "base64" 1 args fun p =>
    gather p.files fun readings =>
      match failures readings (plainFailure "base64") with
      | [] =>
        let text := (texts readings).flatten
        if p.has 'd' then
          match decode64 (text.filter (· ≠ '\n')) with
          | some s => .ofTexts s [] 0
          | none => .ofTexts [] "base64: invalid input\n".toList 1
        else
          let encoded := encode64 text
          let width := ((p.value? 'w').bind natural?).getD 76
          if width = 0 then .ofTexts encoded [] 0
          else .ofTexts ((groupsOf width encoded.length encoded).flatMap (· ++ ['\n'])) [] 0
      | stderr => .ofTexts [] stderr 1

end Tool

end Conformance
