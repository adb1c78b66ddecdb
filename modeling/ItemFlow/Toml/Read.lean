import ItemFlow.Toml.Value
import ItemFlow.Overflow
/-! Reading TOML documents. A document is lines of key-value pairs, table headers and
comments; values are strings in four quotings, integers in four bases, floats, booleans,
date-times, arrays and inline tables. Anything else is refused: control characters outside
escapes, a lone carriage return, integers beyond the signed 64-bit range, a key given twice,
a table named twice. The readers work on character lists with fuel that the length of the
input bounds. -/
namespace ItemFlow.Toml

/-- Whether a character may stand in a comment or a literal string: tab, printable ASCII,
or anything beyond ASCII. -/
def isPlain (c : Char) : Bool := c == '\t' || (c.toNat ≥ 0x20 && c.toNat != 0x7F)

def isBareKeyChar (c : Char) : Bool := c.isAlphanum || c == '_' || c == '-'

/-- Whether a character may stand in a number, a boolean or a date-time. -/
def isWordChar (c : Char) : Bool :=
  c.isAlphanum || c == '_' || c == '+' || c == '-' || c == '.' || c == ':'

def isHexDigit (c : Char) : Bool := c.isDigit || ('a' ≤ c && c ≤ 'f') || ('A' ≤ c && c ≤ 'F')

def hexValue (c : Char) : Nat :=
  if c.isDigit then c.toNat - '0'.toNat
  else if 'a' ≤ c && c ≤ 'f' then c.toNat - 'a'.toNat + 10
  else c.toNat - 'A'.toNat + 10

def skipSpaces : List Char → List Char
  | c :: cs => if c == ' ' || c == '\t' then skipSpaces cs else c :: cs
  | [] => []

def lineBreak? : List Char → Option (List Char)
  | '\n' :: r => some r
  | '\r' :: '\n' :: r => some r
  | _ => none

/-- A comment runs to the end of the line, and holds plain characters only. -/
def skipComment : List Char → Option (List Char)
  | '#' :: cs =>
    match cs.dropWhile isPlain with
    | [] => some []
    | r => if (lineBreak? r).isSome then some r else none
  | cs => some cs

/-- The end of a line: spaces, a comment, and a line break or the end of the input. -/
def lineEnd (cs : List Char) : Option (List Char) := do
  match ← skipComment (skipSpaces cs) with
  | [] => some []
  | r => lineBreak? r

/-- Spaces, comments and line breaks, as they may stand inside an array. -/
def skipGaps : Nat → List Char → Option (List Char)
  | 0, _ => none
  | fuel + 1, cs =>
    match skipComment (skipSpaces cs) with
    | none => none
    | some r =>
      match lineBreak? r with
      | some r' => skipGaps fuel r'
      | none => some r

/-- The character of a code point given in an escape: a Unicode scalar value. -/
def scalar? (n : Nat) : Option Char :=
  if n < 0xD800 || (0xE000 ≤ n && n ≤ 0x10FFFF) then some (Char.ofNat n) else none

def hexDigits : Nat → List Char → Option (Nat × List Char)
  | 0, cs => some (0, cs)
  | n + 1, c :: cs =>
    if isHexDigit c then (hexDigits n cs).map fun (v, r) => (hexValue c * 16 ^ n + v, r) else none
  | _ + 1, [] => none

def escape : List Char → Option (Char × List Char)
  | 'b' :: r => some ('\x08', r)
  | 't' :: r => some ('\t', r)
  | 'n' :: r => some ('\n', r)
  | 'f' :: r => some ('\x0c', r)
  | 'r' :: r => some ('\r', r)
  | '"' :: r => some ('"', r)
  | '\\' :: r => some ('\\', r)
  | 'u' :: r => do let (n, r) ← hexDigits 4 r; return (← scalar? n, r)
  | 'U' :: r => do let (n, r) ← hexDigits 8 r; return (← scalar? n, r)
  | _ => none

def basicBody : Nat → List Char → List Char → Option (String × List Char)
  | 0, _, _ => none
  | _ + 1, acc, '"' :: r => some (String.ofList acc.reverse, r)
  | fuel + 1, acc, '\\' :: r => do
    let (c, r) ← escape r
    basicBody fuel (c :: acc) r
  | fuel + 1, acc, c :: r => if isPlain c then basicBody fuel (c :: acc) r else none
  | _ + 1, _, [] => none

def literalBody : List Char → List Char → Option (String × List Char)
  | acc, '\'' :: r => some (String.ofList acc.reverse, r)
  | acc, c :: r => if isPlain c then literalBody (c :: acc) r else none
  | _, [] => none

/-- A run of one quote character, at most `limit` long, split off. -/
def quoteRun (q : Char) : List Char → Nat × List Char
  | c :: r => if c == q then let (n, r') := quoteRun q r; (n + 1, r') else (0, c :: r)
  | [] => (0, [])

/-- The input after a backslash that ends a line: blanks and line breaks are skipped. -/
def trimmedBreak? (cs : List Char) : Option (List Char) :=
  match lineBreak? (skipSpaces cs) with
  | some r => some (r.dropWhile fun c => c == ' ' || c == '\t' || c == '\n' || c == '\r')
  | none => none

/-- The body of a multi-line string after its opening delimiter. Up to two quotes may stand
together inside it, and up to two may come before the closing three; line breaks read as
`\n`; `basic` strings take escapes and backslashes that end a line. -/
def multiBody (q : Char) (basic : Bool) : Nat → List Char → List Char → Option (String × List Char)
  | 0, _, _ => none
  | fuel + 1, acc, cs =>
    match cs with
    | [] => none
    | c :: r =>
      if c == q then
        let (n, rest) := quoteRun q cs
        if n < 3 then multiBody q basic fuel (List.replicate n q ++ acc) rest
        else if n ≤ 5 then some (String.ofList (List.replicate (n - 3) q ++ acc).reverse, rest)
        else none
      else if basic && c == '\\' then
        match trimmedBreak? r with
        | some r' => multiBody q basic fuel acc r'
        | none => do
          let (e, r') ← escape r
          multiBody q basic fuel (e :: acc) r'
      else match lineBreak? cs with
        | some r' => multiBody q basic fuel ('\n' :: acc) r'
        | none => if isPlain c then multiBody q basic fuel (c :: acc) r else none

/-- A multi-line string after its opening delimiter; a line break right after the
delimiter is not part of it. -/
def multiString (q : Char) (basic : Bool) (cs : List Char) : Option (String × List Char) :=
  let cs := (lineBreak? cs).getD cs
  multiBody q basic (cs.length + 1) [] cs

/-- One part of a key: bare, or quoted on one line. -/
def simpleKey (cs : List Char) : Option (String × List Char) :=
  match cs with
  | '"' :: r => basicBody (r.length + 1) [] r
  | '\'' :: r => literalBody [] r
  | _ =>
    let (k, r) := cs.span isBareKeyChar
    if k.isEmpty then none else some (String.ofList k, r)

/-- A key: its parts joined by dots, with spaces allowed around the dots. -/
def key : Nat → List Char → Option (List String × List Char)
  | 0, _ => none
  | fuel + 1, cs => do
    let (k, r) ← simpleKey cs
    match skipSpaces r with
    | '.' :: r' => (key fuel (skipSpaces r')).map fun (ks, r'') => (k :: ks, r'')
    | _ => some ([k], r)

/-- Digits with single underscores between them, the underscores dropped. -/
def grouped (ok : Char → Bool) : List Char → Option (List Char)
  | [] => none
  | [c] => if ok c then some [c] else none
  | c :: '_' :: r => if ok c then (grouped ok r).map (c :: ·) else none
  | c :: d :: r => if ok c then (grouped ok (d :: r)).map (c :: ·) else none

def digitsValue (base : Nat) (ds : List Char) : Nat := ds.foldl (fun acc d => acc * base + hexValue d) 0

/-- Whether a digit run may stand as the whole part of a decimal: no leading zero
unless it is zero alone. -/
def wholePart? (cs : List Char) : Option Nat :=
  match cs with
  | ['0'] => some 0
  | '0' :: _ => none
  | _ => (grouped Char.isDigit cs).map (digitsValue 10)

def signOf : List Char → Bool × List Char
  | '+' :: r => (false, r)
  | '-' :: r => (true, r)
  | r => (false, r)

/-- An integer: decimal with an optional sign, or unsigned hexadecimal, octal or binary. -/
def integer? (cs : List Char) : Option Int :=
  match cs with
  | '0' :: 'x' :: r => (grouped isHexDigit r).map fun ds => (digitsValue 16 ds : Int)
  | '0' :: 'o' :: r => (grouped (fun c => '0' ≤ c && c ≤ '7') r).map fun ds => (digitsValue 8 ds : Int)
  | '0' :: 'b' :: r => (grouped (fun c => c == '0' || c == '1') r).map fun ds => (digitsValue 2 ds : Int)
  | _ =>
    let (neg, body) := signOf cs
    (wholePart? body).map fun n => if neg then -(n : Int) else n

/-- Whether a text is a float: a decimal whole part with a fraction, an exponent or both,
or an infinity or not-a-number. -/
def isFloat (cs : List Char) : Bool :=
  let body := (signOf cs).2
  if body == ['i', 'n', 'f'] || body == ['n', 'a', 'n'] then true
  else
    let (whole, rest) := body.span fun c => c.isDigit || c == '_'
    let exponent (r : List Char) : Bool :=
      match r with
      | e :: r' => (e == 'e' || e == 'E') && (grouped Char.isDigit (signOf r').2).isSome
      | [] => false
    (wholePart? whole).isSome &&
      match rest with
      | '.' :: r =>
        let (frac, r') := r.span fun c => c.isDigit || c == '_'
        (grouped Char.isDigit frac).isSome && (r'.isEmpty || exponent r')
      | r => exponent r

/-- Exactly `n` decimal digits and their value. -/
def fixedDigits : Nat → List Char → Option (Nat × List Char)
  | 0, cs => some (0, cs)
  | n + 1, c :: cs => if c.isDigit then (fixedDigits n cs).map fun (v, r) => ((c.toNat - 48) * 10 ^ n + v, r) else none
  | _ + 1, [] => none

/-- A calendar date `YYYY-MM-DD` with a day that its month has, and the rest. -/
def date? (cs : List Char) : Option (List Char) := do
  let (y, r) ← fixedDigits 4 cs
  let r ← match r with | '-' :: r => some r | _ => none
  let (m, r) ← fixedDigits 2 r
  let r ← match r with | '-' :: r => some r | _ => none
  let (d, r) ← fixedDigits 2 r
  let leap := y % 4 == 0 && (y % 100 != 0 || y % 400 == 0)
  let days := if m == 2 then (if leap then 29 else 28) else if m == 4 || m == 6 || m == 9 || m == 11 then 30 else 31
  if 1 ≤ m && m ≤ 12 && 1 ≤ d && d ≤ days then some r else none

/-- A time `HH:MM:SS` with an optional fraction of a second, and the rest. -/
def time? (cs : List Char) : Option (List Char) := do
  let (h, r) ← fixedDigits 2 cs
  let r ← match r with | ':' :: r => some r | _ => none
  let (m, r) ← fixedDigits 2 r
  let r ← match r with | ':' :: r => some r | _ => none
  let (s, r) ← fixedDigits 2 r
  if h > 23 || m > 59 || s > 60 then none
  match r with
  | '.' :: r' =>
    let (ds, r'') := r'.span Char.isDigit
    if ds.isEmpty then none else some r''
  | _ => some r

def isTimeWithOffset (cs : List Char) : Bool :=
  match time? cs with
  | some [] => true
  | some ('Z' :: []) | some ('z' :: []) => true
  | some (s :: r) =>
    (s == '+' || s == '-') &&
      match fixedDigits 2 r with
      | some (h, ':' :: r') => h ≤ 23 && match fixedDigits 2 r' with
        | some (m, []) => m ≤ 59
        | _ => false
      | _ => false
  | none => false

/-- Whether a text is a date, a time, or a date and time joined by `T`. -/
def isDateTime (cs : List Char) : Bool :=
  match date? cs with
  | some [] => true
  | some (t :: r) => (t == 'T' || t == 't') && isTimeWithOffset r
  | none => time? cs == some []

/-- A value that is a run of word characters: a boolean, a date-time (whose date and time
may also be joined by a space), an integer or a float. -/
def word (cs : List Char) : Option (Value × List Char) :=
  let (w, rest) := cs.span isWordChar
  let text := String.ofList w
  if w == ['t', 'r', 'u', 'e'] then some (.boolean true, rest)
  else if w == ['f', 'a', 'l', 's', 'e'] then some (.boolean false, rest)
  else if date? w == some [] then
    match rest with
    | ' ' :: r =>
      let (w2, rest2) := r.span isWordChar
      if isTimeWithOffset w2 then some (.datetime (text ++ " " ++ String.ofList w2), rest2)
      else some (.datetime text, rest)
    | _ => some (.datetime text, rest)
  else if isDateTime w then some (.datetime text, rest)
  else match integer? w with
    | some n => if -2 ^ (63 : Nat) ≤ n && n < 2 ^ (63 : Nat) then some (.integer n, rest) else none
    | none => if isFloat w then some (.float text, rest) else none

mutual
/-- A value, with `fuel` bounding the nesting of arrays and inline tables. -/
def value : Nat → List Char → Option (Value × List Char)
  | 0, _ => none
  | fuel + 1, cs =>
    match cs with
    | '"' :: '"' :: '"' :: r => (multiString '"' true r).map fun (s, r) => (.string s, r)
    | '"' :: r => (basicBody (r.length + 1) [] r).map fun (s, r) => (.string s, r)
    | '\'' :: '\'' :: '\'' :: r => (multiString '\'' false r).map fun (s, r) => (.string s, r)
    | '\'' :: r => (literalBody [] r).map fun (s, r) => (.string s, r)
    | '[' :: r => arrayItems fuel [] r
    | '{' :: r =>
      match skipSpaces r with
      | '}' :: r' => some (.table [], r')
      | r' => inlineEntries fuel [] r'
    | _ => word cs

/-- The items of an array after its opening bracket; a comma may follow the last. -/
def arrayItems : Nat → List Value → List Char → Option (Value × List Char)
  | 0, _, _ => none
  | fuel + 1, acc, cs => do
    match ← skipGaps (cs.length + 1) cs with
    | ']' :: r => some (.array acc.reverse, r)
    | r => do
      let (v, r) ← value fuel r
      match ← skipGaps (r.length + 1) r with
      | ',' :: r' => arrayItems fuel (v :: acc) r'
      | ']' :: r' => some (.array (v :: acc).reverse, r')
      | _ => none

/-- The entries of an inline table after its opening brace, on one line, separated by
commas with none after the last. -/
def inlineEntries : Nat → Entries → List Char → Option (Value × List Char)
  | 0, _, _ => none
  | fuel + 1, acc, cs => do
    let (k, r) ← key (cs.length + 1) cs
    let r ← match skipSpaces r with | '=' :: r => some (skipSpaces r) | _ => none
    let (v, r) ← value fuel r
    let acc ← Entries.assign v k acc
    match skipSpaces r with
    | ',' :: r' => inlineEntries fuel acc (skipSpaces r')
    | '}' :: r' => some (.table (Node.entryValues acc), r')
    | _ => none
end

/-- A document being read: its tables and the header path that key-value pairs go to. -/
structure Reading where
  root : Entries := []
  current : List String := []

def lines : Nat → Reading → List Char → Option Entries
  | 0, _, _ => none
  | fuel + 1, st, cs =>
    match skipSpaces cs with
    | [] => some st.root
    | '[' :: '[' :: r => do
      let (path, r) ← key (r.length + 1) (skipSpaces r)
      let r ← match skipSpaces r with | ']' :: ']' :: r => some r | _ => none
      let r ← lineEnd r
      lines fuel { root := ← Entries.openArray path st.root, current := path } r
    | '[' :: r => do
      let (path, r) ← key (r.length + 1) (skipSpaces r)
      let r ← match skipSpaces r with | ']' :: r => some r | _ => none
      let r ← lineEnd r
      lines fuel { root := ← Entries.openTable path st.root, current := path } r
    | r =>
      match lineEnd r with
      | some r' => lines fuel st r'
      | none => do
        let (k, r) ← key (r.length + 1) r
        let r ← match skipSpaces r with | '=' :: r => some (skipSpaces r) | _ => none
        let (v, r) ← value (r.length + 1) r
        let r ← lineEnd r
        let root ← Entries.under (Entries.assign v k) st.current st.root
        lines fuel { st with root } r

/-- Read a document into the entries of its root table. A byte-order mark may open it. -/
def parse? (s : String) : Option (List (String × Value)) :=
  let cs := match s.toList with
    | '\uFEFF' :: r => r
    | r => r
  (lines (cs.length + 1) {} cs).map Node.entryValues

end ItemFlow.Toml
