import ItemFlow.Overflow
/-! Writing TOML strings. A string is written literal, between single quotes, when it
holds a backslash and writing it literal needs no escape: no control character but tab
and line feed, no run of three single quotes, and no single quote at its end. Otherwise
it is written basic, between double quotes, with escapes. A string with a line feed is
written on several lines, between triple quotes; one with a single quote but no line feed,
written literal, also takes triple quotes. -/
namespace ItemFlow.Toml

/-- The quoting a string is written in. -/
inductive Quoting where
  | oneLine
  | oneLineTriple
  | multiLine
deriving DecidableEq, Repr

/-- What a scan of a string found: the quoting it needs, whether a literal form is open,
whether a backslash makes it preferred, the current and longest runs of single quotes. -/
structure Scan where
  quoting : Quoting := .oneLine
  literalOk : Bool := true
  backslash : Bool := false
  run : Nat := 0
  longest : Nat := 0

def Scan.step (s : Scan) (c : Char) : Scan :=
  if s.literalOk then
    let s := if c == '\'' then
        { s with run := s.run + 1, literalOk := s.run + 1 < 3 }
      else { s with longest := max s.longest s.run, run := 0 }
    if c == '\t' then s
    else if c == '\\' then { s with backslash := true }
    else if c == '\n' then { s with quoting := .multiLine }
    else if c.toNat ≤ 0x1F || c.toNat == 0x7F then { s with literalOk := false }
    else s
  else if c == '\n' then { s with quoting := .multiLine }
  else s

/-- The quoting of a string and whether it is written literal. -/
def style (v : String) : Quoting × Bool :=
  let s := v.toList.foldl Scan.step {}
  let literal := s.literalOk && !(s.run > 0 && v.endsWith "'") && s.backslash
  if !literal then (s.quoting, false)
  else if s.quoting == .oneLine && max s.longest s.run ≥ 1 then (.oneLineTriple, true)
  else (s.quoting, true)

def hex4 (n : Nat) : String :=
  String.ofList ((List.range 4).reverse.map fun i => "0123456789ABCDEF".toList.getD (n / 16 ^ i % 16) '0')

def escapeChar (multi : Bool) (c : Char) : String :=
  if c == '\x08' then "\\b"
  else if c == '\t' then "\\t"
  else if c == '\n' then (if multi then "\n" else "\\n")
  else if c == '\x0c' then "\\f"
  else if c == '\r' then "\\r"
  else if c == '"' then "\\\""
  else if c == '\\' then "\\\\"
  else if c.toNat ≤ 0x1F || c.toNat == 0x7F then "\\u" ++ hex4 c.toNat
  else c.toString

def quote (v : String) : String :=
  match style v with
  | (.multiLine, true) => "'''\n" ++ v ++ "'''"
  | (.oneLineTriple, true) => "'''" ++ v ++ "'''"
  | (_, true) => "'" ++ v ++ "'"
  | (.multiLine, false) => "\"\"\"\n" ++ String.join (v.toList.map (escapeChar true)) ++ "\"\"\""
  | (_, false) => "\"" ++ String.join (v.toList.map (escapeChar false)) ++ "\""

end ItemFlow.Toml
