import ClassDeps.Json.Basic
import ClassDeps.Json.Shortest
import ClassDeps.Text.Hex

namespace ClassDeps.Json

def Number.text : Number → String
  | natural n => toString n
  | negative n => "-" ++ toString n
  | float below x => (if below then "-" else "") ++ x.shortest.text

/-- A character inside quotes. Only the quote, the backslash and control characters are escaped. -/
def escaped (c : Char) : String :=
  if c = '"' then "\\\""
  else if c = '\\' then "\\\\"
  else if c = '\x08' then "\\b"
  else if c = '\x0c' then "\\f"
  else if c = '\n' then "\\n"
  else if c = '\r' then "\\r"
  else if c = '\t' then "\\t"
  else if c.toNat < 0x20 then "\\u" ++ Text.hex 4 c.toNat
  else c.toString

def quoted (s : String) : String :=
  "\"" ++ String.join (s.toList.map escaped) ++ "\""

mutual

def compact : Json → String
  | null => "null"
  | bool b => if b then "true" else "false"
  | number n => n.text
  | text s => quoted s
  | array items => "[" ++ ",".intercalate (compactItems items) ++ "]"
  | object fields => "\x7b" ++ ",".intercalate (compactFields fields) ++ "\x7d"

def compactItems : List Json → List String
  | [] => []
  | x :: xs => compact x :: compactItems xs

def compactFields : List (String × Json) → List String
  | [] => []
  | (key, x) :: rest => (quoted key ++ ":" ++ compact x) :: compactFields rest

end

/-- A line for each part between brackets, the closing one at `margin`. -/
def block (margin openBracket closeBracket : String) (parts : List String) : String :=
  if parts.isEmpty then openBracket ++ closeBracket
  else
    openBracket ++ "\n" ++ ",\n".intercalate (parts.map (margin ++ "  " ++ ·)) ++ "\n" ++ margin ++
      closeBracket

mutual

/-- Two more spaces for each level, from `margin` on. -/
def indented (margin : String) : Json → String
  | null => "null"
  | bool b => if b then "true" else "false"
  | number n => n.text
  | text s => quoted s
  | array items => block margin "[" "]" (indentedItems (margin ++ "  ") items)
  | object fields => block margin "\x7b" "\x7d" (indentedFields (margin ++ "  ") fields)

def indentedItems (margin : String) : List Json → List String
  | [] => []
  | x :: xs => indented margin x :: indentedItems margin xs

def indentedFields (margin : String) : List (String × Json) → List String
  | [] => []
  | (key, x) :: rest => (quoted key ++ ": " ++ indented margin x) :: indentedFields margin rest

end

def pretty (value : Json) : String := indented "" value

end ClassDeps.Json
