import ClassDeps.Url.Basic
import ClassDeps.Url.Domain

namespace ClassDeps.Url

inductive Fault where
  | noScheme
  | emptyHost
  | invalidDomain
  | invalidHostCharacter
  | invalidIpv4
  | invalidIpv6
  | invalidPort
deriving DecidableEq, Repr

def Fault.message : Fault → String
  | noScheme => "relative URL without a base"
  | emptyHost => "empty host"
  | invalidDomain => "invalid international domain name"
  | invalidHostCharacter => "invalid domain character"
  | invalidIpv4 => "invalid IPv4 address"
  | invalidIpv6 => "invalid IPv6 address"
  | invalidPort => "invalid port number"

def isControl (c : Char) : Bool := c.toNat < 0x20 || 0x7f ≤ c.toNat

def escapedInFragment (c : Char) : Bool := isControl c || " \"<>`".toList.contains c

def escapedInQuery (isWeb : Bool) (c : Char) : Bool :=
  isControl c || " \"#<>".toList.contains c || (isWeb && c = '\'')

def escapedInPath (c : Char) : Bool := escapedInFragment c || "#?^\x7b\x7d".toList.contains c

def escapedInUser (c : Char) : Bool := escapedInPath c || "/:;=@[\\]|".toList.contains c

/-- Blanks and control characters around a URL do not count, and tabs and line ends nowhere. -/
def strip (text : List Char) : List Char :=
  let isBlank (c : Char) : Bool := c.toNat ≤ 0x20
  let trimmed := ((text.dropWhile isBlank).reverse.dropWhile isBlank).reverse
  trimmed.filter fun c => c ≠ '\t' && c ≠ '\n' && c ≠ '\r'

def isSchemeChar (c : Char) : Bool := c.isAlphanum || c = '+' || c = '-' || c = '.'

/-- The scheme in lower case, and what follows its colon. -/
def scheme? (text : List Char) : Option (List Char × List Char) :=
  match text.takeWhile isSchemeChar, text.dropWhile isSchemeChar with
  | first :: name, ':' :: rest =>
    if first.isAlpha then some ((first :: name).map Char.toLower, rest) else none
  | _, _ => none

/-- Schemes differ in what they ask of a host. -/
inductive Kind where
  /-- A host is required, and a domain name if it is no address. -/
  | web
  /-- A host may be missing, and there are drive letters. -/
  | file
  /-- A host may be missing, and be any text. -/
  | other
deriving DecidableEq, Repr

def Kind.ofScheme (scheme : List Char) : Kind :=
  let name := String.ofList scheme
  if ["http", "https", "ws", "wss", "ftp"].contains name then web
  else if name = "file" then file
  else other

def defaultPort? (scheme : List Char) : Option Nat :=
  match String.ofList scheme with
  | "http" | "ws" => some 80
  | "https" | "wss" => some 443
  | "ftp" => some 21
  | _ => none

/-- What divides a path. Both slashes do, except in a scheme of no known kind. -/
def Kind.isSlash (kind : Kind) (c : Char) : Bool := c = '/' || (c = '\\' && kind ≠ other)

/-- What ends an authority. -/
def Kind.isStop (kind : Kind) (c : Char) : Bool := kind.isSlash c || c = '?' || c = '#'

/-- An address in brackets. -/
def bracketed (text : List Char) : Except Fault Host :=
  match text.getLast?, Ipv6.ofText? text.dropLast with
  | some ']', some groups => .ok (.ipv6 groups)
  | _, _ => .error .invalidIpv6

/-- The host of a scheme that asks for a domain name or an address. -/
def webHost (text : List Char) : Except Fault Host :=
  match text with
  | '[' :: rest => bracketed rest
  | _ =>
    match Domain.ofText? text with
    | none => .error .invalidDomain
    | some [] => .error .emptyHost
    | some name =>
      if Ipv4.isMeant name then
        match Ipv4.ofName? name with
        | some address => .ok (.ipv4 address)
        | none => .error .invalidIpv4
      else .ok (.domain name)

/-- The host of any other scheme. -/
def otherHost (text : List Char) : Except Fault Host :=
  match text with
  | '[' :: rest => bracketed rest
  | _ =>
    if text.any "\x00\t\n\r #/:<>?@[\\]^|".toList.contains then .error .invalidHostCharacter
    else .ok (.domain (Percent.encode isControl text))

/-- The host at the start of a text, which ends at a colon outside brackets, and what follows. -/
def splitHost (kind : Kind) : Bool → List Char → List Char × List Char
  | _, [] => ([], [])
  | inBrackets, c :: rest =>
    if kind.isStop c || (c = ':' && !inBrackets) then ([], c :: rest)
    else
      let parts := splitHost kind (c = '[' || (inBrackets && c ≠ ']')) rest
      (c :: parts.1, parts.2)

/-- The host at the start of a text, and what follows. A port needs a host. -/
def readHost (kind : Kind) (text : List Char) : Except Fault (Host × List Char) := do
  let (name, rest) := splitHost kind false text
  if name.isEmpty && (kind = .web || rest.head? = some ':') then .error .emptyHost
  else
    let found ← if kind = .web then webHost name else otherHost name
    return (found, rest)

/-- The port at the start of a text, and what follows. -/
def readPort (scheme text : List Char) : Except Fault (Option Nat × List Char) :=
  match text with
  | ':' :: rest =>
    let digits := rest.takeWhile Char.isDigit
    let after := rest.dropWhile Char.isDigit
    let number := (Ipv4.number? 10 digits).getD 0
    if number < 65536 ∧ after.head?.all "/\\?#".toList.contains then
      .ok (if digits.isEmpty || defaultPort? scheme = some number then none else some number, after)
    else .error .invalidPort
  | _ => .ok (none, text)

/-- The user and the password before the last at-sign, and what follows it. -/
def readCredentials (kind : Kind) (text : List Char) :
    Except Fault (List Char × List Char × List Char) :=
  let whole := text.takeWhile (!kind.isStop ·)
  match Text.splitLast? '@' whole with
  | none => .ok ([], [], text)
  | some (before, _) =>
    let rest := text.drop (before.length + 1)
    if before.isEmpty && rest.head?.any kind.isStop then .error .emptyHost
    else
      let (user, password) := (Text.splitFirst? ':' before).getD (before, [])
      .ok (Percent.encode escapedInUser user, Percent.encode escapedInUser password, rest)

/-- The authority at the start of a text, and what follows. A user needs a host. -/
def readAuthority (kind : Kind) (scheme text : List Char) : Except Fault (Authority × List Char) := do
  let (user, password, text) ← readCredentials kind text
  let (host, text) ← readHost kind text
  let (port, text) ← readPort scheme text
  if host = .domain [] ∧ ¬(user.isEmpty ∧ password.isEmpty) then .error .emptyHost
  else return (⟨user, password, host, port⟩, text)

/-- A segment with its escaped dots as dots. -/
def plainDots : List Char → List Char
  | '%' :: '2' :: e :: rest =>
    if e = 'e' ∨ e = 'E' then '.' :: plainDots rest else '%' :: plainDots ('2' :: e :: rest)
  | c :: rest => c :: plainDots rest
  | [] => []

def isDrive : List Char → Bool
  | [letter, mark] => letter.isAlpha && (mark = ':' || mark = '|')
  | _ => false

/-- The segments above the last of some, which are in reverse. A drive is not left. -/
def above : List (List Char) → List (List Char)
  | [] => []
  | last :: rest => if isDrive last then last :: rest else rest

/-- Goes through segments from those already passed, which are in reverse: one dot stays, two go
up, and either leaves a slash at the end. -/
def resolve : List (List Char) → List (List Char) → List (List Char)
  | passed, [] => passed.reverse
  | passed, segment :: rest =>
    let slash := if rest.isEmpty then [[]] else []
    if plainDots segment = ['.', '.'] then resolve (slash ++ above passed) rest
    else if plainDots segment = ['.'] then resolve (slash ++ passed) rest
    else resolve (segment :: passed) rest

/-- The segments of a path, less its first slash. -/
def segments (kind : Kind) (text : List Char) : List (List Char) :=
  let plain := text.map fun c => if kind.isSlash c then '/' else c
  let parts := Text.splitAll '/' (if plain.head? = some '/' then plain.drop 1 else plain)
  parts.map (Percent.encode escapedInPath)

/-- A drive at the start of a path is written with a colon, and set apart from what follows. -/
def setDrive : List (List Char) → List (List Char)
  | (letter :: mark :: more) :: rest =>
    if !isDrive [letter, mark] then (letter :: mark :: more) :: rest
    else if more.isEmpty then [letter, ':'] :: rest
    else [letter, mark] :: more :: rest
  | parts => parts

/-- The path of a file, which does not begin with empty segments. -/
def filePath (text : List Char) : Path :=
  match (resolve [] (setDrive (segments .file text))).dropWhile List.isEmpty with
  | [] => .rooted [[]]
  | parts => .rooted parts

/-- The path after an authority. -/
def pathAfter (kind : Kind) (text : List Char) : Path :=
  if text.isEmpty && kind = .other then .rooted []
  else .rooted (resolve [] (segments kind text))

/-- The path with no authority before it. -/
def lonePath (text : List Char) : Path :=
  if text.head? = some '/' then .rooted (resolve [] (segments .other text))
  else .rootless (Percent.encode isControl text)

/-- The host of a file, and what follows. A drive is no host, and this machine has no name. -/
def fileHost (text : List Char) : Except Fault (Host × List Char) :=
  let name := text.takeWhile (!Kind.file.isStop ·)
  let rest := text.dropWhile (!Kind.file.isStop ·)
  if isDrive name then .ok (.domain [], text)
  else if name.isEmpty then .ok (.domain [], rest)
  else do
    let found ← webHost name
    return (if found = .domain "localhost".toList then .domain [] else found, rest)

/-- The authority and the path of a file. A drive is on this machine. -/
def filePlace (text : List Char) : Except Fault (Authority × Path) :=
  let pathText (rest : List Char) : List Char := rest.takeWhile fun c => c ≠ '?' && c ≠ '#'
  match text with
  | a :: b :: rest =>
    if Kind.file.isSlash a && Kind.file.isSlash b then do
      let (found, rest) ← fileHost rest
      let parts := segments .file (pathText rest)
      let host := if parts.head?.any isDrive then .domain [] else found
      return ({ Authority.blank with host }, filePath (pathText rest))
    else .ok (.blank, filePath (pathText text))
  | _ => .ok (.blank, filePath (pathText text))

/-- The authority, if there is one, and the path. -/
def place (kind : Kind) (scheme text : List Char) : Except Fault (Option Authority × Path) :=
  let pathText (rest : List Char) : List Char := rest.takeWhile fun c => c ≠ '?' && c ≠ '#'
  match kind, text with
  | .file, _ => do
    let (a, path) ← filePlace text
    return (some a, path)
  | .web, _ => do
    let (a, rest) ← readAuthority .web scheme (text.dropWhile Kind.web.isSlash)
    return (some a, pathAfter .web (pathText rest))
  | .other, '/' :: '/' :: rest => do
    let (a, rest) ← readAuthority .other scheme rest
    return (some a, pathAfter .other (pathText rest))
  | .other, _ => .ok (none, lonePath (pathText text))

def ofText (text : String) : Except Fault Url := do
  match scheme? (strip text.toList) with
  | none => .error .noScheme
  | some (scheme, rest) =>
    let kind := Kind.ofScheme scheme
    let (authority, path) ← place kind scheme rest
    let (front, fragment) :=
      match Text.splitFirst? '#' rest with
      | none => (rest, none)
      | some (front, fragment) => (front, some (Percent.encode escapedInFragment fragment))
    let query := (Text.splitFirst? '?' front).map fun parts =>
      Percent.encode (escapedInQuery (kind ≠ .other)) parts.2
    return { scheme, authority, path, query, fragment }

end ClassDeps.Url
