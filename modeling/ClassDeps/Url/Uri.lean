namespace ClassDeps.Uri

inductive Fault where
  | tooLong
  | schemeTooLong
  | invalidFormat
  | invalidCharacter
  | invalidAuthority
deriving DecidableEq, Repr

def Fault.message : Fault → String
  | tooLong => "uri too long"
  | schemeTooLong => "scheme too long"
  | invalidFormat => "invalid format"
  | invalidCharacter => "invalid uri character"
  | invalidAuthority => "invalid authority"

def maxLength : Nat := 65534

def maxScheme : Nat := 64

/-- More colons than an address in brackets and a port have. -/
def maxColons : Nat := 8

def isSchemeChar (c : Char) : Bool := c.isAlphanum || "+-.~".toList.contains c

def isAuthorityChar (c : Char) : Bool := c.isAlphanum || "!$&'()*+,-.:;=@[]_~".toList.contains c

def isEnd (c : Char) : Bool := c = '/' || c = '?' || c = '#'

/-- What has been seen of an authority: colons and percent signs since the last at-sign or closing
bracket, and brackets. -/
structure Seen where
  colons : Nat
  hasPercent : Bool
  hasOpened : Bool
  hasClosed : Bool

def Seen.step (s : Seen) (c : Char) : Except Fault Seen :=
  match c with
  | ':' =>
    if s.colons < maxColons then .ok { s with colons := s.colons + 1 } else .error .invalidAuthority
  | '[' =>
    if s.hasPercent || s.hasOpened then .error .invalidAuthority
    else .ok { s with hasOpened := true }
  | ']' =>
    if !s.hasOpened || s.hasClosed then .error .invalidAuthority
    else .ok { s with colons := 0, hasPercent := false, hasClosed := true }
  | '@' => .ok { s with colons := 0, hasPercent := false }
  | '%' => .ok { s with hasPercent := true }
  | _ => if isAuthorityChar c then .ok s else .error .invalidCharacter

/-- An authority has at most a user, a host and a port, and escapes only in the user or between
brackets. -/
def checkAuthority (text : List Char) : Except Fault Unit := do
  let seen ← text.foldlM Seen.step ⟨0, false, false, false⟩
  if seen.hasOpened = seen.hasClosed ∧ seen.colons ≤ 1 ∧ text.getLast? ≠ some '@' ∧
    ¬seen.hasPercent then .ok ()
  else .error .invalidAuthority

def isPathChar (c : Char) : Bool :=
  '!' ≤ c && c ≠ '#' && c ≠ '<' && c ≠ '>' && c ≠ '?' && c ≠ '`'

def isQueryChar (c : Char) : Bool :=
  '!' ≤ c && c ≠ '"' && c ≠ '#' && c ≠ '<' && c ≠ '>'

/-- What follows an authority. A fragment may be anything. -/
def checkPath (text : List Char) : Except Fault Unit :=
  let front := text.takeWhile (· ≠ '#')
  let path := front.takeWhile (· ≠ '?')
  let query := front.drop (path.length + 1)
  if path.all isPathChar && query.all isQueryChar then .ok () else .error .invalidCharacter

/-- The scheme and what follows it and `://`. -/
def splitScheme? (text : List Char) : Option (List Char × List Char) :=
  match text.dropWhile isSchemeChar with
  | ':' :: '/' :: '/' :: rest => some (text.takeWhile isSchemeChar, rest)
  | _ => none

/-- Whether a request can be sent to an address, and if not, why. -/
def check (address : String) : Except Fault Unit := do
  if maxLength < address.utf8ByteSize then .error .tooLong
  else
    match splitScheme? address.toList with
    | some (scheme, rest) =>
      let authority := rest.takeWhile (!isEnd ·)
      if maxScheme < scheme.length then .error .schemeTooLong
      else
        checkAuthority authority
        if authority.isEmpty then .error .invalidFormat
        else checkPath (rest.dropWhile (!isEnd ·))
    | none =>
      checkAuthority (address.toList.takeWhile (!isEnd ·))
      if address.toList.any isEnd then .error .invalidFormat else .ok ()

end ClassDeps.Uri
