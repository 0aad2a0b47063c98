import ClassDeps.Url.Address

namespace ClassDeps

namespace Url

inductive Host where
  | domain (name : List Char)
  | ipv4 (address : Nat)
  | ipv6 (groups : List Nat)
deriving DecidableEq, Repr

def Host.text : Host → List Char
  | domain name => name
  | ipv4 address => Ipv4.text address
  | ipv6 groups => '[' :: Ipv6.text groups ++ [']']

/-- Where a URL leads and as whom. -/
structure Authority where
  user : List Char
  password : List Char
  host : Host
  /-- The port, if it is not the one that the scheme has anyway. -/
  port : Option Nat
deriving DecidableEq, Repr

/-- Nobody, nowhere. -/
def Authority.blank : Authority := ⟨[], [], .domain [], none⟩

def Authority.text (a : Authority) : List Char :=
  let password := if a.password.isEmpty then [] else ':' :: a.password
  let credentials := a.user ++ password
  let sign := if credentials.isEmpty then [] else ['@']
  let port :=
    match a.port with
    | none => []
    | some n => ':' :: (toString n).toList
  credentials ++ sign ++ a.host.text ++ port

inductive Path where
  /-- Segments, each with a slash in front. -/
  | rooted (segments : List (List Char))
  /-- A text with no slash in front. -/
  | rootless (text : List Char)
deriving DecidableEq, Repr

def Path.text : Path → List Char
  | rooted segments => segments.flatMap ('/' :: ·)
  | rootless text => text

end Url

structure Url where
  scheme : List Char
  authority : Option Url.Authority
  path : Url.Path
  query : Option (List Char)
  fragment : Option (List Char)
deriving DecidableEq, Repr

/-- The text of a URL. A path is kept from being read as an authority. -/
def Url.text (url : Url) : String :=
  let path := url.path.text
  let place :=
    match url.authority with
    | some a => "//".toList ++ a.text ++ path
    | none => if "//".toList.isPrefixOf path then "/.".toList ++ path else path
  let part (mark : Char) : Option (List Char) → List Char
    | none => []
    | some text => mark :: text
  String.ofList (url.scheme ++ ':' :: place ++ part '?' url.query ++ part '#' url.fragment)

end ClassDeps
