import ClassDeps.Url.Reader
import ClassDeps.Url.Uri

namespace ClassDeps.Endpoint

inductive Fault where
  | url (fault : Url.Fault)
  | uri (address : String) (fault : Uri.Fault)
deriving DecidableEq, Repr

def Fault.message : Fault → String
  | url _ => "parse OTLP endpoint"
  | uri _ _ => "build OTLP span exporter"

def Fault.cause : Fault → String
  | url fault => fault.message
  | uri address fault => "invalid URI " ++ address ++ ". Reason " ++ fault.message

/-- The path that traces go to, where a collector is named by its root or by the path of logs. -/
def tracePath (path : List Char) : List Char :=
  let traces := "/v1/traces".toList
  let logs := "/v1/logs".toList
  if path = ['/'] then traces
  else if logs.isSuffixOf path then path.take (path.length - logs.length) ++ traces
  else path

/-- The URL with its path set to where traces go. -/
def traceUrl (url : Url) : Url :=
  match url.path with
  | .rooted _ => { url with path := .rooted ((Text.splitAll '/' (tracePath url.path.text)).drop 1) }
  | .rootless text => { url with path := .rootless (tracePath text) }

/-- Where traces go for an address as it was given. -/
def ofText (text : String) : Except Fault String := do
  let url ← (Url.ofText text).mapError .url
  let address := (traceUrl url).text
  (Uri.check address).mapError (.uri address)
  return address

end ClassDeps.Endpoint
