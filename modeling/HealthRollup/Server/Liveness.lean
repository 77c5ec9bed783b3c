import HealthRollup.Notice
import HealthRollup.Server.Endpoint
import HealthRollup.Server.RequestLine

/-! The liveness endpoint. `GET /health` is answered with `OK`; the other known methods and paths with an
empty 404, and a method that is not known or a request line that cannot be read with an error page. -/
namespace HealthRollup
namespace Liveness

/-- A reply and what is reported while it is made. -/
structure Exchange where
  reply : Reply
  notices : List Notice
  deriving Repr

def methods : List String := ["GET","POST","PUT","DELETE","PATCH","HEAD"]

/-- Several slashes in front count as one. -/
def singleSlash : List Char → List Char
  | '/' :: '/' :: cs => '/' :: cs.dropWhile (· == '/')
  | cs => cs

def healthPath : List Char := ['/', 'h', 'e', 'a', 'l', 't', 'h']

def escapeChar (c : Char) : List Char :=
  if c = '&' then ['&', 'a', 'm', 'p', ';']
  else if c = '<' then ['&', 'l', 't', ';']
  else if c = '>' then ['&', 'g', 't', ';']
  else [c]

def escape (s : String) : String := String.ofList (s.toList.flatMap escapeChar)

def page (status : Nat) (reason explanation : String) : String :=
  "<!DOCTYPE HTML>\n<html lang=\"en\">\n    <head>\n        <meta charset=\"utf-8\">\n" ++
  "        <title>Error response</title>\n    </head>\n    <body>\n" ++
  "        <h1>Error response</h1>\n        <p>Error code: " ++ toString status ++ "</p>\n" ++
  "        <p>Message: " ++ escape reason ++ ".</p>\n" ++
  "        <p>Error code explanation: " ++ toString status ++ " - " ++ escape explanation ++
  ".</p>\n    </body>\n</html>\n"

def refuse (line : String) (status : Nat) (reason explanation : String) : Exchange :=
  ⟨⟨status,some "text/html;charset=utf-8",page status reason explanation⟩,
    [.livenessRefused status reason,.livenessAnswered line status]⟩

def answer (line method path : String) : Exchange :=
  if !methods.contains method then
    refuse line 501 ("Unsupported method (" ++ Quoted.encode method ++ ")")
      "Server does not support this operation"
  else if method == "GET" && singleSlash path.toList == healthPath then
    ⟨.plain 200 "OK",[.livenessChecked,.livenessAnswered line 200]⟩
  else ⟨.empty 404,[.livenessAnswered line 404]⟩

/-- A line without its line end; one that is too long is not shown. -/
def respondTo (line : List Char) : Exchange :=
  if RequestLine.lengthLimit < line.length+1 then
    refuse "" 414 "Request-URI Too Long" "URI is too long"
  else
    let line := RequestLine.withoutReturns line
    match RequestLine.read line with
    | .proper method path => answer (String.ofList line) method path
    | .refused status reason explanation => refuse (String.ofList line) status reason explanation

def respond (method path : String) : Exchange :=
  respondTo (RequestLine.firstLine
    (RequestLine.bytewise (method ++ " " ++ path ++ " HTTP/1.0")++['\r', '\n']))

end Liveness
end HealthRollup
