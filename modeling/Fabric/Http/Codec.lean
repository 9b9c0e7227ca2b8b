import Fabric.Http.Httparse
import Fabric.Http.Model
import Fabric.Tcp.ByteStream

/-! The HTTP codec: reading a request from a connection and encoding a response. -/

namespace Fabric.Http
open Rust Tcp

def defaultMaxHeadBytes : Nat := 8 * 1024
def defaultMaxBodyBytes : Nat := 1024 * 1024

section Reading
variable (parse : Httparse.Parser)

def malformed (error : Httparse.ParseError) : HttpError :=
  ⟨.malformedRequest, "malformed HTTP request: " ++ error.debug⟩

/-- The first loop of `read_http_request`: the length of the head, and the buffer in which it was found. -/
def readHead (maxHeadBytes : Nat) (buffer : Bytes) (connection : ByteStream) :
    Except HttpError (Nat × Bytes) × ByteStream :=
  match parse buffer with
  | .ok (.complete headerLen _) => (.ok (headerLen, buffer), connection)
  | .ok .incomplete =>
    if maxHeadBytes ≤ buffer.length then
      (.error ⟨.requestTooLarge, "HTTP request head exceeded " ++ toString maxHeadBytes ++ " bytes"⟩, connection)
    else
      match connection.readSome (min (maxHeadBytes - buffer.length) 1024) with
      | (.error error, connection) => (.error (.transport error), connection)
      | (.ok [], connection) =>
        (.error ⟨.incompleteRequest, "connection closed before complete HTTP request head"⟩, connection)
      | (.ok (b :: bytes), connection) => readHead maxHeadBytes (buffer ++ b :: bytes) connection
  | .error error => (.error (malformed error), connection)
termination_by maxHeadBytes - buffer.length
decreasing_by
  simp only [List.length_append, List.length_cons]
  omega

/-- The value of one more `Content-Length` header, after those that came before. -/
def contentLengthHeader (contentLength : Option Nat) (value : String) : Except HttpError (Option Nat) :=
  match parseUsize (trim value) with
  | none => .error ⟨.malformedRequest, "Content-Length is not a valid non-negative length"⟩
  | some parsed =>
    match contentLength with
    | some existing =>
      if existing ≠ parsed then
        .error ⟨.malformedRequest, "conflicting Content-Length headers are not allowed"⟩
      else .ok (some parsed)
    | none => .ok (some parsed)

/-- A `Transfer-Encoding` that names a coding other than `identity`. -/
def unsupportedTransferEncoding (value : String) : Bool :=
  (split value ',').any fun part => trim part != "" && !eqIgnoreAsciiCase (trim part) "identity"

/-- The checks of one header, and the content length after it. -/
def checkHeader (name value : String) (contentLength : Option Nat) : Except HttpError (Option Nat) :=
  match if eqIgnoreAsciiCase name "content-length" then contentLengthHeader contentLength value
    else .ok contentLength with
  | .error error => .error error
  | .ok contentLength =>
    if eqIgnoreAsciiCase name "transfer-encoding" && unsupportedTransferEncoding value then
      .error ⟨.unsupportedTransferEncoding, "transfer encodings other than identity are not supported"⟩
    else .ok contentLength

def headerLoop : List Httparse.Header → List HttpHeader → Option Nat → Except HttpError (List HttpHeader × Option Nat)
  | [], headers, contentLength => .ok (headers, contentLength)
  | header :: rest, headers, contentLength =>
    if header.name = "" then headerLoop rest headers contentLength
    else
      match fromUtf8 header.value with
      | none => .error ⟨.malformedRequest, "header " ++ header.name ++ " is not valid UTF-8"⟩
      | some value =>
        match checkHeader header.name value contentLength with
        | .error error => .error error
        | .ok contentLength => headerLoop rest (headers ++ [⟨header.name, value⟩]) contentLength

/-- What `read_http_request` takes from a parsed head. -/
structure Head where
  method : String
  target : String
  version : HttpVersion
  headers : List HttpHeader
  contentLength : Nat
  deriving DecidableEq, Repr

def checkHead (request : Httparse.Request) : Except HttpError Head :=
  match request.method, request.path, request.version with
  | none, _, _ => .error ⟨.malformedRequest, "missing method"⟩
  | some _, none, _ => .error ⟨.malformedRequest, "missing target"⟩
  | some _, some _, none => .error ⟨.malformedRequest, "missing HTTP version"⟩
  | some method, some target, some version => do
    let version ← HttpVersion.fromHttparse version
    let (headers, contentLength) ← headerLoop request.headers [] none
    .ok ⟨method, target, version, headers, contentLength.getD 0⟩

/-- The second loop of `read_http_request`: the buffer once it holds `needed` bytes. -/
def readBody (needed : Nat) (buffer : Bytes) (connection : ByteStream) : Except HttpError Bytes × ByteStream :=
  if buffer.length < needed then
    match connection.readSome (min (needed - buffer.length) 8192) with
    | (.error error, connection) => (.error (.transport error), connection)
    | (.ok [], connection) =>
      (.error ⟨.incompleteRequest, "connection closed before complete HTTP request body"⟩, connection)
    | (.ok (b :: bytes), connection) => readBody needed (buffer ++ b :: bytes) connection
  else (.ok buffer, connection)
termination_by needed - buffer.length
decreasing_by
  simp only [List.length_append, List.length_cons]
  omega

/-- The request whose head ends at `headerLen` and which ends at `needed`. -/
def requestOf (head : Head) (buffer : Bytes) (headerLen needed : Nat) : Except Fault HttpRequest :=
  if headerLen ≤ needed ∧ needed ≤ buffer.length then
    .ok { method := head.method, target := head.target, version := head.version, headers := head.headers
          body := (buffer.take needed).drop headerLen }
  else .error .panic

def readHttpRequest (connection : ByteStream) (maxHeadBytes maxBodyBytes : Nat) :
    Except Fault HttpRequest × ByteStream :=
  match readHead parse maxHeadBytes [] connection with
  | (.error error, connection) => (.error (.error error), connection)
  | (.ok (headerLen, buffer), connection) =>
    match parse buffer with
    | .error error => (.error (.error (malformed error)), connection)
    | .ok .incomplete => (.error .panic, connection)
    | .ok (.complete _ request) =>
      match checkHead request with
      | .error error => (.error (.error error), connection)
      | .ok head =>
        if maxBodyBytes < head.contentLength then
          (.error (.error ⟨.requestTooLarge, "HTTP request body exceeded " ++ toString maxBodyBytes ++ " bytes"⟩),
            connection)
        else
          match checkedAdd headerLen head.contentLength with
          | none => (.error .panic, connection)
          | some needed =>
            match readBody needed buffer connection with
            | (.error error, connection) => (.error (.error error), connection)
            | (.ok buffer, connection) => (requestOf head buffer headerLen needed, connection)

end Reading

/-! ### Responses -/

section Encoding
/- `{:?}` of a `str`. -/
variable (debug : String → String)

def validateStatusCode (statusCode : UInt16) : Except HttpError Unit :=
  if 100 ≤ statusCode ∧ statusCode ≤ 999 then .ok ()
  else
    .error ⟨.invalidResponse,
      "HTTP status code " ++ toString statusCode.toNat ++ " is outside the valid three-digit range"⟩

def validateHeaderName (name : String) : Except HttpError Unit :=
  if name = "" ∨ (asBytes name).any fun byte => byte ≤ 0x20 || byte == 58 || 0x7f ≤ byte then
    .error ⟨.invalidResponse, "invalid HTTP response header name: " ++ debug name⟩
  else .ok ()

def validateHeaderValue (label value : String) : Except HttpError Unit :=
  if (asBytes value).any fun byte => byte == 13 || byte == 10 then
    .error ⟨.invalidResponse, "HTTP response " ++ label ++ " contains CR/LF injection"⟩
  else .ok ()

def defaultReasonPhrase (statusCode : UInt16) : String :=
  match statusCode with
  | 200 => "OK"
  | 201 => "Created"
  | 202 => "Accepted"
  | 204 => "No Content"
  | 400 => "Bad Request"
  | 404 => "Not Found"
  | 413 => "Payload Too Large"
  | 500 => "Internal Server Error"
  | _ => "Status"

def crlf : Bytes := [13, 10]

/-- The lines of the headers, without `Content-Length`, and whether one of them is `Connection`. -/
def encodeHeaders : List HttpHeader → Except HttpError (Bytes × Bool)
  | [] => .ok ([], false)
  | header :: rest => do
    validateHeaderName debug header.name
    validateHeaderValue header.name header.value
    let (bytes, hasConnection) ← encodeHeaders rest
    if eqIgnoreAsciiCase header.name "content-length" then .ok (bytes, hasConnection)
    else
      .ok (asBytes header.name ++ asBytes ": " ++ asBytes header.value ++ crlf ++ bytes,
        eqIgnoreAsciiCase header.name "connection" || hasConnection)

def encodeHttpResponse (response : HttpResponse) : Except HttpError Bytes := do
  validateStatusCode response.statusCode
  let reason := response.reason.getD (defaultReasonPhrase response.statusCode)
  validateHeaderValue "reason phrase" reason
  let statusLine := asBytes (response.version.statusLinePrefix ++ " " ++ toString response.statusCode.toNat ++ " " ++
    reason) ++ crlf
  let (headers, hasConnection) ← encodeHeaders debug response.headers
  .ok (statusLine ++ headers ++ asBytes ("Content-Length: " ++ toString response.body.length) ++ crlf ++
    (if hasConnection then [] else asBytes "Connection: close" ++ crlf) ++ crlf ++ response.body)

def writeHttpResponse (connection : ByteStream) (response : HttpResponse) : Except HttpError Unit × ByteStream :=
  match encodeHttpResponse debug response with
  | .error error => (.error error, connection)
  | .ok bytes =>
    match connection.writeAll bytes with
    | (.error error, connection) =>
      (.error ⟨.writeResponseFailed, "failed to write HTTP response: " ++ error.detail⟩, connection)
    | (.ok (), connection) => (.ok (), connection)

end Encoding

end Fabric.Http
