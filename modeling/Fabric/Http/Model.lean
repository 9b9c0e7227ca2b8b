import Fabric.Library.Rust
import Fabric.Tcp.Basic

/-! Messages and errors of the HTTP package. -/

namespace Fabric.Http
open Rust

inductive HttpErrorKind where
  | transport
  | malformedRequest
  | requestTooLarge
  | unsupportedVersion
  | unsupportedTransferEncoding
  | incompleteRequest
  | invalidResponse
  | writeResponseFailed
  | stopped
  deriving DecidableEq, Repr

structure HttpError where
  kind : HttpErrorKind
  detail : String
  deriving DecidableEq, Repr

def HttpError.transport (error : Tcp.TcpTransportError) : HttpError := ⟨.transport, error.detail⟩

/-- How a call ends without a value: it returns an error or it panics. -/
inductive Fault where
  | error (error : HttpError)
  | panic
  deriving DecidableEq, Repr

inductive HttpVersion where
  | http10
  | http11
  deriving DecidableEq, Repr

def HttpVersion.fromHttparse (version : UInt8) : Except HttpError HttpVersion :=
  match version with
  | 0 => .ok .http10
  | 1 => .ok .http11
  | _ => .error ⟨.unsupportedVersion, "unsupported HTTP/1." ++ toString version.toNat⟩

def HttpVersion.statusLinePrefix : HttpVersion → String
  | .http10 => "HTTP/1.0"
  | .http11 => "HTTP/1.1"

structure HttpHeader where
  name : String
  value : String
  deriving DecidableEq, Repr

structure HttpRequest where
  method : String
  target : String
  version : HttpVersion
  headers : List HttpHeader
  body : Bytes
  deriving DecidableEq, Repr

structure HttpResponse where
  version : HttpVersion
  statusCode : UInt16
  reason : Option String
  headers : List HttpHeader
  body : Bytes
  deriving DecidableEq, Repr

namespace HttpResponse

def new (statusCode : UInt16) (body : Bytes) : HttpResponse where
  version := .http11
  statusCode := statusCode
  reason := none
  headers := []
  body := body

def withHeader (response : HttpResponse) (name value : String) : HttpResponse :=
  { response with headers := response.headers ++ [⟨name, value⟩] }

end HttpResponse

end Fabric.Http
