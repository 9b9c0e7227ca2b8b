import Fabric.Library.Rust

/-! What the codec uses of `httparse`: `Request::parse` with room for 64 headers, as a function of the bytes. -/

namespace Fabric.Http.Httparse
open Rust

inductive ParseError where
  | headerName
  | headerValue
  | newLine
  | status
  | token
  | tooManyHeaders
  | version
  deriving DecidableEq, Repr

/-- `{:?}` of a parse error. -/
def ParseError.debug : ParseError → String
  | .headerName => "HeaderName"
  | .headerValue => "HeaderValue"
  | .newLine => "NewLine"
  | .status => "Status"
  | .token => "Token"
  | .tooManyHeaders => "TooManyHeaders"
  | .version => "Version"

structure Header where
  name : String
  value : Bytes
  deriving DecidableEq, Repr

/-- The fields of a `Request` that a complete parse fills in. -/
structure Request where
  method : Option String
  path : Option String
  version : Option UInt8
  headers : List Header
  deriving DecidableEq, Repr

inductive Status where
  | complete (headerLen : Nat) (request : Request)
  /-- `Status::Partial`. -/
  | incomplete
  deriving DecidableEq, Repr

abbrev Parser := Bytes → Except ParseError Status

/-- What the documentation of `httparse` promises: a head ends within the buffer, and what the bytes so far have
    settled stays settled when more arrive. -/
structure Lawful (parse : Parser) : Prop where
  complete_le {buffer : Bytes} {n : Nat} {request : Request} :
    parse buffer = .ok (.complete n request) → n ≤ buffer.length
  complete_append {buffer : Bytes} {n : Nat} {request : Request} (more : Bytes) :
    parse buffer = .ok (.complete n request) → parse (buffer ++ more) = .ok (.complete n request)
  error_append {buffer : Bytes} {error : ParseError} (more : Bytes) :
    parse buffer = .error error → ∃ error', parse (buffer ++ more) = .error error'

end Fabric.Http.Httparse
