import Fabric.Http.Codec
import Fabric.Library.Interaction

/-! `read_http_request` as the calls of `read_some` that it makes, with the arithmetic that it does between them. -/

namespace Fabric.Http
open Rust Tcp

abbrev ReadAnswer := Except TcpTransportError Bytes

/-- A reader asks for at most a number of bytes and goes on with the answer. -/
abbrev Reading := Interaction Nat ReadAnswer

variable (parse : Httparse.Parser)

/-- The first loop of `read_http_request`. -/
def readHeadCalls (maxHeadBytes : Nat) (buffer : Bytes) : Reading (Except Fault (Nat × Bytes)) :=
  match parse buffer with
  | .ok (.complete headerLen _) => .done (.ok (headerLen, buffer))
  | .ok .incomplete =>
    if maxHeadBytes ≤ buffer.length then
      .done (.error (.error ⟨.requestTooLarge, "HTTP request head exceeded " ++ toString maxHeadBytes ++ " bytes"⟩))
    else
      match checkedSub maxHeadBytes buffer.length with
      | none => .done (.error .panic)
      | some remaining => .call (min remaining 1024) fun
        | .error error => .done (.error (.error (.transport error)))
        | .ok [] =>
          .done (.error (.error ⟨.incompleteRequest, "connection closed before complete HTTP request head"⟩))
        | .ok (b :: bytes) => readHeadCalls maxHeadBytes (buffer ++ b :: bytes)
  | .error error => .done (.error (.error (malformed error)))
termination_by maxHeadBytes - buffer.length
decreasing_by
  simp only [List.length_append, List.length_cons]
  omega

/-- The second loop of `read_http_request`. -/
def readBodyCalls (needed : Nat) (buffer : Bytes) : Reading (Except Fault Bytes) :=
  if buffer.length < needed then
    match checkedSub needed buffer.length with
    | none => .done (.error .panic)
    | some remaining => .call (min remaining 8192) fun
      | .error error => .done (.error (.error (.transport error)))
      | .ok [] =>
        .done (.error (.error ⟨.incompleteRequest, "connection closed before complete HTTP request body"⟩))
      | .ok (b :: bytes) => readBodyCalls needed (buffer ++ b :: bytes)
  else .done (.ok buffer)
termination_by needed - buffer.length
decreasing_by
  simp only [List.length_append, List.length_cons]
  omega

/-- What `read_http_request` does once the head is in the buffer. -/
def readRequestCalls (maxBodyBytes headerLen : Nat) (buffer : Bytes) : Reading (Except Fault HttpRequest) :=
  match parse buffer with
  | .error error => .done (.error (.error (malformed error)))
  | .ok .incomplete => .done (.error .panic)
  | .ok (.complete _ request) =>
    match checkHead request with
    | .error error => .done (.error (.error error))
    | .ok head =>
      if maxBodyBytes < head.contentLength then
        .done (.error (.error
          ⟨.requestTooLarge, "HTTP request body exceeded " ++ toString maxBodyBytes ++ " bytes"⟩))
      else
        match checkedAdd headerLen head.contentLength with
        | none => .done (.error .panic)
        | some needed => (readBodyCalls needed buffer).bind fun
          | .error fault => .done (.error fault)
          | .ok buffer => .done (requestOf head buffer headerLen needed)

def readHttpRequestCalls (maxHeadBytes maxBodyBytes : Nat) : Reading (Except Fault HttpRequest) :=
  (readHeadCalls parse maxHeadBytes []).bind fun
    | .error fault => .done (.error fault)
    | .ok (headerLen, buffer) => readRequestCalls parse maxBodyBytes headerLen buffer

end Fabric.Http
