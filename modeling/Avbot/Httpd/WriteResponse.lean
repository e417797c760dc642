import Avbot.Httpd.Options
import Avbot.Lib.EventMachine

/-!
# Writing a response

`avhttpd::async_write_response` writes a head, and two of its overloads also a body. Each overload is a function object that is passed on as the handler of the write before it. The object for a sequence of buffers has two call operators: with an error code alone it starts to write the body, with a number of bytes it calls the handler of the user. The object for a `streambuf` counts its calls.
-/

namespace Avbot.Httpd

open List Option EventMachine

def statusTexts : List (Int × Str) :=
  [(200, "OK".toList),
    (201, "Created".toList),
    (202, "Accepted".toList),
    (203, "Non-authoritative information".toList),
    (204, "No content".toList),
    (205, "Reset content".toList),
    (206, "Partial content".toList),
    (300, "Multiple choices".toList),
    (301, "Moved permanently".toList),
    (302, "Found".toList),
    (303, "See other".toList),
    (304, "Not modified".toList),
    (305, "Use proxy".toList),
    (307, "Temporary redirect".toList),
    (400, "Bad request".toList),
    (401, "Unauthorized".toList),
    (402, "Payment required".toList),
    (403, "Forbidden".toList),
    (404, "Not found".toList),
    (405, "Method not allowed".toList),
    (406, "Not acceptable".toList),
    (407, "Proxy authentication required".toList),
    (408, "Request time-out".toList),
    (409, "Conflict".toList),
    (410, "Gone".toList),
    (411, "Length required".toList),
    (412, "Precondition failed".toList),
    (413, "Request entity too large".toList),
    (414, "Request URI too large".toList),
    (415, "Unsupported media type".toList),
    (416, "Requested range not satisfiable".toList),
    (417, "Expectation failed".toList),
    (500, "Internal server error".toList),
    (501, "Not implemented".toList),
    (502, "Bad gateway".toList),
    (503, "Service unavailable".toList),
    (504, "Gateway time-out".toList),
    (505, "HTTP version not supported".toList)]

def strstatus (status : Int) : Str := (statusTexts.lookup status).getD "bad code".toList

/-- What the constructor of `async_write_response_op` puts into `m_headers`. -/
def responseHead (status : Int) (opts : Options) : Str :=
  let version := if opts.find HttpOptions.httpVersion = "HTTP/1.1".toList then "HTTP/1.1 ".toList else "HTTP ".toList
  let opts := opts.remove HttpOptions.httpVersion
  version ++ Str.decimalInt status ++ " ".toList ++ strstatus status ++ Str.crlf ++
    (if opts.length ≠ 0 then opts.headerString else []) ++ Str.crlf

inductive WriteHandler where
  | user
  | withBody (buffers : List Str)
  | withStreambuf (streambuf : Str) (coro : Bool)
  | head (handler : WriteHandler)

structure UserCall where
  ec : ErrorCode
  bytesTransfered : Nat
  wire : Str

/-- A stream: what has been written to it, the write that is going on, and the calls of the user's handler. -/
structure OutStream where
  wire : Str
  writing : Option (Str × WriteHandler)
  called : List UserCall

namespace OutStream

def asyncWrite (s : OutStream) (bytes : Str) (handler : WriteHandler) : OutStream :=
  { s with writing := some (bytes, handler) }

def call (s : OutStream) (ec : ErrorCode) (n : Nat) : WriteHandler → OutStream
  | .user => { s with called := s.called ++ [⟨ec, n, s.wire⟩] }
  | .withBody _ => { s with called := s.called ++ [⟨ec, n, s.wire⟩] }
  | .withStreambuf streambuf coro =>
    if !coro then s.asyncWrite streambuf (.withStreambuf streambuf true)
    else { s with called := s.called ++ [⟨ec, n, s.wire⟩] }
  | .head handler => s.call ec n handler

def step (s : OutStream) (result : ErrorCode × Nat) : Option OutStream :=
  match s.writing with
  | none => none
  | some (bytes, handler) =>
    let sent := if result.1.failed then bytes.take result.2 else bytes
    some ({ s with wire := s.wire ++ sent, writing := none }.call result.1 sent.length handler)

def asyncWriteResponse (s : OutStream) (status : Int) (opts : Options) (handler : WriteHandler) : OutStream :=
  s.asyncWrite (responseHead status opts) (.head handler)

def asyncWriteResponseBuffers (s : OutStream) (status : Int) (opts : Options) (buffers : List Str) : OutStream :=
  s.asyncWriteResponse status opts (.withBody buffers)

def asyncWriteResponseStreambuf (s : OutStream) (status : Int) (opts : Options) (streambuf : Str) : OutStream :=
  s.asyncWriteResponse status opts (.withStreambuf streambuf false)

/-- When all writes succeed, `started` writes these bytes after what `s` had written, and then the handler is called once. -/
def Writes (s started : OutStream) (bytes : Str) : Prop :=
  ∃ k s', run step started (List.replicate k (.success, 0)) = some s' ∧ s'.writing = none ∧ s'.wire = s.wire ++ bytes ∧
    ∃ n, s'.called = s.called ++ [⟨.success, n, s.wire ++ bytes⟩]

variable (s : OutStream) (status : Int) (opts : Options)

theorem step_of_idle (hidle : s.writing = none) (result : ErrorCode × Nat) : s.step result = none := by
  rw [step, hidle]

theorem step_asyncWrite_success (bytes : Str) (handler : WriteHandler) (n : Nat) :
    (s.asyncWrite bytes handler).step (.success, n) =
      some ({ s with wire := s.wire ++ bytes, writing := none }.call .success bytes.length handler) := by
  simp [step, asyncWrite]

theorem writes_buffers_iff (buffers : List Str) (bytes : Str) :
    Writes s (s.asyncWriteResponseBuffers status opts buffers) bytes ↔ bytes = responseHead status opts := by
  have hstep : (s.asyncWriteResponseBuffers status opts buffers).step (.success, 0) =
      some { s with
        wire := s.wire ++ responseHead status opts
        writing := none
        called := s.called ++ [⟨.success, (responseHead status opts).length, s.wire ++ responseHead status opts⟩] } := by
    rw [asyncWriteResponseBuffers, asyncWriteResponse, step_asyncWrite_success]
    rfl
  constructor
  · rintro ⟨k, s', hrun, hidle, hwire, _⟩
    cases k with
    | zero =>
      obtain rfl := some.inj hrun
      simp [asyncWriteResponseBuffers, asyncWriteResponse, asyncWrite] at hidle
    | succ k =>
      rw [replicate_succ, run_cons, hstep, bind_some] at hrun
      cases k with
      | zero =>
        obtain rfl := some.inj hrun
        exact (append_cancel_left hwire).symm
      | succ k =>
        grind [run_cons, step_of_idle]
  · rintro rfl
    exact ⟨1, _, by rw [replicate_one, run_cons, hstep]; rfl, rfl, rfl, _, rfl⟩

theorem writes_streambuf (streambuf : Str) :
    Writes s (s.asyncWriteResponseStreambuf status opts streambuf) (responseHead status opts ++ streambuf) := by
  have hhead : (s.asyncWriteResponseStreambuf status opts streambuf).step (.success, 0) =
      some ({ s with wire := s.wire ++ responseHead status opts, writing := none }.asyncWrite streambuf
        (.withStreambuf streambuf true)) := by
    rw [asyncWriteResponseStreambuf, asyncWriteResponse, step_asyncWrite_success]
    rfl
  have hrun : run step (s.asyncWriteResponseStreambuf status opts streambuf) (List.replicate 2 (.success, 0)) =
      some ⟨s.wire ++ responseHead status opts ++ streambuf, none,
        s.called ++ [⟨.success, streambuf.length, s.wire ++ responseHead status opts ++ streambuf⟩]⟩ := by
    rw [replicate_succ, replicate_one, run_cons, hhead, bind_some, run_cons, step_asyncWrite_success]
    rfl
  rw [append_assoc] at hrun
  exact ⟨2, _, hrun, rfl, rfl, streambuf.length, rfl⟩

/-- Both overloads write the head and the body exactly if there is no body. -/
theorem writes_head_and_body_iff (buffers : List Str) :
    (Writes s (s.asyncWriteResponseBuffers status opts buffers) (responseHead status opts ++ buffers.flatten) ∧
      Writes s (s.asyncWriteResponseStreambuf status opts buffers.flatten) (responseHead status opts ++ buffers.flatten)) ↔
        buffers.flatten = [] := by
  rw [writes_buffers_iff]
  constructor
  · rintro ⟨hbytes, _⟩
    exact append_right_eq_self.mp hbytes
  · grind [writes_streambuf]

/-- The answer to a `POST`: its body, the literal `"done"` with the zero at its end, is never written. -/
theorem done_not_written :
    let opts := [(HttpOptions.contentLength, "4".toList), (HttpOptions.httpVersion, "HTTP/1.1".toList)]
    let started := (OutStream.mk [] none []).asyncWriteResponseBuffers 200 opts ["done\x00".toList]
    (run step started [(.success, 0)]).map (fun s => (s.wire, s.writing.isNone, s.called.map (·.wire))) =
      some ("HTTP/1.1 200 OK\r\nContent-Length: 4\r\n\r\n".toList, true,
        ["HTTP/1.1 200 OK\r\nContent-Length: 4\r\n\r\n".toList]) ∧
      ¬ Writes ⟨[], none, []⟩ started (responseHead 200 opts ++ "done\x00".toList) := by
  intro opts started
  refine ⟨by decide, ?_⟩
  rw [writes_buffers_iff]
  decide

end OutStream

end Avbot.Httpd
