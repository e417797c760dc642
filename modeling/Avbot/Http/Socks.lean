import Avbot.Http.Request
import Avbot.Lib.Dialogue

/-!
# Through a SOCKS proxy

`socks_proxy_connect` talks to the proxy while `open` waits; for `async_open` the same talk is a machine whose state is `m_proxy_status`. Both begin when the connection to the proxy is there, and end when the proxy has opened the way to the host.
-/

namespace Avbot.Http

open List Dialogue Nat
open Script (Goes Says)
open Script (goes_of_run run_of_goes)
open Str (sizeLimit)

namespace OpenErrc

def socksUnsupportedVersion : OpenErrc := avhttp 1000
def socksUsernameRequired : OpenErrc := avhttp 1001
def socksUnsupportedAuthenticationVersion : OpenErrc := avhttp 1002
def socksAuthenticationError : OpenErrc := avhttp 1003
def socksGeneralFailure : OpenErrc := avhttp 1004
def socksCommandNotSupported : OpenErrc := avhttp 1005
def socksNoIdentd : OpenErrc := avhttp 1006
def socksIdentdError : OpenErrc := avhttp 1007
def noPermission : OpenErrc := system 1
def networkUnreachable : OpenErrc := system 101
def hostUnreachable : OpenErrc := system 113
def connectionRefused : OpenErrc := system 111
def timedOut : OpenErrc := system 110
def addressFamilyNotSupported : OpenErrc := system 97

end OpenErrc

inductive SocksEnd where
  | connected
  | failed (ec : OpenErrc)
  /-- Nothing is pending any more, and the handler has not been called. -/
  | forgotten
  /-- `to_v4()` of an IPv6 address throws, out of `io_service::run` in the asynchronous talk: the handler is not called either. -/
  | badCast
  /-- The code goes by bytes that it has not received. -/
  | stale
  | lengthError
  deriving DecidableEq

abbrev SocksScript := Script Char SocksEnd

/-- `write_uint8`, `write_uint16` and `write_uint32`. -/
def writeUint : Nat → Nat → Str
  | 0, _ => []
  | size + 1, val => writeUint size (val / 256) ++ [Char.ofNat (val % 256)]

inductive IpAddress where
  | v4 (ip : Nat)
  | v6

structure SocksCall where
  proxy : ProxySettings
  host : Str
  port : Nat
  /-- The first address that the resolver gives for the host. It is asked for SOCKS4 only. -/
  resolved : Except OpenErrc IpAddress

namespace SocksCall

variable (c : SocksCall)

def socks5 : Bool := c.proxy.type = .socks5 ∨ c.proxy.type = .socks5Pw

def versionMessage : Str :=
  if c.proxy.username = [] then ['\x05', '\x01', '\x00'] else ['\x05', '\x02', '\x00', '\x02']

def userinfo : Str :=
  '\x01' :: writeUint 1 c.proxy.username.length ++ c.proxy.username ++
    writeUint 1 c.proxy.password.length ++ c.proxy.password

def connect5 : Str := ['\x05', '\x01', '\x00', '\x03'] ++ writeUint 1 c.host.length ++ c.host ++ writeUint 2 c.port

def connect4 (ip : Nat) : Str :=
  ['\x04', '\x01'] ++ writeUint 2 c.port ++ writeUint 4 ip ++ c.proxy.username ++ ['\x00']

def fail (ec : OpenErrc) : SocksScript := .done (.failed ec)

def socks5Errc (response : Char) : OpenErrc :=
  match response.toNat with
  | 2 => .noPermission
  | 3 => .networkUnreachable
  | 4 => .hostUnreachable
  | 5 => .connectionRefused
  | 6 => .timedOut
  | 7 => .socksCommandNotSupported
  | 8 => .addressFamilyNotSupported
  | _ => .socksGeneralFailure

def socks4Errc (response : Char) : OpenErrc :=
  match response.toNat with
  | 91 => .socksAuthenticationError
  | 92 => .socksNoIdentd
  | 93 => .socksIdentdError
  | _ => .socksGeneralFailure

/-- The answer to a user name. -/
def checkStatus (next : SocksScript) (answer : Str) : SocksScript :=
  match answer with
  | version :: status :: _ =>
    if version ≠ '\x01' then fail .socksUnsupportedAuthenticationVersion
    else if status ≠ '\x00' then fail .socksAuthenticationError
    else next
  | _ => .done .stale

/-- What `socks_proxy_handshake` makes of the answer, after a failed read too. -/
def handshakeAnswer (answer : Str) : SocksScript :=
  match answer with
  | version :: response :: rest =>
    if version = '\x05' then
      if !c.socks5 then fail .socksUnsupportedVersion
      else if response ≠ '\x00' then fail (socks5Errc response)
      else
        match rest with
        | _ :: atyp :: rest =>
          if atyp = '\x01' then .done .connected
          else if atyp = '\x03' then
            match rest with
            | len :: _ =>
              -- a shorter name makes the number of bytes to prepare negative
              if len.toNat < 3 then .done .lengthError else .attempt (len.toNat - 3) fun _ => .done .connected
            | [] => .done .stale
          else fail .addressFamilyNotSupported
        | _ => .done .stale
    else if version = '\x04' then if response = '\x5a' then .done .connected else fail (socks4Errc response)
    else fail .socksGeneralFailure
  | _ => .done .stale

def socksProxyHandshake : SocksScript :=
  if c.socks5 then .send c.connect5 (.attempt 10 c.handshakeAnswer)
  else if c.proxy.type = .socks4 then
    match c.resolved with
    | .error ec => fail ec
    | .ok (.v4 ip) => .send (c.connect4 ip) (.attempt 8 c.handshakeAnswer)
    | .ok .v6 => .done .badCast
  else fail .socksUnsupportedVersion

/-- The answer with the method. The callers differ in what they do with another method than the two. -/
def responseVersion (sendUserinfo connectRequest other : SocksScript) (response : Str) : SocksScript :=
  match response with
  | version :: method :: _ =>
    if version ≠ '\x05' then fail .socksUnsupportedVersion
    else if method = '\x02' then if c.proxy.username = [] then fail .socksUsernameRequired else sendUserinfo
    else if method = '\x00' then connectRequest
    else other
  | _ => .done .stale

def socksProxyConnect : SocksScript :=
  if c.socks5 then
    .send c.versionMessage (.expect 2 fun response =>
      -- for another method the buffer still holds the answer with the method
      c.responseVersion (.send c.userinfo (.expect 2 (checkStatus c.socksProxyHandshake))) c.socksProxyHandshake
        (checkStatus c.socksProxyHandshake response) response)
  else if c.proxy.type = .socks4 then c.socksProxyHandshake
  else .done .connected

end SocksCall

inductive SocksStatus where
  | socks4ResolveHost
  | socksSendVersion
  | socks4Response
  | socks5ResponseVersion
  | socks5SendUserinfo
  | socks5AuthStatus
  | socks5ConnectRequest
  | socks5ConnectResponse
  | socks5Result
  | socks5ReadDomainname

/-- A bound for the number of states that follow. -/
def SocksStatus.rank : SocksStatus → Nat
  | socks4ResolveHost => 8
  | socksSendVersion => 7
  | socks5ResponseVersion => 6
  | socks5SendUserinfo => 5
  | socks5AuthStatus => 4
  | socks5ConnectRequest => 3
  | socks5ConnectResponse => 2
  | socks5Result => 1
  | socks4Response | socks5ReadDomainname => 0

namespace SocksCall

variable (c : SocksCall)

/-- The case `socks5_result`. -/
def socks5Result (readDomainname : Nat → SocksScript) (response : Str) : SocksScript :=
  match response with
  | version :: reply :: rest =>
    if version ≠ '\x05' then fail .socksGeneralFailure
    else if reply ≠ '\x00' then fail (socks5Errc reply)
    else
      match rest with
      | _ :: atyp :: rest =>
        if atyp = '\x01' then .done .connected
        else if atyp = '\x03' then
          match rest with
          | len :: _ => readDomainname ((len.toNat + sizeLimit - 3) % sizeLimit)
          | [] => .done .stale
        else fail .addressFamilyNotSupported
      | _ => .done .stale
  | _ => .done .stale

/-- The case `socks4_response`. -/
def socks4Response (response : Str) : SocksScript :=
  match response with
  | _ :: response :: _ => if response = '\x5a' then .done .connected else fail (socks4Errc response)
  | _ => .done .stale

/-- An error of the call before ends every state, as it ends a script. -/
def handleSocksProcess (remote : IpAddress) : SocksStatus → Str → SocksScript
  | .socksSendVersion, _ =>
    if c.proxy.type = .socks4 then .expect 8 fun response => handleSocksProcess remote .socks4Response response
    else if c.socks5 then .expect 2 fun response => handleSocksProcess remote .socks5ResponseVersion response
    else .done .forgotten
  | .socks4ResolveHost, response =>
    match remote with
    | .v4 ip => .send (c.connect4 ip) (handleSocksProcess remote .socksSendVersion response)
    | .v6 => .done .badCast
  | .socks5SendUserinfo, _ => .expect 2 fun response => handleSocksProcess remote .socks5AuthStatus response
  | .socks5ConnectRequest, response => .send c.connect5 (handleSocksProcess remote .socks5ConnectResponse response)
  | .socks5ConnectResponse, _ => .expect 10 fun response => handleSocksProcess remote .socks5Result response
  | .socks4Response, response => socks4Response response
  | .socks5ResponseVersion, response =>
    c.responseVersion (.send c.userinfo (handleSocksProcess remote .socks5SendUserinfo response))
      (handleSocksProcess remote .socks5ConnectRequest response) (.done .forgotten) response
  | .socks5AuthStatus, response => checkStatus (handleSocksProcess remote .socks5ConnectRequest response) response
  | .socks5Result, response =>
    socks5Result (fun n => .expect n fun response => handleSocksProcess remote .socks5ReadDomainname response) response
  | .socks5ReadDomainname, _ => .done .connected
termination_by status => status.rank
decreasing_by all_goals decide

/-- `handle_connect_socks` after the connection. -/
def asyncSocksProxyConnect : SocksScript :=
  if c.socks5 then .send c.versionMessage (c.handleSocksProcess (.v4 0) .socksSendVersion [])
  else if c.proxy.type = .socks4 then
    match c.resolved with
    | .error ec => fail ec
    | .ok remote => c.handleSocksProcess remote .socks4ResolveHost []
  else .done .forgotten

/-- The answers with which SOCKS5 grants a connection: the bound address, or a name of at least three bytes and a port. -/
inductive Grants5 : Str → Prop where
  | address (reserved : Char) {bound : Str} (hbound : bound.length = 6) :
    Grants5 ('\x05' :: '\x00' :: reserved :: '\x01' :: bound)
  | domainname (reserved : Char) {len : Char} {bound : Str} (hlen : 3 ≤ len.toNat) (hbound : bound.length = len.toNat + 2) :
    Grants5 ('\x05' :: '\x00' :: reserved :: '\x03' :: len :: bound)

/-- The talks that open the way: what is sent, and what comes back. -/
inductive Granted : List Str → Str → Prop where
  | socks4 (htype : c.proxy.type = .socks4) {ip : Nat} (hip : c.resolved = .ok (.v4 ip)) (version : Char) {rest : Str}
    (hrest : rest.length = 6) : Granted [c.connect4 ip] (version :: '\x5a' :: rest)
  | plain (htype : c.socks5 = true) {answer : Str} (hanswer : Grants5 answer) :
    Granted [c.versionMessage, c.connect5] ('\x05' :: '\x00' :: answer)
  | password (htype : c.socks5 = true) (huser : c.proxy.username ≠ []) {answer : Str} (hanswer : Grants5 answer) :
    Granted [c.versionMessage, c.userinfo, c.connect5] ('\x05' :: '\x02' :: '\x01' :: '\x00' :: answer)

/-- What follows the choice of the method. -/
def connectRequest : SocksScript :=
  .send c.connect5 (.expect 10 (socks5Result fun n => .expect n fun _ => .done .connected))

theorem asyncSocksProxyConnect_eq : c.asyncSocksProxyConnect =
    if c.socks5 then
      .send c.versionMessage (.expect 2 (c.responseVersion
        (.send c.userinfo (.expect 2 (checkStatus c.connectRequest))) c.connectRequest (.done .forgotten)))
    else if c.proxy.type = .socks4 then
      match c.resolved with
      | .error ec => fail ec
      | .ok (.v4 ip) => .send (c.connect4 ip) (.expect 8 socks4Response)
      | .ok .v6 => .done .badCast
    else .done .forgotten := by
  rw [asyncSocksProxyConnect]
  split_ifs with htype htype4
  · have hother : c.proxy.type ≠ .socks4 := by
      intro heq
      simp [socks5, heq] at htype
    simp only [handleSocksProcess, if_neg hother, if_pos htype, connectRequest]
  · cases c.resolved with
    | error ec => rfl
    | ok remote => cases remote <;> simp only [handleSocksProcess, htype4, if_true]
  · rfl

variable {c} {sent : List Str} {heard answer : Str} {result : SocksEnd}

/-- The two parts in which a granting answer is read. -/
theorem grants5_iff : Grants5 answer ↔ ∃ head tail : Str, answer = head ++ tail ∧ head.length = 10 ∧
    ((∃ x bound, head = '\x05' :: '\x00' :: x :: '\x01' :: bound ∧ tail = []) ∨
      ∃ x len bound, head = '\x05' :: '\x00' :: x :: '\x03' :: len :: bound ∧ 3 ≤ len.toNat ∧
        tail.length = len.toNat - 3) := by
  refine Iff.intro ?_ ?_
  · intro h
    cases h with
    | address reserved hbound =>
      exact ⟨_, [], (append_nil _).symm, by simp [hbound], .inl ⟨reserved, _, rfl, rfl⟩⟩
    | @domainname reserved len bound hlen hbound =>
      refine ⟨'\x05' :: '\x00' :: reserved :: '\x03' :: len :: bound.take 5, bound.drop 5, ?_, ?_,
        .inr ⟨reserved, len, _, rfl, hlen, ?_⟩⟩
      · simp only [cons_append, take_append_drop]
      · simp only [length_cons, length_take]
        omega
      · rw [length_drop]
        omega
  · intro h
    obtain ⟨head, tail, rfl, hhead, ⟨x, bound, rfl, rfl⟩ | ⟨x, len, bound, rfl, hlen, htail⟩⟩ := h
    · rw [append_nil]
      exact .address x (by simpa using hhead)
    · simp only [length_cons] at hhead
      exact .domainname x hlen (by show (bound ++ tail).length = _; rw [length_append]; omega)

theorem domainname_rest {len : Char} (hlen : 3 ≤ len.toNat) :
    (len.toNat + sizeLimit - 3) % sizeLimit = len.toNat - 3 := by
  have hlt : len.toNat < sizeLimit := len.val.toNat_lt_size.trans (by decide)
  rw [show len.toNat + sizeLimit - 3 = len.toNat - 3 + sizeLimit by omega, add_mod_right, mod_eq_of_lt (by omega)]

/-- What is left when the calls succeed and no answer is refused. -/
def Decided (result : SocksEnd) : Prop := result = .connected ∨ result = .forgotten ∨ result = .badCast

theorem Decided.elim_fail {p : Prop} (h : Decided result) {ec : OpenErrc} (hgoes : (fail ec).Goes result sent heard) : p := by
  obtain rfl | rfl | rfl := h <;> cases hgoes.1

theorem Decided.elim_stale {p : Prop} (h : Decided result) (hgoes : Goes (.done .stale) result sent heard) : p := by
  obtain rfl | rfl | rfl := h <;> cases hgoes.1

theorem goes_connectRequest (hresult : Decided result) (hsize : heard.length + 3 < sizeLimit)
    (hgoes : c.connectRequest.Goes result sent heard) : result = .connected ∧ sent = [c.connect5] ∧ Grants5 heard := by
  obtain ⟨sent', rfl, head, tail, hhead, rfl, hgoes⟩ := hgoes
  unfold socks5Result at hgoes
  split at hgoes
  · split_ifs at hgoes with hversion hreply
    · exact hresult.elim_fail hgoes
    · exact hresult.elim_fail hgoes
    · rw [not_not] at hversion hreply
      subst hversion hreply
      split at hgoes
      · split_ifs at hgoes with haddress hname
        · obtain ⟨rfl, rfl, rfl⟩ := hgoes
          subst haddress
          exact ⟨rfl, rfl, grants5_iff.mpr ⟨_, [], rfl, hhead, .inl ⟨_, _, rfl, rfl⟩⟩⟩
        · subst hname
          split at hgoes
          · rename_i len bound
            obtain ⟨tail', rest, htail, rfl, rfl, rfl, rfl⟩ := hgoes
            rw [append_nil] at hsize ⊢
            rw [length_append] at hsize
            -- the number of bytes wraps around for a shorter name, and so many do not come
            have hlen : 3 ≤ len.toNat := by
              by_contra hshort
              rw [mod_eq_of_lt (by omega)] at htail
              omega
            rw [domainname_rest hlen] at htail
            exact ⟨rfl, rfl, grants5_iff.mpr ⟨_, tail', rfl, hhead, .inr ⟨_, len, _, rfl, hlen, htail⟩⟩⟩
          · exact hresult.elim_stale hgoes
        · exact hresult.elim_fail hgoes
      · exact hresult.elim_stale hgoes
  · exact hresult.elim_stale hgoes

theorem connectRequest_goes (hanswer : Grants5 answer) : c.connectRequest.Goes .connected [c.connect5] answer := by
  obtain ⟨head, tail, rfl, hhead, hparts⟩ := grants5_iff.mp hanswer
  refine ⟨[], rfl, head, tail, hhead, rfl, ?_⟩
  obtain ⟨x, bound, rfl, rfl⟩ | ⟨x, len, bound, rfl, hlen, htail⟩ := hparts
  · exact ⟨rfl, rfl, rfl⟩
  · exact ⟨tail, [], by rw [domainname_rest hlen, htail], (append_nil tail).symm, rfl, rfl, rfl⟩

/-- The talks after which nobody calls the handler: the proxy has chosen a method that was not offered. -/
def Unanswered (c : SocksCall) (sent : List Str) (heard : Str) : Prop :=
  sent = [c.versionMessage] ∧ ∃ method, method ≠ '\x02' ∧ method ≠ '\x00' ∧ heard = ['\x05', method]

/-- A SOCKS4 proxy and a host whose first address is an IPv6 one. -/
def BadCast (c : SocksCall) : Prop := c.proxy.type = .socks4 ∧ c.resolved = .ok .v6

theorem goes_asyncSocksProxyConnect (htype : c.socks5 = true ∨ c.proxy.type = .socks4) (hresult : Decided result)
    (hsize : heard.length + 3 < sizeLimit) (hgoes : c.asyncSocksProxyConnect.Goes result sent heard) :
    result = .connected ∧ c.Granted sent heard ∨ result = .forgotten ∧ c.socks5 = true ∧ c.Unanswered sent heard ∨
      result = .badCast ∧ c.BadCast ∧ sent = [] ∧ heard = [] := by
  rw [asyncSocksProxyConnect_eq] at hgoes
  split_ifs at hgoes with htype5 htype4
  · obtain ⟨sent', rfl, head, tail, hhead, rfl, hgoes⟩ := hgoes
    rw [length_append, hhead] at hsize
    unfold responseVersion at hgoes
    split at hgoes
    · rename_i version method more
      obtain rfl : more = [] := length_eq_zero_iff.mp (by simpa using hhead)
      split_ifs at hgoes with hversion hmethod huser hplain
      · exact hresult.elim_fail hgoes
      · exact hresult.elim_fail hgoes
      · rw [not_not] at hversion
        subst hversion hmethod
        obtain ⟨sent'', rfl, status, tail', hstatus, rfl, hgoes⟩ := hgoes
        rw [length_append, hstatus] at hsize
        unfold checkStatus at hgoes
        split at hgoes
        · rename_i version status more
          obtain rfl : more = [] := length_eq_zero_iff.mp (by simpa using hstatus)
          split_ifs at hgoes with hversion hok
          · exact hresult.elim_fail hgoes
          · exact hresult.elim_fail hgoes
          · rw [not_not] at hversion hok
            subst hversion hok
            obtain ⟨rfl, rfl, hanswer⟩ := goes_connectRequest hresult (by omega) hgoes
            exact .inl ⟨rfl, .password htype5 huser hanswer⟩
        · exact hresult.elim_stale hgoes
      · rw [not_not] at hversion
        subst hversion hplain
        obtain ⟨rfl, rfl, hanswer⟩ := goes_connectRequest hresult (by omega) hgoes
        exact .inl ⟨rfl, .plain htype5 hanswer⟩
      · rw [not_not] at hversion
        obtain ⟨rfl, rfl, rfl⟩ := hgoes
        subst hversion
        exact .inr (.inl ⟨rfl, htype5, rfl, method, hmethod, hplain, rfl⟩)
    · exact hresult.elim_stale hgoes
  · cases hip : c.resolved with
    | error ec =>
      rw [hip] at hgoes
      exact hresult.elim_fail hgoes
    | ok remote =>
      rw [hip] at hgoes
      cases remote with
      | v6 => exact .inr (.inr ⟨hgoes.1.symm, ⟨htype4, hip⟩, hgoes.2⟩)
      | v4 ip =>
      obtain ⟨sent', rfl, answer, rest, hanswer, rfl, hgoes⟩ := hgoes
      unfold socks4Response at hgoes
      split at hgoes
      · split_ifs at hgoes with hresponse
        · obtain ⟨rfl, rfl, rfl⟩ := hgoes
          subst hresponse
          rw [append_nil]
          exact .inl ⟨rfl, .socks4 htype4 hip _ (by simpa using hanswer)⟩
        · exact hresult.elim_fail hgoes
      · exact hresult.elim_stale hgoes
  · exact absurd htype (by simp [htype5, htype4])

theorem Granted.goes (htalk : c.Granted sent heard) : c.asyncSocksProxyConnect.Goes .connected sent heard := by
  rw [asyncSocksProxyConnect_eq]
  cases htalk with
  | socks4 htype hip version hrest =>
    have hother : c.socks5 = false := by simp [socks5, htype]
    rw [hother, if_neg Bool.false_ne_true, if_pos htype, hip]
    exact ⟨[], rfl, _, [], by simp [hrest], (append_nil _).symm, rfl, rfl, rfl⟩
  | plain htype hanswer =>
    rw [if_pos htype]
    exact ⟨_, rfl, ['\x05', '\x00'], _, rfl, rfl, connectRequest_goes hanswer⟩
  | password htype huser hanswer =>
    rw [if_pos htype]
    refine ⟨_, rfl, ['\x05', '\x02'], _, rfl, rfl, ?_⟩
    rw [responseVersion, if_neg (not_not.mpr rfl), if_pos rfl, if_neg huser]
    exact ⟨_, rfl, ['\x01', '\x00'], _, rfl, rfl, connectRequest_goes hanswer⟩

theorem strict_asyncSocksProxyConnect (c : SocksCall) : c.asyncSocksProxyConnect.Strict := by
  have hrequest : c.connectRequest.Strict := by
    intro answer
    unfold socks5Result
    repeat' split
    all_goals first | exact trivial | exact fun _ => trivial
  have hstatus : ∀ answer, (checkStatus c.connectRequest answer).Strict := by
    intro answer
    unfold checkStatus
    repeat' split
    all_goals first | exact trivial | exact hrequest
  rw [asyncSocksProxyConnect_eq]
  repeat' split
  · intro answer
    unfold responseVersion
    repeat' split
    all_goals first | exact trivial | exact hrequest | exact hstatus
  · trivial
  · intro answer
    unfold socks4Response
    repeat' split
    all_goals trivial
  · trivial
  · trivial

/-- The asynchronous talk opens the way after the granted talks only, and takes no byte that follows them. -/
theorem asyncSocksProxyConnect_connected_iff (c : SocksCall) (l l' : Link Char OpenErrc)
    (htype : c.socks5 = true ∨ c.proxy.type = .socks4) (hsize : l.unread.length + 3 < sizeLimit) :
    c.asyncSocksProxyConnect.run .failed l = (some .connected, l') ↔
      ∃ sent heard rest, c.Granted sent heard ∧ l.unread = heard ++ rest ∧
        (∀ i < sent.length, l.writes (l.sent.length + i) = none) ∧
        l' = { l with sent := l.sent ++ sent, unread := rest } := by
  refine Iff.intro ?_ ?_
  · intro hrun
    obtain ⟨sent, heard, rest, hgoes, hunread, hlink⟩ :=
      goes_of_run c.strict_asyncSocksProxyConnect (fun _ => SocksEnd.noConfusion) hrun
    rw [hunread, length_append] at hsize
    obtain ⟨-, htalk⟩ | ⟨hend, -⟩ | ⟨hend, -⟩ := goes_asyncSocksProxyConnect htype (.inl rfl) (by omega) hgoes
    · exact ⟨sent, heard, rest, htalk, hunread, hlink⟩
    · cases hend
    · cases hend
  · intro h
    obtain ⟨sent, heard, rest, htalk, hunread, hwrites, rfl⟩ := h
    exact run_of_goes htalk.goes hunread hwrites

theorem asyncSocksProxyConnect_connected_plain :
    (SocksCall.mk ⟨.socks5, [], []⟩ "av".toList 80 (.error .eof)).asyncSocksProxyConnect.run .failed
        ⟨[], "\x05\x00\x05\x00\x00\x01abcdefHTTP".toList, none, fun _ => none⟩ =
      (some .connected, ⟨["\x05\x01\x00".toList, "\x05\x01\x00\x03\x02av\x00P".toList], "HTTP".toList, none, fun _ => none⟩) :=
  (asyncSocksProxyConnect_connected_iff _ _ _ (.inl rfl) (by decide)).mpr
    ⟨_, _, _, .plain rfl (.address '\x00' (show "abcdef".toList.length = 6 from rfl)), rfl, fun _ _ => rfl, rfl⟩

/-- The asynchronous talk ends without a call of the handler in two ways: a SOCKS5 proxy has chosen a method that was not offered, or the address for a SOCKS4 proxy is an IPv6 one. -/
theorem asyncSocksProxyConnect_forgotten_iff (c : SocksCall) (l l' : Link Char OpenErrc)
    (htype : c.socks5 = true ∨ c.proxy.type = .socks4) (hsize : l.unread.length + 3 < sizeLimit) :
    (c.asyncSocksProxyConnect.run .failed l = (some .forgotten, l') ↔
      c.socks5 = true ∧ l.writes l.sent.length = none ∧ ∃ method rest, method ≠ '\x02' ∧ method ≠ '\x00' ∧
        l.unread = '\x05' :: method :: rest ∧ l' = { l with sent := l.sent ++ [c.versionMessage], unread := rest }) ∧
    (c.asyncSocksProxyConnect.run .failed l = (some .badCast, l') ↔ c.BadCast ∧ l' = l) := by
  refine ⟨Iff.intro ?_ ?_, Iff.intro ?_ ?_⟩
  · intro hrun
    obtain ⟨sent, heard, rest, hgoes, hunread, hwrites, rfl⟩ :=
      goes_of_run c.strict_asyncSocksProxyConnect (fun _ => SocksEnd.noConfusion) hrun
    rw [hunread, length_append] at hsize
    obtain ⟨hend, -⟩ | ⟨-, htype5, rfl, method, hmethod, hplain, rfl⟩ | ⟨hend, -⟩ :=
      goes_asyncSocksProxyConnect htype (.inr (.inl rfl)) (by omega) hgoes
    · cases hend
    · exact ⟨htype5, hwrites 0 zero_lt_one, method, rest, hmethod, hplain, hunread, rfl⟩
    · cases hend
  · intro h
    obtain ⟨htype5, hwrite, method, rest, hmethod, hplain, hunread, rfl⟩ := h
    have hgoes : c.asyncSocksProxyConnect.Goes .forgotten [c.versionMessage] ['\x05', method] := by
      rw [asyncSocksProxyConnect_eq, if_pos htype5]
      refine ⟨[], rfl, ['\x05', method], [], rfl, rfl, ?_⟩
      rw [responseVersion, if_neg (not_not.mpr rfl), if_neg hmethod, if_neg hplain]
      exact ⟨rfl, rfl, rfl⟩
    apply run_of_goes hgoes hunread
    intro i hi
    obtain rfl : i = 0 := lt_one_iff.mp hi
    exact hwrite
  · intro hrun
    obtain ⟨sent, heard, rest, hgoes, hunread, -, rfl⟩ :=
      goes_of_run c.strict_asyncSocksProxyConnect (fun _ => SocksEnd.noConfusion) hrun
    have hread : heard.length + 3 < sizeLimit := by
      rw [hunread, length_append] at hsize
      omega
    obtain ⟨hend, -⟩ | ⟨hend, -⟩ | ⟨-, hcast, rfl, rfl⟩ := goes_asyncSocksProxyConnect htype (.inr (.inr rfl)) hread hgoes
    · cases hend
    · cases hend
    · rw [append_nil, show rest = l.unread from hunread.symm]
      exact ⟨hcast, rfl⟩
  · intro h
    obtain ⟨⟨htype4, hip⟩, rfl⟩ := h
    have hother : c.socks5 = false := by simp [socks5, htype4]
    rw [asyncSocksProxyConnect_eq, hother, if_neg Bool.false_ne_true, if_pos htype4, hip]
    rfl

theorem asyncSocksProxyConnect_forgotten_refused :
    (SocksCall.mk ⟨.socks5, [], []⟩ "av".toList 80 (.error .eof)).asyncSocksProxyConnect.run .failed
        ⟨[], "\x05\xff".toList, some .eof, fun _ => none⟩ =
      (some .forgotten, ⟨["\x05\x01\x00".toList], [], some .eof, fun _ => none⟩) :=
  (asyncSocksProxyConnect_forgotten_iff _ _ _ (.inl rfl) (by decide)).1.mpr
    ⟨rfl, rfl, '\xff', [], by decide, by decide, rfl, rfl⟩

theorem handshakeAnswer_goes (htype : c.socks5 = true) (hanswer : Grants5 answer) :
    c.socksProxyHandshake.Goes .connected [c.connect5] answer := by
  obtain ⟨head, tail, rfl, hhead, hparts⟩ := grants5_iff.mp hanswer
  rw [socksProxyHandshake, if_pos htype]
  refine ⟨[], rfl, head, tail, hhead, rfl, ?_⟩
  obtain ⟨x, bound, rfl, rfl⟩ | ⟨x, len, bound, rfl, hlen, htail⟩ := hparts
  · simp [handshakeAnswer, htype, Goes]
  · simp [handshakeAnswer, htype, not_lt.mpr hlen, Goes, htail]

/-- How `open` ends where `async_open` goes on or does not call its handler. A SOCKS4 proxy has to answer with its version. -/
def blockingEnd (c : SocksCall) (result : SocksEnd) (unread : Str) : SocksEnd :=
  if result = .badCast then .badCast
  else if result = .forgotten then .failed .socksUnsupportedAuthenticationVersion
  else if c.socks5 ∨ unread.head? = some '\x04' then .connected
  else .failed (if unread.head? = some '\x05' then .socksUnsupportedVersion else .socksGeneralFailure)

/-- Where the asynchronous talk goes on or does not call its handler, the blocking one sends and reads the same. -/
theorem socksProxyConnect_of_async (c : SocksCall) (l l' : Link Char OpenErrc)
    (htype : c.socks5 = true ∨ c.proxy.type = .socks4) (hsize : l.unread.length + 3 < sizeLimit)
    (hresult : Decided result) (hrun : c.asyncSocksProxyConnect.run .failed l = (some result, l')) :
    c.socksProxyConnect.run .failed l = (some (c.blockingEnd result l.unread), l') := by
  obtain ⟨sent, heard, rest, hgoes, hunread, hwrites, rfl⟩ :=
    goes_of_run c.strict_asyncSocksProxyConnect (fun e heq => by obtain rfl | rfl | rfl := hresult <;> cases heq) hrun
  have hshort : heard.length + 3 < sizeLimit := by
    rw [hunread, length_append] at hsize
    omega
  refine run_of_goes ?_ hunread hwrites
  rw [hunread, socksProxyConnect]
  obtain ⟨rfl, htalk⟩ | ⟨rfl, htype5, rfl, method, hmethod, hplain, rfl⟩ | ⟨rfl, ⟨htype4, hip⟩, rfl, rfl⟩ :=
    goes_asyncSocksProxyConnect htype hresult hshort hgoes
  · cases htalk with
    | socks4 htype4 hip version hrest =>
      have hother : c.socks5 = false := by simp [socks5, htype4]
      rw [hother, if_neg Bool.false_ne_true, if_pos htype4, socksProxyHandshake, hother, if_neg Bool.false_ne_true,
        if_pos htype4, hip]
      refine ⟨[], rfl, _, [], by simp [hrest], (append_nil _).symm, ?_⟩
      by_cases h5 : version = '\x05'
      · simp [handshakeAnswer, blockingEnd, hother, h5, fail, Goes]
      · by_cases h4 : version = '\x04'
        · simp [handshakeAnswer, blockingEnd, hother, h4, Goes]
        · simp [handshakeAnswer, blockingEnd, hother, h4, h5, fail, Goes]
    | plain htype5 hanswer =>
      rw [if_pos htype5, blockingEnd, if_neg (by decide), if_neg (by decide), if_pos (.inl htype5)]
      exact ⟨_, rfl, ['\x05', '\x00'], _, rfl, rfl, handshakeAnswer_goes htype5 hanswer⟩
    | password htype5 huser hanswer =>
      rw [if_pos htype5, blockingEnd, if_neg (by decide), if_neg (by decide), if_pos (.inl htype5)]
      refine ⟨_, rfl, ['\x05', '\x02'], _, rfl, rfl, ?_⟩
      beta_reduce
      rw [responseVersion, if_neg (not_not.mpr rfl), if_pos rfl, if_neg huser]
      exact ⟨_, rfl, ['\x01', '\x00'], _, rfl, rfl, handshakeAnswer_goes htype5 hanswer⟩
  · rw [if_pos htype5]
    refine ⟨[], rfl, ['\x05', method], [], rfl, rfl, ?_⟩
    beta_reduce
    rw [responseVersion, if_neg (not_not.mpr rfl), if_neg hmethod, if_neg hplain]
    exact ⟨rfl, rfl, rfl⟩
  · have hother : c.socks5 = false := by simp [socks5, htype4]
    rw [hother, if_neg Bool.false_ne_true, if_pos htype4, socksProxyHandshake, hother, if_neg Bool.false_ne_true,
      if_pos htype4, hip]
    exact ⟨rfl, rfl, rfl⟩

theorem socksProxyConnect_of_granted :
    (SocksCall.mk ⟨.socks4, [], []⟩ "av".toList 80 (.ok (.v4 1))).socksProxyConnect.run .failed
        ⟨[], "\x00Zabcdef".toList, none, fun _ => none⟩ =
      (some (.failed .socksGeneralFailure), ⟨["\x04\x01\x00P\x00\x00\x00\x01\x00".toList], [], none, fun _ => none⟩) := by
  have htalk : Granted ⟨⟨.socks4, [], []⟩, "av".toList, 80, .ok (.v4 1)⟩ _ _ :=
    .socks4 rfl rfl '\x00' (show "abcdef".toList.length = 6 from rfl)
  exact socksProxyConnect_of_async _ _ _ (.inr rfl) (by decide) (.inl rfl)
    (run_of_goes htalk.goes (append_nil _).symm fun _ _ => rfl)

theorem userinfo_ne_connect5 : c.userinfo ≠ c.connect5 := by simp [userinfo, connect5]

theorem userinfo_ne_connect4 (ip : Nat) : c.userinfo ≠ c.connect4 ip := by simp [userinfo, connect4]

theorem not_says_socksProxyHandshake : ¬ c.socksProxyHandshake.Says c.userinfo heard := by
  have hanswer (answer heard : Str) : ¬ (c.handshakeAnswer answer).Says c.userinfo heard := by
    unfold handshakeAnswer
    repeat' split
    all_goals exact id
  rw [socksProxyHandshake]
  repeat' split
  all_goals simp [Says, hanswer, fail, userinfo_ne_connect5, userinfo_ne_connect4]

theorem not_says_connectRequest : ¬ c.connectRequest.Says c.userinfo heard := by
  have hresult (answer heard : Str) :
      ¬ (socks5Result (fun n => .expect n fun _ => .done .connected) answer).Says c.userinfo heard := by
    unfold socks5Result
    repeat' split
    all_goals simp [Says, fail]
  simp [connectRequest, Says, hresult, userinfo_ne_connect5]

theorem says_responseVersion {sendUserinfo connectRequest other : SocksScript} {unread : Str}
    (hconnect : ¬ connectRequest.Says c.userinfo heard) (hother : ¬ other.Says c.userinfo heard)
    (hsaid : (c.responseVersion sendUserinfo connectRequest other (unread.take 2)).Says c.userinfo heard) :
    c.proxy.username ≠ [] ∧ ['\x05', '\x02'] <+: unread := by
  unfold responseVersion at hsaid
  split at hsaid
  · rename_i more heq
    split_ifs at hsaid with hversion hmethod huser
    · exact hsaid.elim
    · exact hsaid.elim
    · have hfront := take_prefix 2 unread
      rw [heq, not_not.mp hversion, hmethod] at hfront
      exact ⟨huser, (prefix_append ['\x05', '\x02'] more).trans hfront⟩
    · exact absurd hsaid hconnect
    · exact absurd hsaid hother
  · exact hsaid.elim

/-- In both ways to talk the password leaves only to a proxy that has asked for it. -/
theorem password_sent (c : SocksCall) (l : Link Char OpenErrc) (script : SocksScript)
    (hscript : script = c.asyncSocksProxyConnect ∨ script = c.socksProxyConnect) (hfirst : l.sent = [])
    (hsent : c.userinfo ∈ (script.run .failed l).2.sent) :
    c.socks5 = true ∧ c.proxy.username ≠ [] ∧ ['\x05', '\x02'] <+: l.unread := by
  have hversion : c.userinfo ≠ c.versionMessage := by
    rw [userinfo, versionMessage]
    split <;> simp
  have hsaid := (Script.says_of_mem_sent hsent).resolve_left (by simp [hfirst])
  obtain rfl | rfl := hscript
  · rw [asyncSocksProxyConnect_eq] at hsaid
    split_ifs at hsaid with htype
    · exact ⟨htype, says_responseVersion not_says_connectRequest id (hsaid.resolve_left hversion).2⟩
    · have hanswer (answer heard : Str) : ¬ (socks4Response answer).Says c.userinfo heard := by
        unfold socks4Response
        repeat' split
        all_goals exact id
      split at hsaid
      · exact hsaid.elim
      · simp [Says, hanswer, userinfo_ne_connect4] at hsaid
      · exact hsaid.elim
    · exact hsaid.elim
  · rw [socksProxyConnect] at hsaid
    split_ifs at hsaid with htype
    · refine ⟨htype, says_responseVersion not_says_socksProxyHandshake ?_ (hsaid.resolve_left hversion).2⟩
      unfold checkStatus
      repeat' split
      all_goals first | exact not_says_socksProxyHandshake | exact id
    · exact absurd hsaid not_says_socksProxyHandshake
    · exact hsaid.elim

theorem password_sent_once_asked :
    let c : SocksCall := ⟨⟨.socks5Pw, ['u'], ['p']⟩, ['h'], 80, .error .eof⟩
    let l : Link Char OpenErrc := ⟨[], "\x05\x02".toList, none, fun _ => none⟩
    c.userinfo ∈ (c.socksProxyConnect.run .failed l).2.sent ∧ ['\x05', '\x02'] <+: l.unread := by
  intro c l
  have hsent : c.userinfo ∈ (c.socksProxyConnect.run .failed l).2.sent := by decide
  exact ⟨hsent, (password_sent c l _ (.inr rfl) rfl hsent).2.2⟩

end SocksCall

end Avbot.Http
