import O2k.AdminReaders
import O2k.GatedTrace

set_option autoImplicit false

/-!
# CAdmClient: login, then one command

`ExecuteCommand` of `qdcadm` is one session on a connected socket: it logs in,
sends the command and reads the reply. What it prints is left out.
-/
namespace O2k.AdminClient
open ByteOrder ChunkedSource SocketTransfer MsgBuffer WireFormat AdminMessage

def RC_OK : Bytes := ascii "OK"
def CMD_LOGIN : Bytes := ascii "login"
def CMD_GET_METRICS : Bytes := ascii "get_metrics"

def lower (b : UInt8) : UInt8 := if 65 ≤ b ∧ b ≤ 90 then b + 32 else b

def StrCaseEq (str1 str2 : Bytes) : Bool := (cutNul str1).map lower = (cutNul str2).map lower

structure CAdmClient where
  connected : Bool
  m_pwd : Bytes
  m_err : Bytes

/-- What a member function leaves: its return value, unless `new` has thrown. -/
structure Call where
  outcome : Outcome
  client : CAdmClient
  sock : Sock

def CAdmClient.setErr (c : CAdmClient) (text : Bytes) : CAdmClient :=
  { c with m_err := snprintf LEN_ERR_MSG (cutNul text) }

def loginCommand (pwd : Bytes) : MsgCmd where
  msg_header := some { msg_type := .Command }
  cmd := CMD_LOGIN
  params := [{ key := ascii "password", val := pwd }]

def userCommand (cmd : Bytes) (params : StringMap) : MsgCmd where
  msg_header := some { msg_type := .Command }
  cmd := cmd
  params := params.toPairs

def CAdmClient.Login (host : Endian) (rt : Runtime) (amb : Ambient) (c : CAdmClient) (s : Sock) :
    Call :=
  if c.connected then
    let r := CMsgRW.init.ExecCmdResult host rt amb s (loginCommand c.m_pwd) {}
    match r.outcome with
    | .bad_alloc => ⟨.bad_alloc, c, r.sock⟩
    | .ret rc =>
      if rc ≠ 0 then ⟨.ret rc, c.setErr r.rw.m_errbuf, r.sock⟩
      else
        let msgResult := r.out.getD {}
        if StrCaseEq msgResult.rc RC_OK then ⟨.ret 0, c, r.sock⟩
        else ⟨.ret (-1), c.setErr msgResult.msg, r.sock⟩
  else ⟨.ret (-1), c.setErr (ascii "not connected to Admin Server"), s⟩

def CAdmClient.SendCommand (host : Endian) (rt : Runtime) (amb : Ambient) (c : CAdmClient) (s : Sock)
    (cmd : Bytes) (params : StringMap) : Call :=
  let login := c.Login host rt amb s
  if login.outcome ≠ .ret 0 then login
  else
    match SerializeToString (userCommand cmd params).serialize with
    | none => ⟨.ret (-1), login.client.setErr (ascii "serialize protobuf fail"), login.sock⟩
    | some pkg =>
      match CMsgRW.init.SendPacket host login.sock pkg with
      | (rc, _, s') => if rc ≤ 0 then ⟨.ret (-1), login.client, s'⟩ else ⟨.ret 0, login.client, s'⟩

/-- The reply to `get_metrics`: here the array is tried before the C string. -/
def readMetrics (rt : Runtime) (w : CMsgRW) : ℤ :=
  match w.GetPacket with
  | none => -1
  | some (msg, len) =>
    match (msg.read len).bind (MsgMetrics.parse rt) with
    | some _ => 0
    | none =>
      match (msg.cstring (len + 1) 0).bind (MsgMetrics.parse rt) with
      | some _ => 0
      | none => -1

def checkReply (rt : Runtime) (cmd : Bytes) (w : CMsgRW) : ℤ :=
  match w.ParseMsgHeader rt {} with
  | (rc, hdr, w) =>
    if rc ≠ 0 then 1
    else
      let more := if StrCaseEq cmd CMD_GET_METRICS then readMetrics rt w else 0
      if (headerOf (hdr.getD {}).msg_header).msg_type = .Result then
        match w.ParseResult rt {} with
        | (rc, msgResult, _) =>
          if rc ≠ 0 then 1
          else if StrCaseEq (msgResult.getD {}).rc RC_OK then more
          else 1
      else more

/-- The two `Ambient`s are those of the two packets read. `SetTimeout` can only add faults to
    what the socket meets. -/
def ExecuteCommand (host : Endian) (rt : Runtime) (ambLogin ambReply : Ambient) (ses : CAdmClient)
    (s : Sock) (cmd : Bytes) (params : StringMap) : Call :=
  if ses.connected then
    let sent := ses.SendCommand host rt ambLogin s cmd params
    match sent.outcome with
    | .bad_alloc => sent
    | .ret rc =>
      if rc ≠ 0 then { sent with outcome := .ret 1 }
      else
        let r := CMsgRW.init.ReadPacket host ambReply sent.sock
        match r.outcome with
        | .bad_alloc => ⟨.bad_alloc, sent.client, r.sock⟩
        | .ret rc =>
          if rc ≤ 0 then ⟨.ret 1, sent.client, r.sock⟩
          else ⟨.ret (checkReply rt cmd r.rw), sent.client, r.sock⟩
  else ⟨.ret 1, ses, s⟩

def resultOf (rt : Runtime) (p : Bytes) : Option MsgResult :=
  (parsePayload (MsgHeaderWrap.parse rt) p).bind fun hdr =>
    if (headerOf hdr.msg_header).msg_type = .Result then parsePayload (MsgResult.parse rt) p
    else none

end O2k.AdminClient
