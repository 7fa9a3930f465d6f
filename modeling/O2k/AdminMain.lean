import O2k.AdminParams
import O2k.AdminSessions

set_option autoImplicit false

/-!
# qdcadm

`main`, from its command line to the sessions it makes. Only `get_perf` is sent
more than once, each time in a session of its own; what a session returns is
not looked at. A `send` on a connection that the peer has broken raises SIGPIPE,
which ends the process. `SetTimeout` and what is printed are left out.
-/
namespace O2k.AdminClient
open ByteOrder ChunkedSource SocketTransfer MsgBuffer WireFormat AdminMessage GatedTrace

def CMD_GET_PERF : Bytes := ascii "get_perf"

def strLower (str : Bytes) : Bytes := str.map lower

def isspace (b : UInt8) : Bool := b = 32 ∨ (9 ≤ b ∧ b ≤ 13)

def isdigit (b : UInt8) : Bool := 48 ≤ b ∧ b ≤ 57

def digitsValue (bs : Bytes) : ℕ :=
  (bs.takeWhile isdigit).foldl (fun n b => 10 * n + (b.toNat - 48)) 0

def strtol (nptr : Bytes) : ℤ :=
  match nptr.dropWhile isspace with
  | 45 :: bs => max (-2 ^ 63) (-(digitsValue bs : ℤ))
  | 43 :: bs => min (2 ^ 63 - 1) (digitsValue bs)
  | bs => min (2 ^ 63 - 1) (digitsValue bs)

/-- The `long` of `strtol`, cut to an `int`. -/
def atoi (nptr : Bytes) : ℤ := (strtol nptr).bmod (2 ^ 32)

def valueAt (params : StringMap) (key : Bytes) : Bytes :=
  ((params.pairs.find? fun kv => kv.1 = key).map (·.2)).getD []

inductive Connecting where
  | badAddress
  | noSocket (strerror : Bytes)
  | refused (strerror : Bytes)
  | accepted

def portText (port : ℤ) : Bytes :=
  if port < 0 then ascii "-" ++ decimal port.natAbs else decimal port.natAbs

def CAdmClient.new (host : Bytes) (port : ℤ) (pwd : Bytes) : Connecting → CAdmClient
  | .badAddress => ⟨false, pwd,
      snprintf LEN_ERR_MSG (ascii "Bad format ip address:" ++ host ++ [10])⟩
  | .noSocket strerror => ⟨false, pwd,
      snprintf LEN_ERR_MSG (ascii "can't create socket:" ++ strerror ++ [10])⟩
  | .refused strerror => ⟨false, pwd,
      snprintf LEN_ERR_MSG (ascii "Can not connect to " ++ host ++ ascii ":" ++ portText port ++
        ascii ",error:" ++ strerror ++ [10])⟩
  | .accepted => ⟨true, pwd, []⟩

structure Peer where
  connect : Connecting
  incoming : Source SysError UInt8
  outgoing : List SendSlot
  ambLogin : Ambient
  ambReply : Ambient

structure Request where
  szIpAddr : Bytes
  iPort : ℤ
  pwd : Bytes
  cmd : Bytes
  params : StringMap
  nLoop : ℕ

inductive Exit where
  | exited (status : ℤ)
  | ret (n : ℤ)
  /-- an exception left `main` -/
  | terminated
  /-- by SIGPIPE -/
  | killed
  deriving DecidableEq

/-- How often `get_perf` is run; `none` without an interval from 1 to 300. -/
def perfLoop (params : StringMap) : Option ℕ :=
  if params.pairs.length < 1 then none
  else
    let itv := atoi (valueAt params (decimal 1))
    if itv < 1 ∨ itv > 300 then none
    else if params.pairs.length > 1 then
      let loop := atoi (valueAt params (decimal 2))
      if loop > 0 then some loop.toNat else some 1
    else some 1

def readArgs (argv : List Bytes) : Except Exit Request :=
  match argv with
  | _ :: server :: pwd :: cmd :: args =>
    if 58 ∈ server then
      let szIpAddr := server.takeWhile (· ≠ 58)
      let iPort := atoi (server.drop (szIpAddr.length + 1))
      let params := argParams args
      if strLower cmd = CMD_GET_PERF then
        match perfLoop params with
        | none => .error (.ret 1)
        | some nLoop => .ok ⟨szIpAddr, iPort, pwd, cmd, params, nLoop⟩
      else .ok ⟨szIpAddr, iPort, pwd, cmd, params, 1⟩
    else .error (.ret 1)
  | _ => .error (.exited 0)

section main

variable (host : Endian) (rt : Runtime) (net : ℕ → Bytes → ℤ → Peer)

def EPIPE : ℕ := 32

inductive SessionEnd where
  | returned (rc : ℤ)
  | threw
  | killed
  deriving DecidableEq

structure Session where
  ended : SessionEnd
  sock : Sock

/-- SIGPIPE is raised before a `send` returns EPIPE, and the process does not come back from it. -/
def session (req : Request) (peer : Peer) : Session :=
  let call := ExecuteCommand host rt peer.ambLogin peer.ambReply
    (CAdmClient.new req.szIpAddr req.iPort req.pwd peer.connect)
    ⟨peer.incoming, peer.outgoing, []⟩ req.cmd req.params
  if .sendError EPIPE ∈ call.sock.log then
    ⟨.killed, { call.sock with log := call.sock.log.takeWhile (· ≠ .sendError EPIPE) }⟩
  else
    match call.outcome with
    | .ret rc => ⟨.returned rc, call.sock⟩
    | .bad_alloc => ⟨.threw, call.sock⟩

structure Ran where
  exit : Exit
  sessions : List Session

def sessionsFrom (req : Request) : ℕ → ℕ → Ran
  | _, 0 => ⟨.ret 0, []⟩
  | i, n + 1 =>
    let s := session host rt req (net i req.szIpAddr req.iPort)
    match s.ended with
    | .threw => ⟨.terminated, [s]⟩
    | .killed => ⟨.killed, [s]⟩
    | .returned _ =>
      let rest := sessionsFrom req (i + 1) n
      ⟨rest.exit, s :: rest.sessions⟩

/-- `net` is what the session of each number meets at an address. -/
def main (argv : List Bytes) : Ran :=
  match readArgs argv with
  | .error exit => ⟨exit, []⟩
  | .ok req => sessionsFrom host rt net req 0 req.nLoop

end main

theorem StringMap.valueAt_of_mem (kvs : StringMap) {key value : Bytes}
    (h : (key, value) ∈ kvs.pairs) : valueAt kvs key = value := by
  obtain ⟨pairs, sorted⟩ := kvs
  unfold valueAt
  induction pairs with
  | nil => cases h
  | cons kv pairs ih =>
    obtain ⟨hfirst, hrest⟩ := List.pairwise_cons.mp sorted
    rcases List.mem_cons.mp h with rfl | h
    · simp
    · have hne : kv.1 ≠ key := by
        intro heq
        have hlt := hfirst _ h
        rw [heq] at hlt
        exact List.lt_irrefl _ hlt
      simpa [hne] using ih hrest h

theorem argParams_length (args : List Bytes) : (argParams args).pairs.length = args.length := by
  rw [(argParams_perm args).length_eq, numbered, List.length_map, List.length_zipIdx]

theorem argParams_valueAt (args : List Bytes) {i : ℕ} (h : i < args.length) :
    valueAt (argParams args) (decimal (i + 1)) = args[i] := by
  apply StringMap.valueAt_of_mem
  rw [(argParams_perm args).mem_iff]
  refine List.mem_map.mpr ⟨(args[i], i + 1), ?_, rfl⟩
  rw [List.mk_mem_zipIdx_iff_le_and_getElem?_sub, Nat.add_sub_cancel, List.getElem?_eq_getElem h]
  exact ⟨Nat.le_add_left 1 i, rfl⟩

def timesAsked (server cmd : Bytes) (args : List Bytes) : ℕ :=
  if 58 ∈ server then
    if strLower cmd = CMD_GET_PERF then
      match args with
      | [] => 0
      | itv :: more =>
        if 1 ≤ atoi itv ∧ atoi itv ≤ 300 then max 1 (atoi (more.headD [])).toNat else 0
    else 1
  else 0

theorem atoi_nil : atoi [] = 0 := by decide

theorem perfLoop_argParams (args : List Bytes) :
    perfLoop (argParams args) =
      match args with
      | [] => none
      | itv :: more =>
        if 1 ≤ atoi itv ∧ atoi itv ≤ 300 then some (max 1 (atoi (more.headD [])).toNat)
        else none := by
  unfold perfLoop
  rw [argParams_length]
  cases args with
  | nil => rfl
  | cons itv more =>
    have hitv : valueAt (argParams (itv :: more)) (decimal 1) = itv :=
      argParams_valueAt (itv :: more) (i := 0) (by simp)
    have hlen : ¬ (itv :: more).length < 1 := by simp
    simp only [hlen, ↓reduceIte, hitv]
    by_cases hin : 1 ≤ atoi itv ∧ atoi itv ≤ 300
    · have hno : ¬ (atoi itv < 1 ∨ atoi itv > 300) := by omega
      rw [if_neg hno, if_pos hin]
      cases more with
      | nil => simp [atoi_nil]
      | cons loop more =>
        have hloop : valueAt (argParams (itv :: loop :: more)) (decimal 2) = loop :=
          argParams_valueAt (itv :: loop :: more) (i := 1) (by simp)
        have hmore : (itv :: loop :: more).length > 1 := by simp
        rw [if_pos hmore, hloop, List.headD_cons]
        split <;> congr 1 <;> omega
    · have hout : atoi itv < 1 ∨ atoi itv > 300 := by omega
      rw [if_pos hout, if_neg hin]

def hostOf (server : Bytes) : Bytes := server.takeWhile (· ≠ 58)

def portOf (server : Bytes) : ℤ := atoi (server.drop ((hostOf server).length + 1))

theorem readArgs_eq (name server pwd cmd : Bytes) (args : List Bytes) :
    (timesAsked server cmd args = 0 ∧
      readArgs (name :: server :: pwd :: cmd :: args) = .error (.ret 1)) ∨
    (0 < timesAsked server cmd args ∧
      readArgs (name :: server :: pwd :: cmd :: args) =
        .ok ⟨hostOf server, portOf server, pwd, cmd, argParams args,
          timesAsked server cmd args⟩) := by
  unfold readArgs timesAsked
  by_cases hserver : 58 ∈ server
  · by_cases hperf : strLower cmd = CMD_GET_PERF
    · simp only [hserver, hperf, ↓reduceIte, perfLoop_argParams]
      cases args with
      | nil => exact .inl ⟨rfl, rfl⟩
      | cons itv more =>
        by_cases hin : 1 ≤ atoi itv ∧ atoi itv ≤ 300
        · simp only [hin, and_self, ↓reduceIte]
          exact .inr ⟨by omega, rfl⟩
        · simp only [hin, ↓reduceIte]
          exact .inl ⟨trivial, trivial⟩
    · simp only [hserver, hperf, ↓reduceIte]
      exact .inr ⟨Nat.one_pos, rfl⟩
  · simp only [hserver, ↓reduceIte]
    exact .inl ⟨trivial, trivial⟩

section Sessions

variable (host : Endian) (rt : Runtime) (net : ℕ → Bytes → ℤ → Peer) (req : Request)

/-- How some sessions end, of which `n` were to be made: all of them are made, or one of them ends
    the process and is the last. -/
inductive Ends (n : ℕ) : Ran → Prop where
  | all {sessions : List Session} (hreturned : ∀ s ∈ sessions, ∃ rc, s.ended = .returned rc)
      (hlength : sessions.length = n) : Ends n ⟨.ret 0, sessions⟩
  | threw (before : List Session) (last : Session)
      (hreturned : ∀ s ∈ before, ∃ rc, s.ended = .returned rc) (hlast : last.ended = .threw)
      (hlength : before.length < n) : Ends n ⟨.terminated, before ++ [last]⟩
  | killed (before : List Session) (last : Session)
      (hreturned : ∀ s ∈ before, ∃ rc, s.ended = .returned rc) (hlast : last.ended = .killed)
      (hlength : before.length < n) : Ends n ⟨.killed, before ++ [last]⟩

theorem Ends.cons {n : ℕ} {ran : Ran} {s : Session} {rc : ℤ} (h : Ends n ran)
    (hs : s.ended = .returned rc) : Ends (n + 1) ⟨ran.exit, s :: ran.sessions⟩ := by
  have hreturned {sessions : List Session}
      (hall : ∀ s ∈ sessions, ∃ rc, s.ended = .returned rc) :
      ∀ s' ∈ s :: sessions, ∃ rc, s'.ended = .returned rc :=
    List.forall_mem_cons.mpr ⟨⟨rc, hs⟩, hall⟩
  cases h with
  | all hall hlength => exact .all (hreturned hall) (congrArg (· + 1) hlength)
  | threw before last hall hlast hlength =>
    exact .threw (s :: _) _ (hreturned hall) hlast (Nat.succ_lt_succ hlength)
  | killed before last hall hlast hlength =>
    exact .killed (s :: _) _ (hreturned hall) hlast (Nat.succ_lt_succ hlength)

end Sessions

/-- The peer can be reached, accepts the login and answers with results, over a connection that
    meets interruptions only. -/
structure Accepting (peer : Peer) (welcome reply : Bytes × Bytes × StringMap) (more : Bytes) :
    Prop where
  connects : peer.connect = .accepted
  memory : peer.ambLogin.newOk = true ∧ peer.ambReply.newOk = true
  welcome_sendable : Sendable welcome
  reply_sendable : Sendable reply
  stream : Reliable ⟨peer.incoming, peer.outgoing, []⟩
    (frame (replyPayloadOf welcome) ++ (frame (replyPayloadOf reply) ++ more))
  accepts : StrCaseEq welcome.1 RC_OK = true

section Repeats

variable {host : Endian} {rt : Runtime} {net : ℕ → Bytes → ℤ → Peer} {req : Request}

theorem session_accepted {peer : Peer} {welcome reply : Bytes × Bytes × StringMap} {more : Bytes}
    (h : Accepting peer welcome reply more)
    (hlogin : (loginCommand req.pwd).serialize.length < 2 ^ 31)
    (huser : (userCommand req.cmd req.params).serialize.length < 2 ^ 31) :
    (∃ rc, (session host rt req peer).ended = .returned rc ∧
      (rc = 0 ↔ StrCaseEq reply.1 RC_OK = true ∧
        (IsGetMetrics req.cmd → (PairIntDbl.parse rt reply.2.1).isSome = true))) ∧
      bytesOut (session host rt req peer).sock.log =
        frame (loginCommand req.pwd).serialize ++ frame (userCommand req.cmd req.params).serialize ∧
      items (session host rt req peer).sock.incoming = more := by
  obtain ⟨⟨rc, hret, hrc⟩, hend⟩ := ExecuteCommand_replies host rt ⟨true, req.pwd, []⟩
    req.cmd req.params h.memory rfl hlogin huser h.welcome_sendable h.reply_sendable h.stream
  obtain ⟨evs, hlog, hout, hclean⟩ := hend.events
  rw [List.nil_append] at hlog
  have hunbroken : .sendError EPIPE ∉ evs := fun hmem => absurd (hclean _ hmem) (by decide)
  rw [h.accepts, and_iff_right rfl] at hrc
  simp only [exchanged, h.accepts, ↓reduceIte] at hout
  have hstream := hend.reliable.stream
  rw [if_pos h.accepts] at hstream
  unfold session
  rw [h.connects]
  simp only [CAdmClient.new, hlog, hunbroken, ↓reduceIte, hret]
  refine ⟨⟨rc, rfl, hrc⟩, ?_, hstream⟩
  simpa [frames] using hout

theorem sessionsFrom_eq (i n : ℕ)
    (h : ∀ k < n, ∃ rc, (session host rt req (net (i + k) req.szIpAddr req.iPort)).ended =
      .returned rc) :
    sessionsFrom host rt net req i n = ⟨.ret 0,
      (List.range n).map fun k => session host rt req (net (i + k) req.szIpAddr req.iPort)⟩ := by
  induction n generalizing i with
  | zero => rfl
  | succ n ih =>
    obtain ⟨rc, hfirst⟩ := h 0 (Nat.succ_pos n)
    have hrest : ∀ k < n, ∃ rc,
        (session host rt req (net (i + 1 + k) req.szIpAddr req.iPort)).ended = .returned rc := by
      intro k hk
      have hnext := h (k + 1) (Nat.succ_lt_succ hk)
      rwa [Nat.add_comm k 1, ← Nat.add_assoc] at hnext
    rw [Nat.add_zero] at hfirst
    rw [sessionsFrom, List.range_succ_eq_map, List.map_cons, List.map_map, Nat.add_zero]
    simp only [hfirst]
    rw [ih (i + 1) hrest]
    congr 2
    apply List.map_congr_left
    intro k _
    rw [Function.comp_apply, Nat.succ_eq_add_one, Nat.add_comm k 1, ← Nat.add_assoc]

end Repeats

/-- Against peers that accept the login, over connections that meet interruptions only: each of the
    sessions asked for is made, writes the login and the command, is answered by the two replies of
    its own peer, and returns 0 just when the second one says OK, and its text reads as metrics if
    the command asks for them. -/
theorem main_repeats (host : Endian) (rt : Runtime) {net : ℕ → Bytes → ℤ → Peer}
    (name : Bytes) {server pwd cmd : Bytes} {args : List Bytes}
    {welcome reply : ℕ → Bytes × Bytes × StringMap} {more : ℕ → Bytes}
    (hasked : 0 < timesAsked server cmd args)
    (hserved : ∀ i < timesAsked server cmd args,
      Accepting (net i (hostOf server) (portOf server)) (welcome i) (reply i) (more i))
    (hlogin : (loginCommand pwd).serialize.length < 2 ^ 31)
    (huser : (userCommand cmd (argParams args)).serialize.length < 2 ^ 31) :
    (main host rt net (name :: server :: pwd :: cmd :: args)).exit = .ret 0 ∧
    (main host rt net (name :: server :: pwd :: cmd :: args)).sessions.length =
      timesAsked server cmd args ∧
    ∀ i < timesAsked server cmd args, ∃ s,
      (main host rt net (name :: server :: pwd :: cmd :: args)).sessions[i]? = some s ∧
      bytesOut s.sock.log =
        frame (loginCommand pwd).serialize ++ frame (userCommand cmd (argParams args)).serialize ∧
      items s.sock.incoming = more i ∧
      ∃ rc, s.ended = .returned rc ∧ (rc = 0 ↔ StrCaseEq (reply i).1 RC_OK = true ∧
        (IsGetMetrics cmd → (PairIntDbl.parse rt (reply i).2.1).isSome = true)) := by
  rcases readArgs_eq name server pwd cmd args with ⟨hzero, _⟩ | ⟨_, heq⟩
  · omega
  · generalize hreq : (⟨hostOf server, portOf server, pwd, cmd, argParams args,
      timesAsked server cmd args⟩ : Request) = req at heq
    have hserves : ∀ i < timesAsked server cmd args,
        (∃ rc, (session host rt req (net i req.szIpAddr req.iPort)).ended = .returned rc ∧
          (rc = 0 ↔ StrCaseEq (reply i).1 RC_OK = true ∧
            (IsGetMetrics cmd → (PairIntDbl.parse rt (reply i).2.1).isSome = true))) ∧
        bytesOut (session host rt req (net i req.szIpAddr req.iPort)).sock.log =
          frame (loginCommand pwd).serialize ++
            frame (userCommand cmd (argParams args)).serialize ∧
        items (session host rt req (net i req.szIpAddr req.iPort)).sock.incoming = more i := by
      intro i hi
      subst hreq
      exact session_accepted (hserved i hi) hlogin huser
    have hran : sessionsFrom host rt net req 0 req.nLoop = ⟨.ret 0,
        (List.range (timesAsked server cmd args)).map fun k =>
          session host rt req (net k req.szIpAddr req.iPort)⟩ := by
      have hloop : req.nLoop = timesAsked server cmd args := by rw [← hreq]
      rw [hloop, sessionsFrom_eq]
      · simp only [Nat.zero_add]
      · intro k hk
        obtain ⟨⟨rc, hret, _⟩, _⟩ := hserves k hk
        rw [Nat.zero_add]
        exact ⟨rc, hret⟩
    unfold main
    rw [heq]
    dsimp only
    rw [hran]
    refine ⟨rfl, by rw [List.length_map, List.length_range], ?_⟩
    intro i hi
    obtain ⟨⟨rc, hret, hrc⟩, hwrote, hrest⟩ := hserves i hi
    refine ⟨_, ?_, hwrote, hrest, rc, hret, hrc⟩
    rw [List.getElem?_map, List.getElem?_range hi, Option.map_some]

def rowsPeer : Peer := ⟨.accepted, rowsServer.incoming, rowsServer.outgoing, ⟨0, true⟩, ⟨0, true⟩⟩

theorem rowsPeer_accepting : Accepting rowsPeer okReply rowsReply [] where
  connects := rfl
  memory := ⟨rfl, rfl⟩
  welcome_sendable := ⟨by decide, by decide, by decide, by decide⟩
  reply_sendable := ⟨by decide, by decide, by decide, by decide⟩
  stream := ⟨⟨rowsServer_calm.steady, rowsServer_calm.slots⟩, by decide +kernel⟩
  accepts := by decide

def perfServer : Bytes := ascii "127.0.0.1:9876"

def perfCmd : Bytes := ascii "GET_PERF"

def perfArgs : List Bytes := [ascii " 5s", ascii "+2"]

theorem perf_asked : timesAsked perfServer perfCmd perfArgs = 2 := by decide +kernel

theorem main_repeats_perf :
    (main .little ⟨true⟩ (fun _ _ _ => rowsPeer)
      (ascii "qdcadm" :: perfServer :: ascii "pwd" :: perfCmd :: perfArgs)).exit = .ret 0 ∧
    (main .little ⟨true⟩ (fun _ _ _ => rowsPeer)
      (ascii "qdcadm" :: perfServer :: ascii "pwd" :: perfCmd :: perfArgs)).sessions.length =
        timesAsked perfServer perfCmd perfArgs ∧
    ∀ i < timesAsked perfServer perfCmd perfArgs, ∃ s,
      (main .little ⟨true⟩ (fun _ _ _ => rowsPeer)
        (ascii "qdcadm" :: perfServer :: ascii "pwd" :: perfCmd :: perfArgs)).sessions[i]? =
          some s ∧
      bytesOut s.sock.log = frame (loginCommand (ascii "pwd")).serialize ++
        frame (userCommand perfCmd (argParams perfArgs)).serialize ∧
      items s.sock.incoming = [] ∧
      ∃ rc, s.ended = .returned rc ∧ (rc = 0 ↔ StrCaseEq rowsReply.1 RC_OK = true ∧
        (IsGetMetrics perfCmd → (PairIntDbl.parse ⟨true⟩ rowsReply.2.1).isSome = true)) :=
  main_repeats .little ⟨true⟩ (ascii "qdcadm") (by rw [perf_asked]; decide)
    (fun _ _ => rowsPeer_accepting) (by decide +kernel) (by decide +kernel)

end O2k.AdminClient
