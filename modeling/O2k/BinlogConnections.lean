import O2k.BinlogOutcome
import O2k.MealyRun

set_option autoImplicit false

namespace O2k.BinlogConnections
open ByteOrder BinlogPacket BinlogClient BinlogOutcome GatedTrace MealyRun
open JavaValues (JavaString)

inductive Event where
  | opened (s : ℕ)
  | used (s : ℕ)
  | closed (s : ℕ)
  | closeThrew (s : ℕ)
  deriving DecidableEq

structure JBinlogClient where
  startScn : ℤ
  remoteAddr : Option JavaString
  socket : Option ℕ := none
  /-- The socket that `dos` and `dis` belong to. -/
  streams : Option ℕ := none
  bConnected : Bool := false
  /-- The number of sockets there have been; it names the next one. -/
  made : ℕ := 0

def JBinlogClient.new (binlogServer : Option JavaString) (startScn : ℤ) : JBinlogClient where
  remoteAddr := binlogServer
  startScn := startScn

/-- What a call meets: the machine, whether the streams of a new socket can be had, what is on the
    connection, and whether `socket.close()` returns or throws an `IOException`. -/
structure Call where
  machine : Machine
  hasStreams : Bool
  conn : Conn
  binlogHandler : Handling
  closes : Bool

variable (client : JBinlogClient) (call : Call)

def JBinlogClient.connect : Except Thrown Bool × JBinlogClient × List Event :=
  let client' := { client with socket := some client.made, made := client.made + 1 }
  if call.hasStreams then
    (.ok true, { client' with streams := some client.made, bConnected := true },
      [.opened client.made])
  else (.ok false, client', [.opened client.made])

def JBinlogClient.Open : Except Thrown Bool × JBinlogClient × List Event :=
  if client.bConnected then (.ok true, client, [])
  else
    match client.remoteAddr with
    | none => (.error .exception, client, [])
    | some remoteAddr =>
      match splitColon remoteAddr with
      | host :: port :: _ =>
        match parseInt port with
        | none => (.ok false, client, [])
        | some port =>
          if 0 ≤ port ∧ port ≤ 65535 then
            if call.machine.connects host port.toNat then client.connect call
            else (.ok false, client, [])
          else (.error .exception, client, [])
      | _ => (.ok false, client, [])

def JBinlogClient.Close : JBinlogClient × List Event :=
  match client.socket with
  | none => (client, [])
  | some s =>
    if call.closes then ({ client with socket := none, bConnected := false }, [.closed s])
    else (client, [.closeThrew s])

def JBinlogClient.work (opened : Except Thrown Bool) : List Event :=
  match opened with
  | .ok true => client.streams.toList.map .used
  | _ => []

/-- The machine as `Open` sees it: without streams, it does not connect. -/
def Call.reached : Machine :=
  { call.machine with connects := fun host port => call.machine.connects host port && call.hasStreams }

def JBinlogClient.DumpBinlog : JBinlogClient × List Event :=
  let r := client.Open call
  let last := r.2.1.Close call
  (last.1, r.2.2 ++ r.2.1.work r.1 ++ last.2)

def JBinlogClient.returned : Ended :=
  BinlogOutcome.JBinlogClient.DumpBinlog call.reached
    ⟨client.remoteAddr, client.startScn, client.bConnected⟩ call.binlogHandler call.conn

theorem Open_returned : (client.Open call).1 =
    BinlogOutcome.JBinlogClient.Open call.reached
      ⟨client.remoteAddr, client.startScn, client.bConnected⟩ := by
  obtain ⟨startScn, remoteAddr, socket, streams, bConnected, made⟩ := client
  obtain ⟨machine, hasStreams, conn, binlogHandler, closes⟩ := call
  unfold JBinlogClient.Open BinlogOutcome.JBinlogClient.Open JBinlogClient.connect Call.reached
  cases bConnected with
  | true => rfl
  | false =>
    cases remoteAddr with
    | none => rfl
    | some remoteAddr =>
      dsimp only
      rcases splitColon remoteAddr with _ | ⟨host, _ | ⟨port, pieces⟩⟩
      · rfl
      · rfl
      · dsimp only
        rcases parseInt port with _ | port
        · rfl
        · dsimp only
          by_cases hport : 0 ≤ port ∧ port ≤ 65535
          · simp only [hport]
            cases machine.connects host port.toNat <;> cases hasStreams <;> rfl
          · simp only [hport]
            rfl

theorem returned_unopened (h : (client.Open call).1 ≠ .ok true) :
    (client.returned call).2 = call.conn := by
  rw [Open_returned] at h
  unfold JBinlogClient.returned BinlogOutcome.JBinlogClient.DumpBinlog
  generalize BinlogOutcome.JBinlogClient.Open _ _ = opened at h
  rcases opened with (_ | _) | (_ | _)
  · rfl
  · rfl
  · rfl
  · exact absurd rfl h

def Ended (us : List Event) (s : ℕ) : Prop := .closed s ∈ us ∨ .closeThrew s ∈ us

def Lawful (us : List Event) : Event → Prop
  | .opened s => .opened s ∉ us ∧ ∀ s', .opened s' ∈ us → Ended us s'
  | .used s => .opened s ∈ us ∧ .closed s ∉ us
  | .closed s => .opened s ∈ us ∧ .closed s ∉ us
  | .closeThrew s => .opened s ∈ us ∧ .closed s ∉ us

structure Held (us : List Event) (client : JBinlogClient) : Prop where
  named : ∀ s, .opened s ∈ us → s < client.made
  opens : ∀ s, Ended us s → .opened s ∈ us
  held : ∀ s ∈ client.socket, .opened s ∈ us ∧ .closed s ∉ us
  connected : client.bConnected = true → client.streams = client.socket ∧ client.socket.isSome
  ended : ∀ s, .opened s ∈ us → Ended us s ∨ client.socket = some s

/-- Between the calls, every socket has ended. -/
structure Rested (us : List Event) (client : JBinlogClient) : Prop extends Held us client where
  rested : ∀ s, .opened s ∈ us → Ended us s

variable {client call} {us : List Event}

variable (client call) in
theorem Open_cases :
    (client.Open call).2 = (client, []) ∧ ((client.Open call).1 = .ok true → client.bConnected = true) ∨
      client.Open call = client.connect call ∧ client.bConnected = false := by
  unfold JBinlogClient.Open
  cases hconnected : client.bConnected with
  | true => exact .inl ⟨rfl, fun _ => rfl⟩
  | false =>
    -- Of the ways through `Open` only a connection that the machine takes ends in `connect`.
    simp only [Bool.false_eq_true, if_false]
    cases client.remoteAddr with
    | none => exact .inl ⟨rfl, by simp⟩
    | some remoteAddr =>
      dsimp only
      rcases splitColon remoteAddr with _ | ⟨host, _ | ⟨port, pieces⟩⟩
      · exact .inl ⟨rfl, by simp⟩
      · exact .inl ⟨rfl, by simp⟩
      · dsimp only
        rcases parseInt port with _ | port
        · exact .inl ⟨rfl, by simp⟩
        · dsimp only
          split
          · split
            · exact .inr ⟨rfl, trivial⟩
            · exact .inl ⟨rfl, by simp⟩
          · exact .inl ⟨rfl, by simp⟩

theorem Ended.append {s : ℕ} (h : Ended us s) (evs : List Event) : Ended (us ++ evs) s :=
  h.imp (List.mem_append_left evs) (List.mem_append_left evs)

theorem Rested.not_made (h : Rested us client) : .opened client.made ∉ us :=
  fun hin => lt_irrefl _ (h.named _ hin)

theorem Rested.connect (h : Rested us client) (hnot : client.bConnected = false) (call : Call) :
    Held (us ++ [.opened client.made]) (client.connect call).2.1 := by
  have hfields : (client.connect call).2.1.made = client.made + 1 ∧
      (client.connect call).2.1.socket = some client.made := by
    unfold JBinlogClient.connect
    split <;> exact ⟨rfl, rfl⟩
  constructor
  · intro s hs
    rw [hfields.1]
    rcases List.mem_append.mp hs with hs | hs
    · exact Nat.lt_succ_of_lt (h.named s hs)
    · cases List.mem_singleton.mp hs
      exact Nat.lt_succ_self _
  · intro s hs
    exact List.mem_append_left _ (h.opens s (by simpa [Ended] using hs))
  · intro s hs
    cases hfields.2.symm.trans hs
    refine ⟨by simp, ?_⟩
    have hfresh : .closed client.made ∉ us := fun hin => h.not_made (h.opens _ (.inl hin))
    simpa using hfresh
  · unfold JBinlogClient.connect
    split
    · exact fun _ => ⟨rfl, rfl⟩
    · intro hconnected
      cases hnot.symm.trans hconnected
  · intro s hs
    rcases List.mem_append.mp hs with hs | hs
    · exact .inl ((h.rested s hs).append _)
    · cases List.mem_singleton.mp hs
      exact .inr hfields.2

theorem Held.used (h : Held us client) (hconnected : client.bConnected = true) :
    ∃ s, client.work (.ok true) = [.used s] ∧ Lawful us (.used s) := by
  obtain ⟨hstreams, hsocket⟩ := h.connected hconnected
  obtain ⟨s, hs⟩ := Option.isSome_iff_exists.mp hsocket
  refine ⟨s, ?_, h.held s hs⟩
  rw [JBinlogClient.work, hstreams, hs]
  rfl

theorem Held.used_append (h : Held us client) (s : ℕ) : Held (us ++ [.used s]) client where
  named s' hs := h.named s' (by simpa using hs)
  opens s' hs := List.mem_append_left _ (h.opens s' (by simpa [Ended] using hs))
  held s' hs := by simpa using h.held s' hs
  connected := h.connected
  ended s' hs := (h.ended s' (by simpa using hs)).imp_left fun hended => hended.append _

theorem Held.close_returns (h : Held us client) {s : ℕ} (hsocket : client.socket = some s) :
    Rested (us ++ [.closed s]) { client with socket := none, bConnected := false } where
  named s' hs := h.named s' (by simpa using hs)
  opens s' hs := by
    apply List.mem_append_left
    by_cases hsame : s' = s
    · exact hsame ▸ (h.held s hsocket).1
    · exact h.opens s' (by simpa [Ended, hsame] using hs)
  held s' hs := by cases hs
  connected hconnected := by cases hconnected
  ended s' hs := by
    rcases h.ended s' (by simpa using hs) with hended | hheld
    · exact .inl (hended.append _)
    · cases hsocket.symm.trans hheld
      exact .inl (.inl (by simp))
  rested s' hs := by
    rcases h.ended s' (by simpa using hs) with hended | hheld
    · exact hended.append _
    · cases hsocket.symm.trans hheld
      exact .inl (by simp)

theorem Held.close_throws (h : Held us client) {s : ℕ} (hsocket : client.socket = some s) :
    Rested (us ++ [.closeThrew s]) client where
  named s' hs := h.named s' (by simpa using hs)
  opens s' hs := by
    apply List.mem_append_left
    by_cases hsame : s' = s
    · exact hsame ▸ (h.held s hsocket).1
    · exact h.opens s' (by simpa [Ended, hsame] using hs)
  held s' hs := by simpa using h.held s' hs
  connected := h.connected
  ended s' hs := (h.ended s' (by simpa using hs)).imp_left fun hended => hended.append _
  rested s' hs := by
    rcases h.ended s' (by simpa using hs) with hended | hheld
    · exact hended.append _
    · cases hsocket.symm.trans hheld
      exact .inr (by simp)

theorem Held.close (h : Held us client) (call : Call) :
    Rested (us ++ (client.Close call).2) (client.Close call).1 ∧
      AtEach (fun vs ev _ => Lawful (us ++ vs) ev) (client.Close call).2 := by
  unfold JBinlogClient.Close
  cases hsocket : client.socket with
  | none =>
    refine ⟨⟨by simpa using h, fun s hs => ?_⟩, atEach_nil⟩
    have hopened : .opened s ∈ us := by simpa using hs
    rcases h.ended s hopened with hended | hheld
    · exact hended.append _
    · cases hsocket.symm.trans hheld
  | some s =>
    have hlawful := h.held s hsocket
    cases call.closes with
    | true => exact ⟨h.close_returns hsocket, atEach_singleton.mpr (by simpa [Lawful] using hlawful)⟩
    | false => exact ⟨h.close_throws hsocket, atEach_singleton.mpr (by simpa [Lawful] using hlawful)⟩

theorem Held.finish (h : Held us client) {opened : Except Thrown Bool}
    (hopened : opened = .ok true → client.bConnected = true) (call : Call) :
    let evs := client.work opened ++ (client.Close call).2
    Rested (us ++ evs) (client.Close call).1 ∧
      AtEach (fun vs ev _ => Lawful (us ++ vs) ev) evs := by
  by_cases hok : opened = .ok true
  · obtain ⟨s, hwork, hlawful⟩ := h.used (hopened hok)
    obtain ⟨hrested, hclosing⟩ := (h.used_append s).close call
    rw [hok, hwork]
    refine ⟨by simpa using hrested, atEach_cons.mpr ⟨by simpa using hlawful, ?_⟩⟩
    simpa using hclosing
  · have hwork : client.work opened = [] := by
      unfold JBinlogClient.work
      split
      · exact absurd rfl hok
      · rfl
    rw [hwork]
    exact h.close call

variable (client call) in
theorem DumpBinlog_cases :
    ((client.Open call).1 = .ok true → client.bConnected = true) ∧
        client.DumpBinlog call =
          ((client.Close call).1, client.work (client.Open call).1 ++ (client.Close call).2) ∨
      client.bConnected = false ∧ client.Open call = client.connect call ∧
        client.DumpBinlog call =
          (((client.connect call).2.1.Close call).1,
            .opened client.made :: ((client.connect call).2.1.work (client.connect call).1 ++
              ((client.connect call).2.1.Close call).2)) := by
  rcases Open_cases client call with ⟨hopen, hopened⟩ | ⟨hopen, hnot⟩
  · refine .inl ⟨hopened, ?_⟩
    simp only [JBinlogClient.DumpBinlog, hopen, List.nil_append]
  · have hevs : (client.connect call).2.2 = [.opened client.made] := by
      unfold JBinlogClient.connect
      split <;> rfl
    refine .inr ⟨hnot, hopen, ?_⟩
    simp only [JBinlogClient.DumpBinlog, hopen, hevs, List.cons_append, List.nil_append]

theorem connect_connected (h : (client.connect call).1 = .ok true) :
    (client.connect call).2.1.bConnected = true := by
  revert h
  unfold JBinlogClient.connect
  split <;> simp

theorem connect_streams (h : (client.connect call).1 = .ok true) :
    (client.connect call).2.1.streams = some client.made := by
  revert h
  unfold JBinlogClient.connect
  split <;> simp

theorem DumpBinlog_keeps : KeepsHistory JBinlogClient.DumpBinlog (fun _ _ => True) Rested Lawful := by
  intro us client call h _
  rcases DumpBinlog_cases client call with ⟨hopened, heq⟩ | ⟨hnot, _, heq⟩
  · rw [heq]
    exact h.toHeld.finish hopened call
  · obtain ⟨hrested, hlater⟩ :=
      (h.connect hnot call).finish connect_connected call
    have hfirst : Lawful us (.opened client.made) := ⟨h.not_made, h.rested⟩
    rw [heq]
    refine ⟨by simpa using hrested, atEach_cons.mpr ⟨by simpa using hfirst, ?_⟩⟩
    simpa using hlater

theorem rested_new (binlogServer : Option JavaString) (startScn : ℤ) :
    Rested [] (JBinlogClient.new binlogServer startScn) where
  named s hs := by cases hs
  opens s hs := by rcases hs with hs | hs <;> cases hs
  held s hs := by cases hs
  connected hconnected := by cases hconnected
  ended s hs := by cases hs
  rested s hs := by cases hs

/-- However often the client dumps and however its calls end: it opens a socket only when all others
    have ended, uses and closes only sockets that were opened and not yet closed, and at the end no
    socket is left that it has not at least tried to close. -/
theorem sockets_lawful (binlogServer : Option JavaString) (startScn : ℤ) (calls : List Call) :
    let evs := (run JBinlogClient.DumpBinlog (.new binlogServer startScn) calls).2
    AtEach (fun us ev _ => Lawful us ev) evs ∧ ∀ s, .opened s ∈ evs → Ended evs s := by
  obtain ⟨hrested, hlawful⟩ := DumpBinlog_keeps.run_from [] _ calls (rested_new binlogServer startScn)
    (Along.of_forall (fun _ _ => trivial) _ _)
  exact ⟨hlawful, hrested.rested⟩

def Connects (remoteAddr : Option JavaString) (call : Call) : Prop :=
  BinlogOutcome.JBinlogClient.Open call.reached ⟨remoteAddr, 0, false⟩ = .ok true

def Fresh (us : List Event) (ev : Event) : Prop := ∀ s, ev = .used s → .closeThrew s ∉ us

theorem connects_iff (hnot : client.bConnected = false) :
    Connects client.remoteAddr call ↔ (client.Open call).1 = .ok true := by
  rw [Open_returned, hnot]
  rfl

theorem Close_remoteAddr : (client.Close call).1.remoteAddr = client.remoteAddr := by
  unfold JBinlogClient.Close
  split
  · rfl
  · split <;> rfl

theorem DumpBinlog_remoteAddr : (client.DumpBinlog call).1.remoteAddr = client.remoteAddr := by
  rcases DumpBinlog_cases client call with ⟨_, heq⟩ | ⟨_, _, heq⟩
  · rw [heq]
    exact Close_remoteAddr
  · rw [heq, Close_remoteAddr]
    unfold JBinlogClient.connect
    split <;> rfl

theorem Close_connected_iff (h : client.bConnected = true → client.socket.isSome = true) :
    (client.Close call).1.bConnected = true ↔ client.bConnected = true ∧ call.closes = false := by
  unfold JBinlogClient.Close
  cases hsocket : client.socket with
  | none =>
    rw [hsocket] at h
    refine iff_of_false (fun hconnected => ?_) fun hboth => ?_
    · cases h hconnected
    · cases h hboth.1
  | some s => cases hcloses : call.closes <;> simp

theorem connect_connected_iff (hnot : client.bConnected = false) :
    (client.connect call).2.1.bConnected = true ↔ (client.connect call).1 = .ok true := by
  unfold JBinlogClient.connect
  split
  · simp
  · simpa using hnot

theorem DumpBinlog_connected_iff (hnot : client.bConnected = false) :
    (client.DumpBinlog call).1.bConnected = true ↔
      Connects client.remoteAddr call ∧ call.closes = false := by
  rw [connects_iff hnot]
  rcases DumpBinlog_cases client call with ⟨hopened, heq⟩ | ⟨_, hopen, heq⟩
  · have hfailed : ¬ (client.Open call).1 = .ok true := by
      intro hok
      cases hnot.symm.trans (hopened hok)
    rw [heq, Close_connected_iff (by simp [hnot]), hnot]
    simp [hfailed]
  · have hsocket : (client.connect call).2.1.socket.isSome = true := by
      unfold JBinlogClient.connect
      split <;> rfl
    rw [heq, Close_connected_iff fun _ => hsocket, connect_connected_iff hnot, hopen]

theorem Rested.stale (h : Rested us client) (hconnected : client.bConnected = true)
    (evs : List Event) :
    ¬ AtEach (fun vs ev _ => Fresh (us ++ vs) ev) ((client.DumpBinlog call).2 ++ evs) := by
  obtain ⟨s, hwork, hopened, hclosed⟩ := h.used hconnected
  have hopen : client.Open call = (.ok true, client, []) := if_pos hconnected
  have hevs : (client.DumpBinlog call).2 = .used s :: (client.Close call).2 := by
    simp only [JBinlogClient.DumpBinlog, hopen, hwork]
    rfl
  intro hfresh
  rw [hevs] at hfresh
  have hthrew : .closeThrew s ∉ us := by
    simpa using hfresh [] (.used s) ((client.Close call).2 ++ evs) rfl s rfl
  exact (h.rested s hopened).elim hclosed hthrew

theorem Close_fresh (past : List Event → List Event) :
    AtEach (fun vs ev _ => Fresh (past vs) ev) (client.Close call).2 := by
  unfold JBinlogClient.Close
  split
  · exact atEach_nil
  · split <;> exact atEach_singleton.mpr (by simp [Fresh])

theorem Rested.fresh (h : Rested us client) (hnot : client.bConnected = false) (call : Call) :
    AtEach (fun vs ev _ => Fresh (us ++ vs) ev) (client.DumpBinlog call).2 := by
  rcases DumpBinlog_cases client call with ⟨hopened, heq⟩ | ⟨_, _, heq⟩
  · rw [heq]
    unfold JBinlogClient.work
    split
    · rename_i hok
      cases hnot.symm.trans (hopened hok)
    · exact Close_fresh _
  · have hthrew : .closeThrew client.made ∉ us := fun hin => h.not_made (h.opens _ (.inr hin))
    rw [heq, atEach_cons]
    refine ⟨by simp [Fresh], ?_⟩
    unfold JBinlogClient.work
    split
    · rw [connect_streams ‹_›]
      exact atEach_cons.mpr ⟨by simpa [Fresh] using hthrew, Close_fresh _⟩
    · exact Close_fresh _

theorem Rested.run_fresh_iff (h : Rested us client) (hnot : client.bConnected = false)
    (calls : List Call) :
    AtEach (fun vs ev _ => Fresh (us ++ vs) ev) (run JBinlogClient.DumpBinlog client calls).2 ↔
      ∀ call ∈ calls.dropLast, Connects client.remoteAddr call → call.closes = true := by
  induction calls generalizing us client with
  | nil => simp
  | cons call calls ih =>
    have hnext := (DumpBinlog_keeps us client call h trivial).1
    have hfirst := h.fresh hnot call
    cases calls with
    | nil => simpa [run_cons] using hfirst
    | cons call' calls =>
      have hclosing : (client.DumpBinlog call).1.bConnected = false ↔
          (Connects client.remoteAddr call → call.closes = true) := by
        rw [← Bool.not_eq_true, DumpBinlog_connected_iff hnot, not_and, Bool.not_eq_false]
      rw [run_cons, atEach_append, List.dropLast_cons_of_ne_nil (List.cons_ne_nil _ _),
        List.forall_mem_cons, ← hclosing, and_iff_right hfirst]
      simp only [← List.append_assoc]
      cases hconnected : (client.DumpBinlog call).1.bConnected with
      | false =>
        rw [ih hnext hconnected, DumpBinlog_remoteAddr]
        simp
      | true =>
        refine iff_of_false ?_ (by simp)
        rw [run_cons]
        exact hnext.stale hconnected _

/-- No call uses a socket whose close threw just when every call but the last closes the socket it
    gets. A client that could not close its socket takes it for a connection ever after. -/
theorem sockets_fresh_iff (binlogServer : Option JavaString) (startScn : ℤ) (calls : List Call) :
    AtEach (fun us ev _ => Fresh us ev)
        (run JBinlogClient.DumpBinlog (.new binlogServer startScn) calls).2 ↔
      ∀ call ∈ calls.dropLast, Connects binlogServer call → call.closes = true :=
  (rested_new binlogServer startScn).run_fresh_iff rfl calls

def unclosed : Call where
  machine := localMachine
  hasStreams := true
  conn := ⟨[], none, []⟩
  binlogHandler := fun _ _ => .value 0
  closes := false

example : (run JBinlogClient.DumpBinlog (.new localClient.remoteAddr 0) [unclosed, unclosed]).2 =
    [.opened 0, .used 0, .closeThrew 0, .used 0, .closeThrew 0] := by
  decide +kernel

end O2k.BinlogConnections
