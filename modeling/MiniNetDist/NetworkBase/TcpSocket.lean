import MiniNetDist.Library.Bytes
import MiniNetDist.Library.Loop
import MiniNetDist.Library.Run

/-! The simulated sockets of `mini-network-base/src/socket_tcp.c`. Data is cut into segments on its way into the buffers
of a socket. The loop that receives does not end when the buffer is full, the loop that sends drops the segments for which
there is no room. -/

namespace MiniNetDist.NetworkBase.TcpSocket

open Library

def TCP_SEND_BUF_SIZE : Nat := 65536
def TCP_RECV_BUF_SIZE : Nat := 65536
def TCP_MAX_SEGMENT_SIZE : Nat := 1460
def TCP_INITIAL_WINDOW : Nat := 10

inductive TCPState
  | closed
  | listen
  | synSent
  | synReceived
  | established
  | finWait1
  | finWait2
  | closing
  | timeWait
  | closeWait
  | lastAck
  deriving DecidableEq, Repr

structure TCPSocket where
  srcIp : UInt32
  dstIp : UInt32
  srcPort : UInt16
  dstPort : UInt16
  state : TCPState
  seqNum : UInt32
  ackNum : UInt32
  remoteSeq : UInt32
  remoteAck : UInt32
  sendBuf : Bytes
  recvBuf : Bytes
  sendWindow : Nat
  recvWindow : Nat
  mss : Nat
  passive : Bool
  deriving DecidableEq

/-- `seq` is what `rand` returned. -/
def tcpSocketCreate (seq : UInt32) : TCPSocket where
  srcIp := 0
  dstIp := 0
  srcPort := 0
  dstPort := 0
  state := .closed
  seqNum := seq
  ackNum := 0
  remoteSeq := 0
  remoteAck := 0
  sendBuf := []
  recvBuf := []
  sendWindow := TCP_INITIAL_WINDOW
  recvWindow := TCP_INITIAL_WINDOW
  mss := TCP_MAX_SEGMENT_SIZE
  passive := false

/-- `srcPort` is the random port. -/
def tcpConnect (sock : TCPSocket) (dstIp : UInt32) (dstPort srcPort : UInt16) : Int × TCPSocket :=
  if sock.state ≠ .closed then (-2, sock)
  else
    (0, { sock with
      srcIp := 0x7F000001
      srcPort := srcPort
      dstIp := dstIp
      dstPort := dstPort
      remoteSeq := 0
      remoteAck := 0
      ackNum := 1
      seqNum := sock.seqNum + 1
      state := .established
      sendWindow := TCP_INITIAL_WINDOW
      recvWindow := TCP_INITIAL_WINDOW })

def tcpBindListen (sock : TCPSocket) (port : UInt16) : Int × TCPSocket :=
  if sock.state ≠ .closed then (-2, sock)
  else (0, { sock with srcIp := 0x7F000001, srcPort := port, state := .listen, passive := true })

def tcpAccept (listenSock : TCPSocket) (seq : UInt32) (dstPort : UInt16) : Option TCPSocket :=
  if listenSock.state ≠ .listen then none
  else
    some { tcpSocketCreate seq with
      srcIp := listenSock.srcIp
      srcPort := listenSock.srcPort
      dstIp := 0x7F000001
      dstPort := dstPort
      remoteSeq := 1
      ackNum := 1
      state := .established
      passive := true }

/-- A segment goes into the buffer, if there is room. -/
def TCPSocket.segmentSent (sock : TCPSocket) (chunk : Bytes) : TCPSocket :=
  { sock with
    sendBuf := if sock.sendBuf.length + chunk.length ≤ TCP_SEND_BUF_SIZE then sock.sendBuf ++ chunk else sock.sendBuf
    seqNum := sock.seqNum + .ofNat chunk.length }

/-- One segment of the data; the loop ends when nothing remains. -/
def sendBody (state : TCPSocket × Bytes) : (TCPSocket × Bytes) ⊕ TCPSocket :=
  let (sock, data) := state
  if data = [] then .inr sock else .inl (sock.segmentSent (data.take sock.mss), data.drop sock.mss)

def TCPSocket.sends (sock : TCPSocket) : Bool := sock.state = .established ∨ sock.state = .closeWait

/-- `none` if the loop goes on for ever. -/
def tcpSend (sock : TCPSocket) (data : Bytes) : Option (Int × TCPSocket) :=
  if ¬ sock.sends then some (-2, sock)
  else (Loop.run sendBody (data.length + 1) (sock, data)).map fun sent => ((BitVec.ofNat 32 data.length).toInt, sent)

/-- The result and the bytes that are copied to the caller. -/
def tcpRecv (sock : TCPSocket) (bufLen : Nat) : Int × Bytes × TCPSocket :=
  if sock.state ≠ .established ∧ sock.state ≠ .closeWait ∧ sock.state ≠ .finWait1 ∧ sock.state ≠ .finWait2 then
    (-2, [], sock)
  else if sock.recvBuf.length = 0 then (0, [], sock)
  else
    let copyLen := min sock.recvBuf.length bufLen
    ((BitVec.ofNat 32 copyLen).toInt, sock.recvBuf.take copyLen,
      { sock with recvBuf := sock.recvBuf.drop copyLen, ackNum := sock.ackNum + .ofNat copyLen })

def tcpClosePassive (sock : TCPSocket) : Int × TCPSocket :=
  if sock.state = .closeWait then (0, { sock with state := .closed }) else (0, sock)

def tcpCloseActive (sock : TCPSocket) : Int × TCPSocket :=
  if sock.state = .closed then (0, sock)
  else if sock.state = .established then (0, { sock with state := .closed })
  else if sock.state = .closeWait then tcpClosePassive sock
  else (0, sock)

def tcpClose (sock : TCPSocket) : Int × TCPSocket := tcpCloseActive sock

def TCPSocket.segmentReceived (sock : TCPSocket) (chunk : Bytes) : TCPSocket :=
  { sock with recvBuf := sock.recvBuf ++ chunk, remoteSeq := sock.remoteSeq + .ofNat chunk.length }

def receiveBody (state : TCPSocket × Bytes) : (TCPSocket × Bytes) ⊕ TCPSocket :=
  let (sock, data) := state
  if data = [] then .inr sock
  else
    let chunk := min (min data.length sock.mss) (TCP_RECV_BUF_SIZE - sock.recvBuf.length)
    .inl (sock.segmentReceived (data.take chunk), data.drop chunk)

/-- `none` if the loop goes on for ever. -/
def tcpSimulateRecv (sock : TCPSocket) (data : Bytes) : Option TCPSocket :=
  Loop.run receiveBody (data.length + 1) (sock, data)

section Loops

variable {sock : TCPSocket} {data : Bytes} {fuel : Nat}

theorem sendBody_nil : sendBody (sock, []) = .inr sock := rfl

theorem receiveBody_nil : receiveBody (sock, []) = .inr sock := rfl

theorem ofNat_take_add_drop (start : UInt32) (data : Bytes) (count : Nat) :
    start + .ofNat (data.take count).length + .ofNat (data.drop count).length = start + .ofNat data.length := by
  rw [UInt32.add_assoc, ← UInt32.ofNat_add, ← List.length_append, List.take_append_drop]

theorem segmentSent_within (within : sock.sendBuf.length ≤ TCP_SEND_BUF_SIZE) (segment : Bytes) :
    (sock.segmentSent segment).sendBuf.length ≤ TCP_SEND_BUF_SIZE := by
  unfold TCPSocket.segmentSent
  dsimp only
  split
  · rename_i room
    rw [List.length_append]
    exact room
  · exact within

/-- All of the data goes into the buffer if there is room, and into the sequence number in any case. -/
theorem run_sendBody (segments : 0 < sock.mss) (within : sock.sendBuf.length ≤ TCP_SEND_BUF_SIZE)
    (enough : data.length < fuel) : ∃ buffered,
      Loop.run sendBody fuel (sock, data) =
        some { sock with sendBuf := buffered, seqNum := sock.seqNum + .ofNat data.length } ∧
      buffered.length ≤ TCP_SEND_BUF_SIZE ∧
      (sock.sendBuf.length + data.length ≤ TCP_SEND_BUF_SIZE → buffered = sock.sendBuf ++ data) := by
  induction fuel generalizing sock data with
  | zero => exact absurd enough (Nat.not_lt_zero _)
  | succ fuel ih =>
    by_cases done : data = []
    · subst done
      refine ⟨sock.sendBuf, ?_, within, fun _ => (List.append_nil _).symm⟩
      rw [Loop.run_last sendBody_nil]
      exact congrArg (fun seqNum => some { sock with seqNum }) (UInt32.add_zero _).symm
    · have positive : 0 < data.length := List.length_pos_iff.mpr done
      have goesOn : sendBody (sock, data) = .inl (sock.segmentSent (data.take sock.mss), data.drop sock.mss) :=
        if_neg done
      have shorter : (data.drop sock.mss).length < fuel := by
        rw [List.length_drop]
        omega
      have parts : (data.take sock.mss).length + (data.drop sock.mss).length = data.length := by
        rw [← List.length_append, List.take_append_drop]
      obtain ⟨buffered, ended, bounded, whole⟩ :=
        @ih (sock.segmentSent (data.take sock.mss)) _ segments (segmentSent_within within _) shorter
      refine ⟨buffered, ?_, bounded, ?_⟩
      · rw [Loop.run_next goesOn, ended, ← ofNat_take_add_drop sock.seqNum data sock.mss]
        rfl
      · intro room
        have first : (sock.segmentSent (data.take sock.mss)).sendBuf = sock.sendBuf ++ data.take sock.mss :=
          if_pos (by omega)
        rw [first, List.length_append] at whole
        rw [whole (by omega), List.append_assoc, List.take_append_drop]

/-- A delivery that fits goes to the end of the buffer. -/
theorem run_receiveBody (segments : 0 < sock.mss) (fits : sock.recvBuf.length + data.length ≤ TCP_RECV_BUF_SIZE)
    (enough : data.length < fuel) : Loop.run receiveBody fuel (sock, data) = some (sock.segmentReceived data) := by
  induction fuel generalizing sock data with
  | zero => exact absurd enough (Nat.not_lt_zero _)
  | succ fuel ih =>
    by_cases done : data = []
    · subst done
      rw [Loop.run_last receiveBody_nil]
      unfold TCPSocket.segmentReceived
      rw [List.append_nil]
      exact congrArg (fun remoteSeq => some { sock with remoteSeq }) (UInt32.add_zero _).symm
    · have positive : 0 < data.length := List.length_pos_iff.mpr done
      have cut : min (min data.length sock.mss) (TCP_RECV_BUF_SIZE - sock.recvBuf.length) = min data.length sock.mss :=
        Nat.min_eq_left (by omega)
      have goesOn : receiveBody (sock, data) = .inl (sock.segmentReceived (data.take (min data.length sock.mss)),
          data.drop (min data.length sock.mss)) := by
        rw [← cut]
        exact if_neg done
      have parts : (data.take (min data.length sock.mss)).length + (data.drop (min data.length sock.mss)).length =
          data.length := by
        rw [← List.length_append, List.take_append_drop]
      have shorter : (data.drop (min data.length sock.mss)).length < fuel := by
        rw [List.length_drop]
        omega
      have fitsAfter : (sock.segmentReceived (data.take (min data.length sock.mss))).recvBuf.length +
          (data.drop (min data.length sock.mss)).length ≤ TCP_RECV_BUF_SIZE := by
        unfold TCPSocket.segmentReceived
        dsimp only
        rw [List.length_append]
        omega
      rw [Loop.run_next goesOn, @ih (sock.segmentReceived _) _ segments fitsAfter shorter]
      unfold TCPSocket.segmentReceived
      dsimp only
      rw [List.append_assoc, List.take_append_drop, ofNat_take_add_drop]

/-- More is to be received than there is room for. -/
def Overfull (state : TCPSocket × Bytes) : Prop :=
  state.1.recvBuf.length ≤ TCP_RECV_BUF_SIZE ∧ TCP_RECV_BUF_SIZE < state.1.recvBuf.length + state.2.length

theorem Overfull.goesOn (state : TCPSocket × Bytes) (overfull : Overfull state) :
    ∃ next, receiveBody state = .inl next ∧ Overfull next := by
  obtain ⟨sock, data⟩ := state
  obtain ⟨within, beyond⟩ := overfull
  dsimp only at within beyond
  have more : data ≠ [] := by
    rintro rfl
    exact absurd beyond (Nat.not_lt.mpr within)
  refine ⟨_, if_neg more, ?_, ?_⟩
  · unfold TCPSocket.segmentReceived
    dsimp only
    rw [List.length_append, List.length_take]
    omega
  · unfold TCPSocket.segmentReceived
    dsimp only
    rw [List.length_append, List.length_take, List.length_drop]
    omega

/-- A delivery returns exactly if it fits: when the buffer is full, a round changes nothing. -/
theorem receiveBody_ends (segments : 0 < sock.mss) (within : sock.recvBuf.length ≤ TCP_RECV_BUF_SIZE) :
    (∃ result, Loop.Ends receiveBody (sock, data) result) ↔ sock.recvBuf.length + data.length ≤ TCP_RECV_BUF_SIZE := by
  constructor
  · rintro ⟨result, ends⟩
    apply Nat.le_of_not_lt
    intro beyond
    exact Loop.not_ends Overfull.goesOn ⟨within, beyond⟩ ends
  · intro fits
    exact ⟨_, _, run_receiveBody segments fits (Nat.lt_succ_self _)⟩

theorem tcpSimulateRecv_eq (segments : 0 < sock.mss) (within : sock.recvBuf.length ≤ TCP_RECV_BUF_SIZE) :
    tcpSimulateRecv sock data =
      if sock.recvBuf.length + data.length ≤ TCP_RECV_BUF_SIZE then some (sock.segmentReceived data) else none := by
  split
  · rename_i fits
    exact run_receiveBody segments fits (Nat.lt_succ_self _)
  · rename_i beyond
    apply Option.eq_none_iff_forall_ne_some.mpr
    intro result ended
    exact Loop.not_ends Overfull.goesOn ⟨within, Nat.lt_of_not_le beyond⟩ ⟨_, ended⟩

end Loops

/-- A socket, and what has gone through it: the data of the calls that sent, what was delivered, what was read, and how
often it was connected. -/
structure Traffic where
  sock : TCPSocket
  sent : Bytes
  delivered : Bytes
  read : Bytes
  connects : Nat

inductive TcpCall
  | connect (dstIp : UInt32) (dstPort srcPort : UInt16)
  | bindListen (port : UInt16)
  | send (data : Bytes)
  | recv (bufLen : Nat)
  | simulateRecv (data : Bytes)
  | close

/-- A call that does not return leaves the traffic as it was. -/
def trafficStep (traffic : Traffic) : TcpCall → Traffic
  | .connect dstIp dstPort srcPort =>
    let result := tcpConnect traffic.sock dstIp dstPort srcPort
    { traffic with sock := result.2, connects := if result.1 = 0 then traffic.connects + 1 else traffic.connects }
  | .bindListen port => { traffic with sock := (tcpBindListen traffic.sock port).2 }
  | .send data =>
    match tcpSend traffic.sock data with
    | some (_, sock) => { traffic with sock, sent := if traffic.sock.sends then traffic.sent ++ data else traffic.sent }
    | none => traffic
  | .recv bufLen =>
    let result := tcpRecv traffic.sock bufLen
    { traffic with sock := result.2.2, read := traffic.read ++ result.2.1 }
  | .simulateRecv data =>
    match tcpSimulateRecv traffic.sock data with
    | some sock => { traffic with sock, delivered := traffic.delivered ++ data }
    | none => traffic
  | .close => { traffic with sock := (tcpClose traffic.sock).2 }

def trafficInit (sock : TCPSocket) : Traffic := ⟨sock, [], [], [], 0⟩

/-- A socket that was just created or accepted, with the number from `rand`. -/
inductive Fresh (seq : UInt32) : TCPSocket → Prop
  | created : Fresh seq (tcpSocketCreate seq)
  | accepted {listenSock sock : TCPSocket} {dstPort : UInt16} (accepts : tcpAccept listenSock seq dstPort = some sock) :
      Fresh seq sock

section Streams

variable {traffic : Traffic} {seq : UInt32}

structure Streams (seq : UInt32) (traffic : Traffic) : Prop where
  segments : traffic.sock.mss = TCP_MAX_SEGMENT_SIZE
  received : traffic.read ++ traffic.sock.recvBuf = traffic.delivered
  receiveRoom : traffic.sock.recvBuf.length ≤ TCP_RECV_BUF_SIZE
  sendRoom : traffic.sock.sendBuf.length ≤ TCP_SEND_BUF_SIZE
  sent : traffic.sent.length ≤ TCP_SEND_BUF_SIZE → traffic.sock.sendBuf = traffic.sent
  counted : traffic.sock.seqNum = seq + .ofNat traffic.connects + .ofNat traffic.sent.length

theorem Streams.init {sock : TCPSocket} (fresh : Fresh seq sock) : Streams seq (trafficInit sock) := by
  have started : Streams seq (trafficInit (tcpSocketCreate seq)) :=
    ⟨rfl, rfl, Nat.zero_le _, Nat.zero_le _, fun _ => rfl, by simp [trafficInit, tcpSocketCreate]⟩
  cases fresh with
  | created => exact started
  | accepted accepts =>
    unfold tcpAccept at accepts
    split at accepts
    · cases accepts
    · cases accepts
      exact ⟨rfl, rfl, Nat.zero_le _, Nat.zero_le _, fun _ => rfl, started.counted⟩

/-- A change of the socket that does not touch the buffers, the segments and the sequence number. -/
theorem Streams.keep (streams : Streams seq traffic) {sock : TCPSocket}
    (same : (sock.mss, sock.recvBuf, sock.sendBuf, sock.seqNum) =
      (traffic.sock.mss, traffic.sock.recvBuf, traffic.sock.sendBuf, traffic.sock.seqNum)) :
    Streams seq { traffic with sock } := by
  simp only [Prod.mk.injEq] at same
  obtain ⟨mss, recvBuf, sendBuf, seqNum⟩ := same
  refine ⟨mss.trans streams.segments, ?_, ?_, ?_, ?_, seqNum.trans streams.counted⟩
  · rw [recvBuf]
    exact streams.received
  · rw [recvBuf]
    exact streams.receiveRoom
  · rw [sendBuf]
    exact streams.sendRoom
  · rw [sendBuf]
    exact streams.sent

theorem Streams.send (streams : Streams seq traffic) (data : Bytes) :
    Streams seq (trafficStep traffic (.send data)) := by
  rw [trafficStep, tcpSend]
  by_cases opened : traffic.sock.sends = true
  · have segments : 0 < traffic.sock.mss := by
      rw [streams.segments]
      decide
    obtain ⟨buffered, ended, bounded, whole⟩ := run_sendBody segments streams.sendRoom (Nat.lt_succ_self data.length)
    rw [if_neg (not_not.mpr opened), ended, if_pos opened, Option.map_some]
    dsimp only
    refine ⟨streams.segments, streams.received, streams.receiveRoom, bounded, ?_, ?_⟩
    · intro few
      dsimp only at few ⊢
      rw [List.length_append] at few
      have before := streams.sent (by omega)
      rw [whole (by rw [before]; exact few), before]
    · dsimp only
      rw [streams.counted, List.length_append, UInt32.ofNat_add, UInt32.add_assoc]
  · rw [if_pos opened, if_neg opened]
    exact streams

theorem Streams.recv (streams : Streams seq traffic) (bufLen : Nat) :
    Streams seq (trafficStep traffic (.recv bufLen)) := by
  rw [trafficStep, tcpRecv]
  split
  · refine { streams with received := ?_ }
    rw [List.append_nil]
    exact streams.received
  · split
    · refine { streams with received := ?_ }
      rw [List.append_nil]
      exact streams.received
    · refine ⟨streams.segments, ?_, ?_, streams.sendRoom, streams.sent, streams.counted⟩
      · dsimp only
        rw [List.append_assoc, List.take_append_drop]
        exact streams.received
      · dsimp only
        rw [List.length_drop]
        exact Nat.le_trans (Nat.sub_le _ _) streams.receiveRoom

theorem Streams.step (streams : Streams seq traffic) (call : TcpCall) : Streams seq (trafficStep traffic call) := by
  cases call with
  | connect dstIp dstPort srcPort =>
    rw [trafficStep, tcpConnect]
    split
    · exact streams
    · refine { streams with counted := ?_ }
      dsimp only
      rw [if_pos rfl, streams.counted, UInt32.add_assoc _ _ 1, UInt32.add_comm _ 1, ← UInt32.add_assoc,
        UInt32.add_assoc seq, UInt32.ofNat_add]
      rfl
  | bindListen port =>
    rw [trafficStep, tcpBindListen]
    split
    · exact streams
    · exact streams.keep rfl
  | send data => exact streams.send data
  | recv bufLen => exact streams.recv bufLen
  | simulateRecv data =>
    have segments : 0 < traffic.sock.mss := by
      rw [streams.segments]
      decide
    rw [trafficStep, tcpSimulateRecv_eq segments streams.receiveRoom]
    by_cases fits : traffic.sock.recvBuf.length + data.length ≤ TCP_RECV_BUF_SIZE
    · rw [if_pos fits]
      refine ⟨streams.segments, ?_, ?_, streams.sendRoom, streams.sent, streams.counted⟩
      · dsimp only [TCPSocket.segmentReceived]
        rw [← List.append_assoc, streams.received]
      · dsimp only [TCPSocket.segmentReceived]
        rw [List.length_append]
        exact fits
    · rw [if_neg fits]
      exact streams
  | close =>
    rw [trafficStep, tcpClose, tcpCloseActive, tcpClosePassive]
    split
    · exact streams
    · split
      · exact streams.keep rfl
      · split
        · exact streams.keep rfl
        · exact streams

/-- Whatever is called in which order: what was read and what still is in the buffer is what was delivered, the send buffer
is what was sent exactly if that fits into it, and the sequence number counts connects and bytes. -/
theorem tcp_streams {sock : TCPSocket} (fresh : Fresh seq sock)
    (reached : Reaches trafficStep Always (trafficInit sock) traffic) :
    traffic.read ++ traffic.sock.recvBuf = traffic.delivered ∧
      (traffic.sock.sendBuf = traffic.sent ↔ traffic.sent.length ≤ TCP_SEND_BUF_SIZE) ∧
      traffic.sock.seqNum = seq + .ofNat traffic.connects + .ofNat traffic.sent.length := by
  have streams : Streams seq traffic := reached.invariant (.init fresh) fun _ call streams _ => streams.step call
  refine ⟨streams.received, ⟨?_, streams.sent⟩, streams.counted⟩
  intro same
  rw [← same]
  exact streams.sendRoom

/-- A connection that sends, and reads a delivery in two parts. -/
def twoReads : List TcpCall := [.connect 1 80 2000, .send [1, 2], .simulateRecv [7, 8, 9], .recv 2, .recv 2]

theorem twoReads_streams : (twoReads.foldl trafficStep (trafficInit (tcpSocketCreate 5))).read ++ [] = [7, 8, 9] :=
  (tcp_streams .created (.ofFold twoReads)).1

end Streams

end MiniNetDist.NetworkBase.TcpSocket
