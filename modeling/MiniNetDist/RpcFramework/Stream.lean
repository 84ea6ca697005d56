import MiniNetDist.Library.Run
import MiniNetDist.Library.Table
import MiniNetDist.RpcFramework.Session

/-! The streams of `mini-rpc-framework/src/rpc_protocol.c`: chunks are numbered by the sender, and the
receiver appends a chunk only when its number is the next one. Two peers exchange frames over a network
that may lose, repeat, reorder and damage them. -/

namespace MiniNetDist.RpcFramework

open Library

def RPC_PROTO_MAX_CHUNK_SIZE : Nat := 64 * 1024
def RPC_FRAME_STREAM_DATA : UInt8 := 1
def RPC_FRAME_STREAM_END : UInt8 := 2

/-- A stream is found by its id among the active ones. -/
def RPCStream.key (stream : RPCStream) : Bool × BitVec 32 := (stream.active, stream.streamId)

def findStream (sess : RPCProtocolSession) (streamId : BitVec 32) : Option RPCStream :=
  Table.find RPCStream.key sess.streams (true, streamId)

/-- Change the stream that is found. -/
def RPCProtocolSession.onStream (sess : RPCProtocolSession) (streamId : BitVec 32) (change : RPCStream → RPCStream) :
    RPCProtocolSession :=
  { sess with streams := Table.update RPCStream.key sess.streams (true, streamId) change }

def rpcProtoStreamOpen (sess : RPCProtocolSession) : RPCProtocolSession × Int :=
  match Table.find RPCStream.active sess.streams false with
  | some _ =>
    ({ sess with
      streams := Table.update RPCStream.active sess.streams false fun _ => ⟨sess.nextStreamId, 0#32, true, false, [], 0#32⟩
      nextStreamId := sess.nextStreamId + 1#32
      streamCount := sess.streamCount + 1 }, sess.nextStreamId.toInt)
  | none => (sess, -1)

/-- The frame of a stream's chunk or of its end. -/
def streamFrame (sess : RPCProtocolSession) (frameType flags : UInt8) (streamId sequence : BitVec 32) : RPCProtoFrame :=
  ⟨0#32, sess.negotiation.negotiatedVersion, frameType, flags, streamId, sequence, 0#32⟩

def rpcProtoStreamSend (sess : RPCProtocolSession) (streamId : BitVec 32) (chunk : Bytes) :
    RPCProtocolSession × Except Int Bytes :=
  match findStream sess streamId with
  | none => (sess, .error (-1))
  | some stream =>
    if stream.closed then (sess, .error (-2))
    else if chunk.length > RPC_PROTO_MAX_CHUNK_SIZE then (sess, .error (-3))
    else
      let flags := flagByte sess.negotiation.compressionEnabled
      let frame := streamFrame sess RPC_FRAME_STREAM_DATA flags streamId stream.nextSequence
      let numbered := sess.onStream streamId fun s => { s with nextSequence := s.nextSequence + 1#32 }
      match rpcProtoFrameBuild frame chunk with
      | .ok (_, framed) => ({ numbered with framesSent := sess.framesSent + 1 }, .ok framed)
      | .error code => (numbered, .error code)

def rpcProtoStreamRecv (sess : RPCProtocolSession) (framedIn : Bytes) :
    RPCProtocolSession × Except ParseFailure (RPCProtoFrame × Bytes) :=
  match rpcProtoFrameParse framedIn with
  | .error failure =>
    (if failure = .code (-4) then { sess with crcErrors := sess.crcErrors + 1 } else sess, .error failure)
  | .ok (frame, chunk) =>
    let counted := { sess with framesReceived := sess.framesReceived + 1 }
    (if frame.frameType = RPC_FRAME_STREAM_DATA then
      counted.onStream frame.streamId fun s =>
        if frame.sequence = s.expectedSequence then
          { s with reassemblyBuffer := s.reassemblyBuffer ++ chunk, expectedSequence := s.expectedSequence + 1#32 }
        else s
    else counted, .ok (frame, chunk))

def rpcProtoStreamClose (sess : RPCProtocolSession) (streamId : BitVec 32) : RPCProtocolSession × Except Int Bytes :=
  match findStream sess streamId with
  | none => (sess, .error (-1))
  | some stream =>
    match rpcProtoFrameBuild (streamFrame sess RPC_FRAME_STREAM_END 0 streamId stream.nextSequence) [] with
    | .ok (_, framed) =>
      ({ sess.onStream streamId fun s => { s with active := false, closed := true } with
        streamCount := sess.streamCount - 1 }, .ok framed)
    | .error code => (sess, .error code)

section Peers

/-- A session with what it has put on the network, the chunks it has sent and the ids it has given out. -/
structure Peer where
  session : RPCProtocolSession
  network : List Bytes
  sent : List (BitVec 32 × Bytes)
  opened : List (BitVec 32)

def peerInit : Peer := ⟨rpcProtoSessionInit, [], [], []⟩

/-- The chunks sent on a stream, in order. -/
def Peer.chunks (peer : Peer) (streamId : BitVec 32) : List Bytes :=
  (peer.sent.filter (·.1 = streamId)).map Prod.snd

inductive PeerCall where
  | negotiated (negotiation : RPCProtoNegotiation)
  | openStream
  | send (streamId : BitVec 32) (chunk : Bytes)
  | recv (framed : Bytes)
  | close (streamId : BitVec 32)

def Peer.step (peer : Peer) : PeerCall → Peer
  | .negotiated negotiation => { peer with session := { peer.session with negotiation } }
  | .openStream =>
    { peer with
      session := (rpcProtoStreamOpen peer.session).1
      opened :=
        if (Table.find RPCStream.active peer.session.streams false).isSome then peer.session.nextStreamId :: peer.opened
        else peer.opened }
  | .send streamId chunk =>
    let result := rpcProtoStreamSend peer.session streamId chunk
    match result.2 with
    | .ok framed =>
      { peer with session := result.1, network := framed :: peer.network, sent := peer.sent ++ [(streamId, chunk)] }
    | .error _ => { peer with session := result.1 }
  | .recv framed => { peer with session := (rpcProtoStreamRecv peer.session framed).1 }
  | .close streamId =>
    let result := rpcProtoStreamClose peer.session streamId
    match result.2 with
    | .ok framed => { peer with session := result.1, network := framed :: peer.network }
    | .error _ => { peer with session := result.1 }

/-- A peer gives out no id twice, numbers fewer than 2^32 chunks of a stream, and receives frames of the other
peer, in any order and number, or bytes that the parser rejects. -/
def Peer.Allowed (peer other : Peer) : PeerCall → Prop
  | .negotiated _ | .close _ => True
  | .openStream => peer.session.nextStreamId ∉ peer.opened
  | .send streamId _ => (peer.chunks streamId).length + 1 < 2 ^ 32
  | .recv framed => framed ∈ other.network ∨ ∃ code, rpcProtoFrameParse framed = .error (.code code)

inductive Side where
  | left
  | right
  deriving DecidableEq, Repr

structure Channel where
  left : Peer
  right : Peer

def channelInit : Channel := ⟨peerInit, peerInit⟩

def channelStep (channel : Channel) : Side × PeerCall → Channel
  | (.left, call) => { channel with left := channel.left.step call }
  | (.right, call) => { channel with right := channel.right.step call }

def Channel.Allowed (channel : Channel) : Side × PeerCall → Prop
  | (.left, call) => channel.left.Allowed channel.right call
  | (.right, call) => channel.right.Allowed channel.left call

end Peers

section Sessions

variable {sess : RPCProtocolSession} {streamId : BitVec 32} {chunk framed : Bytes}

/-- A chunk that was sent is framed under the stream's number, which goes up by one. -/
theorem rpcProtoStreamSend_ok (sent : (rpcProtoStreamSend sess streamId chunk).2 = .ok framed) :
    ∃ stream frame, findStream sess streamId = some stream ∧
      (rpcProtoStreamSend sess streamId chunk).1.streams =
        Table.update RPCStream.key sess.streams (true, streamId) (fun s => { s with nextSequence := s.nextSequence + 1#32 }) ∧
      rpcProtoFrameParse framed = .ok (frame, chunk) ∧ frame.streamId = streamId ∧
      frame.sequence = stream.nextSequence := by
  rw [rpcProtoStreamSend] at sent ⊢
  cases found : findStream sess streamId with
  | none =>
    rw [found] at sent
    cases sent
  | some stream =>
    simp only [found] at sent ⊢
    split_ifs at sent ⊢ with closed long
    have small : chunk.length ≤ RPC_PROTO_MAX_FRAME_SIZE - RPC_PROTO_OVERHEAD :=
      Nat.le_trans (Nat.le_of_not_lt long) (by decide)
    simp only [rpcProtoFrameBuild_of_le _ small] at sent ⊢
    obtain rfl := Except.ok.inj sent
    exact ⟨stream, _, rfl, rfl, rpcProtoFrameParse_wire _ small, rfl, rfl⟩

theorem rpcProtoStreamSend_error {code : Int} (failed : (rpcProtoStreamSend sess streamId chunk).2 = .error code) :
    (rpcProtoStreamSend sess streamId chunk).1 = sess := by
  rw [rpcProtoStreamSend] at failed ⊢
  cases found : findStream sess streamId with
  | none => rfl
  | some stream =>
    simp only [found] at failed ⊢
    split_ifs at failed ⊢ with closed long
    · rfl
    · rfl
    · have small : chunk.length ≤ RPC_PROTO_MAX_FRAME_SIZE - RPC_PROTO_OVERHEAD :=
        Nat.le_trans (Nat.le_of_not_lt long) (by decide)
      simp only [rpcProtoFrameBuild_of_le _ small] at failed
      cases failed

theorem empty_small : ([] : Bytes).length ≤ RPC_PROTO_MAX_FRAME_SIZE - RPC_PROTO_OVERHEAD := Nat.zero_le _

/-- The end of a stream is no chunk, and the stream is left inactive. -/
theorem rpcProtoStreamClose_ok (closed : (rpcProtoStreamClose sess streamId).2 = .ok framed) :
    (∃ stream, findStream sess streamId = some stream) ∧
      (rpcProtoStreamClose sess streamId).1.streams =
        Table.update RPCStream.key sess.streams (true, streamId) (fun s => { s with active := false, closed := true }) ∧
      ∃ frame, rpcProtoFrameParse framed = .ok (frame, []) ∧ frame.frameType = RPC_FRAME_STREAM_END := by
  rw [rpcProtoStreamClose] at closed ⊢
  cases found : findStream sess streamId with
  | none =>
    rw [found] at closed
    cases closed
  | some stream =>
    simp only [found, rpcProtoFrameBuild_of_le _ empty_small] at closed ⊢
    obtain rfl := Except.ok.inj closed
    exact ⟨⟨stream, rfl⟩, rfl, _, rpcProtoFrameParse_wire _ empty_small, rfl⟩

theorem rpcProtoStreamClose_error {code : Int} (failed : (rpcProtoStreamClose sess streamId).2 = .error code) :
    (rpcProtoStreamClose sess streamId).1 = sess := by
  rw [rpcProtoStreamClose] at failed ⊢
  cases found : findStream sess streamId with
  | none => rfl
  | some stream =>
    simp only [found, rpcProtoFrameBuild_of_le _ empty_small] at failed
    cases failed

end Sessions

section Sending

/-- The active streams have different ids that were given out, and each has numbered as many chunks as were sent. -/
structure Numbered (streams : List RPCStream) (opened : List (BitVec 32)) (count : BitVec 32 → Nat) : Prop where
  distinct : streams.Pairwise fun first second =>
    first.active = true → second.active = true → first.streamId ≠ second.streamId
  known : ∀ stream ∈ streams, stream.active = true → stream.streamId ∈ opened
  numbered : ∀ stream ∈ streams, stream.active = true → stream.nextSequence = BitVec.ofNat 32 (count stream.streamId)

section Replace

variable {earlier later : List RPCStream} {old new : RPCStream} {opened opened' : List (BitVec 32)}
  {count count' : BitVec 32 → Nat}

/-- No other active stream has the id of an active one. -/
theorem Numbered.others (holds : Numbered (earlier ++ old :: later) opened count) (active : old.active = true) :
    ∀ stream ∈ earlier ++ later, stream.active = true → stream.streamId ≠ old.streamId := by
  have pairs := List.pairwise_append.mp holds.distinct
  intro stream inside other
  rcases List.mem_append.mp inside with before | after
  · exact pairs.2.2 stream before old List.mem_cons_self other active
  · exact ((List.pairwise_cons.mp pairs.2.1).1 stream after active other).symm

theorem mem_of_mem_rest {stream : RPCStream} (inside : stream ∈ earlier ++ later) : stream ∈ earlier ++ old :: later := by
  rcases List.mem_append.mp inside with before | after
  · exact List.mem_append_left _ before
  · exact List.mem_append_right _ (List.mem_cons_of_mem _ after)

/-- One stream may be replaced, if the new one is inactive or fits in with the others. -/
theorem Numbered.replace (holds : Numbered (earlier ++ old :: later) opened count)
    (grows : ∀ streamId ∈ opened, streamId ∈ opened')
    (unchanged : ∀ stream ∈ earlier ++ later, stream.active = true → count' stream.streamId = count stream.streamId)
    (apart : new.active = true → ∀ stream ∈ earlier ++ later, stream.active = true → stream.streamId ≠ new.streamId)
    (given : new.active = true →
      new.streamId ∈ opened' ∧ new.nextSequence = BitVec.ofNat 32 (count' new.streamId)) :
    Numbered (earlier ++ new :: later) opened' count' := by
  have member {stream : RPCStream} (inside : stream ∈ earlier ++ new :: later) :
      stream = new ∨ stream ∈ earlier ++ later := by
    simpa [or_left_comm] using inside
  have pairs := List.pairwise_append.mp holds.distinct
  have tail := List.pairwise_cons.mp pairs.2.1
  refine ⟨List.pairwise_append.mpr ⟨pairs.1, List.pairwise_cons.mpr ⟨?_, tail.2⟩, ?_⟩, ?_, ?_⟩
  · intro stream after active other
    exact (apart active stream (List.mem_append_right _ after) other).symm
  · intro first before second inside active other
    rcases List.mem_cons.mp inside with rfl | after
    · exact apart other first (List.mem_append_left _ before) active
    · exact pairs.2.2 first before second (List.mem_cons_of_mem _ after) active other
  · intro stream inside active
    rcases member inside with rfl | other
    · exact (given active).1
    · exact grows _ (holds.known stream (mem_of_mem_rest other) active)
  · intro stream inside active
    rcases member inside with rfl | other
    · exact (given active).2
    · rw [unchanged stream other active]
      exact holds.numbered stream (mem_of_mem_rest other) active

end Replace

/-- What a peer keeps of the streams it sends on. -/
structure Peer.Sends (peer : Peer) : Prop where
  streams : Numbered peer.session.streams peer.opened fun streamId => (peer.chunks streamId).length
  logged : ∀ entry ∈ peer.sent, entry.1 ∈ peer.opened
  bounded : ∀ streamId, (peer.chunks streamId).length < 2 ^ 32
  framed : ∀ bytes ∈ peer.network, ∃ frame chunk, rpcProtoFrameParse bytes = .ok (frame, chunk) ∧
    (frame.frameType = RPC_FRAME_STREAM_DATA → ∃ k, frame.sequence = BitVec.ofNat 32 k ∧
      (peer.chunks frame.streamId)[k]? = some chunk)

variable {peer other : Peer}

theorem peerInit_sends : peerInit.Sends := by
  have inactive : ∀ stream ∈ peerInit.session.streams, stream.active = true → False := by decide
  refine ⟨⟨?_, ?_, ?_⟩, ?_, ?_, ?_⟩
  · exact List.pairwise_replicate.mpr (.inr fun active => by cases active)
  · intro stream inside active
    exact (inactive stream inside active).elim
  · intro stream inside active
    exact (inactive stream inside active).elim
  · intro entry inside
    cases inside
  · intro streamId
    exact Nat.two_pow_pos 32
  · intro bytes inside
    cases inside

/-- A new stream has a new id, on which nothing was sent. -/
theorem Peer.Sends.openStream (sends : peer.Sends) (fresh : peer.session.nextStreamId ∉ peer.opened) :
    (peer.step .openStream).Sends := by
  obtain ⟨streams, logged, bounded, framed⟩ := sends
  rw [Peer.step, rpcProtoStreamOpen]
  cases free : Table.find RPCStream.active peer.session.streams false with
  | none => exact ⟨streams, logged, bounded, framed⟩
  | some old =>
    obtain ⟨earlier, later, split, -, -, updated⟩ := Table.split_of_find free
    have silent : peer.chunks peer.session.nextStreamId = [] := by
      rw [Peer.chunks, List.map_eq_nil_iff, List.filter_eq_nil_iff]
      intro entry inside same
      have mine : entry.1 = peer.session.nextStreamId := by simpa using same
      exact fresh (mine ▸ logged entry inside)
    rw [split] at streams
    refine ⟨?_, fun entry inside => List.mem_cons_of_mem _ (logged entry inside), bounded, framed⟩
    rw [updated]
    refine streams.replace (fun streamId inside => List.mem_cons_of_mem _ inside) (fun _ _ _ => rfl) ?_ ?_
    · intro _ stream inside active same
      have given := streams.known stream (mem_of_mem_rest inside) active
      rw [same] at given
      exact fresh given
    · intro _
      refine ⟨List.mem_cons_self, ?_⟩
      change 0#32 = BitVec.ofNat 32 (peer.chunks peer.session.nextStreamId).length
      rw [silent]
      rfl

theorem chunks_append (peer : Peer) (session : RPCProtocolSession) (network : List Bytes) (streamId other : BitVec 32)
    (chunk : Bytes) :
    Peer.chunks { peer with session, network, sent := peer.sent ++ [(streamId, chunk)] } other =
      if other = streamId then peer.chunks other ++ [chunk] else peer.chunks other := by
  simp only [Peer.chunks, List.filter_append, List.map_append]
  by_cases same : other = streamId
  · subst same
    simp
  · simp [same, Ne.symm same]

/-- The chunk gets the next number, and the frame that carries it is the only new one. -/
theorem Peer.Sends.send (sends : peer.Sends) {streamId : BitVec 32} {chunk : Bytes}
    (few : (peer.chunks streamId).length + 1 < 2 ^ 32) : (peer.step (.send streamId chunk)).Sends := by
  obtain ⟨streams, logged, bounded, framed⟩ := sends
  rw [Peer.step]
  cases result : (rpcProtoStreamSend peer.session streamId chunk).2 with
  | error code =>
    simp only [rpcProtoStreamSend_error result]
    exact ⟨streams, logged, bounded, framed⟩
  | ok bytes =>
    obtain ⟨stream, frame, found, updated, parsed, mine, sequence⟩ := rpcProtoStreamSend_ok result
    obtain ⟨earlier, later, split, key, -, change⟩ := Table.split_of_find found
    obtain ⟨active, named⟩ := Prod.mk.inj key
    have inside : stream ∈ peer.session.streams := by simp [split]
    have number : stream.nextSequence = BitVec.ofNat 32 (peer.chunks streamId).length := by
      rw [streams.numbered stream inside active, named]
    have given : streamId ∈ peer.opened := named ▸ streams.known stream inside active
    refine ⟨?_, ?_, ?_, ?_⟩
    · rw [updated, change]
      rw [split] at streams
      refine streams.replace (fun _ inside => inside) ?_ (fun _ => streams.others active) ?_
      · intro other inside busy
        rw [chunks_append, if_neg (named ▸ streams.others active other inside busy)]
      · intro _
        refine ⟨named ▸ given, ?_⟩
        change stream.nextSequence + 1#32 = _
        rw [number, named, chunks_append, if_pos rfl, List.length_append, List.length_singleton, BitVec.ofNat_add]
    · intro entry inside
      rcases List.mem_append.mp inside with old | new
      · exact logged entry old
      · rw [List.mem_singleton.mp new]
        exact given
    · intro other
      rw [chunks_append]
      split
      · next same =>
        subst same
        rw [List.length_append, List.length_singleton]
        exact few
      · exact bounded other
    · intro other inside
      rcases List.mem_cons.mp inside with rfl | old
      · refine ⟨frame, chunk, parsed, fun _ => ⟨(peer.chunks streamId).length, sequence.trans number, ?_⟩⟩
        rw [mine, chunks_append, if_pos rfl, List.getElem?_append_right (Nat.le_refl _), Nat.sub_self]
        rfl
      · obtain ⟨older, content, read, position⟩ := framed other old
        refine ⟨older, content, read, fun data => ?_⟩
        obtain ⟨k, at_k, found⟩ := position data
        refine ⟨k, at_k, ?_⟩
        rw [chunks_append]
        split
        · rw [List.getElem?_append_left (List.getElem?_eq_some_iff.mp found).1, found]
        · exact found

theorem Peer.Sends.close (sends : peer.Sends) (streamId : BitVec 32) : (peer.step (.close streamId)).Sends := by
  obtain ⟨streams, logged, bounded, framed⟩ := sends
  rw [Peer.step]
  cases result : (rpcProtoStreamClose peer.session streamId).2 with
  | error code =>
    simp only [rpcProtoStreamClose_error result]
    exact ⟨streams, logged, bounded, framed⟩
  | ok bytes =>
    obtain ⟨⟨stream, found⟩, updated, frame, parsed, ending⟩ := rpcProtoStreamClose_ok result
    obtain ⟨earlier, later, split, -, -, change⟩ := Table.split_of_find found
    refine ⟨?_, logged, bounded, ?_⟩
    · rw [updated, change]
      rw [split] at streams
      exact streams.replace (fun _ inside => inside) (fun _ _ _ => rfl)
        (fun active => absurd active Bool.false_ne_true) (fun active => absurd active Bool.false_ne_true)
    · intro other inside
      rcases List.mem_cons.mp inside with rfl | old
      · refine ⟨frame, [], parsed, fun data => ?_⟩
        rw [ending] at data
        exact absurd data (by decide)
      · exact framed other old

/-- What a received frame may do to the stream it is for. -/
def RPCStream.receive (frame : RPCProtoFrame) (chunk : Bytes) (stream : RPCStream) : RPCStream :=
  if frame.sequence = stream.expectedSequence then
    { stream with
      reassemblyBuffer := stream.reassemblyBuffer ++ chunk
      expectedSequence := stream.expectedSequence + 1#32 }
  else stream

/-- Receiving leaves all streams as they are, or takes a chunk into the one that is found. -/
theorem rpcProtoStreamRecv_streams (sess : RPCProtocolSession) (framed : Bytes) :
    (rpcProtoStreamRecv sess framed).1.streams = sess.streams ∨
      ∃ frame chunk stream, rpcProtoFrameParse framed = .ok (frame, chunk) ∧
        frame.frameType = RPC_FRAME_STREAM_DATA ∧ findStream sess frame.streamId = some stream ∧
        (rpcProtoStreamRecv sess framed).1.streams =
          Table.update RPCStream.key sess.streams (true, frame.streamId) (RPCStream.receive frame chunk) := by
  rw [rpcProtoStreamRecv]
  cases parsed : rpcProtoFrameParse framed with
  | error failure =>
    left
    simp only []
    split <;> rfl
  | ok result =>
    obtain ⟨frame, chunk⟩ := result
    by_cases data : frame.frameType = RPC_FRAME_STREAM_DATA
    · simp only [if_pos data]
      cases found : findStream sess frame.streamId with
      | none => exact .inl (Table.update_absent found)
      | some stream => exact .inr ⟨frame, chunk, stream, rfl, data, found, rfl⟩
    · left
      simp only [if_neg data]

theorem RPCStream.receive_active (frame : RPCProtoFrame) (chunk : Bytes) (stream : RPCStream) :
    (stream.receive frame chunk).active = stream.active ∧ (stream.receive frame chunk).streamId = stream.streamId ∧
      (stream.receive frame chunk).nextSequence = stream.nextSequence := by
  rw [receive]
  split <;> exact ⟨rfl, rfl, rfl⟩

theorem Peer.Sends.recv (sends : peer.Sends) (framed : Bytes) : (peer.step (.recv framed)).Sends := by
  refine ⟨?_, sends.logged, sends.bounded, sends.framed⟩
  have streams := sends.streams
  rw [Peer.step]
  rcases rpcProtoStreamRecv_streams peer.session framed with same | ⟨frame, chunk, stream, -, -, found, updated⟩
  · rw [same]
    exact streams
  · obtain ⟨earlier, later, split, key, -, change⟩ := Table.split_of_find found
    obtain ⟨active, sameId, sameNumber⟩ := stream.receive_active frame chunk
    have inside : stream ∈ peer.session.streams := by simp [split]
    rw [updated, change]
    rw [split] at streams inside
    refine streams.replace (fun _ inside => inside) (fun _ _ _ => rfl) ?_ ?_
    · rw [active, sameId]
      exact streams.others
    · rw [active, sameId, sameNumber]
      exact fun active => ⟨streams.known stream inside active, streams.numbered stream inside active⟩

theorem Peer.Sends.step (sends : peer.Sends) {call : PeerCall} (allowed : peer.Allowed other call) :
    (peer.step call).Sends := by
  cases call with
  | negotiated negotiation => exact ⟨sends.streams, sends.logged, sends.bounded, sends.framed⟩
  | openStream => exact sends.openStream allowed
  | send streamId chunk => exact sends.send allowed
  | recv framed => exact sends.recv framed
  | close streamId => exact sends.close streamId

end Sending

section Receiving

/-- The first `n` chunks are in the stream's buffer, and while it is active it expects the next one. -/
structure RPCStream.Holds (stream : RPCStream) (chunks : List Bytes) (n : Nat) : Prop where
  count : n ≤ chunks.length
  buffer : stream.reassemblyBuffer = (chunks.take n).flatten
  expected : stream.active = true → stream.expectedSequence = BitVec.ofNat 32 n

def Reassembles (streams : List RPCStream) (chunks : BitVec 32 → List Bytes) : Prop :=
  ∀ stream ∈ streams, ∃ n, stream.Holds (chunks stream.streamId) n

variable {peer other : Peer} {streams : List RPCStream} {chunks chunks' : BitVec 32 → List Bytes}

/-- More chunks may be sent. -/
theorem Reassembles.grow (holds : Reassembles streams chunks)
    (grows : ∀ streamId, chunks streamId <+: chunks' streamId) : Reassembles streams chunks' := by
  intro stream inside
  obtain ⟨n, count, buffer, expected⟩ := holds stream inside
  obtain ⟨more, longer⟩ := grows stream.streamId
  refine ⟨n, ?_, ?_, expected⟩
  · rw [← longer, List.length_append]
    omega
  · rw [buffer, ← longer, List.take_append_of_le_length count]

/-- One stream may be replaced by another that holds a part of its chunks. -/
theorem Reassembles.replace {earlier later : List RPCStream} {old new : RPCStream}
    (holds : Reassembles (earlier ++ old :: later) chunks) (part : ∃ n, new.Holds (chunks new.streamId) n) :
    Reassembles (earlier ++ new :: later) chunks := by
  intro stream inside
  rcases List.mem_append.mp inside with before | after
  · exact holds stream (List.mem_append_left _ before)
  · rcases List.mem_cons.mp after with rfl | behind
    · exact part
    · exact holds stream (List.mem_append_right _ (List.mem_cons_of_mem _ behind))

/-- A chunk that is taken is the next one: its number, cut to 32 bits, cannot be that of any other. -/
theorem RPCStream.Holds.receive {stream : RPCStream} {sent : List Bytes} {n k : Nat} (holds : stream.Holds sent n)
    (active : stream.active = true) (few : sent.length < 2 ^ 32) {frame : RPCProtoFrame} {chunk : Bytes}
    (number : frame.sequence = BitVec.ofNat 32 k) (found : sent[k]? = some chunk) :
    ∃ n, (stream.receive frame chunk).Holds sent n := by
  obtain ⟨bound, content⟩ := List.getElem?_eq_some_iff.mp found
  have expected := holds.expected active
  rw [RPCStream.receive]
  split
  · next same =>
    have next : k = n := by
      have equal := congrArg BitVec.toNat (number.symm.trans (same.trans expected))
      rw [BitVec.toNat_ofNat, BitVec.toNat_ofNat, Nat.mod_eq_of_lt (by omega),
        Nat.mod_eq_of_lt (Nat.lt_of_le_of_lt holds.count few)] at equal
      exact equal
    subst next
    refine ⟨k + 1, bound, ?_, ?_⟩
    · change stream.reassemblyBuffer ++ chunk = _
      rw [holds.buffer, List.take_succ_eq_append_getElem bound, content, List.flatten_append]
      simp
    · intro _
      change stream.expectedSequence + 1#32 = _
      rw [expected, BitVec.ofNat_add]
  · exact ⟨n, holds⟩

/-- Whatever a peer does, its buffers hold first parts of what the other has sent. -/
theorem Reassembles.step (holds : Reassembles peer.session.streams other.chunks) (sends : other.Sends)
    {call : PeerCall} (allowed : peer.Allowed other call) :
    Reassembles (peer.step call).session.streams other.chunks := by
  cases call with
  | negotiated negotiation => exact holds
  | openStream =>
    rw [Peer.step, rpcProtoStreamOpen]
    cases free : Table.find RPCStream.active peer.session.streams false with
    | none => exact holds
    | some old =>
      obtain ⟨earlier, later, split, -, -, updated⟩ := Table.split_of_find free
      simp only [updated]
      rw [split] at holds
      exact holds.replace ⟨0, Nat.zero_le _, rfl, fun _ => rfl⟩
  | send streamId chunk =>
    rw [Peer.step]
    cases result : (rpcProtoStreamSend peer.session streamId chunk).2 with
    | error code =>
      simp only [rpcProtoStreamSend_error result]
      exact holds
    | ok bytes =>
      obtain ⟨stream, -, found, updated, -⟩ := rpcProtoStreamSend_ok result
      obtain ⟨earlier, later, split, -, -, change⟩ := Table.split_of_find found
      simp only [updated, change]
      obtain ⟨n, part⟩ := holds stream (by simp [split])
      rw [split] at holds
      exact holds.replace ⟨n, part.count, part.buffer, part.expected⟩
  | recv framed =>
    rw [Peer.step]
    rcases rpcProtoStreamRecv_streams peer.session framed with same | ⟨frame, chunk, stream, parsed, data, found, updated⟩
    · simp only [same]
      exact holds
    · obtain ⟨earlier, later, split, key, -, change⟩ := Table.split_of_find found
      obtain ⟨active, named⟩ := Prod.mk.inj key
      simp only [updated, change]
      have inFlight : framed ∈ other.network := by
        rcases allowed with inside | ⟨code, failed⟩
        · exact inside
        · cases parsed.symm.trans failed
      obtain ⟨frame', chunk', parsed', position⟩ := sends.framed framed inFlight
      obtain ⟨rfl, rfl⟩ := Prod.mk.inj (Except.ok.inj (parsed.symm.trans parsed'))
      obtain ⟨k, number, content⟩ := position data
      obtain ⟨n, part⟩ := holds stream (by simp [split])
      rw [split] at holds
      apply holds.replace
      rw [(stream.receive_active frame chunk).2.1]
      rw [← named] at content
      exact part.receive active (sends.bounded _) number content
  | close streamId =>
    rw [Peer.step]
    cases result : (rpcProtoStreamClose peer.session streamId).2 with
    | error code =>
      simp only [rpcProtoStreamClose_error result]
      exact holds
    | ok bytes =>
      obtain ⟨⟨stream, found⟩, updated, -⟩ := rpcProtoStreamClose_ok result
      obtain ⟨earlier, later, split, -, -, change⟩ := Table.split_of_find found
      simp only [updated, change]
      obtain ⟨n, part⟩ := holds stream (by simp [split])
      rw [split] at holds
      exact holds.replace ⟨n, part.count, part.buffer, fun active => absurd active Bool.false_ne_true⟩

/-- A step only adds to the chunks sent. -/
theorem Peer.chunks_step (peer : Peer) (call : PeerCall) (streamId : BitVec 32) :
    peer.chunks streamId <+: (peer.step call).chunks streamId := by
  cases call with
  | send target chunk =>
    rw [Peer.step]
    split
    · rw [chunks_append]
      split
      · exact List.prefix_append _ _
      · exact List.prefix_rfl
    · exact List.prefix_rfl
  | close target =>
    rw [Peer.step]
    split <;> exact List.prefix_rfl
  | negotiated _ | openStream | recv _ => exact List.prefix_rfl

end Receiving

section Channels

/-- The invariant of the channel, in both directions. -/
structure Channel.Sound (channel : Channel) : Prop where
  left : channel.left.Sends
  right : channel.right.Sends
  atLeft : Reassembles channel.left.session.streams channel.right.chunks
  atRight : Reassembles channel.right.session.streams channel.left.chunks

theorem channelInit_sound : channelInit.Sound := by
  have empty : ∀ stream ∈ peerInit.session.streams, stream.reassemblyBuffer = [] ∧ stream.expectedSequence = 0#32 := by
    decide
  have start : Reassembles peerInit.session.streams peerInit.chunks := by
    intro stream inside
    obtain ⟨buffer, expected⟩ := empty stream inside
    exact ⟨0, Nat.zero_le _, buffer, fun _ => expected⟩
  exact ⟨peerInit_sends, peerInit_sends, start, start⟩

theorem Channel.Sound.step {channel : Channel} (sound : channel.Sound) {call : Side × PeerCall}
    (allowed : channel.Allowed call) : (channelStep channel call).Sound := by
  obtain ⟨side, call⟩ := call
  obtain ⟨left, right, atLeft, atRight⟩ := sound
  cases side with
  | left => exact ⟨left.step allowed, right, atLeft.step right allowed, atRight.grow (channel.left.chunks_step call)⟩
  | right => exact ⟨left, right.step allowed, atLeft.grow (channel.right.chunks_step call), atRight.step left allowed⟩

/-- At all times, each reassembly buffer is the concatenation of the first chunks the other peer has sent on
its stream. -/
theorem stream_reassembly_prefix {channel : Channel}
    (reached : Reaches channelStep Channel.Allowed channelInit channel) :
    (∀ stream ∈ channel.right.session.streams, ∃ received,
      received <+: channel.left.chunks stream.streamId ∧ stream.reassemblyBuffer = received.flatten) ∧
    ∀ stream ∈ channel.left.session.streams, ∃ received,
      received <+: channel.right.chunks stream.streamId ∧ stream.reassemblyBuffer = received.flatten := by
  have sound : channel.Sound :=
    reached.invariant channelInit_sound fun _ _ sound allowed => sound.step allowed
  constructor
  · intro stream inside
    obtain ⟨n, part⟩ := sound.atRight stream inside
    exact ⟨_, List.take_prefix n _, part.buffer⟩
  · intro stream inside
    obtain ⟨n, part⟩ := sound.atLeft stream inside
    exact ⟨_, List.take_prefix n _, part.buffer⟩

/-- A run in which the second of two chunks arrives first and is dropped. -/
def overtaken : List (Side × PeerCall) :=
  [(.left, .openStream), (.right, .openStream), (.left, .send 1#32 [7, 8]), (.left, .send 1#32 [9]),
    (.right, .recv ((RPCProtoFrame.complete ⟨0#32, RPC_PROTO_VER_1_0, 1, 0, 1#32, 1#32, 0#32⟩ [9]).wire [9])),
    (.right, .recv ((RPCProtoFrame.complete ⟨0#32, RPC_PROTO_VER_1_0, 1, 0, 1#32, 0#32, 0#32⟩ [7, 8]).wire [7, 8]))]

theorem overtaken_permitted : Permitted channelStep Channel.Allowed channelInit overtaken := by
  refine ⟨?_, ?_, ?_, ?_, .inl ?_, .inl ?_, trivial⟩
  · exact List.not_mem_nil
  · exact List.not_mem_nil
  · change (Peer.chunks _ 1#32).length + 1 < 2 ^ 32
    decide +kernel
  · change (Peer.chunks _ 1#32).length + 1 < 2 ^ 32
    decide +kernel
  · decide +kernel
  · decide +kernel

theorem stream_reassembly_overtaken :
    let channel := overtaken.foldl channelStep channelInit
    (∀ stream ∈ channel.right.session.streams, ∃ received,
      received <+: channel.left.chunks stream.streamId ∧ stream.reassemblyBuffer = received.flatten) ∧
    ∀ stream ∈ channel.left.session.streams, ∃ received,
      received <+: channel.right.chunks stream.streamId ∧ stream.reassemblyBuffer = received.flatten :=
  stream_reassembly_prefix (Reaches.ofCalls overtaken overtaken_permitted)

end Channels

end MiniNetDist.RpcFramework
