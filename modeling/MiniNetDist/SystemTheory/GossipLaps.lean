import MiniNetDist.Library.Rumor
import MiniNetDist.SystemTheory.Gossip
import Mathlib.Data.List.Flatten

/-! Laps of the gossip: rounds in which every node sends to its neighbour. Two of them tell all nodes everything, since
a message carries what its sender has learnt in the same round. -/

namespace MiniNetDist.SystemTheory.Gossip

open Library Library.Replicated

variable {n : Nat}

section Laps

open Circle Rumor

variable {net : GossipNetwork n} {log : Log n} {known : Fin n → Finset Nat} {i : Fin n} {mode : GossipMode}

/-- In a lap, every node pushes to the next one, or pulls from the one before. -/
def lapPeer (mode : GossipMode) (i : Fin n) : Fin n :=
  match mode with
  | .pull => ahead i (n - 1)
  | _ => ahead i 1

/-- Who tells whom. -/
def lapContact (mode : GossipMode) (i : Fin n) : Fin n × Fin n :=
  match mode with
  | .pull => (ahead i (n - 1), i)
  | _ => (i, ahead i 1)

/-- The place from which the news of a lap go around. -/
def lapStart (mode : GossipMode) (first : Fin n) : Fin n :=
  match mode with
  | .pull => ahead first (n - 1)
  | _ => first

theorem lapPeer_ne (two : 1 < n) (i : Fin n) : lapPeer mode i ≠ i := by
  have apart : ∀ k, 0 < k → k < n → ahead i k ≠ i := by
    intro k pos inside same
    rw [← ahead_zero i, ahead_ahead, Nat.zero_add] at same
    exact absurd (ahead_inj inside (Nat.lt_trans Nat.zero_lt_one two) same) (Nat.ne_of_gt pos)
  cases mode with
  | push => exact apart 1 Nat.zero_lt_one two
  | pull => exact apart (n - 1) (by omega) (by omega)
  | pushPull => exact apart 1 Nat.zero_lt_one two

theorem map_lapContact {first : Fin n} (zero : first.val = 0) :
    (List.finRange n).map (lapContact mode) = way (ahead (lapStart mode first)) n := by
  have whole : 0 < n := Nat.lt_of_le_of_lt (Nat.zero_le _) first.isLt
  have here : ∀ i : Fin n, ahead first i.val = i := by
    intro i
    apply Fin.ext
    simp only [ahead, zero, Nat.zero_add, Nat.mod_eq_of_lt i.isLt]
  have onward : ∀ i : Fin n, ahead first (i.val + 1) = ahead i 1 := fun i => by
    rw [← ahead_ahead, here]
  rw [way_lap]
  apply List.map_congr_left
  intro i _
  cases mode with
  | push => simp only [lapContact, lapStart, here, onward]
  | pull =>
    have back : ahead (ahead first (n - 1)) (i.val + 1) = i := by
      rw [ahead_ahead, show n - 1 + (i.val + 1) = i.val + n by omega, ← ahead_ahead, ahead_size, here]
    have before : ahead (ahead first (n - 1)) i.val = ahead i (n - 1) := by
      rw [ahead_ahead, Nat.add_comm, ← ahead_ahead, here]
    simp only [lapContact, lapStart, back, before]
  | pushPull => simp only [lapContact, lapStart, here, onward]

def lapMessages (net : GossipNetwork n) : List (GossipMessage n) :=
  (List.finRange n).flatMap fun i =>
    (List.range net.fanout).flatMap fun _ => contactMessages net i (lapPeer net.mode i)

/-- How many messages go to a peer. -/
def GossipMode.copies (mode : GossipMode) : Nat :=
  match mode with
  | .pushPull => 2
  | _ => 1

theorem length_contactMessages (net : GossipNetwork n) (nodeId peer : Fin n) :
    (contactMessages net nodeId peer).length = net.mode.copies := by
  unfold contactMessages
  cases net.mode with
  | push => rfl
  | pull => rfl
  | pushPull => rfl

theorem length_lapMessages (net : GossipNetwork n) :
    (lapMessages net).length = n * (net.fanout * net.mode.copies) := by
  simp only [lapMessages, List.length_flatMap, length_contactMessages, List.map_const', List.sum_replicate_nat,
    List.length_range, List.length_finRange]

theorem lap_sublist (positive : 0 < net.fanout) :
    ((List.finRange n).map (lapContact net.mode)).Sublist
      ((lapMessages net).map fun msg => (msg.teacher, msg.learner)) := by
  rw [List.map_eq_flatMap, lapMessages, List.map_flatMap]
  apply List.Sublist.flatMap_right
  intro i _
  apply List.singleton_sublist.mpr
  have sent : ∃ msg ∈ contactMessages net i (lapPeer net.mode i),
      (msg.teacher, msg.learner) = lapContact net.mode i := by
    unfold contactMessages
    cases net.mode with
    | push => exact ⟨_, List.mem_cons_self, rfl⟩
    | pull => exact ⟨_, List.mem_cons_self, rfl⟩
    | pushPull => exact ⟨_, List.mem_cons_self, rfl⟩
  obtain ⟨msg, inside, told⟩ := sent
  exact List.mem_map.mpr ⟨msg, List.mem_flatMap.mpr ⟨0, List.mem_range.mpr positive, inside⟩, told⟩

theorem may_selectPeer {nodeId peer : Fin n} (other : peer ≠ nodeId) :
    May (gossipSelectPeer nodeId) (· = some peer) := by
  unfold gossipSelectPeer
  dsimp only
  have inside : peer ∈ (List.finRange n).filter fun i => i ≠ nodeId :=
    List.mem_filter.mpr ⟨List.mem_finRange peer, decide_eq_true other⟩
  rw [if_neg (Nat.ne_of_gt (List.length_pos_of_mem inside))]
  refine (may_draw (((List.finRange n).filter fun i => i ≠ nodeId).idxOf peer)).bind fun candidate drawn => ?_
  apply may_pure
  rw [drawn, Nat.mod_eq_of_lt (List.idxOf_lt_length_of_mem inside)]
  exact List.getElem?_idxOf inside

theorem may_sendRound (net : GossipNetwork n) {nodeId peer : Fin n} (other : peer ≠ nodeId) :
    May (gossipSendRound net nodeId) (· = { net with
      messageQueue := ((List.range net.fanout).flatMap fun _ => contactMessages net nodeId peer).foldl
        (Fifo.accept 255) net.messageQueue }) := by
  let after (rest : List Nat) (queue : List (GossipMessage n)) :=
    (rest.flatMap fun _ => contactMessages net nodeId peer).foldl (Fifo.accept 255) queue
  unfold gossipSendRound
  refine (may_foldlM _ (List.range net.fanout)
    (fun rest sent => ∃ queue, sent = { net with messageQueue := queue } ∧
      after rest queue = after (List.range net.fanout) net.messageQueue) ?_ ⟨net.messageQueue, rfl, rfl⟩).mono ?_
  · rintro passed item rest sent - ⟨queue, rfl, left⟩
    refine (may_selectPeer other).bind ?_
    rintro _ rfl
    refine may_pure ⟨_, gossipContact_eq _ nodeId peer, ?_⟩
    rw [← left]
    dsimp only [after]
    rw [List.flatMap_cons, List.foldl_append]
    rfl
  · rintro sent ⟨queue, rfl, all⟩
    rw [show queue = after [] queue from rfl, all]

theorem may_lap (two : 1 < n) (net : GossipNetwork n) :
    May ((List.finRange n).foldlM gossipSendRound net)
      (· = { net with messageQueue := (lapMessages net).foldl (Fifo.accept 255) net.messageQueue }) := by
  let after (rest : List (Fin n)) (queue : List (GossipMessage n)) :=
    (rest.flatMap fun i => (List.range net.fanout).flatMap fun _ =>
      contactMessages net i (lapPeer net.mode i)).foldl (Fifo.accept 255) queue
  have sends := may_foldlM gossipSendRound (List.finRange n)
    (fun rest sent => ∃ queue, sent = { net with messageQueue := queue } ∧
      after rest queue = after (List.finRange n) net.messageQueue) ?_ (b := net) ⟨net.messageQueue, rfl, rfl⟩
  · refine sends.mono ?_
    rintro sent ⟨queue, rfl, all⟩
    rw [show queue = after [] queue from rfl, all]
    rfl
  · rintro passed i rest sent - ⟨queue, rfl, left⟩
    have other : lapPeer net.mode i ≠ i := lapPeer_ne two i
    refine (may_sendRound { net with messageQueue := queue } other).mono ?_
    rintro _ rfl
    refine ⟨_, rfl, ?_⟩
    rw [← left]
    dsimp only [after]
    rw [List.flatMap_cons, List.foldl_append]
    rfl

end Laps

section Possible

open Circle Rumor

variable {log : Log n} {base : Fin n → Finset Nat} {first : Fin n} {laps : Nat} {net : GossipNetwork n}
  {owner : Int → Fin n}

/-- So many laps have been made since the nodes knew what is given. -/
structure Lapped (log : Log n) (base : Fin n → Finset Nat) (first : Fin n) (laps : Nat) (net : GossipNetwork n) :
    Prop where
  told : ∃ known, Replays net.items log known ∧
    (way (ahead (lapStart net.mode first)) (laps * n)).foldl tell base ≤ known
  tidy : ∀ i, Tidy (net.items i)
  quiet : net.messageQueue = []
  sends : 0 < net.fanout
  room : n * (net.fanout * net.mode.copies) ≤ 255

theorem foldl_spread (messages : List (GossipMessage n)) (known : Fin n → Finset Nat) :
    messages.foldl spread known = (messages.map fun msg => (msg.teacher, msg.learner)).foldl tell known := by
  rw [List.foldl_map]
  rfl

theorem processMessages_settings (messages : List (GossipMessage n)) (net : GossipNetwork n) :
    (messages.foldl processMessage net).mode = net.mode ∧ (messages.foldl processMessage net).fanout = net.fanout ∧
      (messages.foldl processMessage net).messageQueue = net.messageQueue := by
  induction messages generalizing net with
  | nil => exact ⟨rfl, rfl, rfl⟩
  | cons msg rest ih =>
    have kept : (processMessage net msg).mode = net.mode ∧ (processMessage net msg).fanout = net.fanout ∧
        (processMessage net msg).messageQueue = net.messageQueue := by
      unfold processMessage
      dsimp only
      split
      · exact ⟨rfl, rfl, rfl⟩
      · exact ⟨rfl, rfl, rfl⟩
    obtain ⟨mode, fanout, queue⟩ := ih (processMessage net msg)
    exact ⟨mode.trans kept.1, fanout.trans kept.2.1, queue.trans kept.2.2⟩

/-- When the queue is processed, the nodes know what its messages have told them. -/
theorem Replays.process {known : Fin n → Finset Nat} (replays : Replays net.items log known)
    (tidy : ∀ i, Tidy (net.items i)) (sends : 0 < net.fanout) (room : n * (net.fanout * net.mode.copies) ≤ 255)
    (told : (way (ahead (lapStart net.mode first)) (laps * n)).foldl tell base ≤
      net.messageQueue.foldl spread known) : Lapped log base first laps (gossipProcessRound net) := by
  have start : Replays ({ net with messageQueue := [] } : GossipNetwork n).items log known := replays
  obtain ⟨mode, fanout, queue⟩ := processMessages_settings net.messageQueue { net with messageQueue := [] }
  have sameMode : (gossipProcessRound net).mode = net.mode := mode
  have sameFanout : (gossipProcessRound net).fanout = net.fanout := fanout
  refine ⟨⟨_, start.messages tidy net.messageQueue, ?_⟩, tidy_step tidy .processRound, queue, ?_, ?_⟩
  · rw [sameMode]
    exact told
  · rw [sameFanout]
    exact sends
  · rw [sameMode, sameFanout]
    exact room

theorem Lapped.next (two : 1 < n) (zero : first.val = 0) (lapped : Lapped log base first laps net) :
    May ((List.finRange n).foldlM gossipSendRound net) fun sent =>
      Lapped log base first (laps + 1) (gossipProcessRound sent) := by
  obtain ⟨⟨known, replays, told⟩, tidy, quiet, sends, room⟩ := lapped
  refine (may_lap two net).mono ?_
  rintro _ rfl
  have whole : (lapMessages net).foldl (Fifo.accept 255) net.messageQueue = lapMessages net := by
    rw [quiet, Fifo.foldl_accept, List.nil_append]
    apply List.take_of_length_le
    rw [length_lapMessages]
    exact room
  rw [whole]
  let sent : GossipNetwork n := { net with messageQueue := lapMessages net }
  have replaysToo : Replays sent.items log known := replays
  refine replaysToo.process tidy sends room ?_
  rw [foldl_spread, way_laps, List.foldl_append, ← map_lapContact zero]
  exact foldl_le_foldl told (lap_sublist sends)

/-- After two laps, all nodes know all writes. -/
theorem Lapped.agree (lapped : Lapped log base first laps net) (two : 2 ≤ laps) (regular : Regular owner log)
    (complete : ∀ who, History.Complete Prod.fst log who (base who)) : Agree net := by
  obtain ⟨known, ⟨system, replayed, sameLog, held⟩, told⟩ := lapped.told
  have answers : ∀ i key value, gossipGetState (net.nodes i) key = some value ↔
      Last log (Finset.range log.length) key value := by
    intro i key value
    have described := (((gossip_described owner).consistent replayed).held i).sound.described
    rw [held, sameLog] at described
    refine (regular.find_iff (described regular)).trans (Last.congr fun j written => ?_)
    obtain ⟨entry, found, named⟩ := Option.map_eq_some_iff.mp written
    have made : j < log.length := (List.getElem?_eq_some_iff.mp found).1
    have passed : base entry.1 ≤ known i := by
      have round : (way (ahead (lapStart net.mode first)) (2 * n)).Sublist
          (way (ahead (lapStart net.mode first)) (laps * n)) := by
        rw [way, way]
        exact (List.range_sublist.mpr (Nat.mul_le_mul_right n two)).map _
      exact (le_twoLaps i entry.1).trans ((foldl_le_foldl (le_refl base) round i).trans (told i))
    exact iff_of_true (passed (complete entry.1 j (by rw [found]; rfl))) (Finset.mem_range.mpr made)
  intro i j key
  apply Option.ext
  intro value
  exact (answers i key value).trans (answers j key value).symm

theorem Lapped.may_end (two : 1 < n) (zero : first.val = 0) (regular : Regular owner log)
    (complete : ∀ who, History.Complete Prod.fst log who (base who)) {left : Nat} (r : Nat)
    (lapped : Lapped log base first laps net) (enough : 3 ≤ laps + left) (positive : 0 < left) :
    May (gossipRoundsToConverge net r left) fun result => result.1.isSome := by
  induction left generalizing net r laps with
  | zero => exact absurd positive (Nat.lt_irrefl 0)
  | succ left ih =>
    unfold gossipRoundsToConverge
    split
    next => exact may_pure rfl
    next unsettled =>
      have few : laps < 2 := by
        apply Nat.lt_of_not_le
        intro enough
        exact unsettled ((gossipConverged_iff lapped.tidy).mpr (lapped.agree enough regular complete))
      exact (lapped.next two zero).bind fun sent later => ih (r + 1) later (by omega) (by omega)

theorem step_fanout (net : GossipNetwork n) (call : GossipCall n) : (gossipStep net call).fanout = net.fanout := by
  cases call with
  | update who key value => rfl
  | sendRound who numbers =>
    obtain ⟨queue, sent⟩ := sendRound_frame net who numbers
    rw [gossipStep, sent]
  | processRound => exact (processMessages_settings net.messageQueue { net with messageQueue := [] }).2.1

theorem Traced.step_network (traced : Traced n) (call : GossipCall n) :
    (traced.step call).network = gossipStep traced.network call := by
  cases call with
  | update who key value => rfl
  | sendRound who numbers => rfl
  | processRound => rfl

/-- Every node reaches at least one peer in a round. -/
theorem fanout_pos_of_reaches {mode : GossipMode} {fanout : Int} {traced : Traced n}
    (reached : Reaches Traced.step Always (.start (gossipInitNetwork n mode fanout)) traced) :
    0 < traced.network.fanout := by
  apply reached.invariant (motive := fun traced => 0 < traced.network.fanout)
  · show 0 < if fanout > 0 then fanout.toNat else 3
    split
    · omega
    · decide
  · intro traced call positive _
    rw [traced.step_network, step_fanout]
    exact positive

theorem Replays.complete {traced : Traced n} (replays : Replays traced.network.items traced.log traced.known)
    (who : Fin n) : History.Complete Prod.fst traced.log who (traced.known who) := by
  obtain ⟨system, replayed, sameLog, held⟩ := replays
  have own := (((gossip_described fun _ => who).consistent replayed).held who).complete
  rwa [held, sameLog] at own

/-- From every state that a run reaches in which each key is written by one node, four rounds can be enough to make
all nodes agree, if the messages of a round fit into the queue. -/
theorem gossip_may_converge {mode : GossipMode} {fanout : Int} {traced : Traced n}
    (reached : Reaches Traced.step Always (.start (gossipInitNetwork n mode fanout)) traced)
    (regular : Regular owner traced.log)
    (room : n * (traced.network.fanout * traced.network.mode.copies) ≤ 255) {maxRounds : Nat}
    (enough : 4 ≤ maxRounds) :
    ∃ numbers, (gossipRoundsToConverge traced.network 0 maxRounds numbers).1.1.isSome := by
  obtain ⟨replays, tidy⟩ := replays_of_reaches reached
  have sends := fanout_pos_of_reaches reached
  have complete := Replays.complete replays
  suffices may : May (gossipRoundsToConverge traced.network 0 maxRounds) fun result => result.1.isSome from may.exists
  obtain ⟨more, rfl⟩ : ∃ more, maxRounds = more + 1 := ⟨maxRounds - 1, by omega⟩
  unfold gossipRoundsToConverge
  split
  next => exact may_pure rfl
  next unsettled =>
    have two : 1 < n := by
      apply Nat.lt_of_not_le
      intro few
      apply unsettled
      apply (gossipConverged_iff tidy).mpr
      intro i j key
      rw [show i = j from Fin.ext (by omega)]
    refine (may_lap two traced.network).bind ?_
    rintro _ rfl
    let sent : GossipNetwork n :=
      { traced.network with
        messageQueue := (lapMessages traced.network).foldl (Fifo.accept 255) traced.network.messageQueue }
    have replaysToo : Replays sent.items traced.log traced.known := replays
    have lapped : Lapped traced.log traced.known ⟨0, Nat.lt_trans Nat.zero_lt_one two⟩ 0 (gossipProcessRound sent) := by
      apply replaysToo.process tidy sends room
      rw [Nat.zero_mul, foldl_spread]
      exact le_foldl _ _
    exact lapped.may_end two rfl regular complete 1 (by omega) (by omega)

theorem pushedRun_may_converge : ∃ numbers, (gossipRoundsToConverge
    ((pushedRun 0).foldl Traced.step (.start (gossipInitNetwork 2 .push 1))).network 0 4 numbers).1.1.isSome := by
  have regular : Regular (fun _ => (0 : Fin 2)) [(0, ⟨7, 5⟩), (0, ⟨7, 6⟩)] :=
    ⟨by decide, ⟨{7}, by decide, by decide⟩, by decide⟩
  exact gossip_may_converge (.ofFold (pushedRun 0)) regular (by decide) (Nat.le_refl 4)

end Possible

end MiniNetDist.SystemTheory.Gossip
