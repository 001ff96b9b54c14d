import SE4VM.Foundation.Memory

/-!
# The incoming queue of a network client

A packet goes straight to the receiver or waits in the queue until a flush.  The
receiver's answers are functions of everything that has happened, so they may
change from one question to the next.  Its receive handlers may send on the same
queue, and a sent callback may make any calls.
-/

namespace SE4VM.Net

open SE4VM.Foundation

/-! ## Packets, calls and the history -/

/-- What is passed to `qemu_net_queue_send`; `peer` says that the sender has one. -/
structure Message where
  peer : Bool
  flags : U32
  data : List U8
  sentCb : Bool
  deriving DecidableEq, Repr

/-- A queued packet; `id` is its place among all packets passed to send. -/
structure NetPacket extends Message where
  id : Nat
  size : U32
  deriving DecidableEq, Repr

def Message.packet (m : Message) (id : Nat) : NetPacket :=
  { m with id := id, size := BitVec.ofNat 32 m.data.length }

structure Reply where
  ret : U64
  sends : List Message
  deriving DecidableEq, Repr

inductive Path where
  | direct
  | flush
  deriving DecidableEq, Repr

inductive Event where
  | asked (answer : Bool)
  /-- The receive handler has been given packet `id` with `ahead` packets in the queue. -/
  | received (id : Nat) (path : Path) (ahead : Nat) (reply : Reply)
  | delivered (id : Nat) (path : Path) (ret : U64)
  /-- Packet `id` has been dropped with `waiting` packets in the queue. -/
  | dropped (id waiting : Nat)
  | sentCb (id : Nat) (ret : U64)
  deriving DecidableEq, Repr

/-- `setClient` is an assignment to the flags of the receiving client from elsewhere. -/
inductive Call where
  | send (m : Message)
  | flush
  | setClient (linkDown receiveDisabled : Bool)
  deriving DecidableEq, Repr

structure NetClientInfo where
  canReceive : Option (List Event → Bool)
  receive : List Event → List U8 → U64 → Reply
  receiveRaw : Option (List Event → List U8 → U64 → Reply)
  sentCb : List Event → NetPacket → U64 → List Call

structure NetState where
  nqMaxlen : U32
  nqCount : U32
  packets : List NetPacket
  delivering : Bool
  linkDown : Bool
  receiveDisabled : Bool
  sent : List Message
  log : List Event
  deriving DecidableEq, Repr

def netPacketFlagRaw : U32 := 1

/-- `qemu_new_net_queue`, for any limit and any state of the client. -/
def NetState.start (nqMaxlen : U32) (linkDown receiveDisabled : Bool) : NetState :=
  ⟨nqMaxlen, 0, [], false, linkDown, receiveDisabled, [], []⟩

def NetState.emit (s : NetState) (e : Event) : NetState := { s with log := s.log ++ [e] }

def NetState.stamp (s : NetState) (m : Message) : NetState := { s with sent := s.sent ++ [m] }

/-! ## Sending and flushing -/

def qemuNetQueueAppend (id : Nat) (m : Message) (s : NetState) : NetState :=
  if s.nqMaxlen ≤ s.nqCount ∧ m.sentCb = false then s.emit (.dropped id s.packets.length)
  else { s with nqCount := s.nqCount + 1, packets := s.packets ++ [m.packet id] }

def enqueue (s : NetState) (m : Message) : NetState :=
  qemuNetQueueAppend s.sent.length m (s.stamp m)

def NetClientInfo.answer (c : NetClientInfo) (flags : U32) :
    List Event → List U8 → U64 → Reply :=
  match c.receiveRaw with
  | some receiveRaw => if flags &&& netPacketFlagRaw ≠ 0#32 then receiveRaw else c.receive
  | none => c.receive

def qemuDeliverPacket (c : NetClientInfo) (path : Path) (id : Nat) (m : Message) (size : U64)
    (s : NetState) : U64 × NetState :=
  if s.linkDown then (size, s)
  else if s.receiveDisabled then (0#64, s)
  else
    let reply := c.answer m.flags s.log m.data size
    -- `delivering` is set, so what the handler sends is appended
    let s' := (reply.sends.foldl enqueue s).emit (.received id path s.packets.length reply)
    (reply.ret, if reply.ret = 0#64 then { s' with receiveDisabled := true } else s')

def qemuNetQueueDeliver (c : NetClientInfo) (path : Path) (id : Nat) (m : Message) (size : U64)
    (s : NetState) : U64 × NetState :=
  let r := qemuDeliverPacket c path id m size { s with delivering := true }
  (r.1, { r.2 with delivering := false }.emit (.delivered id path r.1))

def qemuCanSendPacket (c : NetClientInfo) (m : Message) (s : NetState) : Bool × NetState :=
  if !m.peer then (true, s)
  else if s.receiveDisabled then (false, s)
  else match c.canReceive with
    | some canReceive => (canReceive s.log, s.emit (.asked (canReceive s.log)))
    | none => (true, s)

def sendDirect (c : NetClientInfo) (m : Message) (s : NetState) : U64 × NetState :=
  let r := qemuNetQueueDeliver c .direct s.sent.length m (BitVec.ofNat 64 m.data.length)
    (s.stamp m)
  (r.1, if r.1 = 0#64 then qemuNetQueueAppend s.sent.length m r.2 else r.2)

section Calls

variable (c : NetClientInfo) (flush : NetState → Option Bool × NetState)

/-- `qemu_net_queue_send`, given the flush it ends with; `none` is a flush that is still busy. -/
def qemuNetQueueSend (m : Message) (s : NetState) : Option U64 × NetState :=
  if s.delivering then (some 0, enqueue s m)
  else
    let can := qemuCanSendPacket c m s
    if !can.1 then (some 0, enqueue can.2 m)
    else
      let r := sendDirect c m can.2
      if r.1 = 0#64 then (some 0, r.2)
      else
        let f := flush r.2
        (f.1.map fun _ => r.1, f.2)

def call (s : NetState) : Call → Option Unit × NetState
  | .send m =>
      let r := qemuNetQueueSend c flush m s
      (r.1.map fun _ => (), r.2)
  | .flush =>
      let r := flush s
      (r.1.map fun _ => (), r.2)
  | .setClient linkDown receiveDisabled =>
      (some (), { s with linkDown := linkDown, receiveDisabled := receiveDisabled })

def calls : List Call → NetState → Option Unit × NetState
  | [], s => (some (), s)
  | k :: ks, s =>
      let r := call c flush s k
      match r.1 with
      | some _ => calls ks r.2
      | none => (none, r.2)

end Calls

/-- What a flush does with a delivered packet: it is put back if the answer is zero as an
`int`, else its sender is told. -/
def settle (p : NetPacket) (ret : U32) (s : NetState) : NetState :=
  if ret = 0#32 then { s with nqCount := s.nqCount + 1, packets := p :: s.packets }
  else if p.sentCb then s.emit (.sentCb p.id (ret.signExtend 64))
  else s

def flushHead (c : NetClientInfo) (p : NetPacket) (rest : List NetPacket) (s : NetState) :
    U32 × NetState :=
  let r := qemuNetQueueDeliver c .flush p.id p.toMessage (p.size.signExtend 64)
    { s with packets := rest, nqCount := s.nqCount - 1 }
  (r.1.setWidth 32, settle p (r.1.setWidth 32) r.2)

/-- `none` is a flush that is still busy; the state is then the one it has come to. -/
def qemuNetQueueFlush (c : NetClientInfo) : Nat → NetState → Option Bool × NetState
  | 0, s => (none, s)
  | fuel + 1, s =>
      match s.packets with
      | [] => (some true, s)
      | p :: rest =>
          let r := flushHead c p rest s
          if r.1 = 0#32 then (some false, r.2)
          else
            let ks := if p.sentCb then c.sentCb r.2.log p (r.1.signExtend 64) else []
            let cb := calls c (qemuNetQueueFlush c fuel) ks r.2
            match cb.1 with
            | some _ => qemuNetQueueFlush c fuel cb.2
            | none => (none, cb.2)

def run (c : NetClientInfo) (fuel : Nat) (ks : List Call) (s : NetState) :
    Option Unit × NetState :=
  calls c (qemuNetQueueFlush c fuel) ks s

/-! ## What a delivery does -/

theorem enqueue_delivering (s : NetState) (m : Message) (delivering : Bool) :
    enqueue { s with delivering := delivering } m =
      { enqueue s m with delivering := delivering } := by
  by_cases hfull : s.nqMaxlen ≤ s.nqCount ∧ m.sentCb = false <;>
    simp [enqueue, NetState.stamp, qemuNetQueueAppend, NetState.emit, hfull]

theorem foldl_enqueue_delivering (ms : List Message) (s : NetState) (delivering : Bool) :
    ms.foldl enqueue { s with delivering := delivering } =
      { ms.foldl enqueue s with delivering := delivering } := by
  induction ms generalizing s with
  | nil => rfl
  | cons m ms ih => rw [List.foldl_cons, enqueue_delivering, ih, List.foldl_cons]

@[simp] theorem sent_append (id : Nat) (m : Message) (s : NetState) :
    (qemuNetQueueAppend id m s).sent = s.sent := by
  unfold qemuNetQueueAppend
  split_ifs <;> rfl

theorem length_sent_enqueue (s : NetState) (m : Message) :
    (enqueue s m).sent.length = s.sent.length + 1 := by
  simp [enqueue, NetState.stamp]

def NetState.replied (s : NetState) (path : Path) (id : Nat) (reply : Reply) : NetState :=
  ((reply.sends.foldl enqueue s).emit (.received id path s.packets.length reply)).emit
    (.delivered id path reply.ret)

theorem log_prefix_emit (s : NetState) (e : Event) : s.log <+: (s.emit e).log :=
  List.prefix_append _ _

theorem log_prefix_append (id : Nat) (m : Message) (s : NetState) :
    s.log <+: (qemuNetQueueAppend id m s).log := by
  unfold qemuNetQueueAppend
  split_ifs
  · exact log_prefix_emit s _
  · exact List.prefix_rfl

theorem log_prefix_enqueueAll (ms : List Message) (s : NetState) :
    s.log <+: (ms.foldl enqueue s).log := by
  induction ms generalizing s with
  | nil => exact List.prefix_rfl
  | cons m ms ih => exact (log_prefix_append _ m (s.stamp m)).trans (ih (enqueue s m))

theorem log_prefix_replied (s : NetState) (path : Path) (id : Nat) (reply : Reply) :
    s.log <+: (s.replied path id reply).log :=
  (log_prefix_enqueueAll reply.sends s).trans
    ((log_prefix_emit _ _).trans (log_prefix_emit _ _))

theorem qemuNetQueueDeliver_cases (c : NetClientInfo) (path : Path) (id : Nat) (m : Message)
    (size : U64) (s : NetState) :
    (∃ ret, (ret = 0#64 ∨ ret = size) ∧ qemuNetQueueDeliver c path id m size s =
      (ret, { s with delivering := false }.emit (.delivered id path ret))) ∨
    ∃ reply disabled, reply = c.answer m.flags s.log m.data size ∧
      qemuNetQueueDeliver c path id m size s = (reply.ret, { s.replied path id reply with
        delivering := false, receiveDisabled := disabled }) := by
  simp only [qemuNetQueueDeliver, qemuDeliverPacket]
  split_ifs with hdown hdisabled hret
  · exact .inl ⟨size, .inr rfl, rfl⟩
  · exact .inl ⟨0, .inl rfl, rfl⟩
  · refine .inr ⟨c.answer m.flags s.log m.data size, true, rfl, ?_⟩
    rw [foldl_enqueue_delivering]
    rfl
  · refine .inr ⟨c.answer m.flags s.log m.data size,
      ((c.answer m.flags s.log m.data size).sends.foldl enqueue s).receiveDisabled, rfl, ?_⟩
    rw [foldl_enqueue_delivering]
    rfl

theorem log_prefix_deliver (c : NetClientInfo) (path : Path) (id : Nat) (m : Message)
    (size : U64) (s : NetState) :
    s.log <+: (qemuNetQueueDeliver c path id m size s).2.log := by
  rcases qemuNetQueueDeliver_cases c path id m size s with
    ⟨ret, -, hr⟩ | ⟨reply, disabled, -, hr⟩
  · rw [hr]
    exact log_prefix_emit _ _
  · rw [hr]
    exact log_prefix_replied s path id reply

theorem log_prefix_sendDirect (c : NetClientInfo) (m : Message) (s : NetState) :
    s.log <+: (sendDirect c m s).2.log := by
  have hdeliver := log_prefix_deliver c .direct s.sent.length m
    (BitVec.ofNat 64 m.data.length) (s.stamp m)
  simp only [sendDirect]
  split_ifs
  · exact hdeliver.trans (log_prefix_append _ _ _)
  · exact hdeliver

theorem log_prefix_flushHead (c : NetClientInfo) (p : NetPacket) (rest : List NetPacket)
    (s : NetState) : s.log <+: (flushHead c p rest s).2.log := by
  have hdeliver := log_prefix_deliver c .flush p.id p.toMessage (p.size.signExtend 64)
    { s with packets := rest, nqCount := s.nqCount - 1 }
  simp only [flushHead, settle]
  split_ifs
  · exact hdeliver
  · exact hdeliver.trans (log_prefix_emit _ _)
  · exact hdeliver

/-! ## Invariants of all runs -/

structure Keeps (c : NetClientInfo) (P : NetState → Prop) : Prop where
  enqueue : ∀ s m, P s → P (enqueue s m)
  asked : ∀ s answer, P s → P (s.emit (.asked answer))
  direct : ∀ s m, P s → P (sendDirect c m s).2
  head : ∀ s p rest, s.packets = p :: rest → P s → P (flushHead c p rest s).2
  setClient : ∀ s linkDown receiveDisabled, P s →
    P { s with linkDown := linkDown, receiveDisabled := receiveDisabled }

namespace Keeps

variable {c : NetClientInfo} {P : NetState → Prop} {flush : NetState → Option Bool × NetState}

theorem canSend (hP : Keeps c P) (m : Message) {s : NetState} (hs : P s) :
    P (qemuCanSendPacket c m s).2 := by
  simp only [qemuCanSendPacket]
  split_ifs
  · exact hs
  · exact hs
  · split
    · exact hP.asked s _ hs
    · exact hs

theorem send (hP : Keeps c P) (hflush : ∀ s, P s → P (flush s).2) (m : Message)
    {s : NetState} (hs : P s) : P (qemuNetQueueSend c flush m s).2 := by
  have hcan := hP.canSend m hs
  simp only [qemuNetQueueSend]
  split_ifs
  · exact hP.enqueue s m hs
  · exact hP.enqueue _ m hcan
  · exact hP.direct _ m hcan
  · exact hflush _ (hP.direct _ m hcan)

theorem call (hP : Keeps c P) (hflush : ∀ s, P s → P (flush s).2) (k : Call)
    {s : NetState} (hs : P s) : P (Net.call c flush s k).2 := by
  cases k with
  | send m => exact hP.send hflush m hs
  | flush => exact hflush s hs
  | setClient linkDown receiveDisabled => exact hP.setClient s _ _ hs

theorem calls (hP : Keeps c P) (hflush : ∀ s, P s → P (flush s).2) (ks : List Call)
    {s : NetState} (hs : P s) : P (Net.calls c flush ks s).2 := by
  induction ks generalizing s with
  | nil => exact hs
  | cons k ks ih =>
      have hk := hP.call hflush k hs
      simp only [Net.calls]
      split
      · exact ih hk
      · exact hk

theorem flushAll (hP : Keeps c P) (fuel : Nat) {s : NetState} (hs : P s) :
    P (qemuNetQueueFlush c fuel s).2 := by
  induction fuel generalizing s with
  | zero => exact hs
  | succ fuel ih =>
      simp only [qemuNetQueueFlush]
      split
      · exact hs
      · next p rest hpackets =>
          have hhead := hP.head s p rest hpackets hs
          -- the flushes that a callback starts have less fuel as well
          have hcb := hP.calls (fun s => ih) (if p.sentCb then
            c.sentCb (flushHead c p rest s).2.log p ((flushHead c p rest s).1.signExtend 64)
            else []) hhead
          split
          · exact hhead
          · split
            · exact ih hcb
            · exact hcb

theorem run (hP : Keeps c P) (fuel : Nat) (ks : List Call) {s : NetState} (hs : P s) :
    P (Net.run c fuel ks s).2 :=
  hP.calls (fun _ => hP.flushAll fuel) ks hs

end Keeps

end SE4VM.Net
