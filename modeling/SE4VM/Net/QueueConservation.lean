import SE4VM.Net.Queue
import Mathlib.Order.Basic

/-!
# Where the packets of a queue are

Every packet passed to send is consumed, queued or dropped, once.  A flush keeps
the answer of the handler as an `int`: a non-zero multiple of `2^32` is taken for a
refusal, and the packet is queued again although it has been consumed.
-/

namespace SE4VM.Net

open SE4VM.Foundation

/-! ## Counting events -/

namespace Event

def consumes (id : Nat) : Event → Bool
  | .delivered i _ ret => i == id && ret != 0#64
  | _ => false

def flushes (id : Nat) : Event → Bool
  | .delivered i .flush ret => i == id && ret != 0#64
  | _ => false

def drops (id : Nat) : Event → Bool
  | .dropped i _ => i == id
  | _ => false

def callsBack (id : Nat) : Event → Bool
  | .sentCb i _ => i == id
  | _ => false

/-- A flush takes a non-zero answer for zero. -/
def truncates (id : Nat) : Event → Bool
  | .received i .flush _ reply =>
      i == id && reply.ret != 0#64 && reply.ret.setWidth 32 == 0#32
  | _ => false

def Silent (e : Event) : Prop :=
  ∀ id, e.consumes id = false ∧ e.flushes id = false ∧ e.drops id = false ∧
    e.callsBack id = false ∧ e.truncates id = false

theorem silent_asked (answer : Bool) : (asked answer).Silent :=
  fun _ => ⟨rfl, rfl, rfl, rfl, rfl⟩

theorem silent_received_direct (i ahead : Nat) (reply : Reply) :
    (received i .direct ahead reply).Silent :=
  fun _ => ⟨rfl, rfl, rfl, rfl, rfl⟩

theorem silent_received_flush (i ahead : Nat) {reply : Reply}
    (hfits : reply.ret.setWidth 32 = 0#32 → reply.ret = 0#64) :
    (received i .flush ahead reply).Silent := by
  intro id
  refine ⟨rfl, rfl, rfl, rfl, ?_⟩
  by_cases hret : reply.ret = 0#64
  · simp [truncates, hret]
  · simp [truncates, mt hfits hret]

theorem silent_delivered_refused (i : Nat) (path : Path) :
    (delivered i path 0#64).Silent := by
  intro id
  cases path <;> simp [consumes, flushes, drops, callsBack, truncates]

end Event

/-- Each packet passed to send is in one place, with its callback run if it was flushed. -/
structure Conserved (s : NetState) : Prop where
  places : ∀ id < s.sent.length, s.log.countP (Event.consumes id) +
    (s.packets.map NetPacket.id).count id + s.log.countP (Event.drops id) = 1
  messages : ∀ p ∈ s.packets, s.sent[p.id]? = some p.toMessage
  dropped : ∀ id waiting, .dropped id waiting ∈ s.log →
    (∃ m, s.sent[id]? = some m ∧ m.sentCb = false) ∧ s.nqMaxlen.toNat ≤ waiting
  nqCount : s.nqCount.toNat = s.packets.length
  callbacks : ∀ id m, s.sent[id]? = some m → s.log.countP (Event.callsBack id) =
    if m.sentCb ∧ ∃ e ∈ s.log, e.flushes id then 1 else 0

/-- No handler answers a flush with a non-zero multiple of `2^32`. -/
def FitsInt (log : List Event) : Prop :=
  ∀ id ahead reply, .received id .flush ahead reply ∈ log →
    reply.ret.setWidth 32 = 0#32 → reply.ret = 0#64

theorem signExtend_eq_zero (x : U32) (h : (x.signExtend 64).setWidth 32 = 0#32) :
    x.signExtend 64 = 0#64 := by
  have hx : x = 0#32 := by
    rw [← h]
    ext i hi
    simp [BitVec.getElem_signExtend, hi, show i < 64 by omega]
  rw [hx]
  rfl

/-! ## The account -/

/-- The account at any moment, with the packets in flight and the answers taken for zero. -/
structure Accounted (fly : List Nat) (s : NetState) : Prop where
  places : ∀ id, s.log.countP (Event.consumes id) +
      (s.packets.map NetPacket.id).count id + s.log.countP (Event.drops id) + fly.count id =
    (if id < s.sent.length then 1 else 0) + s.log.countP (Event.truncates id)
  unsent : ∀ id, s.sent.length ≤ id → ∀ e ∈ s.log,
    e.consumes id = false ∧ e.callsBack id = false ∧ e.truncates id = false
  messages : ∀ p ∈ s.packets, s.sent[p.id]? = some p.toMessage
  dropped : ∀ id waiting, .dropped id waiting ∈ s.log →
    (∃ m, s.sent[id]? = some m ∧ m.sentCb = false) ∧ s.nqMaxlen.toNat ≤ waiting
  nqCount : s.nqCount = BitVec.ofNat 32 s.packets.length
  callbacks : ∀ id m, s.sent[id]? = some m → s.log.countP (Event.callsBack id) +
      (if m.sentCb then s.log.countP (Event.truncates id) else 0) =
    if m.sentCb then s.log.countP (Event.flushes id) else 0

theorem consumes_of_flushes {id : Nat} {e : Event} (h : e.flushes id = true) :
    e.consumes id = true := by
  match e with
  | .delivered _ .flush _ => exact h

theorem sent_stamp {s : NetState} {id : Nat} {m : Message} (h : s.sent[id]? = some m)
    (m' : Message) : (s.stamp m').sent[id]? = some m :=
  (List.getElem?_append_left (List.getElem?_eq_some_iff.mp h).1).trans h

theorem sent_enqueueAll {s : NetState} {id : Nat} {m : Message} (h : s.sent[id]? = some m)
    (ms : List Message) : (ms.foldl enqueue s).sent[id]? = some m := by
  induction ms generalizing s with
  | nil => exact h
  | cons m' ms ih =>
      apply ih
      rw [enqueue, sent_append]
      exact sent_stamp h m'

namespace Accounted

variable {fly : List Nat} {s : NetState}

theorem start (nqMaxlen : U32) (linkDown disabled : Bool) :
    Accounted [] (.start nqMaxlen linkDown disabled) := by
  constructor <;> simp [NetState.start]

theorem withFlags (h : Accounted fly s) (delivering linkDown receiveDisabled : Bool) :
    Accounted fly { s with
      delivering := delivering, linkDown := linkDown, receiveDisabled := receiveDisabled } :=
  ⟨h.places, h.unsent, h.messages, h.dropped, h.nqCount, h.callbacks⟩

theorem countP_unsent (h : Accounted fly s) {id : Nat} (hid : s.sent.length ≤ id) :
    s.log.countP (Event.consumes id) = 0 ∧ s.log.countP (Event.flushes id) = 0 ∧
      s.log.countP (Event.callsBack id) = 0 ∧ s.log.countP (Event.truncates id) = 0 := by
  have hun := h.unsent id hid
  refine ⟨?_, ?_, ?_, ?_⟩ <;> rw [List.countP_eq_zero] <;> intro e he
  · simp [(hun e he).1]
  · intro hf
    exact Bool.false_ne_true ((hun e he).1.symm.trans (consumes_of_flushes hf))
  · simp [(hun e he).2.1]
  · simp [(hun e he).2.2]

theorem lt_of_mem_fly (h : Accounted fly s) {id : Nat} (hid : id ∈ fly) :
    id < s.sent.length := by
  by_contra hle
  have hplaces := h.places id
  have hcount := List.count_pos_iff.mpr hid
  rw [if_neg hle, (h.countP_unsent (Nat.le_of_not_lt hle)).2.2.2] at hplaces
  omega

theorem stamp (h : Accounted fly s) (m : Message) :
    Accounted (s.sent.length :: fly) (s.stamp m) where
  places id := by
    have hplaces := h.places id
    simp only [NetState.stamp, List.length_append, List.length_singleton, List.count_cons,
      beq_iff_eq]
    split_ifs at hplaces ⊢ <;> omega
  unsent id hid := h.unsent id (by simp [NetState.stamp] at hid; omega)
  messages p hp := sent_stamp (h.messages p hp) m
  dropped id waiting hmem := by
    obtain ⟨⟨m', hm', hcb⟩, hfull⟩ := h.dropped id waiting hmem
    exact ⟨⟨m', sent_stamp hm' m, hcb⟩, hfull⟩
  nqCount := h.nqCount
  callbacks id m' hm' := by
    by_cases hid : id < s.sent.length
    · rw [NetState.stamp, List.getElem?_append_left hid] at hm'
      exact h.callbacks id m' hm'
    · obtain ⟨-, hf, hcb, ht⟩ := h.countP_unsent (Nat.le_of_not_lt hid)
      simp [NetState.stamp, hf, hcb, ht]

/-- New events, and packets that move between the flight, the queue and the log. -/
theorem extend (h : Accounted fly s) {s' : NetState} {fly' : List Nat} (es : List Event)
    (hsent : s'.sent = s.sent) (hmaxlen : s'.nqMaxlen = s.nqMaxlen)
    (hlog : s'.log = s.log ++ es)
    (hplaces : ∀ id, es.countP (Event.consumes id) + (s'.packets.map NetPacket.id).count id +
        es.countP (Event.drops id) + fly'.count id =
      (s.packets.map NetPacket.id).count id + fly.count id + es.countP (Event.truncates id))
    (hunsent : ∀ id, s.sent.length ≤ id → ∀ e ∈ es,
      e.consumes id = false ∧ e.callsBack id = false ∧ e.truncates id = false)
    (hmessages : ∀ p ∈ s'.packets, s.sent[p.id]? = some p.toMessage)
    (hdropped : ∀ id waiting, .dropped id waiting ∈ es →
      (∃ m, s.sent[id]? = some m ∧ m.sentCb = false) ∧ s.nqMaxlen.toNat ≤ waiting)
    (hnqCount : s'.nqCount = BitVec.ofNat 32 s'.packets.length)
    (hcallbacks : ∀ id m, s.sent[id]? = some m → es.countP (Event.callsBack id) +
        (if m.sentCb then es.countP (Event.truncates id) else 0) =
      if m.sentCb then es.countP (Event.flushes id) else 0) :
    Accounted fly' s' where
  places id := by
    have hold := h.places id
    have hnew := hplaces id
    rw [hsent, hlog]
    simp only [List.countP_append]
    omega
  unsent id hid e he := by
    rw [hsent] at hid
    rw [hlog, List.mem_append] at he
    exact he.elim (h.unsent id hid e) (hunsent id hid e)
  messages p hp := hsent ▸ hmessages p hp
  dropped id waiting hmem := by
    rw [hsent, hmaxlen]
    rw [hlog, List.mem_append] at hmem
    exact hmem.elim (h.dropped id waiting) (hdropped id waiting)
  nqCount := hnqCount
  callbacks id m hm := by
    rw [hsent] at hm
    have hold := h.callbacks id m hm
    have hnew := hcallbacks id m hm
    rw [hlog]
    cases hcb : m.sentCb with
    | false =>
        simp only [hcb, List.countP_append, Bool.false_eq_true, if_false] at hold hnew ⊢
        omega
    | true =>
        simp only [hcb, List.countP_append, if_true] at hold hnew ⊢
        rw [Nat.add_add_add_comm, hold, hnew]

theorem move (h : Accounted fly s) {ps : List NetPacket} {fly' : List Nat} {n : U32}
    (hplaces : ∀ id, (ps.map NetPacket.id).count id + fly'.count id =
      (s.packets.map NetPacket.id).count id + fly.count id)
    (hmessages : ∀ p ∈ ps, s.sent[p.id]? = some p.toMessage)
    (hn : n = BitVec.ofNat 32 ps.length) :
    Accounted fly' { s with nqCount := n, packets := ps } := by
  refine h.extend [] rfl rfl (List.append_nil _).symm ?_ ?_ hmessages ?_ hn ?_
  · intro id
    simpa using hplaces id
  · simp
  · simp
  · simp

theorem append {id : Nat} {m : Message} (h : Accounted (id :: fly) s)
    (hm : s.sent[id]? = some m) : Accounted fly (qemuNetQueueAppend id m s) := by
  unfold qemuNetQueueAppend
  split_ifs with hfull
  · refine h.extend [_] rfl rfl rfl ?_ ?_ h.messages ?_ h.nqCount ?_
    · intro i
      simp [NetState.emit, Event.consumes, Event.drops, Event.truncates, List.countP_cons,
        List.count_cons]
      omega
    · simp [Event.consumes, Event.callsBack, Event.truncates]
    · intro i waiting hi
      obtain ⟨rfl, rfl⟩ : i = id ∧ waiting = s.packets.length := by simpa using hi
      have hlen : s.nqCount.toNat ≤ s.packets.length := by
        rw [h.nqCount, BitVec.toNat_ofNat]
        exact Nat.mod_le _ _
      exact ⟨⟨m, hm, hfull.2⟩, (BitVec.le_def.mp hfull.1).trans hlen⟩
    · simp [Event.flushes, Event.callsBack, Event.truncates]
  · refine h.move ?_ ?_ ?_
    · intro i
      simp [Message.packet, List.count_cons]
      omega
    · intro p hp
      rcases List.mem_append.mp hp with hp | hp
      · exact h.messages p hp
      · rw [List.mem_singleton.mp hp]
        exact hm
    · rw [List.length_append, BitVec.ofNat_add, h.nqCount]
      rfl

theorem enqueue (h : Accounted fly s) (m : Message) : Accounted fly (enqueue s m) :=
  (h.stamp m).append (by simp [NetState.stamp])

theorem enqueueAll (h : Accounted fly s) (ms : List Message) :
    Accounted fly (ms.foldl Net.enqueue s) := by
  induction ms generalizing s with
  | nil => exact h
  | cons m ms ih => exact ih (h.enqueue m)

theorem emit (h : Accounted fly s) {e : Event} (he : e.Silent) : Accounted fly (s.emit e) := by
  refine h.extend [_] rfl rfl rfl ?_ ?_ h.messages ?_ h.nqCount ?_
  · intro id
    obtain ⟨hc, hf, hd, hcb, ht⟩ := he id
    simp [NetState.emit, hc, hd, ht]
  · intro id _ e' he'
    obtain ⟨hc, hf, hd, hcb, ht⟩ := he id
    rw [List.mem_singleton.mp he']
    exact ⟨hc, hcb, ht⟩
  · intro id waiting hmem
    obtain ⟨hc, hf, hd, hcb, ht⟩ := he id
    rw [← List.mem_singleton.mp hmem] at hd
    simp [Event.drops] at hd
  · intro id m _
    obtain ⟨hc, hf, hd, hcb, ht⟩ := he id
    simp [hf, hcb, ht]

/-- A packet that is consumed is no longer in flight, and its callback runs if it was
consumed by a flush. -/
theorem leave {id : Nat} (h : Accounted (id :: fly) s) (path : Path) {ret : U64}
    (hret : ret ≠ 0#64) (told : List U64)
    (htold : ∀ m, s.sent[id]? = some m →
      told.length = if m.sentCb ∧ path = .flush then 1 else 0) :
    Accounted fly
      { s with log := s.log ++ (.delivered id path ret :: told.map (.sentCb id)) } := by
  have hid := h.lt_of_mem_fly List.mem_cons_self
  have hnone : ∀ i, (told.map (Event.sentCb id)).countP (Event.consumes i) = 0 ∧
      (told.map (Event.sentCb id)).countP (Event.drops i) = 0 ∧
      (told.map (Event.sentCb id)).countP (Event.truncates i) = 0 ∧
      (told.map (Event.sentCb id)).countP (Event.flushes i) = 0 := by
    intro i
    simp [Event.consumes, Event.drops, Event.truncates, Event.flushes]
  refine h.extend _ rfl rfl rfl ?_ ?_ h.messages ?_ h.nqCount ?_
  · intro i
    obtain ⟨hc, hd, ht, -⟩ := hnone i
    simp [List.countP_cons, hc, hd, ht, Event.consumes, Event.drops, Event.truncates,
      List.count_cons, hret]
    omega
  · intro i hi e he
    rcases List.mem_cons.mp he with rfl | he
    · simp [Event.consumes, Event.callsBack, Event.truncates]
      omega
    · obtain ⟨r, -, rfl⟩ := List.mem_map.mp he
      simp [Event.consumes, Event.callsBack, Event.truncates]
      omega
  · simp
  · intro i m hi
    obtain ⟨-, -, ht, hf⟩ := hnone i
    by_cases hii : id = i
    · subst hii
      have hall : (told.map (Event.sentCb id)).countP (Event.callsBack id) = told.length := by
        rw [List.countP_map, List.countP_eq_length]
        simp [Event.callsBack]
      rw [List.countP_cons, List.countP_cons, List.countP_cons, hall, ht, hf, htold m hi]
      cases path <;> cases m.sentCb <;>
        simp [Event.callsBack, Event.truncates, Event.flushes, hret]
    · have hother : (told.map (Event.sentCb id)).countP (Event.callsBack i) = 0 := by
        simp [Event.callsBack, hii]
      rw [List.countP_cons, List.countP_cons, List.countP_cons, hother, ht, hf]
      cases path <;> simp [Event.callsBack, Event.truncates, Event.flushes, hii]

/-! ## The direct path -/

theorem direct {id : Nat} {m : Message} (h : Accounted (id :: fly) s)
    (hm : s.sent[id]? = some m) (ret : U64) :
    Accounted fly (if ret = 0#64 then
      qemuNetQueueAppend id m (s.emit (.delivered id .direct ret))
      else s.emit (.delivered id .direct ret)) := by
  split_ifs with hret
  · rw [hret]
    exact (h.emit (Event.silent_delivered_refused id .direct)).append hm
  · exact h.leave .direct hret [] (by simp)

theorem sendDirect (c : NetClientInfo) (m : Message) (h : Accounted fly s) :
    Accounted fly (sendDirect c m s).2 := by
  have hfly := h.stamp m
  have hm : (s.stamp m).sent[s.sent.length]? = some m := by simp [NetState.stamp]
  simp only [Net.sendDirect]
  rcases qemuNetQueueDeliver_cases c .direct s.sent.length m (BitVec.ofNat 64 m.data.length)
    (s.stamp m) with ⟨ret, -, hr⟩ | ⟨reply, disabled, -, hr⟩
  · rw [hr]
    exact (hfly.withFlags false _ _).direct hm ret
  · rw [hr]
    have hreplied := (hfly.enqueueAll reply.sends).emit
      (Event.silent_received_direct s.sent.length (s.stamp m).packets.length reply)
    exact (hreplied.withFlags false _ disabled).direct (sent_enqueueAll hm _) reply.ret

/-! ## The flush -/

theorem take {p : NetPacket} {rest : List NetPacket} (h : Accounted [] s)
    (hp : s.packets = p :: rest) :
    Accounted [p.id] { s with packets := rest, nqCount := s.nqCount - 1 } := by
  refine h.move ?_ ?_ ?_
  · intro id
    simp [hp, List.count_cons]
  · intro q hq
    exact h.messages q (hp ▸ List.mem_cons_of_mem p hq)
  · rw [h.nqCount, hp, List.length_cons, BitVec.ofNat_add]
    exact BitVec.add_sub_cancel _ _

theorem putBack {p : NetPacket} (h : Accounted [p.id] s)
    (hm : s.sent[p.id]? = some p.toMessage) :
    Accounted [] { s with nqCount := s.nqCount + 1, packets := p :: s.packets } := by
  refine h.move ?_ ?_ ?_
  · intro id
    simp [List.count_cons]
  · intro q hq
    rcases List.mem_cons.mp hq with rfl | hq
    · exact hm
    · exact h.messages q hq
  · rw [List.length_cons, BitVec.ofNat_add, h.nqCount]
    rfl

theorem settled {p : NetPacket} (h : Accounted [p.id] s)
    (hm : s.sent[p.id]? = some p.toMessage) {ret : U64} (hret : ret ≠ 0#64) (r : U64) :
    Accounted [] (if p.sentCb then
      (s.emit (.delivered p.id .flush ret)).emit (.sentCb p.id r)
      else s.emit (.delivered p.id .flush ret)) := by
  have htold : ∀ m, s.sent[p.id]? = some m → m.sentCb = p.sentCb := by
    intro m hi
    rw [Option.some.inj (hi.symm.trans hm)]
  split_ifs with hcb
  · have hleave := h.leave .flush hret [r] fun m hi => by simp [htold m hi, hcb]
    simpa [NetState.emit] using hleave
  · exact h.leave .flush hret [] fun m hi => by simp [htold m hi, hcb]

/-- A packet whose answer is taken for zero has been consumed and is queued again. -/
theorem truncated {p : NetPacket} (h : Accounted [p.id] s)
    (hm : s.sent[p.id]? = some p.toMessage) (ahead : Nat) {reply : Reply}
    (hwidth : reply.ret.setWidth 32 = 0#32) (hret : reply.ret ≠ 0#64) :
    Accounted [] { (s.emit (.received p.id .flush ahead reply)).emit
        (.delivered p.id .flush reply.ret) with
      nqCount := s.nqCount + 1, packets := p :: s.packets } := by
  have hid := h.lt_of_mem_fly List.mem_cons_self
  have hback := h.putBack hm
  refine h.extend
    [.received p.id .flush ahead reply, .delivered p.id .flush reply.ret] rfl rfl
    (List.append_assoc _ _ _) ?_ ?_ hback.messages ?_ hback.nqCount ?_
  · intro i
    simp [Event.consumes, Event.drops, Event.truncates, List.countP_cons, List.count_cons,
      hret, hwidth]
    omega
  · intro i hi
    simp [Event.consumes, Event.callsBack, Event.truncates]
    omega
  · simp
  · intro i m _
    simp [Event.flushes, Event.callsBack, Event.truncates, List.countP_cons, hret, hwidth]

theorem settle {p : NetPacket} (h : Accounted [p.id] s)
    (hm : s.sent[p.id]? = some p.toMessage) {ret : U64}
    (hfits : ret.setWidth 32 = 0#32 → ret = 0#64) :
    Accounted [] (settle p (ret.setWidth 32) (s.emit (.delivered p.id .flush ret))) := by
  unfold Net.settle
  by_cases hwidth : ret.setWidth 32 = 0#32
  · rw [if_pos hwidth, hfits hwidth]
    exact (h.emit (Event.silent_delivered_refused p.id .flush)).putBack hm
  · rw [if_neg hwidth]
    refine h.settled hm ?_ _
    rintro rfl
    exact hwidth rfl

theorem flushHead (c : NetClientInfo) {p : NetPacket} {rest : List NetPacket}
    (hp : s.packets = p :: rest) (h : Accounted [] s) :
    Accounted [] (flushHead c p rest s).2 := by
  have hfly := h.take hp
  have hm : s.sent[p.id]? = some p.toMessage := h.messages p (hp ▸ List.mem_cons_self)
  simp only [Net.flushHead]
  rcases qemuNetQueueDeliver_cases c .flush p.id p.toMessage (p.size.signExtend 64)
    { s with packets := rest, nqCount := s.nqCount - 1 } with
    ⟨ret, hret, hr⟩ | ⟨reply, disabled, -, hr⟩
  · rw [hr]
    refine (hfly.withFlags false _ _).settle hm ?_
    rcases hret with rfl | rfl
    · exact fun _ => rfl
    · exact signExtend_eq_zero p.size
  · rw [hr]
    have hnested := hfly.enqueueAll reply.sends
    have hm' := sent_enqueueAll (s := { s with packets := rest, nqCount := s.nqCount - 1 })
      hm reply.sends
    -- an answer that is lost puts the packet back although it was consumed
    by_cases hfits : reply.ret.setWidth 32 = 0#32 → reply.ret = 0#64
    · have hreceived := hnested.emit (Event.silent_received_flush p.id rest.length hfits)
      exact (hreceived.withFlags false _ disabled).settle hm' hfits
    · rw [Classical.not_imp] at hfits
      simp only [Net.settle, hfits.1, if_true]
      exact (hnested.truncated hm' rest.length hfits.1 hfits.2).withFlags false _ disabled

end Accounted

theorem keeps_accounted (c : NetClientInfo) : Keeps c (Accounted []) where
  enqueue _ m h := h.enqueue m
  asked _ answer h := h.emit (Event.silent_asked answer)
  direct _ m h := h.sendDirect c m
  head _ _ _ hp h := h.flushHead c hp
  setClient _ _ _ h := h.withFlags _ _ _

/-! ## Conservation -/

namespace Accounted

variable {s : NetState}

theorem countP_truncates_eq_zero (hfits : FitsInt s.log) (id : Nat) :
    s.log.countP (Event.truncates id) = 0 := by
  rw [List.countP_eq_zero]
  intro e he htrunc
  match e with
  | .received i .flush ahead reply =>
      simp only [Event.truncates, Bool.and_eq_true, bne_iff_ne, beq_iff_eq] at htrunc
      exact htrunc.1.2 (hfits i ahead reply he htrunc.2)

theorem fitsInt (h : Accounted [] s) (hs : Conserved s) : FitsInt s.log := by
  intro id ahead reply hmem hwidth
  by_contra hret
  have htrunc : Event.truncates id (.received id .flush ahead reply) = true := by
    simp [Event.truncates, hwidth, hret]
  have hpos : 0 < s.log.countP (Event.truncates id) :=
    List.countP_pos_iff.mpr ⟨_, hmem, htrunc⟩
  have hid : id < s.sent.length := by
    by_contra hle
    exact Nat.lt_irrefl 0 ((h.countP_unsent (Nat.le_of_not_lt hle)).2.2.2 ▸ hpos)
  -- the packet has been consumed once more than it is accounted for
  have hplaces := h.places id
  rw [if_pos hid, hs.places id hid] at hplaces
  simp only [List.count_nil] at hplaces
  omega

theorem conserved (h : Accounted [] s) (hfits : FitsInt s.log)
    (hlen : s.packets.length < 2 ^ 32) : Conserved s where
  places id hid := by
    have hplaces := h.places id
    rw [if_pos hid, countP_truncates_eq_zero hfits] at hplaces
    exact hplaces
  messages := h.messages
  dropped := h.dropped
  nqCount := by rw [h.nqCount, BitVec.toNat_ofNat, Nat.mod_eq_of_lt hlen]
  callbacks id m hm := by
    have hplaces := h.places id
    have hcallbacks := h.callbacks id m hm
    have hid : id < s.sent.length := (List.getElem?_eq_some_iff.mp hm).1
    have hle : s.log.countP (Event.flushes id) ≤ s.log.countP (Event.consumes id) :=
      List.countP_mono_left fun e _ => consumes_of_flushes
    rw [if_pos hid, countP_truncates_eq_zero hfits] at hplaces
    rw [countP_truncates_eq_zero hfits, ite_self, Nat.add_zero] at hcallbacks
    rw [hcallbacks]
    by_cases hcb : m.sentCb = true
    · by_cases hflush : ∃ e ∈ s.log, e.flushes id = true
      · have hpos := List.countP_pos_iff.mpr hflush
        rw [if_pos hcb, if_pos ⟨hcb, hflush⟩]
        omega
      · rw [if_pos hcb, if_neg fun hand => hflush hand.2, List.countP_eq_zero]
        exact fun e he hf => hflush ⟨e, he, hf⟩
    · rw [if_neg hcb, if_neg fun hand => hcb hand.1]

end Accounted

/-- Conservation after any calls: it fails just when an answer to a flush is lost in an
`int`, or when `nq_count` has wrapped. -/
theorem run_conserved_iff (c : NetClientInfo) (nqMaxlen : U32) (linkDown disabled : Bool)
    (fuel : Nat) (ks : List Call) :
    let s := (run c fuel ks (.start nqMaxlen linkDown disabled)).2
    Conserved s ↔ FitsInt s.log ∧ s.packets.length < 2 ^ 32 := by
  intro s
  have h : Accounted [] s :=
    (keeps_accounted c).run fuel ks (Accounted.start nqMaxlen linkDown disabled)
  constructor
  · intro hcons
    exact ⟨h.fitsInt hcons, hcons.nqCount ▸ s.nqCount.isLt⟩
  · rintro ⟨hfits, hlen⟩
    exact h.conserved hfits hlen

/-- A receiver that is not ready when first asked, and whose handler returns `2^32`. -/
def wideClient : NetClientInfo where
  canReceive := some fun log => !log.isEmpty
  receive _ _ _ := ⟨0x100000000, []⟩
  receiveRaw := none
  sentCb _ _ _ := []

theorem not_conserved :
    (run wideClient 2 [.send ⟨true, 0, [0x2a], true⟩, .flush] (.start 10000 false false)).1 =
      some () ∧
    ¬ Conserved (run wideClient 2 [.send ⟨true, 0, [0x2a], true⟩, .flush]
      (.start 10000 false false)).2 := by
  refine ⟨by decide +kernel, fun h => ?_⟩
  exact absurd (h.places 0 (by decide +kernel)) (by decide +kernel)

end SE4VM.Net
