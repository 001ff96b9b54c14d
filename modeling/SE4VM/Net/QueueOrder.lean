import SE4VM.Net.Queue
import Mathlib.Order.Basic

/-!
# The order in which the receiver consumes packets

The queue keeps the order of the sends as long as nothing passes it: a packet
given to the receiver at once must find the queue empty, and a handler that refuses
such a packet must not have sent others in front of it.
-/

namespace SE4VM.Net

open SE4VM.Foundation

/-- The packets for which a receive handler returned non-zero, oldest first. -/
def consumed (log : List Event) : List Nat :=
  log.filterMap fun
    | .received id _ _ reply => if reply.ret = 0#64 then none else some id
    | _ => none

/-- A packet taken at once found the queue empty, and a handler that refused one at once
did not send. -/
def Event.Orderly : Event → Prop
  | .received _ .direct ahead reply =>
      (reply.ret ≠ 0#64 → ahead = 0) ∧ (reply.ret = 0#64 → reply.sends = [])
  | _ => True

instance : DecidablePred Event.Orderly
  | .received _ .direct _ _ => inferInstanceAs (Decidable (_ ∧ _))
  | .received _ .flush _ _ => isTrue trivial
  | .asked _ => isTrue trivial
  | .delivered _ _ _ => isTrue trivial
  | .dropped _ _ => isTrue trivial
  | .sentCb _ _ => isTrue trivial

def Orderly (log : List Event) : Prop := ∀ e ∈ log, e.Orderly

instance (log : List Event) : Decidable (Orderly log) :=
  inferInstanceAs (Decidable (∀ e ∈ log, e.Orderly))

theorem Orderly.of_log {log log' : List Event} (h : Orderly log') (hlog : log <+: log') :
    Orderly log :=
  fun e he => h e (hlog.subset he)

@[simp] theorem consumed_append (log log' : List Event) :
    consumed (log ++ log') = consumed log ++ consumed log' :=
  List.filterMap_append

@[simp] theorem consumed_nil : consumed [] = [] := rfl

@[simp] theorem consumed_received (id : Nat) (path : Path) (ahead : Nat) (reply : Reply)
    (log : List Event) :
    consumed (.received id path ahead reply :: log) =
      if reply.ret = 0#64 then consumed log else id :: consumed log := by
  by_cases hret : reply.ret = 0#64 <;> simp [consumed, hret]

@[simp] theorem consumed_asked (answer : Bool) (log : List Event) :
    consumed (.asked answer :: log) = consumed log := rfl

@[simp] theorem consumed_delivered (id : Nat) (path : Path) (ret : U64) (log : List Event) :
    consumed (.delivered id path ret :: log) = consumed log := rfl

@[simp] theorem consumed_dropped (id waiting : Nat) (log : List Event) :
    consumed (.dropped id waiting :: log) = consumed log := rfl

@[simp] theorem consumed_sentCb (id : Nat) (ret : U64) (log : List Event) :
    consumed (.sentCb id ret :: log) = consumed log := rfl

/-! ## The invariant -/

/-- Consumed packets, those in flight and those waiting, in the order of their sends. -/
def NetState.line (fly : List Nat) (s : NetState) : List Nat :=
  consumed s.log ++ (fly ++ s.packets.map NetPacket.id)

structure InOrder (fly : List Nat) (n : Nat) (s : NetState) : Prop where
  sorted : (s.line fly).Pairwise (· ≤ ·)
  lt : ∀ i ∈ s.line fly, i < n

namespace InOrder

variable {fly fly' : List Nat} {n n' : Nat} {s s' : NetState}

theorem of_sublist (h : InOrder fly n s) (hline : (s'.line fly').Sublist (s.line fly))
    (hn : n ≤ n') : InOrder fly' n' s' where
  sorted := h.sorted.sublist hline
  lt i hi := Nat.lt_of_lt_of_le (h.lt i (hline.subset hi)) hn

theorem of_snoc (h : InOrder fly n s) (hline : s'.line fly' = s.line fly ++ [n]) :
    InOrder fly' (n + 1) s' := by
  constructor
  · rw [hline, List.pairwise_append]
    refine ⟨h.sorted, List.pairwise_singleton _ _, ?_⟩
    intro i hi j hj
    rw [List.mem_singleton.mp hj]
    exact (h.lt i hi).le
  · intro i hi
    rw [hline, List.mem_append, List.mem_singleton] at hi
    rcases hi with hi | rfl
    · exact (h.lt i hi).trans (Nat.lt_succ_self n)
    · exact Nat.lt_succ_self i

/-- A packet in flight may stand in the line twice. -/
theorem twice {i : Nat} (h : InOrder [i] n s) : InOrder [i, i] n s := by
  have hsorted := h.sorted
  constructor
  · simp only [NetState.line, List.cons_append, List.nil_append,
      List.pairwise_append, List.pairwise_cons, List.mem_cons] at hsorted ⊢
    obtain ⟨hlog, ⟨htail, hrest⟩, hcross⟩ := hsorted
    refine ⟨hlog, ⟨?_, htail, hrest⟩, ?_⟩
    · rintro j (rfl | hj)
      · exact le_rfl
      · exact htail j hj
    · rintro a ha b (rfl | hb)
      · exact hcross a ha b (.inl rfl)
      · exact hcross a ha b hb
  · intro j hj
    apply h.lt j
    simp only [NetState.line, List.mem_append, List.mem_cons] at hj ⊢
    tauto

theorem append (h : InOrder fly n s) (m : Message) :
    InOrder fly (n + 1) (qemuNetQueueAppend n m s) := by
  unfold qemuNetQueueAppend
  split_ifs
  · refine h.of_sublist ?_ (Nat.le_succ n)
    simp [NetState.line, NetState.emit]
  · apply h.of_snoc
    simp [NetState.line, Message.packet]

theorem enqueue (h : InOrder fly s.sent.length s) (m : Message) :
    InOrder fly (enqueue s m).sent.length (enqueue s m) := by
  rw [length_sent_enqueue]
  exact append (s := s.stamp m) (h.of_sublist (.refl _) le_rfl) m

theorem enqueueAll (h : InOrder fly s.sent.length s) (ms : List Message) :
    InOrder fly (ms.foldl Net.enqueue s).sent.length (ms.foldl Net.enqueue s) := by
  induction ms generalizing s with
  | nil => exact h
  | cons m ms ih => exact ih (h.enqueue m)

theorem replied {i : Nat} (h : InOrder [i] s.sent.length s) (path : Path) (reply : Reply) :
    InOrder [i] (s.replied path i reply).sent.length (s.replied path i reply) := by
  refine (h.enqueueAll reply.sends).twice.of_sublist ?_ le_rfl
  by_cases hret : reply.ret = 0#64 <;>
    simp [NetState.line, NetState.replied, NetState.emit, hret]

theorem flushHead (c : NetClientInfo) {p : NetPacket} {rest : List NetPacket}
    (hp : s.packets = p :: rest) (h : InOrder [] s.sent.length s) :
    InOrder [] (flushHead c p rest s).2.sent.length (flushHead c p rest s).2 := by
  have htaken : InOrder [p.id] s.sent.length
      { s with packets := rest, nqCount := s.nqCount - 1 } := by
    refine h.of_sublist ?_ le_rfl
    simp [NetState.line, hp]
  have hdelivered : ∀ r, r = qemuNetQueueDeliver c .flush p.id p.toMessage
      (p.size.signExtend 64) { s with packets := rest, nqCount := s.nqCount - 1 } →
      InOrder [p.id] r.2.sent.length r.2 := by
    rintro r rfl
    rcases qemuNetQueueDeliver_cases c .flush p.id p.toMessage (p.size.signExtend 64)
      { s with packets := rest, nqCount := s.nqCount - 1 } with
      ⟨ret, -, hr⟩ | ⟨reply, disabled, -, hr⟩
    · rw [hr]
      refine htaken.of_sublist ?_ le_rfl
      simp [NetState.line, NetState.emit]
    · rw [hr]
      exact (htaken.replied .flush reply).of_sublist (.refl _) le_rfl
  have h' := hdelivered _ rfl
  simp only [Net.flushHead, settle]
  split_ifs
  · exact h'.of_sublist (.refl _) le_rfl
  · refine h'.of_sublist ?_ le_rfl
    simp [NetState.line, NetState.emit]
  · refine h'.of_sublist ?_ le_rfl
    simp [NetState.line]

end InOrder

theorem received_mem_replied (s : NetState) (path : Path) (id : Nat) (reply : Reply) :
    .received id path s.packets.length reply ∈ (s.replied path id reply).log := by
  simp [NetState.replied, NetState.emit]

theorem InOrder.replied_direct {s : NetState} (h : InOrder [] s.sent.length s) (m : Message)
    (hs : s.packets = []) (reply : Reply) :
    InOrder [s.sent.length] ((s.stamp m).replied .direct s.sent.length reply).sent.length
      ((s.stamp m).replied .direct s.sent.length reply) := by
  have hfly : InOrder [s.sent.length] (s.sent.length + 1) (s.stamp m) := by
    apply h.of_snoc
    simp [NetState.line, NetState.stamp, hs]
  exact (hfly.of_sublist (.refl _) (by simp [NetState.stamp])).replied .direct reply

theorem InOrder.sendDirect (c : NetClientInfo) (m : Message) {s : NetState}
    (h : InOrder [] s.sent.length s) (hlog : Orderly (sendDirect c m s).2.log) :
    InOrder [] (sendDirect c m s).2.sent.length (sendDirect c m s).2 := by
  simp only [Net.sendDirect] at hlog ⊢
  rcases qemuNetQueueDeliver_cases c .direct s.sent.length m (BitVec.ofNat 64 m.data.length)
    (s.stamp m) with ⟨ret, -, hr⟩ | ⟨reply, disabled, -, hr⟩
  · have hd : InOrder [] s.sent.length
        ({ s.stamp m with delivering := false }.emit
          (.delivered s.sent.length .direct ret)) := by
      refine h.of_sublist ?_ le_rfl
      simp [NetState.line, NetState.stamp, NetState.emit]
    rw [hr]
    split_ifs
    · exact (hd.append m).of_sublist (.refl _) (by simp [NetState.stamp, NetState.emit])
    · exact hd.of_sublist (.refl _) (by simp [NetState.stamp, NetState.emit])
  · rw [hr] at hlog ⊢
    have hmem := received_mem_replied (s.stamp m) .direct s.sent.length reply
    by_cases hret : reply.ret = 0#64
    · -- refused, so it joins the end, and the handler has put nothing there before
      simp only [hret, if_true] at hlog ⊢
      have hnone : reply.sends = [] :=
        (hlog _ ((log_prefix_append _ _ _).subset hmem)).2 hret
      have hd : InOrder [] s.sent.length
          { (s.stamp m).replied .direct s.sent.length reply with
            delivering := false, receiveDisabled := disabled } := by
        refine h.of_sublist ?_ le_rfl
        simp [NetState.line, NetState.replied, NetState.stamp, NetState.emit, hnone, hret]
      refine (hd.append m).of_sublist (.refl _) ?_
      simp [NetState.replied, NetState.stamp, NetState.emit, hnone]
    · -- taken, so nothing was waiting; what the handler sent is newer
      simp only [hret, if_false] at hlog ⊢
      have hs : s.packets = [] := List.length_eq_zero_iff.mp ((hlog _ hmem).1 hret)
      refine (h.replied_direct m hs reply).of_sublist ?_ le_rfl
      simp [NetState.line]

theorem keeps_inOrder (c : NetClientInfo) :
    Keeps c fun s => Orderly s.log → InOrder [] s.sent.length s where
  enqueue s m h hlog := (h (hlog.of_log (log_prefix_append _ m (s.stamp m)))).enqueue m
  asked s answer h hlog := by
    refine (h (hlog.of_log (log_prefix_emit s _))).of_sublist ?_ le_rfl
    simp [NetState.line, NetState.emit]
  direct s m h hlog :=
    (h (hlog.of_log (log_prefix_sendDirect c m s))).sendDirect c m hlog
  head s p rest hp h hlog :=
    (h (hlog.of_log (log_prefix_flushHead c p rest s))).flushHead c hp
  setClient s _ _ h hlog := (h hlog).of_sublist (.refl _) le_rfl

/-! ## First in, first out -/

/-- Whatever the calls and however far the flushes come, an orderly run consumes packets in
the order in which they were sent. -/
theorem run_consumed_sorted (c : NetClientInfo) (nqMaxlen : U32) (linkDown disabled : Bool)
    (fuel : Nat) (ks : List Call)
    (hlog : Orderly (run c fuel ks (.start nqMaxlen linkDown disabled)).2.log) :
    (consumed (run c fuel ks (.start nqMaxlen linkDown disabled)).2.log).Pairwise (· ≤ ·) := by
  have hstart : InOrder [] 0 (.start nqMaxlen linkDown disabled) := by
    constructor <;> simp [NetState.line, NetState.start]
  have hrun := (keeps_inOrder c).run fuel ks
    (s := .start nqMaxlen linkDown disabled) (fun _ => hstart) hlog
  exact (List.pairwise_append.mp hrun.sorted).1

def byteMessage : Message := ⟨true, 0, [0x2a], true⟩

/-- A receiver that is not ready when first asked, and ready ever after. -/
def wakingClient : NetClientInfo where
  canReceive := some fun log => !log.isEmpty
  receive _ _ size := ⟨size, []⟩
  receiveRaw := none
  sentCb _ _ _ := []

theorem run_consumed_sorted_waking :
    Orderly (run wakingClient 3 [.send byteMessage, .flush, .send byteMessage]
      (.start 10000 false false)).2.log ∧
    (consumed (run wakingClient 3 [.send byteMessage, .flush, .send byteMessage]
      (.start 10000 false false)).2.log).Pairwise (· ≤ ·) :=
  ⟨by decide +kernel, run_consumed_sorted _ _ _ _ _ _ (by decide +kernel)⟩

/-- A receiver that refuses its first packet and sends another one meanwhile. -/
def refusingClient : NetClientInfo where
  canReceive := none
  receive log _ size := if log.isEmpty then ⟨0, [byteMessage]⟩ else ⟨size, []⟩
  receiveRaw := none
  sentCb _ _ _ := []

/-- Without the flush the second packet overtakes the first; and a refused packet comes to
stand behind the one that its handler sent. -/
theorem consumed_not_sorted :
    (run wakingClient 3 [.send byteMessage, .send byteMessage]
      (.start 10000 false false)).1 = some () ∧
    ¬ (consumed (run wakingClient 3 [.send byteMessage, .send byteMessage]
      (.start 10000 false false)).2.log).Pairwise (· ≤ ·) ∧
    (run refusingClient 3 [.send byteMessage, .setClient false false, .flush]
      (.start 10000 false false)).1 = some () ∧
    ¬ (consumed (run refusingClient 3 [.send byteMessage, .setClient false false, .flush]
      (.start 10000 false false)).2.log).Pairwise (· ≤ ·) := by
  decide +kernel

end SE4VM.Net
