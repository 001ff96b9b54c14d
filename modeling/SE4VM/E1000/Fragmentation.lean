import SE4VM.E1000.ReceiveWalk

/-!
# Fragmentation independence

However a packet is cut into fragments, the receiver returns the same value,
leaves the same device and writes the same guest memory; only the sizes of the
single DMA transfers differ.  No way of cutting makes it run past the fragment
list.
-/

namespace SE4VM.E1000

open SE4VM.Foundation

/-! ## Raising a cause looks at the device only -/

section Congr

variable {w w' : World}

theorem armMitigation_congr (h : w.dev = w'.dev) (pendingInts : U32) :
    (armMitigation w pendingInts).dev = (armMitigation w' pendingInts).dev := by
  simp only [armMitigation, h]
  split_ifs <;> simp [World.emit, h]

theorem setInterruptCause_congr (h : w.dev = w'.dev) (val : U32) :
    (setInterruptCause w val).dev = (setInterruptCause w' val).dev := by
  have hset : ((w.setReg Reg.icr val).setReg Reg.ics val).dev =
      ((w'.setReg Reg.icr val).setReg Reg.ics val).dev := by
    simp only [World.dev_setReg, h]
  simp only [setInterruptCause]
  generalize (w.setReg Reg.icr val).setReg Reg.ics val = v at hset
  generalize (w'.setReg Reg.icr val).setReg Reg.ics val = v' at hset
  have hreg : ∀ i, v.reg i = v'.reg i := fun i => by rw [World.reg, hset, World.reg]
  simp only [hreg, hset]
  split_ifs
  · exact hset
  · simp only [setIrqLevel, World.dev_emit, armMitigation_congr hset]
  · simp only [setIrqLevel, World.dev_emit, hset]
  · simp only [setIrqLevel, World.dev_emit, hset]

theorem setIcs_congr (h : w.dev = w'.dev) (val : U32) :
    (setIcs w val).dev = (setIcs w' val).dev := by
  rw [setIcs, setIcs, World.reg, World.reg, h]
  exact setInterruptCause_congr h _

theorem receiveDone_congr (h : w.dev = w'.dev) (size : Nat) :
    (receiveDone w size).dev = (receiveDone w' size).dev := by
  simp only [receiveDone, h]
  apply setIcs_congr
  rfl

end Congr

/-! ## The theorem -/

/-- What a call shows to the caller, to the guest and to later calls. -/
def Received.view (r : Received) : Int × E1000State × Memory :=
  (r.ret, r.world.dev, r.world.mem)

theorem RxResult.view_eq {w : World} {pkt : List U8} {r r' : Received} {s : RxPos}
    (h : RxResult w pkt r s) (h' : RxResult w pkt r' s) : r.view = r'.view := by
  obtain ⟨w₁, hend, hw⟩ := h.world
  obtain ⟨w₂, hend', hw'⟩ := h'.world
  have hdev : w₁.dev = w₂.dev := hend.dev.trans hend'.dev.symm
  have hmem : w₁.mem = w₂.mem := hend.mem.trans hend'.mem.symm
  rw [Received.view, Received.view, h.ret, h'.ret, hw, hw']
  split_ifs
  · rw [setIcs_congr hdev, setIcs_mem, setIcs_mem, hmem]
  · rw [receiveDone_congr hdev, receiveDone_mem, receiveDone_mem, hmem]

/--
`e1000_receive_iov` on any nonempty list of fragments behaves as `e1000_receive`
on the packet they make up, and never runs past the list.
-/
theorem e1000ReceiveIov_eq_e1000Receive (fuel : Nat) (w : World) (frag : List U8)
    (rest : Iov) :
    Received.view <$> e1000ReceiveIov fuel w (frag :: rest) =
        Received.view <$> e1000Receive fuel w (frag :: rest).flatten ∧
      e1000ReceiveIov fuel w (frag :: rest) ≠ .fault := by
  have hne : frag :: rest ≠ [] := by simp
  have hone : ([(frag :: rest).flatten] : Iov) ≠ [] := by simp
  have hflat : ([(frag :: rest).flatten] : Iov).flatten = (frag :: rest).flatten := by simp
  cases hring : entersRing w (frag :: rest).flatten with
  | false =>
      obtain ⟨iov, hrun⟩ := receive_unstored hne hring
      obtain ⟨iov', hrun'⟩ := receive_unstored hone (by rw [hflat]; exact hring)
      rw [e1000Receive, hrun, hrun', hflat]
      refine ⟨?_, by simp⟩
      split_ifs <;> rfl
  | true =>
      have hsim := receive_sim hne hring fuel
      have hsim' := receive_sim hone (by rw [hflat]; exact hring) fuel
      rw [hflat] at hsim'
      rw [e1000Receive]
      exact ⟨hsim.map_eq hsim' fun _ _ _ => RxResult.view_eq,
        hsim.ne_fault (loop_until_ne_fault fuel _)⟩

end SE4VM.E1000
