import SE4VM.Foundation.Extent
import SE4VM.E1000.Frame

/-!
# Segmenting a TSO data descriptor

The do-while loop of `process_tx_desc` cuts a descriptor of `len` bytes into
chunks that fill `tx.data` up to `hdr_len + mss`.  Its arithmetic is followed on
two numbers, the fill level `size` and the bytes left; `TsoFits` says for which
of them the chunks run exactly through the descriptor.
-/

namespace SE4VM.E1000

open SE4VM.Foundation

/-! ## The arithmetic of one chunk -/

def tsoChunk (msh size left : Nat) : Nat :=
  if size + left ≤ msh then min (txDataBytes - size) left
  else if size ≤ msh then min (txDataBytes - size) (msh - size)
  else txDataBytes - size

def tsoSize (hdrLen msh size chunk : Nat) : Nat :=
  if size + chunk = msh then hdrLen else (size + chunk) % txDataBytes

/--
Either the packet so far leaves room for the descriptor or for progress, or it
already exceeds a segment and the descriptor is long enough to fill `tx.data`.
Without a payload allowance no full segment may come up.
-/
def TsoFits (hdrLen mss size left : Nat) : Prop :=
  (size ≤ hdrLen + mss ∧ (0 < mss ∨ size + left ≤ hdrLen)) ∨
  (hdrLen + mss < size ∧ txDataBytes ≤ size + left ∧
    (0 < mss ∨ size + left ≤ txDataBytes + hdrLen))

instance (hdrLen mss size left : Nat) : Decidable (TsoFits hdrLen mss size left) :=
  inferInstanceAs (Decidable (_ ∨ _))

section Arithmetic

variable {hdrLen mss size left : Nat}

/-- Two units for every byte left, one for a segment that is already full. -/
def tsoPotential (msh size left : Nat) : Nat := 2 * left + (if size = msh then 1 else 0)

theorem tsoFits_chunk (hh : hdrLen < 256) (hs : size < txDataBytes)
    (hl : left < txDataBytes) (h : TsoFits hdrLen mss size left) :
    tsoChunk (hdrLen + mss) size left ≤ left ∧
      (tsoChunk (hdrLen + mss) size left < left →
        let size' := tsoSize hdrLen (hdrLen + mss) size (tsoChunk (hdrLen + mss) size left)
        let left' := left - tsoChunk (hdrLen + mss) size left
        TsoFits hdrLen mss size' left' ∧
          tsoPotential (hdrLen + mss) size' left' < tsoPotential (hdrLen + mss) size left) := by
  simp only [TsoFits, tsoPotential, tsoSize, txDataBytes] at *
  by_cases hfit : size + left ≤ hdrLen + mss
  · -- The rest of the descriptor fits into the segment.
    simp only [tsoChunk, if_pos hfit, txDataBytes]
    split_ifs <;> omega
  by_cases hroom : size ≤ hdrLen + mss
  · -- The segment is filled up, or `tx.data` is.
    simp only [tsoChunk, if_neg hfit, if_pos hroom, txDataBytes]
    split_ifs <;> omega
  · -- The packet is beyond a segment already: `tx.data` is filled up.
    simp only [tsoChunk, if_neg hfit, if_neg hroom, txDataBytes]
    split_ifs <;> omega

theorem not_tsoFits_chunk (hh : hdrLen < 256) (hs : size < txDataBytes)
    (h : ¬ TsoFits hdrLen mss size left) :
    left < tsoChunk (hdrLen + mss) size left ∨
      (tsoChunk (hdrLen + mss) size left < left ∧
        ¬ TsoFits hdrLen mss
          (tsoSize hdrLen (hdrLen + mss) size (tsoChunk (hdrLen + mss) size left))
          (left - tsoChunk (hdrLen + mss) size left)) := by
  simp only [TsoFits, tsoSize, txDataBytes] at *
  by_cases hroom : size ≤ hdrLen + mss
  · -- No payload allowance: the full segment stays full for ever.
    have hfit : ¬ size + left ≤ hdrLen + mss := by omega
    simp only [tsoChunk, if_neg hfit, if_pos hroom, txDataBytes]
    split_ifs <;> omega
  · have hfit : ¬ size + left ≤ hdrLen + mss := by omega
    simp only [tsoChunk, if_neg hfit, if_neg hroom, txDataBytes]
    split_ifs <;> omega

end Arithmetic

theorem toNat_tsoMsh (tp : E1000Tx) :
    (tsoMsh tp).toNat = tp.hdrLen.toNat + tp.mss.toNat := by
  have hh := tp.hdrLen.isLt
  have hm := tp.mss.isLt
  rw [tsoMsh, BitVec.toNat_add, BitVec.toNat_setWidth_of_le (by decide),
    BitVec.toNat_setWidth_of_le (by decide), Nat.mod_eq_of_lt (by omega)]

theorem toNat_tsoBytes (tp : E1000Tx) {msh left : U32} (hmsh : msh.toNat < 2 ^ 17)
    (hleft : left.toNat < txDataBytes) :
    (tsoBytes tp msh left).toNat = tsoChunk msh.toNat tp.size.toNat left.toNat := by
  have hs := tp.size.isLt
  have hsize : (tp.size.setWidth 32).toNat = tp.size.toNat :=
    BitVec.toNat_setWidth_of_le (by decide)
  have hsum : (tp.size.setWidth 32 + left).toNat = tp.size.toNat + left.toNat := by
    rw [BitVec.toNat_add, hsize, Nat.mod_eq_of_lt]
    simp only [txDataBytes] at hleft
    omega
  have hover : tp.size.setWidth 32 + left > msh ↔
      ¬ tp.size.toNat + left.toNat ≤ msh.toNat := by
    rw [gt_iff_lt, BitVec.lt_def, hsum, not_le]
  have hrest : (msh - tp.size.setWidth 32).toNat =
      (2 ^ 32 - tp.size.toNat + msh.toNat) % 2 ^ 32 := by
    rw [BitVec.toNat_sub, hsize]
  simp only [txDataBytes] at hleft
  rw [tsoBytes, BitVec.toNat_ofNat, tsoChunk]
  by_cases hfit : tp.size.toNat + left.toNat ≤ msh.toNat
  · rw [if_neg (by rw [hover]; omega), if_pos hfit, Nat.mod_eq_of_lt]
    simp only [txDataBytes]
    omega
  · rw [if_pos (hover.mpr hfit), if_neg hfit, hrest]
    simp only [txDataBytes]
    split_ifs <;> omega

/-! ## One iteration -/

theorem flushSegment_spec {fuel : Nat} {complete : Bool} {w w' : World}
    (h : flushSegment fuel complete w = .ok w') :
    w'.dev.tx.hdrLen = w.dev.tx.hdrLen ∧
      w'.dev.tx.size =
        if complete then w.dev.tx.hdrLen.setWidth 16 else w.dev.tx.size := by
  simp only [flushSegment] at h
  split_ifs at h with hc
  · obtain ⟨w₁, hxmit, h⟩ := Run.bind_eq_ok.mp h
    cases h
    obtain ⟨-, vlan, data, frames, htx⟩ := xmitSeg_spec hxmit
    simp [hc, restoreHeader, htx]
  · cases h
    simp [hc]

theorem tsoBody_cases {msh : U32} {fuel : Nat} {st : TsoLoop} {r : Step TsoLoop World}
    (hmsh : msh.toNat < 2 ^ 17) (hleft : st.splitSize.toNat < txDataBytes)
    (h : tsoBody msh fuel st = .ok r) :
    ∃ chunk w', chunk = tsoChunk msh.toNat st.world.dev.tx.size.toNat st.splitSize.toNat ∧
      (∃ es, w'.log = es ++ .dmaRead .txData st.addr chunk :: st.world.log ∧
        ∀ e ∈ es, e.isXmit = true) ∧
      w'.dev.tx.hdrLen = st.world.dev.tx.hdrLen ∧
      w'.dev.tx.size.toNat =
        tsoSize st.world.dev.tx.hdrLen.toNat msh.toNat st.world.dev.tx.size.toNat chunk ∧
      r = if st.splitSize - BitVec.ofNat 32 chunk ≠ 0 then
          .next ⟨w', st.splitSize - BitVec.ofNat 32 chunk, st.addr + BitVec.ofNat 64 chunk⟩
        else .done w' := by
  simp only [tsoBody, World.fst_dmaRead, World.snd_dmaRead] at h
  obtain ⟨w', hflush, h⟩ := Run.bind_eq_ok.mp h
  have hbytes := toNat_tsoBytes st.world.dev.tx hmsh hleft
  generalize tsoBytes st.world.dev.tx msh st.splitSize = bytes at *
  refine ⟨bytes.toNat, w', hbytes, (flushSegment_frame hflush).log, ?_, ?_, ?_⟩
  · exact (flushSegment_spec hflush).1
  · rw [(flushSegment_spec hflush).2, tsoSize]
    simp only [World.dev_setTx, appendChunk, Memory.length_read, decide_eq_true_eq]
    split_ifs with hfull
    · exact BitVec.toNat_setWidth_of_le (by decide)
    · exact BitVec.toNat_ofNat _ _
  · have hback : BitVec.ofNat 32 bytes.toNat = bytes := by
      rw [BitVec.ofNat_toNat, BitVec.setWidth_eq]
    rw [hback]
    split_ifs at h ⊢ <;> exact (Run.ok.inj h).symm

/-! ## The reads of a whole loop -/

def txReads (es : List Event) : List (U64 × Nat) :=
  es.reverse.filterMap fun
    | .dmaRead .txData addr n => some (addr, n)
    | _ => none

theorem txReads_append (es es' : List Event) :
    txReads (es' ++ es) = txReads es ++ txReads es' := by
  simp [txReads]

theorem txReads_of_isXmit {es : List Event} (h : ∀ e ∈ es, e.isXmit = true) :
    txReads es = [] := by
  simp only [txReads, List.filterMap_eq_nil_iff, List.mem_reverse]
  intro e he
  have hx := h e he
  cases e with
  | dmaRead buf => cases buf <;> simp_all [Event.isXmit, Event.isRx, Event.isPin]
  | _ => rfl

theorem txReads_chunk {es : List Event} (h : ∀ e ∈ es, e.isXmit = true) (addr : U64)
    (n : Nat) (es' : List Event) :
    txReads (es ++ .dmaRead .txData addr n :: es') = txReads es' ++ [(addr, n)] := by
  rw [txReads_append, txReads_of_isXmit h, List.append_nil]
  simp [txReads]

structure TsoInv (w : World) (addr : U64) (len : Nat) (st : TsoLoop) : Prop where
  hdrLen : st.world.dev.tx.hdrLen = w.dev.tx.hdrLen
  left : st.splitSize.toNat ≤ len
  cursor : st.addr = addr + BitVec.ofNat 64 (len - st.splitSize.toNat)
  reads : ∃ es, st.world.log = es ++ w.log ∧
    Covers addr (len - st.splitSize.toNat) (txReads es)

def Overrun (w : World) (addr : U64) (len : Nat) (log : List Event) : Prop :=
  ∃ es xs a m ys k, log = es ++ w.log ∧ txReads es = xs ++ (a, m) :: ys ∧
    Covers addr k xs ∧ len < k + m

theorem Overrun.extend {w : World} {addr : U64} {len : Nat} {log : List Event}
    (h : Overrun w addr len log) (es' : List Event) : Overrun w addr len (es' ++ log) := by
  obtain ⟨es, xs, a, m, ys, k, rfl, hreads, hxs, hlt⟩ := h
  refine ⟨es' ++ es, xs, a, m, ys ++ txReads es', k, by simp, ?_, hxs, hlt⟩
  rw [txReads_append, hreads]
  simp

section Loop

variable {w : World} {addr : U64} {len : Nat} {msh : U32} {fuel : Nat} {st : TsoLoop}
  {r : Step TsoLoop World}

theorem TsoInv.step (hmsh : msh.toNat < 2 ^ 17) (hlen : len < txDataBytes)
    (hinv : TsoInv w addr len st) (h : tsoBody msh fuel st = .ok r)
    {chunk : Nat}
    (hchunk : chunk = tsoChunk msh.toNat st.world.dev.tx.size.toNat st.splitSize.toNat)
    (hle : chunk ≤ st.splitSize.toNat) :
    (chunk = st.splitSize.toNat ∧ ∃ w' es, r = .done w' ∧ w'.log = es ++ w.log ∧
      Covers addr len (txReads es)) ∨
    (chunk < st.splitSize.toNat ∧ ∃ st', r = .next st' ∧ TsoInv w addr len st' ∧
      st'.splitSize.toNat = st.splitSize.toNat - chunk ∧
      st'.world.dev.tx.size.toNat = tsoSize w.dev.tx.hdrLen.toNat msh.toNat
        st.world.dev.tx.size.toNat chunk) := by
  have hleft := hinv.left
  obtain ⟨_, w', rfl, ⟨es, hlog, hes⟩, hhdr, hsize, hr⟩ :=
    tsoBody_cases hmsh (by omega) h
  rw [← hchunk] at hlog hsize hr
  obtain ⟨es₀, hlog₀, hcov⟩ := hinv.reads
  -- The chunk extends what the earlier reads have covered.
  have hcov' := hcov.snoc chunk
  rw [← hinv.cursor, ← txReads_chunk hes] at hcov'
  have hlog' : w'.log = (es ++ .dmaRead .txData st.addr chunk :: es₀) ++ w.log := by
    rw [hlog, hlog₀, List.append_assoc, List.cons_append]
  have hlt : chunk < 2 ^ 32 := by have := st.splitSize.isLt; omega
  have hsub : (st.splitSize - BitVec.ofNat 32 chunk).toNat = st.splitSize.toNat - chunk := by
    rw [BitVec.toNat_sub_of_le, BitVec.toNat_ofNat, Nat.mod_eq_of_lt hlt]
    rw [BitVec.le_def, BitVec.toNat_ofNat, Nat.mod_eq_of_lt hlt]
    exact hle
  have hzero : st.splitSize - BitVec.ofNat 32 chunk = 0 ↔ chunk = st.splitSize.toNat := by
    rw [← BitVec.toNat_inj, hsub, show (0 : U32).toNat = 0 from rfl]
    omega
  by_cases hend : chunk = st.splitSize.toNat
  · refine .inl ⟨hend, w', _, ?_, hlog', ?_⟩
    · rw [hr, if_neg (not_not.mpr (hzero.mpr hend))]
    · rwa [show len - st.splitSize.toNat + chunk = len by omega] at hcov'
  · have hdone : len - st.splitSize.toNat + chunk =
        len - (st.splitSize.toNat - chunk) := by omega
    refine .inr ⟨by omega, ⟨w', st.splitSize - BitVec.ofNat 32 chunk,
      st.addr + BitVec.ofNat 64 chunk⟩, ?_, ⟨?_, ?_, ?_, ⟨_, hlog', ?_⟩⟩, hsub, ?_⟩
    · rw [hr, if_pos (mt hzero.mp hend)]
    · rw [hhdr, hinv.hdrLen]
    · exact hsub.trans_le (by omega)
    · rw [hsub, hinv.cursor, Memory.add_ofNat_add, hdone]
    · rwa [hsub, ← hdone]
    · rw [hsize, hinv.hdrLen]

theorem TsoInv.overrun (hmsh : msh.toNat < 2 ^ 17) (hlen : len < txDataBytes)
    (hinv : TsoInv w addr len st) (h : tsoBody msh fuel st = .ok r)
    (hlt : st.splitSize.toNat <
      tsoChunk msh.toNat st.world.dev.tx.size.toNat st.splitSize.toNat) :
    Overrun w addr len (tsoWorld r).log := by
  have hleft := hinv.left
  obtain ⟨chunk, w', hchunk, ⟨es, hlog, hes⟩, -, -, hr⟩ :=
    tsoBody_cases hmsh (by omega) h
  obtain ⟨es₀, hlog₀, hcov⟩ := hinv.reads
  have hover : Overrun w addr len w'.log := by
    refine ⟨es ++ .dmaRead .txData st.addr chunk :: es₀, txReads es₀, st.addr, chunk, [],
      len - st.splitSize.toNat, ?_, txReads_chunk hes _ _ _, hcov, by omega⟩
    rw [hlog, hlog₀, List.append_assoc, List.cons_append]
  rw [hr]
  split_ifs <;> exact hover

end Loop

/-! ## Consumption of a descriptor -/

def descLen (dp : TxDesc) : Nat := (dp.lower &&& 0xffff#32).toNat

theorem descLen_lt (dp : TxDesc) : descLen dp < txDataBytes := by
  have hle : descLen dp ≤ 0xffff := by
    rw [descLen, BitVec.toNat_and]
    exact Nat.and_le_right
  simp only [txDataBytes]
  omega

/--
The loop started in `w` for the descriptor `dp` is left, and its data reads run
from the descriptor's address through exactly its length.
-/
def TsoConsumes (w : World) (dp : TxDesc) : Prop :=
  ∃ fuel w' es, loop (tsoBody (tsoMsh w.dev.tx) fuel) fuel
      ⟨w, dp.lower &&& 0xffff#32, dp.bufferAddr⟩ = .ok w' ∧
    w'.log = es ++ w.log ∧ Covers dp.bufferAddr (descLen dp) (txReads es)

/-- Every iteration the loop gets to completes: its `xmit_seg` call returns. -/
def SegmentsReturn (w : World) (dp : TxDesc) : Prop :=
  ∀ st, Heads (tsoBody (tsoMsh w.dev.tx)) ⟨w, dp.lower &&& 0xffff#32, dp.bufferAddr⟩ st →
    ∃ fuel r, tsoBody (tsoMsh w.dev.tx) fuel st = .ok r

def TsoFitsDesc (tp : E1000Tx) (dp : TxDesc) : Prop :=
  TsoFits tp.hdrLen.toNat tp.mss.toNat tp.size.toNat (descLen dp)

instance (tp : E1000Tx) (dp : TxDesc) : Decidable (TsoFitsDesc tp dp) :=
  inferInstanceAs (Decidable (TsoFits _ _ _ _))

section Consumption

variable {w : World} {dp : TxDesc}

theorem tsoMsh_lt (tp : E1000Tx) : (tsoMsh tp).toNat < 2 ^ 17 := by
  have hh := tp.hdrLen.isLt
  have hm := tp.mss.isLt
  rw [toNat_tsoMsh]
  omega

theorem tsoInv_start (w : World) (dp : TxDesc) :
    TsoInv w dp.bufferAddr (descLen dp) ⟨w, dp.lower &&& 0xffff#32, dp.bufferAddr⟩ := by
  refine ⟨rfl, le_refl _, ?_, [], rfl, ?_⟩
  · simp [descLen]
  · simp [descLen, txReads, Covers]

def TsoGood (w : World) (dp : TxDesc) (st : TsoLoop) : Prop :=
  TsoInv w dp.bufferAddr (descLen dp) st ∧
    TsoFits w.dev.tx.hdrLen.toNat w.dev.tx.mss.toNat st.world.dev.tx.size.toNat
      st.splitSize.toNat

theorem TsoGood.step {fuel : Nat} {st : TsoLoop} {r : Step TsoLoop World}
    (hgood : TsoGood w dp st) (h : tsoBody (tsoMsh w.dev.tx) fuel st = .ok r) :
    (∃ w' es, r = .done w' ∧ w'.log = es ++ w.log ∧
      Covers dp.bufferAddr (descLen dp) (txReads es)) ∨
    (∃ st', r = .next st' ∧ TsoGood w dp st' ∧
      tsoPotential (tsoMsh w.dev.tx).toNat st'.world.dev.tx.size.toNat st'.splitSize.toNat <
        tsoPotential (tsoMsh w.dev.tx).toNat st.world.dev.tx.size.toNat
          st.splitSize.toNat) := by
  obtain ⟨hinv, hfits⟩ := hgood
  have hlen := descLen_lt dp
  obtain ⟨hle, hkeep⟩ := tsoFits_chunk w.dev.tx.hdrLen.isLt st.world.dev.tx.size.isLt
    (lt_of_le_of_lt hinv.left hlen) hfits
  rw [← toNat_tsoMsh] at hle hkeep
  rcases hinv.step (tsoMsh_lt _) hlen h rfl hle with
    ⟨-, w', es, hr, hlog, hcov⟩ | ⟨hlt, st', hr, hinv', hleft, hsize⟩
  · exact .inl ⟨w', es, hr, hlog, hcov⟩
  · have hk := hkeep hlt
    dsimp only at hk
    rw [← hleft, ← hsize] at hk
    exact .inr ⟨st', hr, ⟨hinv', hk.1⟩, hk.2⟩

theorem tsoBody_fuelMonotone (msh : U32) : FuelMonotone (tsoBody msh) :=
  fun _ _ hmn st => tsoBody_le hmn msh st

theorem tsoConsumes_of_fits (hret : SegmentsReturn w dp) (hfits : TsoFitsDesc w.dev.tx dp) :
    TsoConsumes w dp := by
  have hstart : TsoGood w dp ⟨w, dp.lower &&& 0xffff#32, dp.bufferAddr⟩ :=
    ⟨tsoInv_start w dp, hfits⟩
  obtain ⟨fuel, w', hloop⟩ := returns_of_measure (tsoBody_fuelMonotone (tsoMsh w.dev.tx))
    (fun st => Heads (tsoBody (tsoMsh w.dev.tx))
      ⟨w, dp.lower &&& 0xffff#32, dp.bufferAddr⟩ st ∧ TsoGood w dp st)
    (fun st => tsoPotential (tsoMsh w.dev.tx).toNat st.world.dev.tx.size.toNat
      st.splitSize.toNat)
    (by
      rintro st ⟨hheads, hgood⟩
      obtain ⟨fuel, r, hbody⟩ := hret st hheads
      rcases hgood.step hbody with ⟨w', es, rfl, -⟩ | ⟨st', rfl, hgood', hlt⟩
      · exact .inl ⟨fuel, w', hbody⟩
      · exact .inr ⟨st', ⟨fuel, hbody⟩, ⟨hheads.tail ⟨fuel, hbody⟩, hgood'⟩, hlt⟩)
    ⟨.refl, hstart⟩
  obtain ⟨es, hlog, hcov⟩ := loop_invariant (TsoGood w dp)
    (fun w' => ∃ es, w'.log = es ++ w.log ∧
      Covers dp.bufferAddr (descLen dp) (txReads es))
    (by
      intro st st' hgood hbody
      rcases hgood.step hbody with ⟨w', es, hr, -⟩ | ⟨st₁, hr, hgood', -⟩
      · cases hr
      · cases hr
        exact hgood')
    (by
      intro st w' hgood hbody
      rcases hgood.step hbody with ⟨w₁, es, hr, hlog, hcov⟩ | ⟨st₁, hr, -⟩
      · cases hr
        exact ⟨es, hlog, hcov⟩
      · cases hr)
    hstart hloop
  exact ⟨fuel, w', es, hloop, hlog, hcov⟩

/-- Not fitting, or past the end already: neither is ever undone. -/
def TsoBad (w : World) (dp : TxDesc) (st : TsoLoop) : Prop :=
  (TsoInv w dp.bufferAddr (descLen dp) st ∧
    ¬ TsoFits w.dev.tx.hdrLen.toNat w.dev.tx.mss.toNat st.world.dev.tx.size.toNat
      st.splitSize.toNat) ∨
  Overrun w dp.bufferAddr (descLen dp) st.world.log

theorem TsoBad.step {fuel : Nat} {st : TsoLoop} {r : Step TsoLoop World}
    (hbad : TsoBad w dp st) (h : tsoBody (tsoMsh w.dev.tx) fuel st = .ok r) :
    Overrun w dp.bufferAddr (descLen dp) (tsoWorld r).log ∨
      ∃ st', r = .next st' ∧ TsoBad w dp st' := by
  have hlen := descLen_lt dp
  rcases hbad with ⟨hinv, hfits⟩ | hover
  · have hchunk := not_tsoFits_chunk w.dev.tx.hdrLen.isLt st.world.dev.tx.size.isLt hfits
    rw [← toNat_tsoMsh] at hchunk
    rcases hchunk with hlt | ⟨hlt, hfits'⟩
    · exact .inl (hinv.overrun (tsoMsh_lt _) hlen h hlt)
    · rcases hinv.step (tsoMsh_lt _) hlen h rfl hlt.le with
        ⟨heq, -⟩ | ⟨-, st', hr, hinv', hleft, hsize⟩
      · omega
      · rw [← hleft, ← hsize] at hfits'
        exact .inr ⟨st', hr, .inl ⟨hinv', hfits'⟩⟩
  · obtain ⟨es, hlog, -⟩ := (tsoBody_frame h).log
    rw [hlog]
    exact .inl (hover.extend es)

theorem fits_of_tsoConsumes (h : TsoConsumes w dp) : TsoFitsDesc w.dev.tx dp := by
  by_contra hfits
  obtain ⟨fuel, w', es, hloop, hlog, hcov⟩ := h
  have hlen := descLen_lt dp
  have hover : Overrun w dp.bufferAddr (descLen dp) w'.log := by
    refine loop_invariant (TsoBad w dp)
      (fun w' => Overrun w dp.bufferAddr (descLen dp) w'.log) ?_ ?_
      (.inl ⟨tsoInv_start w dp, hfits⟩) hloop
    · intro st st' hbad hbody
      rcases hbad.step hbody with hover | ⟨st₁, hr, hbad'⟩
      · exact .inr hover
      · cases hr
        exact hbad'
    · intro st w' hbad hbody
      rcases hbad.step hbody with hover | ⟨st₁, hr, -⟩
      · exact hover
      · cases hr
  obtain ⟨es', xs, a, m, ys, k, hlog', hreads, hxs, hlt⟩ := hover
  rw [hlog, List.append_cancel_right_eq] at hlog'
  rw [hlog', hreads] at hcov
  have := hxs.le_of_append hcov
  omega

end Consumption

/-! ## Segments that return -/

theorem xmitSeg_finishes (fuel : Nat) {w : World}
    (hloop : test (w.dev.phyReg Phy.ctrl) miiCrLoopback = false) :
    (xmitSeg fuel w).Finishes := by
  have hsend : ∀ (w' : World) (frame : List U8),
      test (w'.dev.phyReg Phy.ctrl) miiCrLoopback = false →
        (e1000SendPacket fuel w' frame).Finishes := by
    intro w' frame hloop'
    rw [e1000SendPacket, hloop']
    exact .ok _
  refine .bind ?_ fun w' _ => .ok _
  simp only [sendFrame]
  split_ifs
  · exact .bind (hsend _ _ hloop) fun _ _ => .ok _
  · exact .bind (hsend _ _ hloop) fun _ _ => .ok _

theorem segmentsReturn_of_no_loopback {w : World} (dp : TxDesc)
    (hloop : test (w.dev.phyReg Phy.ctrl) miiCrLoopback = false) : SegmentsReturn w dp := by
  intro st hheads
  have hframe : Frame txRegs Event.isTx w st.world := by
    induction hheads with
    | refl => exact Frame.refl _ _ _
    | tail _ hnext ih =>
        obtain ⟨fuel, hnext⟩ := hnext
        exact ih.trans (tsoBody_frame hnext)
  have hphy : st.world.dev.phyReg = w.dev.phyReg := congrArg Rest.phyReg hframe.rest
  rw [← hphy] at hloop
  refine ⟨0, Run.Finishes.bind ?_ fun w' _ => ?_⟩
  · simp only [flushSegment]
    split_ifs
    · exact .bind (xmitSeg_finishes 0 hloop) fun _ _ => .ok _
    · exact .ok _
  · dsimp only
    split_ifs
    · exact .ok _
    · exact .ok _

/-! ## The descriptor as `process_tx_desc` meets it -/

/--
The data part of `process_tx_desc` finishes on the descriptor, and its data
reads run from the descriptor's address through exactly its length.
-/
def DataConsumed (w : World) (dp : TxDesc) : Prop :=
  ∃ fuel w' es, fetchData fuel (beginDesc w dp) dp = .ok w' ∧ w'.log = es ++ w.log ∧
    Covers dp.bufferAddr (descLen dp) (txReads es)

section Descriptor

variable {w : World} {dp : TxDesc}

structure IsTsoDesc (dp : TxDesc) : Prop where
  data : descType dp = txdCmdDext ||| txdDtypD
  tse : test dp.lower txdCmdTse = true

theorem beginDesc_tx (hdp : IsTsoDesc dp) :
    (beginDesc w dp).dev.tx.cptse = true ∧ (beginDesc w dp).dev.tx.tse = w.dev.tx.tse ∧
      (beginDesc w dp).dev.tx.hdrLen = w.dev.tx.hdrLen ∧
      (beginDesc w dp).dev.tx.mss = w.dev.tx.mss ∧
      (beginDesc w dp).dev.tx.size = w.dev.tx.size := by
  simp only [beginDesc, hdp.data, decide_true, beginData, hdp.tse, World.dev_setTx, tagTx]
  split_ifs <;> exact ⟨rfl, rfl, rfl, rfl, rfl⟩

theorem fetchData_tso (hdp : IsTsoDesc dp) (htse : w.dev.tx.tse = true) (fuel : Nat) :
    fetchData fuel (beginDesc w dp) dp =
      loop (tsoBody (tsoMsh (beginDesc w dp).dev.tx) fuel) fuel
        ⟨beginDesc w dp, dp.lower &&& 0xffff#32, dp.bufferAddr⟩ := by
  obtain ⟨hc, ht, -⟩ := beginDesc_tx (w := w) hdp
  simp only [fetchData, hc, ht, htse, Bool.and_self, if_true]

end Descriptor

def tsoContext (hdrLen : U8) (mss : U16) : TxDesc :=
  ⟨0, txdCmdDext ||| txdCmdTse, mss ++ hdrLen ++ 0#8⟩

def tsoData (len : U16) : TxDesc :=
  ⟨0x1000, txdCmdDext ||| txdDtypD ||| txdCmdTse ||| len.setWidth 32, 0⟩

def tsoReady (hdrLen : U8) (mss : U16) : World :=
  let w := noteIde (powerOn (fun _ => 0) 0 false fun _ => 0) (tsoContext hdrLen mss)
  w.setTx (contextTx w.dev.tx (tsoContext hdrLen mss))

theorem processTxDesc_tsoContext (hdrLen : U8) (mss : U16) :
    processTxDesc 0 (powerOn (fun _ => 0) 0 false fun _ => 0) (tsoContext hdrLen mss) =
      .ok (tsoReady hdrLen mss) := by
  have hctx : descType (tsoContext hdrLen mss) = txdCmdDext := by
    simp only [descType, tsoContext]
    decide
  rw [processTxDesc, if_pos hctx]
  rfl

/--
A segmented data descriptor is consumed exactly if its length fits the fill
level and the segment size of the context.
-/
theorem dataConsumed_iff (w : World) (dp : TxDesc) (hdp : IsTsoDesc dp)
    (htse : w.dev.tx.tse = true) (hret : SegmentsReturn (beginDesc w dp) dp) :
    DataConsumed w dp ↔ TsoFitsDesc w.dev.tx dp := by
  have hfits : TsoFitsDesc (beginDesc w dp).dev.tx dp ↔ TsoFitsDesc w.dev.tx dp := by
    obtain ⟨-, -, hh, hm, hs⟩ := beginDesc_tx (w := w) hdp
    rw [TsoFitsDesc, hh, hm, hs, TsoFitsDesc]
  have hloop : DataConsumed w dp ↔ TsoConsumes (beginDesc w dp) dp := by
    simp only [DataConsumed, fetchData_tso hdp htse]
    rfl
  rw [hloop, ← hfits]
  exact ⟨fits_of_tsoConsumes, tsoConsumes_of_fits hret⟩

theorem dataConsumed_typical : DataConsumed (tsoReady 54 1460) (tsoData 3000) :=
  (dataConsumed_iff (tsoReady 54 1460) (tsoData 3000) ⟨by decide, by decide⟩ (by decide)
    (segmentsReturn_of_no_loopback _ (by decide))).mpr (by decide)

/-- One byte under a context without header and payload is never consumed. -/
theorem dataConsumed_stuck :
    ∃ (w w' : World) (ctx dp : TxDesc), Reachable w ∧ processTxDesc 0 w ctx = .ok w' ∧
      IsTsoDesc dp ∧ w'.dev.tx.tse = true ∧ SegmentsReturn (beginDesc w' dp) dp ∧
      ¬ DataConsumed w' dp := by
  have hret : SegmentsReturn (beginDesc (tsoReady 0 0) (tsoData 1)) (tsoData 1) :=
    segmentsReturn_of_no_loopback _ (by decide)
  refine ⟨_, _, _, tsoData 1, .powerOn _ _ _ _, processTxDesc_tsoContext 0 0,
    ⟨by decide, by decide⟩, by decide, hret, fun h => ?_⟩
  have hdp : IsTsoDesc (tsoData 1) := ⟨by decide, by decide⟩
  simp only [DataConsumed, fetchData_tso hdp (show (tsoReady 0 0).dev.tx.tse = true by decide)]
    at h
  exact absurd (fits_of_tsoConsumes h) (by decide)

end SE4VM.E1000
