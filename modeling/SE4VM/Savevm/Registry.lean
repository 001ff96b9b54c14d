import Mathlib.Data.List.Infix
import SE4VM.Savevm.VMState

/-!
# The table of states

Devices enter their states into one list, under an identification string and an
instance number.  A stream names the states by these two, so the receiver must find
under them the entry that was meant.
-/

namespace SE4VM.Savevm

open SE4VM.Foundation

/-! ## Identification strings -/

namespace CString

def empty : CString := ⟨[], List.not_mem_nil⟩

def slash : CString := ⟨[0x2f], by decide⟩

def take (n : Nat) (s : CString) : CString :=
  ⟨s.bytes.take n, fun h => s.nonzero (List.mem_of_mem_take h)⟩

def append (s t : CString) : CString :=
  ⟨s.bytes ++ t.bytes, fun h => (List.mem_append.mp h).elim s.nonzero t.nonzero⟩

end CString

def pstrcpy (bufSize : Nat) (str : CString) : CString := str.take (bufSize - 1)

def pstrcat (bufSize : Nat) (buf s : CString) : CString :=
  if buf.bytes.length < bufSize then buf.append (pstrcpy (bufSize - buf.bytes.length) s) else buf

/-! ## Entries -/

structure CompatEntry where
  idstr : CString
  instanceId : Int

structure MigrationParams where
  blk : Bool
  shared : Bool

/-- What a live handler returns, and what it leaves in memory and puts into the file. -/
abbrev LiveStep := Memory → PutFile → U64 → Int × Memory × List PutCall

structure SaveVMHandlers where
  setParams : Option (MigrationParams → Memory → U64 → Memory) := none
  saveState : Option (Memory → U64 → List PutCall) := none
  saveLiveSetup : Option LiveStep := none
  saveLiveIterate : Option LiveStep := none
  saveLiveComplete : Option LiveStep := none
  isActive : Option (Memory → U64 → Bool) := none
  loadState : GetOps → U64 → Int → Loader

/-- `vmsd` is the description with the address it lies at. -/
structure SaveStateEntry where
  idstr : CString
  instanceId : Int
  aliasId : Int := 0
  versionId : Int
  sectionId : U32
  ops : Option SaveVMHandlers := none
  vmsd : Option (U64 × VMStateDescription) := none
  device : U64
  compat : Option CompatEntry := none
  noMigrate : Bool := false
  isRam : Bool := false

structure Registry where
  handlers : List SaveStateEntry := []
  globalSectionId : U32 := 0

/-- `n + 1` in an `int`. -/
def intSucc (n : Int) : Int := (BitVec.ofInt 32 (n + 1)).toInt

/-- One more than the highest number under the name, or zero. -/
def nextInstanceId (idstr : CString) (keys : List CompatEntry) : Int :=
  keys.foldl (fun instanceId key =>
    if idstr = key.idstr ∧ instanceId ≤ key.instanceId then intSucc key.instanceId
    else instanceId) 0

def SaveStateEntry.key (se : SaveStateEntry) : CompatEntry := ⟨se.idstr, se.instanceId⟩

def calculateNewInstanceId (handlers : List SaveStateEntry) (idstr : CString) : Int :=
  nextInstanceId idstr (handlers.map SaveStateEntry.key)

def calculateCompatInstanceId (handlers : List SaveStateEntry) (idstr : CString) : Int :=
  nextInstanceId idstr (handlers.filterMap SaveStateEntry.compat)

/-- `path` is the result of `qdev_get_dev_path`, if there is a device and it has one. -/
def fullId (path : Option CString) (name : CString) : CString :=
  match path with
  | some id => pstrcat 256 (pstrcat 256 (pstrcpy 256 id) .slash) name
  | none => pstrcat 256 .empty name

def compatEntry (path : Option CString) (name : CString) (instanceId : Int)
    (handlers : List SaveStateEntry) : Option CompatEntry :=
  path.map fun _ =>
    { idstr := pstrcpy 256 name
      instanceId := if instanceId = -1 then calculateCompatInstanceId handlers name
        else instanceId }

/-- What the two ways to register have in common; an assertion that fails gives `none`. -/
def enroll (path : Option CString) (name : CString) (instanceId : Int)
    (entry : CString → Int → Option CompatEntry → SaveStateEntry) (r : Registry) :
    Option Registry :=
  let compat := compatEntry path name instanceId r.handlers
  let instanceId := if path.isSome then -1 else instanceId
  let idstr := fullId path name
  let instanceId := if instanceId = -1 then calculateNewInstanceId r.handlers idstr else instanceId
  if compat.isSome ∧ instanceId ≠ 0 then none
  else some { r with
    handlers := r.handlers ++ [entry idstr instanceId compat]
    globalSectionId := r.globalSectionId + 1 }

def registerSavevmLive (path : Option CString) (name : CString) (instanceId versionId : Int)
    (ops : SaveVMHandlers) (device : U64) (r : Registry) : Option Registry :=
  enroll path name instanceId (fun idstr instanceId compat =>
    { idstr, instanceId, versionId, device, compat
      sectionId := r.globalSectionId
      ops := some ops
      isRam := ops.saveLiveSetup.isSome }) r

def vmstateRegisterWithAliasId (path : Option CString) (instanceId : Int) (descr : U64)
    (vmsd : VMStateDescription) (device : U64) (aliasId requiredForVersion : Int) (r : Registry) :
    Option Registry :=
  if aliasId = -1 ∨ requiredForVersion ≥ vmsd.header.minimumVersionId then
    enroll path vmsd.header.name instanceId (fun idstr instanceId compat =>
      { idstr, instanceId, aliasId, device, compat
        versionId := vmsd.header.versionId
        sectionId := r.globalSectionId
        vmsd := some (descr, vmsd)
        noMigrate := vmsd.header.unmigratable }) r
  else none

def unregisterSavevm (path : Option CString) (name : CString) (device : U64) (r : Registry) :
    Registry :=
  { r with handlers := r.handlers.filter fun se =>
      !(se.idstr = fullId path name && se.device = device) }

def vmstateUnregister (descr : U64) (device : U64) (r : Registry) : Registry :=
  { r with handlers := r.handlers.filter fun se =>
      !(se.vmsd.any (fun v => v.1 = descr) && se.device = device) }

def SaveStateEntry.answers (se : SaveStateEntry) (idstr : CString) (instanceId : Int) : Bool :=
  (se.idstr = idstr && (instanceId = se.instanceId || instanceId = se.aliasId)) ||
    match se.compat with
    | some c => decide (idstr.bytes <:+: se.idstr.bytes) && c.idstr = idstr &&
        (instanceId = c.instanceId || instanceId = se.aliasId)
    | none => false

def findSe (handlers : List SaveStateEntry) (idstr : CString) (instanceId : Int) :
    Option SaveStateEntry :=
  handlers.find? fun se => se.answers idstr instanceId

/-! ## Runs -/

inductive RegOp where
  | live (path : Option CString) (name : CString) (instanceId versionId : Int)
      (ops : SaveVMHandlers) (device : U64)
  | vmstate (path : Option CString) (instanceId : Int) (descr : U64) (vmsd : VMStateDescription)
      (device : U64) (aliasId requiredForVersion : Int)
  | unregister (path : Option CString) (name : CString) (device : U64)
  | vmstateUnregister (descr device : U64)

namespace RegOp

def exec : RegOp → Registry → Option Registry
  | live path name instanceId versionId ops device, r =>
      registerSavevmLive path name instanceId versionId ops device r
  | vmstate path instanceId descr vmsd device aliasId required, r =>
      vmstateRegisterWithAliasId path instanceId descr vmsd device aliasId required r
  | unregister path name device, r => some (unregisterSavevm path name device r)
  | vmstateUnregister descr device, r => some (Savevm.vmstateUnregister descr device r)

/-- The caller leaves the choice of the instance number to the table. -/
def Automatic : RegOp → Prop
  | live path _ instanceId _ _ _ => path.isSome ∨ instanceId = -1
  | vmstate path instanceId _ _ _ aliasId _ => (path.isSome ∨ instanceId = -1) ∧ aliasId = -1
  | _ => True

end RegOp

def execRun (run : List RegOp) : Option Registry := run.foldlM (fun r op => op.exec r) {}

/-! ## Instance numbers -/

theorem intSucc_of_lt {n : Int} (h : 0 ≤ n) (h' : n < 2 ^ 31 - 1) : intSucc n = n + 1 := by
  rw [intSucc, BitVec.toInt_ofInt, Int.bmod_eq_of_le (by omega) (by omega)]

/-- While the numbers are below `bound` the next one is fresh, and at most `bound`. -/
theorem nextInstanceId_spec (idstr : CString) {keys : List CompatEntry} {bound : Int}
    (hbound : 0 ≤ bound) (hmax : bound < 2 ^ 31)
    (hkeys : ∀ key ∈ keys, 0 ≤ key.instanceId ∧ key.instanceId < bound) :
    (0 ≤ nextInstanceId idstr keys ∧ nextInstanceId idstr keys ≤ bound) ∧
      ∀ key ∈ keys, key.idstr = idstr → key.instanceId < nextInstanceId idstr keys := by
  rw [nextInstanceId]
  suffices hgen : ∀ n : Int, 0 ≤ n → n ≤ bound →
      (n ≤ keys.foldl _ n ∧ keys.foldl _ n ≤ bound) ∧
      ∀ key ∈ keys, key.idstr = idstr → key.instanceId < keys.foldl _ n from
    hgen 0 le_rfl hbound
  induction keys with
  | nil => exact fun n _ hn => ⟨⟨le_rfl, hn⟩, fun key hkey => nomatch hkey⟩
  | cons key keys ih =>
      obtain ⟨⟨hnonneg, hlt⟩, hrest⟩ := List.forall_mem_cons.mp hkeys
      intro n hn hle
      rw [List.foldl_cons]
      by_cases hkey : idstr = key.idstr ∧ n ≤ key.instanceId
      · rw [if_pos hkey, intSucc_of_lt hnonneg (by omega)]
        obtain ⟨⟨hup, hdown⟩, hlater⟩ := ih hrest (key.instanceId + 1) (by omega) (by omega)
        exact ⟨⟨by omega, hdown⟩, List.forall_mem_cons.mpr ⟨fun _ => by omega, hlater⟩⟩
      · rw [if_neg hkey]
        obtain ⟨hrange, hlater⟩ := ih hrest n hn hle
        refine ⟨hrange, List.forall_mem_cons.mpr ⟨fun hid => ?_, hlater⟩⟩
        by_contra hge
        exact hkey ⟨hid.symm, by omega⟩

/-! ## What every run keeps -/

/-- After `n` operations at most. -/
structure Registry.Orderly (n : Nat) (r : Registry) : Prop where
  sections : r.handlers.Pairwise fun a b => a.sectionId < b.sectionId
  below : ∀ se ∈ r.handlers, se.sectionId < r.globalSectionId
  count : r.globalSectionId.toNat ≤ n
  instances : r.handlers.Pairwise fun a b => a.idstr = b.idstr → a.instanceId < b.instanceId
  range : ∀ se ∈ r.handlers, 0 ≤ se.instanceId ∧ se.instanceId < n
  aliasIds : ∀ se ∈ r.handlers, se.aliasId = 0 ∨ se.aliasId = -1

namespace Registry.Orderly

variable {n : Nat}

theorem start : Orderly 0 {} :=
  ⟨.nil, fun _ h => absurd h List.not_mem_nil, le_rfl, .nil,
    fun _ h => absurd h List.not_mem_nil, fun _ h => absurd h List.not_mem_nil⟩

theorem filter {r : Registry} (h : r.Orderly n) (keep : SaveStateEntry → Bool) :
    Orderly (n + 1) { r with handlers := r.handlers.filter keep } where
  sections := h.sections.filter keep
  below se hse := h.below se (List.mem_of_mem_filter hse)
  count := h.count.trans (Nat.le_succ n)
  instances := h.instances.filter keep
  range se hse := by
    obtain ⟨hnonneg, hlt⟩ := h.range se (List.mem_of_mem_filter hse)
    exact ⟨hnonneg, hlt.trans (Int.ofNat_lt.mpr (Nat.lt_succ_self n))⟩
  aliasIds se hse := h.aliasIds se (List.mem_of_mem_filter hse)

/-- A new entry goes behind all others, with a number that none of its name has. -/
theorem enroll {r r' : Registry} (h : r.Orderly n) (hn : n < 2 ^ 31 - 1)
    {path : Option CString} {name : CString} {instanceId : Int}
    {entry : CString → Int → Option CompatEntry → SaveStateEntry}
    (hauto : path.isSome ∨ instanceId = -1)
    (hid : ∀ idstr n c, (entry idstr n c).idstr = idstr)
    (hinstance : ∀ idstr n c, (entry idstr n c).instanceId = n)
    (hsection : ∀ idstr n c, (entry idstr n c).sectionId = r.globalSectionId)
    (halias : ∀ idstr n c, (entry idstr n c).aliasId = 0 ∨ (entry idstr n c).aliasId = -1)
    (hrun : enroll path name instanceId entry r = some r') : r'.Orderly (n + 1) := by
  have hnew : (if (if path.isSome then -1 else instanceId) = -1 then
      calculateNewInstanceId r.handlers (fullId path name)
      else if path.isSome then -1 else instanceId) =
      calculateNewInstanceId r.handlers (fullId path name) := by
    refine if_pos ?_
    rcases hauto with hpath | hminus
    · rw [if_pos hpath]
    · rw [hminus, ite_self]
  have hkeys : ∀ key ∈ r.handlers.map SaveStateEntry.key,
      0 ≤ key.instanceId ∧ key.instanceId < n := List.forall_mem_map.mpr h.range
  obtain ⟨⟨hnonneg, hle⟩, hfresh⟩ :=
    nextInstanceId_spec (fullId path name) (Int.natCast_nonneg n) (by omega) hkeys
  have hcount : (r.globalSectionId + 1).toNat = r.globalSectionId.toNat + 1 := by
    have hlt := h.count
    rw [BitVec.toNat_add, show (1 : U32).toNat = 1 from rfl, Nat.mod_eq_of_lt (by omega)]
  simp only [Savevm.enroll, hnew] at hrun
  split_ifs at hrun with hassert
  obtain rfl := Option.some.inj hrun
  refine ⟨?_, ?_, ?_, ?_, ?_, ?_⟩
  · refine List.pairwise_append.mpr ⟨h.sections, List.pairwise_singleton _ _, fun a ha b hb => ?_⟩
    rw [List.mem_singleton.mp hb, hsection]
    exact h.below a ha
  · intro se hse
    have hstep : r.globalSectionId < r.globalSectionId + 1 := by
      rw [BitVec.lt_def, hcount]
      exact Nat.lt_succ_self _
    rcases List.mem_append.mp hse with hse | hse
    · exact BitVec.lt_trans (h.below se hse) hstep
    · rw [List.mem_singleton.mp hse, hsection]
      exact hstep
  · show (r.globalSectionId + 1).toNat ≤ n + 1
    rw [hcount]
    exact Nat.succ_le_succ h.count
  · refine List.pairwise_append.mpr
      ⟨h.instances, List.pairwise_singleton _ _, fun a ha b hb heq => ?_⟩
    rw [List.mem_singleton.mp hb] at heq ⊢
    rw [hinstance]
    exact hfresh a.key (List.mem_map_of_mem ha) (heq.trans (hid _ _ _))
  · intro se hse
    rcases List.mem_append.mp hse with hse | hse
    · obtain ⟨hnonneg, hlt⟩ := h.range se hse
      exact ⟨hnonneg, hlt.trans (Int.ofNat_lt.mpr (Nat.lt_succ_self n))⟩
    · rw [List.mem_singleton.mp hse, hinstance]
      exact ⟨hnonneg, Int.lt_add_one_of_le hle⟩
  · intro se hse
    rcases List.mem_append.mp hse with hse | hse
    · exact h.aliasIds se hse
    · rw [List.mem_singleton.mp hse]
      exact halias _ _ _

theorem exec {r r' : Registry} (h : r.Orderly n) (hn : n < 2 ^ 31 - 1) {op : RegOp}
    (hop : op.Automatic) (hrun : op.exec r = some r') : r'.Orderly (n + 1) := by
  cases op with
  | live path name instanceId versionId ops device =>
      rw [RegOp.exec, registerSavevmLive] at hrun
      exact h.enroll hn hop (fun _ _ _ => rfl) (fun _ _ _ => rfl) (fun _ _ _ => rfl)
        (fun _ _ _ => .inl rfl) hrun
  | vmstate path instanceId descr vmsd device aliasId required =>
      obtain ⟨hauto, halias⟩ := hop
      simp only [RegOp.exec, vmstateRegisterWithAliasId] at hrun
      split_ifs at hrun
      exact h.enroll hn hauto (fun _ _ _ => rfl) (fun _ _ _ => rfl) (fun _ _ _ => rfl)
        (fun _ _ _ => .inr halias) hrun
  | unregister path name device =>
      obtain rfl := Option.some.inj hrun
      exact h.filter _
  | vmstateUnregister descr device =>
      obtain rfl := Option.some.inj hrun
      exact h.filter _

end Registry.Orderly

theorem execRun_orderly {run : List RegOp} (hrun : ∀ op ∈ run, op.Automatic)
    (hlen : run.length < 2 ^ 31) {r : Registry} (h : execRun run = some r) :
    r.Orderly run.length := by
  suffices hgen : ∀ n (start : Registry), n + run.length < 2 ^ 31 → start.Orderly n →
      run.foldlM (fun r op => op.exec r) start = some r → r.Orderly (n + run.length) by
    have hend := hgen 0 {} (by omega) .start h
    rwa [Nat.zero_add] at hend
  clear h hlen
  induction run with
  | nil =>
      intro n start _ hstart h
      obtain rfl := Option.some.inj h
      exact hstart
  | cons op run ih =>
      obtain ⟨hop, hrest⟩ := List.forall_mem_cons.mp hrun
      intro n start hlen hstart h
      rw [List.length_cons] at hlen
      rw [List.foldlM_cons] at h
      obtain ⟨mid, hmid, h⟩ := Option.bind_eq_some_iff.mp h
      have hend := ih hrest (n + 1) mid (by omega) (hstart.exec (by omega) hop hmid) h
      rwa [List.length_cons, Nat.add_comm run.length, ← Nat.add_assoc]

/-- No other entry before it answers to an entry's own name and number. -/
theorem Registry.Orderly.findSe_own {n : Nat} {r : Registry} (h : r.Orderly n)
    {e : SaveStateEntry} (he : e ∈ r.handlers)
    (hcompat : ∀ a ∈ r.handlers, a.sectionId ≠ e.sectionId →
      ∀ c, a.compat = some c → c.idstr ≠ e.idstr) :
    findSe r.handlers e.idstr e.instanceId = some e := by
  obtain ⟨before, after, hsplit⟩ := List.append_of_mem he
  rw [findSe, hsplit, List.find?_append]
  have hbefore : before.find? (fun se => se.answers e.idstr e.instanceId) = none := by
    rw [List.find?_eq_none]
    intro a ha
    have hmem : a ∈ r.handlers := hsplit ▸ List.mem_append_left _ ha
    have hless : a.idstr = e.idstr → a.instanceId < e.instanceId := by
      have hpair := h.instances
      rw [hsplit, List.pairwise_append] at hpair
      exact hpair.2.2 a ha e List.mem_cons_self
    have hnonneg := (h.range a hmem).1
    have hother : a.sectionId ≠ e.sectionId := by
      have hpair := h.sections
      rw [hsplit, List.pairwise_append] at hpair
      exact BitVec.ne_of_lt (hpair.2.2 a ha e List.mem_cons_self)
    have halias := h.aliasIds a hmem
    intro hanswers
    rw [SaveStateEntry.answers, Bool.or_eq_true] at hanswers
    rcases hanswers with hown | hold
    · simp only [Bool.and_eq_true, decide_eq_true_eq, Bool.or_eq_true] at hown
      have hlt := hless hown.1
      omega
    · cases hc : a.compat with
      | none => simp only [hc, Bool.false_eq_true] at hold
      | some c =>
          simp only [hc, Bool.and_eq_true, decide_eq_true_eq] at hold
          exact hcompat a hmem hother c hc hold.1.2
  have hself : e.answers e.idstr e.instanceId = true := by
    simp only [SaveStateEntry.answers, decide_true, Bool.true_or, Bool.and_self]
  rw [hbefore, Option.none_or, List.find?_cons, hself]

/--
However devices come and go, the numbers that the table chooses keep its entries apart:
section numbers differ, and every entry is found under its own name and number, unless
its name is one by which another entry was known in an older version.  The numbers are
of type `int`, so the run is shorter than that.
-/
theorem findSe_of_run (run : List RegOp) (hrun : ∀ op ∈ run, op.Automatic)
    (hlen : run.length < 2 ^ 31) (r : Registry) (h : execRun run = some r) :
    (r.handlers.map SaveStateEntry.sectionId).Nodup ∧
      ∀ e ∈ r.handlers, (∀ a ∈ r.handlers, a.sectionId ≠ e.sectionId →
          ∀ c, a.compat = some c → c.idstr ≠ e.idstr) →
        findSe r.handlers e.idstr e.instanceId = some e := by
  have horderly := execRun_orderly hrun hlen h
  refine ⟨?_, fun e he hcompat => horderly.findSe_own he hcompat⟩
  rw [List.nodup_iff_pairwise_ne, List.pairwise_map]
  exact horderly.sections.imp BitVec.ne_of_lt

def plainHandlers : SaveVMHandlers where
  loadState := fun _ _ _ m => pure (0, m)

/-- Two of a name, of which the first one leaves and comes back. -/
def returnRun : List RegOp :=
  [.live none .slash (-1) 1 plainHandlers 0x10, .live none .slash (-1) 1 plainHandlers 0x20,
    .unregister none .slash 0x10, .live none .slash (-1) 1 plainHandlers 0x10]

theorem findSe_of_run_return :
    ∃ r, execRun returnRun = some r ∧
      (findSe r.handlers .slash 1).map SaveStateEntry.device = some 0x20 ∧
      (findSe r.handlers .slash 2).map SaveStateEntry.device = some 0x10 := by
  refine ⟨_, rfl, ?_⟩
  obtain ⟨-, hown⟩ := findSe_of_run returnRun
    (by simp [returnRun, RegOp.Automatic]) (by decide) _ rfl
  have hold := hown _ (List.mem_cons_self) (by decide)
  have hback := hown _ (List.mem_cons_of_mem _ List.mem_cons_self) (by decide)
  exact ⟨congrArg (Option.map SaveStateEntry.device) hold,
    congrArg (Option.map SaveStateEntry.device) hback⟩

end SE4VM.Savevm
