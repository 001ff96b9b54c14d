import SE4VM.Disc.VMState

/-!
# The registry of snapshots

Realizing a listed device takes a snapshot of it, as long as the table has room.
Entries are found by name and never removed, so a flip is sound only while a name
has belonged to one device.
-/

namespace SE4VM.Disc

open SE4VM.Foundation

/-! ## Devices and the table -/

def maxDevSnapshots : Nat := 1

structure DeviceSpec where
  name : String
  onPciBus : Bool
  vendorId : U16
  deviceId : U16
  instanceSize : U32
  vmsd : VMStateDescription

/-- A realized device; `id` tells it from every other one, earlier ones included. -/
structure Device where
  id : Nat
  spec : DeviceSpec
  base : U64

/-- An entry of `g_dss`, with the device its snapshot was taken of. -/
structure Entry extends DevSnapshots where
  owner : Nat

structure Machine where
  bus : Fin 256 → Option Device
  dss : List Entry
  nextId : Nat
  mem : Memory

def Machine.start (mem : Memory) : Machine := ⟨fun _ => none, [], 0, mem⟩

def deviceInDISCList (c : DeviceSpec) : Bool :=
  c.onPciBus && c.vendorId == 0x8086#16 && c.deviceId == 0x100e#16

structure Allocs where
  snapshot : Option U64
  swapspace : Option U64

def deviceSnapshot (dev : Device) (allocs : Allocs) (s : Machine) : Machine :=
  if s.dss.length ≥ maxDevSnapshots then s
  else match allocs.snapshot, allocs.swapspace with
    | some snapshot, some swapspace =>
        { s with
          mem := s.mem.copy snapshot dev.base dev.spec.instanceSize.toNat
          dss := s.dss ++ [⟨⟨dev.spec.vmsd.header.name, dev.spec.instanceSize, snapshot,
            swapspace, dev.spec.vmsd⟩, dev.id⟩] }
    | _, _ => s

/-! ## Events -/

inductive Event where
  /-- `init` leaves `mem`, or fails. -/
  | realize (slot : Fin 256) (spec : DeviceSpec) (base : U64) (init : Option Memory)
      (allocs : Allocs)
  | unrealize (slot : Fin 256) (exitOk : Bool)
  | findDeviceStateByName (name : String)
  | guest (mem : Memory)

def deviceRealize (slot : Fin 256) (spec : DeviceSpec) (base : U64) (init : Option Memory)
    (allocs : Allocs) (s : Machine) : Machine :=
  match init, s.bus slot with
  | some mem, none =>
      let dev : Device := ⟨s.nextId, spec, base⟩
      let s := { s with
        bus := Function.update s.bus slot (some dev), nextId := s.nextId + 1, mem := mem }
      if deviceInDISCList spec then deviceSnapshot dev allocs s else s
  | _, _ => s

/-- `free_device_snapshot` is empty: the entry stays. -/
def deviceUnrealize (slot : Fin 256) (exitOk : Bool) (s : Machine) : Machine :=
  if exitOk then { s with bus := Function.update s.bus slot none } else s

def findDeviceStateByName (name : String) (s : Machine) : Machine :=
  { s with mem := (List.finRange 256).foldl (fun m i =>
      match s.bus i with
      | some dev =>
          if dev.spec.name = name then
            deviceNapReset (s.dss.map Entry.toDevSnapshots) dev.spec.name dev.base m
          else m
      | none => m) s.mem }

def Event.apply (s : Machine) : Event → Machine
  | .realize slot spec base init allocs => deviceRealize slot spec base init allocs s
  | .unrealize slot exitOk => deviceUnrealize slot exitOk s
  | .findDeviceStateByName name => Disc.findDeviceStateByName name s
  | .guest mem => { s with mem := mem }

def Machine.run (s : Machine) (events : List Event) : Machine := events.foldl Event.apply s

/-! ## Who is overwritten from what -/

def Machine.entryOf (s : Machine) (name : String) : Option Entry :=
  s.dss.find? fun e => e.devname = name

/-- The devices that a command overwrites, each with the entry it is overwritten from. -/
def Machine.flips (s : Machine) (name : String) : List (Device × Entry) :=
  (List.finRange 256).filterMap fun i =>
    match s.bus i with
    | some dev => if dev.spec.name = name then (s.entryOf name).map (dev, ·) else none
    | none => none

/-- The command overwrites devices from snapshots of their own only. -/
def Machine.Lawful (s : Machine) (name : String) : Prop :=
  ∀ p ∈ s.flips name, p.2.owner = p.1.id

theorem deviceNapReset_entryOf (s : Machine) (name : String) (base : U64) (m : Memory) :
    deviceNapReset (s.dss.map Entry.toDevSnapshots) name base m =
      match s.entryOf name with
      | some e => flipDevice e.toDevSnapshots base m
      | none => m := by
  rw [deviceNapReset, List.find?_map, Machine.entryOf]
  cases hfind : s.dss.find? fun e => e.devname = name with
  | none =>
      have hnone : s.dss.find? ((fun e : DevSnapshots => decide (e.devname = name)) ∘
          Entry.toDevSnapshots) = none := hfind
      rw [hnone]
      rfl
  | some e =>
      have hsome : s.dss.find? ((fun e : DevSnapshots => decide (e.devname = name)) ∘
          Entry.toDevSnapshots) = some e := hfind
      rw [hsome]
      rfl

theorem findDeviceStateByName_mem (name : String) (s : Machine) :
    (findDeviceStateByName name s).mem =
      (s.flips name).foldl (fun m p => flipDevice p.2.toDevSnapshots p.1.base m) s.mem := by
  rw [Machine.flips, List.foldl_filterMap, findDeviceStateByName]
  dsimp only
  congr 1
  funext m i
  cases s.bus i with
  | none => rfl
  | some dev =>
      dsimp only
      split_ifs with hname
      · rw [deviceNapReset_entryOf, hname]
        cases s.entryOf name <;> rfl
      · rfl

theorem mem_flips {s : Machine} {name : String} {p : Device × Entry}
    (h : p ∈ s.flips name) :
    (∃ slot, s.bus slot = some p.1) ∧ p.1.spec.name = name ∧ p.2 ∈ s.dss ∧
      p.2.devname = name := by
  obtain ⟨slot, -, hp⟩ := List.mem_filterMap.mp h
  cases hbus : s.bus slot with
  | none =>
      rw [hbus] at hp
      cases hp
  | some dev =>
      simp only [hbus] at hp
      split_ifs at hp with hname
      obtain ⟨e, he, rfl⟩ := Option.map_eq_some_iff.mp hp
      exact ⟨⟨slot, hbus⟩, hname, List.mem_of_find?_eq_some he,
        by simpa using List.find?_some he⟩

/-! ## The devices behind a name -/

/-- `i` is a plugged device of this name, or owns an entry of this name. -/
def Machine.Bears (s : Machine) (name : String) (i : Nat) : Prop :=
  (∃ slot dev, s.bus slot = some dev ∧ dev.spec.name = name ∧ dev.id = i) ∨
    ∃ e ∈ s.dss, e.devname = name ∧ e.owner = i

def Event.concerns (name : String) : Event → Bool
  | .realize _ spec _ (some _) _ =>
      spec.name = name || (deviceInDISCList spec && spec.vmsd.header.name = name)
  | _ => false

theorem deviceSnapshot_bus (dev : Device) (allocs : Allocs) (s : Machine) :
    (deviceSnapshot dev allocs s).bus = s.bus := by
  rw [deviceSnapshot]
  split_ifs
  · rfl
  · split <;> rfl

theorem mem_deviceSnapshot {dev : Device} {allocs : Allocs} {s : Machine} {e : Entry}
    (h : e ∈ (deviceSnapshot dev allocs s).dss) :
    e ∈ s.dss ∨ e.devname = dev.spec.vmsd.header.name ∧ e.owner = dev.id := by
  rw [deviceSnapshot] at h
  split_ifs at h
  · exact .inl h
  · split at h
    · rcases List.mem_append.mp h with h | h
      · exact .inl h
      · obtain rfl := List.mem_singleton.mp h
        exact .inr ⟨rfl, rfl⟩
    · exact .inl h

theorem bus_update {bus : Fin 256 → Option Device} {slot i : Fin 256} {x : Option Device}
    {dev : Device} (h : Function.update bus slot x i = some dev) :
    x = some dev ∨ bus i = some dev := by
  by_cases hi : i = slot
  · subst hi
    rw [Function.update_self] at h
    exact .inl h
  · rw [Function.update_of_ne hi] at h
    exact .inr h

theorem deviceRealize_bears {slot : Fin 256} {spec : DeviceSpec} {base : U64}
    {init : Option Memory} {allocs : Allocs} {s : Machine} {name : String} {i : Nat}
    (h : (deviceRealize slot spec base init allocs s).Bears name i) :
    s.Bears name i ∨
      (Event.realize slot spec base init allocs).concerns name = true ∧ i = s.nextId := by
  cases init with
  | none => exact .inl h
  | some mem =>
      cases hslot : s.bus slot with
      | some dev =>
          simp only [deviceRealize, hslot] at h
          exact .inl h
      | none =>
          simp only [deviceRealize, hslot] at h
          simp only [Event.concerns, Bool.or_eq_true, Bool.and_eq_true, decide_eq_true_eq]
          rcases h with ⟨slot', dev, hbus, hname, hid⟩ | ⟨e, he, hname, hid⟩
          · have hdev : some (⟨s.nextId, spec, base⟩ : Device) = some dev ∨
                s.bus slot' = some dev := by
              split_ifs at hbus
              · rw [deviceSnapshot_bus] at hbus
                exact bus_update hbus
              · exact bus_update hbus
            rcases hdev with hdev | hdev
            · cases hdev
              exact .inr ⟨.inl hname, hid.symm⟩
            · exact .inl (.inl ⟨slot', dev, hdev, hname, hid⟩)
          · split_ifs at he with hlist
            · rcases mem_deviceSnapshot he with he | ⟨hdev, howner⟩
              · exact .inl (.inr ⟨e, he, hname, hid⟩)
              · exact .inr ⟨.inr ⟨hlist, hdev.symm.trans hname⟩, hid.symm.trans howner⟩
            · exact .inl (.inr ⟨e, he, hname, hid⟩)

theorem Event.apply_bears {ev : Event} {s : Machine} {name : String} {i : Nat}
    (h : (ev.apply s).Bears name i) :
    s.Bears name i ∨ ev.concerns name = true ∧ i = s.nextId := by
  cases ev with
  | realize slot spec base init allocs => exact deviceRealize_bears h
  | unrealize slot exitOk =>
      rw [Event.apply, deviceUnrealize] at h
      split_ifs at h
      · rcases h with ⟨slot', dev, hbus, hname⟩ | hentry
        · rcases bus_update hbus with hnone | hbus
          · cases hnone
          · exact .inl (.inl ⟨slot', dev, hbus, hname⟩)
        · exact .inl (.inr hentry)
      · exact .inl h
  | findDeviceStateByName name => exact .inl h
  | guest mem => exact .inl h

def Machine.Sole (s : Machine) (name : String) : Prop :=
  ∀ i j, s.Bears name i → s.Bears name j → i = j

/-- Whenever the name is brought up, nothing plugged or registered bears it. -/
def Machine.Orderly (name : String) : Machine → List Event → Prop
  | _, [] => True
  | s, ev :: events =>
      (ev.concerns name = true → ∀ i, ¬ s.Bears name i) ∧ Orderly name (ev.apply s) events

theorem Event.apply_sole {ev : Event} {s : Machine} {name : String} (h : s.Sole name)
    (hev : ev.concerns name = true → ∀ i, ¬ s.Bears name i) : (ev.apply s).Sole name := by
  intro i j hi hj
  rcases Event.apply_bears hi with hi | ⟨hc, rfl⟩
  · rcases Event.apply_bears hj with hj | ⟨hc, -⟩
    · exact h i j hi hj
    · exact absurd hi (hev hc i)
  · rcases Event.apply_bears hj with hj | ⟨-, rfl⟩
    · exact absurd hj (hev hc j)
    · rfl

theorem Machine.run_sole {s : Machine} {name : String} {events : List Event}
    (h : s.Sole name) (hevents : Machine.Orderly name s events) :
    (s.run events).Sole name := by
  induction events generalizing s with
  | nil => exact h
  | cons ev events ih => exact ih (Event.apply_sole h hevents.1) hevents.2

theorem Machine.Sole.lawful {s : Machine} {name : String} (h : s.Sole name) :
    s.Lawful name := by
  intro p hp
  obtain ⟨⟨slot, hbus⟩, hname, he, hdevname⟩ := mem_flips hp
  exact h _ _ (.inr ⟨p.2, he, hdevname, rfl⟩) (.inl ⟨slot, p.1, hbus, hname, rfl⟩)

theorem not_bears_start (mem : Memory) (name : String) (i : Nat) :
    ¬ (Machine.start mem).Bears name i := by
  rintro (⟨slot, dev, hbus, -⟩ | ⟨e, he, -⟩)
  · cases hbus
  · cases he

/-! ## Flips over whole runs -/

/--
If a name is only brought up while nothing bears it, a device of that name is
overwritten from a snapshot of its own or not at all.
-/
theorem findDeviceStateByName_lawful (mem : Memory) (events : List Event) (name : String)
    (h : Machine.Orderly name (.start mem) events) :
    ((Machine.start mem).run events).Lawful name := by
  refine Machine.Sole.lawful (Machine.run_sole (fun i j hi _ => ?_) h)
  exact absurd hi (not_bears_start mem name i)

def e1000Spec : DeviceSpec :=
  ⟨"e1000", true, 0x8086, 0x100e, 8, ⟨{ name := "e1000", versionId := 2 }, [], []⟩⟩

def plugE1000 (slot : Fin 256) (base : U64) (v : U8) (m : Memory) : Event :=
  .realize slot e1000Spec base (some fun a => if Memory.offset base a < 8 then v else m a)
    ⟨some 0x1000, some 0x2000⟩

theorem findDeviceStateByName_lawful_one :
    ((Machine.start Memory.blank).run
      [plugE1000 3 0 1 Memory.blank, .guest Memory.blank]).Lawful "e1000" :=
  findDeviceStateByName_lawful Memory.blank _ "e1000"
    ⟨fun _ => not_bears_start _ _, nofun, trivial⟩

instance (s : Machine) (name : String) : Decidable (s.Lawful name) :=
  inferInstanceAs (Decidable (∀ p ∈ s.flips name, _ = _))

/-- Two devices at once: the second, of ones, becomes a copy of the first, of zeros. -/
def twoE1000 : Machine :=
  (Machine.start Memory.blank).run
    [plugE1000 3 0 0 Memory.blank, plugE1000 4 0x100 1 Memory.blank]

/-- A device that is unplugged, and another one plugged in its place. -/
def replacedE1000 : Machine :=
  (Machine.start Memory.blank).run
    [plugE1000 3 0 0 Memory.blank, .unrealize 3 true, plugE1000 3 0 1 Memory.blank]

theorem findDeviceStateByName_not_lawful :
    (¬ twoE1000.Lawful "e1000" ∧ twoE1000.mem 0x100 = 1 ∧
      (findDeviceStateByName "e1000" twoE1000).mem 0x100 = 0) ∧
    ¬ replacedE1000.Lawful "e1000" := by
  decide +kernel

end SE4VM.Disc
